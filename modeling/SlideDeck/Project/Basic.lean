import SlideDeck.Json.Basic
import SlideDeck.Decimal.Layout
import SlideDeck.Decimal.Reading
import SlideDeck.Text.Blank

/-!
A deck of slides: named values and scripts, and the pages on which values are overridden and scripts
are placed.
-/

namespace SlideDeck

/-- A stored value as authored; it is coerced only once the kind of its owner is known. -/
inductive Literal where
  | number (x : Float)
  | text (s : String)

def Literal.toText : Literal → String
  | .number x => Decimal.format x
  | .text s => s

/-- Zero for what is no finite number. -/
def Literal.toNumber : Literal → Float
  | .number x => if x.isFinite then x else 0.0
  | .text s =>
    match Decimal.read (Text.trim s.toList) with
    | some x => if x.isFinite then x else 0.0
    | none => 0.0

inductive ValueKind where
  | string
  | number
  | formula
  deriving DecidableEq, Repr

inductive Transition where
  /-- The initial value. -/
  | reset
  /-- The override on the nearest page before. -/
  | inherit
  deriving DecidableEq, Repr

structure NamedValue where
  id : String
  name : String
  kind : ValueKind
  initial : Literal
  transition : Transition := .reset

inductive ParamType where
  | number
  | string
  | boolean
  | color
  deriving DecidableEq, Repr

structure ScriptParam where
  name : String
  type : ParamType := .string
  default : Option Json := none

structure ScriptAsset where
  id : String
  name : String
  source : String
  parameters : List ScriptParam := []

structure ScriptInstance where
  id : String
  scriptId : String
  /-- Fixed values by parameter, sorted. -/
  params : List (String × Json) := []
  /-- Sources by parameter, sorted. -/
  bindings : List (String × String) := []
  injectPage : Bool := false
  injectValues : Bool := false

inductive Asset where
  | value (v : NamedValue)
  | script (s : ScriptAsset)

def Asset.withId (id : String) : Asset → Asset
  | .value v => .value { v with id }
  | .script s => .script { s with id }

def Asset.value? : Asset → Option NamedValue
  | .value v => some v
  | .script _ => none

structure Page where
  id : String := ""
  /-- By value id, sorted; an override may carry no value. -/
  overrides : List (String × Option Literal) := []
  instances : List ScriptInstance := []

/-- The override of a value that this page carries, if it has one with a value. -/
def Page.override? (p : Page) (id : String) : Option Literal := (p.overrides.lookup id).join

structure Project where
  /-- By id, sorted. -/
  assets : List (String × Asset) := []
  pages : List Page := []

namespace Project

def values (p : Project) : List NamedValue := p.assets.filterMap fun a => a.2.value?

def value? (p : Project) (id : String) : Option NamedValue :=
  match p.assets.lookup id with
  | some (.value v) => some v
  | _ => none

def script? (p : Project) (id : String) : Option ScriptAsset :=
  match p.assets.lookup id with
  | some (.script s) => some s
  | _ => none

def pageCount (p : Project) : Nat := p.pages.length

/-- The value a name stands for: the first of that name in id order. -/
def lookup (p : Project) (name : String) : Option NamedValue := p.values.find? (·.name == name)

def instance? (p : Project) (page : Nat) (id : String) : Option ScriptInstance :=
  p.pages[page]?.bind fun pg => pg.instances.find? (·.id == id)

end Project

end SlideDeck
