import SlideDeck.Formula.Index
import SlideDeck.Formula.Grammar
import SlideDeck.Resolve.Override
import SlideDeck.Resolve.Value

/-!
The effective value of a named value on a page: the page's own override, else for an inheriting value
the override on the nearest page before, else the initial value; then coerced by kind.
-/

namespace SlideDeck

/-- A project with its override index. Pages are counted from zero. -/
structure Resolver where
  project : Project
  overrides : OverrideIndex

structure PageFormulas where
  dependencies : Formula.Dependencies
  cyclic : Bool

def PageFormulas.cycleFrom (f : PageFormulas) (name : String) : Option (List String) :=
  f.dependencies.findGiven f.cyclic name

namespace Resolver

def ofProject (p : Project) : Resolver := ⟨p, .ofPages p.pages⟩

def raw (r : Resolver) (v : NamedValue) (page : Nat) : Literal :=
  match r.project.pages[page]?.bind (·.override? v.id) with
  | some own => own
  | none =>
    if v.transition = .inherit then
      let inherited := do
        let before ← r.overrides.lastBefore v.id page
        (← r.project.pages[before]?).override? v.id
      inherited.getD v.initial
    else v.initial

def formulaTexts (r : Resolver) (page : Nat) : List (String × String) :=
  (r.project.values.filter (·.kind = .formula)).map fun v => (v.name, (r.raw v page).toText)

def dependencies (r : Resolver) (page : Nat) : Formula.Dependencies :=
  (r.formulaTexts page).foldl (fun d f => d.add f.1 f.2) .empty

def index (r : Resolver) (page : Nat) : Formula.Index := .ofFormulas (r.formulaTexts page)

def formulas (r : Resolver) (page : Nat) : PageFormulas :=
  let d := r.dependencies page
  ⟨d, d.hasCycle⟩

/-- The text shown for each of the names, in order; the first that has none stops. -/
def texts (r : Resolver) (f : PageFormulas) (resolve : NamedValue → Resolved) :
    List String → Except Formula.Error (List (String × String))
  | [] => .ok []
  | name :: rest =>
    match r.project.lookup name with
    | none => .error (.unknownReference name)
    | some v =>
      match (if v.kind = .formula then f.cycleFrom name else none) with
      | some chain => .error (.circularReference chain)
      | none =>
        match resolve v with
        | .error e => .error e
        | shown => (texts r f resolve rest).map ((name, shown.display) :: ·)

def expand (r : Resolver) (values : List (String × String)) (page : Nat) (text : String) : String :=
  Formula.substitutePages (page + 1) r.project.pageCount
    (Formula.substitute (fun n => values.lookup n) text)

def evaluateExpanded (text : String) : Except Formula.Error Float :=
  match Formula.evaluate text.toList with
  | .error cause => .error (.notArithmetic text cause)
  | .ok x =>
    if x.isFinite && Decimal.isPlain (Decimal.format x).toList then .ok x else .error (.notFinite text)

def evaluateText (r : Resolver) (f : PageFormulas) (page : Nat) (resolve : NamedValue → Resolved)
    (text : String) : Except Formula.Error Float :=
  match r.texts f resolve (Formula.uniqueReferences text) with
  | .error e => .error e
  | .ok values => evaluateExpanded (r.expand values page text)

/-- Each step goes from a name to one it reads, and only where no cycle can be reached; so `fuel` need
not exceed the number of values. -/
def resolveWith (r : Resolver) (f : PageFormulas) (page : Nat) : Nat → NamedValue → Resolved
  | 0, v => .error (.circularReference [v.name, v.name])
  | fuel + 1, v =>
    let raw := r.raw v page
    match v.kind with
    | .number => .number raw.toNumber
    | .string => .text raw.toText
    | .formula =>
      match f.cycleFrom v.name with
      | some chain => .error (.circularReference chain)
      | none =>
        match r.evaluateText f page (resolveWith r f page fuel) raw.toText with
        | .ok x => .number x
        | .error e => .error e

def fuel (r : Resolver) : Nat := r.project.values.length + 1

def resolve (r : Resolver) (v : NamedValue) (page : Nat) : Resolved :=
  r.resolveWith (r.formulas page) page r.fuel v

def evaluate (r : Resolver) (text : String) (page : Nat) : Except Formula.Error Float :=
  let f := r.formulas page
  r.evaluateText f page (r.resolveWith f page r.fuel) text

def resolvePage (r : Resolver) (page : Nat) : List (NamedValue × Resolved) :=
  let f := r.formulas page
  r.project.values.map fun v => (v, r.resolveWith f page r.fuel v)

def check (r : Resolver) (page : Nat) : List (NamedValue × Formula.Error) :=
  (r.resolvePage page).filterMap fun
    | (v, .error e) => some (v, e)
    | _ => none

end Resolver

end SlideDeck
