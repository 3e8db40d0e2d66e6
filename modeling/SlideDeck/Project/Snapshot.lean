import SlideDeck.Project.Basic
import SlideDeck.Json.Reader
import SlideDeck.Json.Writing

/-!
Projects as JSON text. Fields that are missing take their defaults, unknown ones are passed by, and a
field that stands twice is refused. A record may also be a list of its fields in order. An asset is
read whole before its shape is looked at; everything else is checked as it comes.
-/

namespace SlideDeck

open Json

/-! ### Shapes of values already read -/

def stringOf? : Json → Option String
  | .string s => some s
  | _ => none

def literalOf? : Json → Option Literal
  | .int n => some (.number (Float.ofInt n))
  | .float x => some (.number x)
  | .string s => some (.text s)
  | _ => none

/-- One of the named alternatives, as its name or as an object of it and nothing. -/
def choiceOf? {α : Type} (choices : List (String × α)) : Json → Option α
  | .string s => choices.lookup s
  | .object [(s, .null)] => choices.lookup s
  | .object [(s, .object [])] => choices.lookup s
  | _ => none

def kinds : List (String × ValueKind) :=
  [("string", .string), ("number", .number), ("formula", .formula)]

def transitions : List (String × Transition) := [("reset", .reset), ("inherit", .inherit)]

def paramTypes : List (String × ParamType) :=
  [("number", .number), ("string", .string), ("boolean", .boolean), ("color", .color)]

def recordOf? (names : List String) : Json → Option (List (Option Json))
  | .object fields =>
    if names.all fun n => (fields.filter (·.1 == n)).length ≤ 1 then
      some (names.map fun n => fields.lookup n)
    else none
  | .array items =>
    if items.length ≤ names.length then
      some (items.map some ++ List.replicate (names.length - items.length) none)
    else none
  | _ => none

def optional {α : Type} (default : α) (f : Json → Option α) : Option Json → Option α
  | none => some default
  | some j => f j

def namedValueOf? (j : Json) : Option NamedValue := do
  match ← recordOf? ["id", "name", "kind", "initialValue", "transition"] j with
  | [id, name, kind, initial, transition] =>
    return {
      id := ← optional "" stringOf? id
      name := ← stringOf? (← name)
      kind := ← choiceOf? kinds (← kind)
      initial := ← literalOf? (← initial)
      transition := ← optional .reset (choiceOf? transitions) transition }
  | _ => none

def scriptParamOf? (j : Json) : Option ScriptParam := do
  match ← recordOf? ["name", "type", "default"] j with
  | [name, type, default] =>
    return {
      name := ← stringOf? (← name)
      type := ← optional .string (choiceOf? paramTypes) type
      default := match default with
        | none | some .null => none
        | some v => some v.canonical }
  | _ => none

def listOf? {α : Type} (f : Json → Option α) : Json → Option (List α)
  | .array items => items.mapM f
  | _ => none

def scriptAssetOf? (j : Json) : Option ScriptAsset := do
  match ← recordOf? ["id", "name", "source", "parameters"] j with
  | [id, name, source, parameters] =>
    return {
      id := ← optional "" stringOf? id
      name := ← stringOf? (← name)
      source := ← stringOf? (← source)
      parameters := ← optional [] (listOf? scriptParamOf?) parameters }
  | _ => none

/-! ### Readers -/

namespace Snapshot

open Json.Reader

/-- Refuses what begins with `c`: a scalar once it was read, a bracket at once. -/
def mismatch {α : Type} (c : Char) : Reader α := do
  if c = '[' || c = '{' then fail .wrongShape
  else
    let _ ← scalar c
    fail .wrongShape

def startingWith {α : Type} (c : Char) (body : Reader α) : Reader α := do
  match ← peekToken with
  | none => failAhead .endOfValue
  | some d => if d = c then body else mismatch d

def stringValue : Reader String := startingWith '"' (do skip; string)

def boolValue : Reader Bool := do
  match ← peekToken with
  | none => failAhead .endOfValue
  | some c =>
    match ← (if c = '[' || c = '{' then fail .wrongShape else scalar c) with
    | .bool b => return b
    | _ => fail .wrongShape

def listValue {α : Type} (item : Reader α) : Reader (List α) := startingWith '[' (listOf item)

def mapValue {α : Type} (item : Reader α) : Reader (List (String × α)) :=
  startingWith '{' (objectWith [] fun acc key => do
    colon
    return insert key (← item) acc)

def orRefuse {α : Type} : Option α → Reader α
  | some a => pure a
  | none => fail .wrongShape

structure Field (σ : Type) where
  name : String
  read : σ → Reader σ

/-- Reads the fields in order as items of a list, as far as it goes. -/
def positional {σ : Type} : List (Field σ) → Bool → σ → Reader σ
  | [], _, s => pure s
  | f :: fs, first, s => do
    if ← moreItems first then positional fs false (← f.read s) else return s

def record {σ α : Type} (start : σ) (fs : List (Field σ)) (done : σ → Option α) : Reader α := do
  match ← peekToken with
  | none => failAhead .endOfValue
  | some '[' =>
    let a ← nested (do skip; orRefuse (done (← positional fs true start)))
    endList
    return a
  | some '{' =>
    let s ← objectWith (start, ([] : List String)) fun (s, seen) key => do
      match fs.find? (·.name == key) with
      | none =>
        colon
        ignoredValue
        return (s, seen)
      | some f =>
        if seen.contains key then fail .wrongShape
        else
          colon
          return (← f.read s, key :: seen)
    orRefuse (done s.1)
  | some c => mismatch c

def overrideValue : Reader (Option Literal) :=
  record (none : Option Literal)
    [⟨"value", fun _ => do
      match ← peekToken with
      | some 'n' => skip; word ['u', 'l', 'l']; return none
      | _ => return some (← orRefuse (literalOf? (← anyValue)))⟩]
    some

structure InstanceDraft where
  id : Option String := none
  scriptId : Option String := none
  base : ScriptInstance := ⟨"", "", [], [], false, false⟩

def InstanceDraft.finish (d : InstanceDraft) : Option ScriptInstance := do
  return { d.base with id := ← d.id, scriptId := ← d.scriptId }

def instanceValue : Reader ScriptInstance :=
  record ({} : InstanceDraft)
    [⟨"id", fun d => return { d with id := some (← stringValue) }⟩,
     ⟨"scriptId", fun d => return { d with scriptId := some (← stringValue) }⟩,
     ⟨"params", fun d => do
       let params ← mapValue (return (← anyValue).canonical)
       return { d with base := { d.base with params } }⟩,
     ⟨"bindings", fun d => do
       let bindings ← mapValue stringValue
       return { d with base := { d.base with bindings } }⟩,
     ⟨"injectPageVariables", fun d => do
       let injectPage ← boolValue
       return { d with base := { d.base with injectPage } }⟩,
     ⟨"injectValueVariables", fun d => do
       let injectValues ← boolValue
       return { d with base := { d.base with injectValues } }⟩]
    InstanceDraft.finish

def pageValue : Reader Page :=
  record ({} : Page)
    [⟨"id", fun p => return { p with id := ← stringValue }⟩,
     ⟨"overrides", fun p => return { p with overrides := ← mapValue overrideValue }⟩,
     ⟨"instances", fun p => return { p with instances := ← listValue instanceValue }⟩]
    some

inductive AssetTag where
  | value
  | script

def assetTags : List (String × AssetTag) := [("value", .value), ("script", .script)]

def tagValue : Reader AssetTag := do orRefuse (assetTags.lookup (← stringValue))

def assetOf? : AssetTag → Json → Option Asset
  | .value, j => (namedValueOf? j).map .value
  | .script, j => (scriptAssetOf? j).map .script

/-- The tag among the fields, and the other fields as they stand. -/
def assetValue : Reader Asset := do
  match ← peekToken with
  | none => failAhead .endOfValue
  | some '[' =>
    let (tag, items) ← nested (do
      skip
      if ← moreItems true then
        let tag ← tagValue
        let c ← get
        return (tag, ← items anyValue (c.rest.length + 1) false [])
      else fail .wrongShape)
    endList
    orRefuse (assetOf? tag (.array items))
  | some '{' =>
    let (tag, fields) ← objectWith ((none : Option AssetTag), ([] : List (String × Json)))
      fun (tag, fields) key => do
        if key = "type" then
          if tag.isSome then fail .wrongShape
          else
            colon
            return (some (← tagValue), fields)
        else
          colon
          return (tag, (key, ← anyValue) :: fields)
    match tag with
    | none => fail .wrongShape
    | some tag => orRefuse (assetOf? tag (.object fields.reverse))
  | some c => mismatch c

def projectValue : Reader Project :=
  record ({} : Project)
    [⟨"assets", fun p => do
      let assets ← mapValue assetValue
      return { p with assets := assets.map fun (id, a) => (id, a.withId id) }⟩,
     ⟨"pages", fun p => return { p with pages := ← listValue pageValue }⟩]
    some

end Snapshot

/-- Reads a snapshot; every asset takes its key as its id. -/
def Project.parse (text : String) : Except Json.Problem Project :=
  Reader.run Snapshot.projectValue text.toList

/-! ### Writing -/

def Literal.toJson : Literal → Json
  | .number x => .float x
  | .text s => .string s

def ValueKind.text : ValueKind → String
  | .string => "string"
  | .number => "number"
  | .formula => "formula"

def Transition.text : Transition → String
  | .reset => "reset"
  | .inherit => "inherit"

def ParamType.text : ParamType → String
  | .number => "number"
  | .string => "string"
  | .boolean => "boolean"
  | .color => "color"

def NamedValue.fields (v : NamedValue) : List (String × Json) :=
  [("id", .string v.id), ("name", .string v.name), ("kind", .string v.kind.text),
    ("initialValue", v.initial.toJson), ("transition", .string v.transition.text)]

def ScriptParam.toJson (p : ScriptParam) : Json :=
  .object [("name", .string p.name), ("type", .string p.type.text), ("default", p.default.getD .null)]

def ScriptAsset.fields (s : ScriptAsset) : List (String × Json) :=
  [("id", .string s.id), ("name", .string s.name), ("source", .string s.source),
    ("parameters", .array (s.parameters.map ScriptParam.toJson))]

def Asset.toJson : Asset → Json
  | .value v => .object (("type", .string "value") :: v.fields)
  | .script s => .object (("type", .string "script") :: s.fields)

def ScriptInstance.toJson (i : ScriptInstance) : Json :=
  .object [("id", .string i.id), ("scriptId", .string i.scriptId), ("params", .object i.params),
    ("bindings", .object (i.bindings.map fun (k, s) => (k, .string s))),
    ("injectPageVariables", .bool i.injectPage), ("injectValueVariables", .bool i.injectValues)]

def Page.toJson (p : Page) : Json :=
  .object [("id", .string p.id),
    ("overrides", .object (p.overrides.map fun (k, o) =>
      (k, .object [("value", Json.ofOption Literal.toJson o)]))),
    ("instances", .array (p.instances.map ScriptInstance.toJson))]

def Project.toJson (p : Project) : Json :=
  .object [("assets", .object (p.assets.map fun (k, a) => (k, a.toJson))),
    ("pages", .array (p.pages.map Page.toJson))]

end SlideDeck
