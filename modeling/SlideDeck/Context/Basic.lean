import SlideDeck.Context.Binding
import SlideDeck.Project.Name
import SlideDeck.Resolve.Resolver

/-!
The variables that one run of a script sees. Building them never fails: what is wrong is noted as a
warning.
-/

namespace SlideDeck

/-- All maps are sorted by name. -/
structure Context where
  pageCurrent : Nat := 1
  pageTotal : Nat := 1
  values : List (String × Json) := []
  params : List (String × Json) := []
  /-- More top-level names; they shadow what the environment has under the same name. -/
  globals : List (String × Json) := []
  warnings : List String := []

namespace Context

/-- The page number is at least one. -/
def ofPage (current total : Nat) : Context := { pageCurrent := max current 1, pageTotal := total }

/-- Names and values in the order in which they are bound: a later one shadows an earlier. -/
def «variables» (c : Context) : List (String × Json) :=
  c.globals ++ [("page_current", .int c.pageCurrent), ("page_total", .int c.pageTotal),
    ("values", .object c.values), ("params", .object c.params)]

def warn (c : Context) (message : String) : Context := { c with warnings := c.warnings ++ [message] }

def bind (c : Context) (param : String) (value : Json) : Context :=
  { c with params := Json.insert param value c.params }

def toJson (c : Context) : Json :=
  .object [("pageCurrent", .int c.pageCurrent), ("pageTotal", .int c.pageTotal),
    ("values", .object c.values), ("params", .object c.params), ("globals", .object c.globals),
    ("warnings", Json.strings c.warnings)]

def outOfRange (page total : Nat) : String :=
  "page index " ++ toString page ++ " is out of range for " ++ toString total ++ " page(s)"

def unusableName (name : String) : String :=
  "value '" ++ name ++ "' is not usable from scripts and was skipped"

def unknownScript (inst script : String) : String :=
  "instance '" ++ inst ++ "' refers to unknown script '" ++ script ++ "'"

def unknownSource (param source : String) : String :=
  "parameter '" ++ param ++ "' is bound to unknown source '" ++ source ++
    "'; keeping its fixed value"

def addValue (c : Context) (v : NamedValue) (shown : Resolved) : Context :=
  if isBindable v.name then { c with values := Json.insert v.name shown.toJson c.values }
  else c.warn (unusableName v.name)

/-- Binds a parameter to its source, fitted to the type declared for it. -/
def addBinding (declared : List ScriptParam) (c : Context) (param source : String) : Context :=
  match (BindingSource.classify source c.values).value? c.pageCurrent c.pageTotal c.values with
  | none => c.warn (unknownSource param source)
  | some v =>
    match declared.find? (·.name == param) with
    | some p => c.bind param (coerce p.type v)
    | none => c.bind param v

def addMissing (c : Context) (param : String) (value : Json) : Context :=
  if (c.params.lookup param).isSome then c else c.bind param value

/-- What a script instance sees on a page: declared defaults, then fixed values, then bindings, then
the page counters where nothing else took their names. -/
def build (inst : ScriptInstance) (project : Project) (page : Nat) : Context :=
  let total := project.pageCount
  let c := ofPage (page + 1) total
  let c := if total ≤ page then c.warn (outOfRange page total) else c
  let c := ((Resolver.ofProject project).resolvePage page).foldl (fun c v => c.addValue v.1 v.2) c
  let script := project.script? inst.scriptId
  let c := if script.isNone then c.warn (unknownScript inst.id inst.scriptId) else c
  let declared := (script.map (·.parameters)).getD []
  let c := declared.foldl (fun c p => match p.default with
    | some v => c.bind p.name v
    | none => c) c
  let c := inst.params.foldl (fun c p => c.bind p.1 p.2) c
  let c := inst.bindings.foldl (fun c b => c.addBinding declared b.1 b.2) c
  let c := if inst.injectPage then
      (c.addMissing "page_current" (.int c.pageCurrent)).addMissing "page_total" (.int c.pageTotal)
    else c
  if inst.injectValues then { c with globals := c.values } else c

end Context

end SlideDeck
