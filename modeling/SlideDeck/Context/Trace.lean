import SlideDeck.Context.Basic
import SlideDeck.Resolve.Trace

/-!
The events of building a context: its warnings in the order in which they come up, and the parameters
that were bound.
-/

namespace SlideDeck.Context

def warning (message : String) : Log.Event :=
  { level := .warn, target := "deckscript_lib::context", message }

def bound (param source : String) : Log.Event :=
  { level := .debug, target := "deckscript_lib::context", message := "bound parameter"
    fields := [("param", .bare param), ("source", .bare source)] }

def bindingEvent (c : Context) (param source : String) : Log.Event :=
  match (BindingSource.classify source c.values).value? c.pageCurrent c.pageTotal c.values with
  | none => warning (unknownSource param source)
  | some _ => bound param source

def events (inst : ScriptInstance) (project : Project) (page : Nat) : List Log.Event :=
  let c := build inst project page
  let total := project.pageCount
  (if total ≤ page then [warning (outOfRange page total)] else []) ++
    (Resolver.ofProject project).pageEvents page ++
    (project.values.filter fun v => !isBindable v.name).map (fun v => warning (unusableName v.name)) ++
    (if (project.script? inst.scriptId).isNone then [warning (unknownScript inst.id inst.scriptId)] else []) ++
    inst.bindings.map fun b => c.bindingEvent b.1 b.2

end SlideDeck.Context
