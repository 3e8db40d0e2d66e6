import SlideDeck.Context.Trace
import SlideDeck.Sandbox.Rendering

/-!
The events of rendering an instance: those of its context, then those of the run itself.
-/

namespace SlideDeck

def sandboxTarget : String := "deckscript_lib::sandbox"

def InvalidSetting.event (s : InvalidSetting) : Log.Event :=
  { level := .warn, target := sandboxTarget, message := "ignoring invalid setting"
    fields := [("var", .quoted s.name), ("value", .bare s.value), ("error", .bare s.problem.message)] }

def ErrorKind.name : ErrorKind → String
  | .empty => "Empty"
  | .compile => "Syntax"
  | .runtime => "Runtime"
  | .missingGenerator => "MissingGenerator"
  | .contract => "Contract"

namespace Execution

def elapsedMs (e : Execution) : Nat := e.elapsed / 1000000

def riskEvent (risk : String) : Log.Event :=
  { level := .warn, target := sandboxTarget, message := "risky script pattern"
    fields := [("warning", .bare risk)] }

def overrunEvent (o : Overrun) : Log.Event :=
  { level := .warn, target := sandboxTarget, message := "script overran its time budget"
    fields := [("elapsed_ms", .count o.elapsed), ("budget_ms", .count o.budget)] }

def endEvent (e : Execution) : Log.Event :=
  match e.outcome with
  | .ok output =>
    { level := .debug, target := sandboxTarget, message := "script succeeded"
      fields := [("elapsed_ms", .count e.elapsedMs), ("bytes", .count output.utf8ByteSize)] }
  | .error err =>
    { level := .debug, target := sandboxTarget, message := "script failed"
      fields := [("elapsed_ms", .count e.elapsedMs),
        ("kind", .bare ((err.kind?.map ErrorKind.name).getD "")), ("error", .bare err.message)] }

def events (e : Execution) : List Log.Event :=
  e.risks.map riskEvent ++ (e.overrun.map overrunEvent).toList ++ [e.endEvent]

end Execution

namespace Sandbox

def renderTarget : String := "deckscript_lib::render"

def rendering (inst : ScriptInstance) (script : ScriptAsset) (page : Nat) : Log.Event :=
  { level := .info, target := renderTarget, message := "rendering script instance"
    fields := [("instance", .bare inst.id), ("script", .bare script.name), ("page", .count (page + 1))] }

def renderEvents (p : Project) (page : Nat) (id : String) (e : Execution) : List Log.Event :=
  match placement p page id with
  | .missing => [{ level := .warn, target := renderTarget, message := noInstance id (page + 1) }]
  | .unscripted inst => Context.events inst p page
  | .ready inst script => Context.events inst p page ++ rendering inst script page :: e.events

end Sandbox

end SlideDeck
