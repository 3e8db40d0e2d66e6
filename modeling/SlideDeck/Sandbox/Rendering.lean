import SlideDeck.Sandbox.Execution

/-!
Script instances rendered where they are placed: their script is run in the context of their page.
-/

namespace SlideDeck.Sandbox

def noInstance (id : String) (page : Nat) : String :=
  "no script instance '" ++ id ++ "' on page " ++ toString page

inductive Placement where
  | missing
  /-- The instance refers to a script that does not exist. -/
  | unscripted (inst : ScriptInstance)
  | ready (inst : ScriptInstance) (script : ScriptAsset)

def placement (p : Project) (page : Nat) (id : String) : Placement :=
  match p.instance? page id with
  | none => .missing
  | some inst =>
    match p.script? inst.scriptId with
    | none => .unscripted inst
    | some script => .ready inst script

/-- Runs the script of an instance. Without instance or script the run fails before it begins. -/
def render (p : Project) (page : Nat) (id : String) (limits : Limits) (now : Int) : Execution :=
  match placement p page id with
  | .missing => .unavailable (noInstance id (page + 1)) []
  | .unscripted inst =>
    .unavailable (Context.unknownScript inst.id inst.scriptId) (Context.build inst p page).warnings
  | .ready inst script => run script.source (Context.build inst p page) limits now

end SlideDeck.Sandbox
