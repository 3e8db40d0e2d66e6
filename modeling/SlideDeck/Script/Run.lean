import SlideDeck.Script.Step

/-!
Runs of script functions from the host. `fuel` bounds how many instructions are executed; a run that
would need more is unfinished, which is neither a result nor an error.
-/

namespace SlideDeck.Script.Exec

def maxHostNesting : Nat := 199

def startFrom (a : Nat) (args : Array Value) : Exec Unit := do
  let next := Frame.start (← get).heap a args false
  reserve next
  modify fun m => { m with
    current := next
    hosts := []
    below := m.hosts.map .host ++ .script m.current none :: m.below
    opened := #[] }

/-- Ends what `startFrom` began when `hosts` were running. -/
def backTo (hosts : List Host) : Exec Unit := modify fun m =>
  match m.below.drop hosts.length with
  | .script f _ :: rest => { m with current := f, hosts, below := rest }
  | rest => { m with hosts, below := rest }

mutual

/-- Runs the current function until it returns to a host function. -/
def run (p : Program) : Nat → Invocation.Answer
  | 0 => throw .unfinished
  | fuel + 1 => do
    match ← step p (fun f args => enter p fuel f args) with
    | some results => return results
    | none => run p fuel

def enter (p : Program) : Nat → Value → Array Value → Invocation.Answer
  | 0, _, _ => throw .unfinished
  | fuel + 1, f, args => do
    if maxHostNesting ≤ (← get).nesting then raiseText "C stack overflow"
    modify fun m => { m with nesting := m.nesting + 1 }
    let results ← match f with
      | .function (.closure a) => do
        let hosts := (← get).hosts
        startFrom a args
        let results ← run p fuel
        backTo hosts
        pure results
      | .function (.builtin b) =>
        inHost (.function b) (Invocation.answer { builtin := b, args } (fun f args => enter p fuel f args))
      | v => raiseText ("attempt to call a " ++ v.typeName ++ " value")
    modify fun m => { m with nesting := m.nesting - 1 }
    return results

end

end SlideDeck.Script.Exec
