import SlideDeck.Command.Answer
import Std.Time.DateTime.Timestamp

/-!
The program on the command line: values and formulas of a project, a check of it, and runs of its
scripts.
-/

namespace SlideDeck.Command

def help : String :=
  "Evaluates the values of a deck and runs its scripts.\n\n" ++
  "Usage: deck [-v] [--log-json] values PROJECT [-p PAGE]\n" ++
  "       deck [-v] [--log-json] formula PROJECT TEXT [-p PAGE]\n" ++
  "       deck [-v] [--log-json] check PROJECT\n" ++
  "       deck [-v] [--log-json] run PROJECT INSTANCE [-p PAGE] [--timeout-ms N] [--json]"

def reasonText (e : IO.Error) : String :=
  match e with
  | .noFileOrDirectory _ code details | .permissionDenied _ code details
  | .inappropriateType _ code details => details ++ " (os error " ++ toString code ++ ")"
  | e => toString e

def readProject (path : String) : IO (Except String String) := do
  try return .ok (← IO.FS.readFile path)
  catch e => return .error (reasonText e)

def stop (s : Stop) : IO UInt32 := do
  match s with
  | .help =>
    IO.println help
    return 0
  | .version =>
    IO.println "deckscript-cli 0.1.0"
    return 0
  | .refused =>
    IO.eprintln help
    return 2

def carryOut (i : Invocation) : IO UInt32 := do
  let settings : Settings := {
    timeout := ← IO.getEnv Limits.timeoutSetting
    memory := ← IO.getEnv Limits.memorySetting
    log := ← IO.getEnv "RUST_LOG" }
  let now ← Std.Time.Timestamp.now
  let r := answer i settings (← readProject i.path) now.toSecondsSinceUnixEpoch.val
  for line in r.output do IO.println line
  for line in r.errorOutput (i.filter settings) i.logJson do IO.eprintln line
  return UInt32.ofNat r.exitCode

end SlideDeck.Command

def main (args : List String) : IO UInt32 :=
  match SlideDeck.Command.Invocation.ofArguments args with
  | .error s => SlideDeck.Command.stop s
  | .ok i => SlideDeck.Command.carryOut i
