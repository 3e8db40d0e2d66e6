import SlideDeck.Command.Report
import SlideDeck.Sandbox.Trace

/-!
One run of a placed script, reported as text or as JSON.
-/

namespace SlideDeck.Command

def timeUnits : List (String × Nat) :=
  [("h", 3600000000), ("m", 60000000), ("s", 1000000), ("ms", 1000), ("us", 1)]

/-- Each unit's share of a number of microseconds. -/
def timeParts (micros : Nat) : List (String × Nat) → List String
  | [] => []
  | (name, size) :: rest =>
    (if micros / size = 0 then [] else [toString (micros / size) ++ name]) ++ timeParts (micros % size) rest

def timeText (micros : Nat) : String :=
  if micros = 0 then "0s" else String.intercalate " " (timeParts micros timeUnits)

def kindName : ErrorKind → String
  | .empty => "empty"
  | .compile => "syntax"
  | .runtime => "runtime"
  | .missingGenerator => "missing_generator"
  | .contract => "contract"

def executionJson (e : Execution) : Json :=
  .object [("success", .bool e.succeeded), ("output", Json.ofOption .string e.output?),
    ("error", Json.ofOption (fun err => .string err.message) e.error?),
    ("errorKind", Json.ofOption (fun k => .string (kindName k)) (e.error?.bind RunError.kind?)),
    ("executionTimeMs", .float (Float.ofNat e.elapsed / 1000000.0)),
    ("warnings", Json.strings e.warnings),
    ("debugInfo", .object [("lineNumber", Json.ofOption (fun n => .int n) e.line?),
      ("columnNumber", Json.ofOption (fun n => .int n) e.column?),
      ("stackTrace", Json.ofOption .string e.traceback?),
      ("consoleOutput", Json.strings e.console)])]

def failureText (e : Execution) (err : RunError) : String :=
  err.message ++ match e.line? with
    | some n => " (line " ++ toString n ++ ")"
    | none => ""

/-- The output of a run goes to the output; what it printed and its warnings are remarks. -/
def trial (e : Execution) (asJson : Bool) : Report :=
  let failure := e.error?.map (failureText e)
  if asJson then { output := [(executionJson e).pretty 0], failure }
  else
    { output := e.output?.toList, failure
      remarks := e.console.map ("console: " ++ ·) ++ e.warnings.map ("warning: " ++ ·) ++
        ["Ran in " ++ timeText (e.elapsed / 1000)] }

/-- Runs an instance; a time limit given with the request replaces the setting. -/
def run (p : Project) (page : Nat) (inst : String) (timeoutMs : Option Nat) (asJson : Bool)
    (timeout memory : Option String) (now : Int) : Report :=
  let (limits, ignored) := Limits.ofSettings timeout memory
  let limits := { limits with timeoutMs := timeoutMs.getD limits.timeoutMs }
  let e := Sandbox.render p page inst limits now
  { trial e asJson with
    events := ignored.map InvalidSetting.event ++ Sandbox.renderEvents p page inst e }

end SlideDeck.Command
