import SlideDeck.Context.Basic
import SlideDeck.Markup.Fragment
import SlideDeck.Sandbox.Diagnostic
import SlideDeck.Sandbox.Environment
import SlideDeck.Sandbox.Limits
import SlideDeck.Sandbox.Risk
import SlideDeck.Script.Run
import SlideDeck.Script.Statement

/-!
One run of a script: its body is compiled and executed, then its generator is called with the
parameters, and what it returns is checked. Whatever goes wrong, a run ends with a record of it.
-/

namespace SlideDeck

inductive RunError where
  | empty
  | compile (d : Diagnostic)
  | runtime (d : Diagnostic)
  | missingGenerator
  | contract (v : Markup.Violation)
  /-- There was nothing to run. -/
  | unavailable (reason : String)
  deriving DecidableEq, Repr

inductive ErrorKind where
  | empty
  | compile
  | runtime
  | missingGenerator
  | contract
  deriving DecidableEq, Repr

namespace RunError

def message : RunError → String
  | empty => "script body is empty"
  | compile d => "syntax error: " ++ d.message
  | runtime d => "runtime error: " ++ d.message
  | missingGenerator => "script must define a 'generate(params)' function"
  | contract v => "contract violation: " ++ v.message
  | unavailable reason => reason

def kind? : RunError → Option ErrorKind
  | empty => some .empty
  | compile _ => some .compile
  | runtime _ => some .runtime
  | missingGenerator => some .missingGenerator
  | contract _ => some .contract
  | unavailable _ => none

def diagnostic? : RunError → Option Diagnostic
  | compile d | runtime d => some d
  | _ => none

end RunError

/-- The time that a run took and the time that it should have taken at most, in milliseconds. -/
structure Overrun where
  elapsed : Nat
  budget : Nat
  deriving DecidableEq, Repr

def Overrun.message (o : Overrun) : String :=
  "script ran for " ++ toString o.elapsed ++ " ms, exceeding the " ++ toString o.budget ++ " ms budget"

structure Execution where
  outcome : Except RunError String
  /-- The warnings of the context. -/
  notes : List String := []
  /-- The marks of risk in the source, if it was executed. -/
  risks : List String := []
  overrun : Option Overrun := none
  console : List String := []
  /-- In nanoseconds. -/
  elapsed : Nat := 0

namespace Execution

def warnings (e : Execution) : List String :=
  e.notes ++ e.risks ++ (e.overrun.map Overrun.message).toList

def error? (e : Execution) : Option RunError :=
  match e.outcome with
  | .ok _ => none
  | .error e => some e

def output? (e : Execution) : Option String :=
  match e.outcome with
  | .ok s => some s
  | .error _ => none

def succeeded (e : Execution) : Bool := e.output?.isSome

def diagnostic? (e : Execution) : Option Diagnostic := e.error?.bind RunError.diagnostic?

def line? (e : Execution) : Option Nat := e.diagnostic?.bind (·.line)

def column? (e : Execution) : Option Nat := e.diagnostic?.bind (·.column)

def traceback? (e : Execution) : Option String := e.diagnostic?.bind (·.traceback)

def hasTrace (e : Execution) : Bool := e.traceback?.isSome

def unavailable (reason : String) (notes : List String) : Execution :=
  { outcome := .error (.unavailable reason), notes }

end Execution

namespace Sandbox

open Script (Exec Machine Program Value)

def maxSteps : Nat := 1000000000000

/-- How many nanoseconds an instruction takes. -/
def stepTime : Nat := 20

def generatorName : String := "generate"

/-- The machine that is about to run a program: its last function is the body, which sees the
environment. -/
def start (p : Program) (vars : List (String × Json)) (memoryLimit : Nat) (now : Int) : Machine :=
  let h := Environment.build vars
  let m : Machine :=
    { heap := { h with
        cells := #[.table Environment.address]
        closures := #[{ code := p.back?.getD {}, cells := #[0] }] }
      stringMethods := Environment.stringAddress
      libraries := Environment.languageLibraries
      hosts := [.program]
      codeBytes := p.bytes
      memoryLimit
      now }
  { m with memory := m.measure }

def body : Value := .function (.closure 0)

def call (p : Program) (f : Value) (args : Array Value) : Exec (Array Value) :=
  Exec.enter p maxSteps f args

def isFunction : Value → Bool
  | .function _ => true
  | _ => false

/-- Runs the body and then the generator, which is bound to its name or else what the body returned; the
outer `none` means that there is none. -/
def generate (p : Program) : Exec (Option Value) := do
  Exec.charge 0
  let returned ← call p body #[]
  let env ← Exec.table Environment.address
  let named := env.getString generatorName
  let generator := if isFunction named then named else returned.getD 0 .nil
  if isFunction generator then
    return some ((← call p generator #[env.getString "params"]).getD 0 .nil)
  else return none

def check (v : Value) : Except RunError String :=
  match v with
  | .string bytes =>
    match Text.Utf8.decode bytes with
    | .error f => .error (.runtime (.ofMalformed f))
    | .ok text =>
      match Markup.violation? text with
      | some v => .error (.contract v)
      | none => .ok text
  | v => .error (.contract (.notText v.hostType))

def overrun? (budget elapsed : Nat) : Option Overrun :=
  if budget < elapsed then some { elapsed := elapsed / 1000000, budget := budget / 1000000 } else none

def execute (p : Program) (c : Context) (limits : Limits) (now : Int) : Execution :=
  match generate p (start p c.«variables» limits.memory now) with
  | .error f m =>
    { outcome := .error (.runtime (.ofFailure m f)), console := m.console.lines.toList
      elapsed := stepTime * m.steps }
  | .ok none m =>
    { outcome := .error .missingGenerator, console := m.console.lines.toList
      elapsed := stepTime * m.steps }
  | .ok (some v) m =>
    { outcome := check v, console := m.console.lines.toList, elapsed := stepTime * m.steps
      overrun := overrun? limits.timeout (stepTime * m.steps) }

/-- A source as a program. An empty machine and the code must fit into the memory. -/
def compile (source : String) (limits : Limits) : Except Diagnostic Program :=
  let exceeds (bytes : Nat) : Bool := limits.memory ≠ 0 && limits.memory < Machine.baseMemory + bytes
  if exceeds 0 then .error .outOfMemory
  else
    match Program.ofSource source with
    | .error e => .error (.ofCompileError source e)
    | .ok p => if exceeds p.bytes then .error .outOfMemory else .ok p

/-- Runs a script. A source that is blank or cannot be compiled is not looked at any further. -/
def run (source : String) (c : Context) (limits : Limits) (now : Int) : Execution :=
  if source.toList.all Text.isBlank then { outcome := .error .empty, notes := c.warnings }
  else
    match compile source limits with
    | .error d => { outcome := .error (.compile d), notes := c.warnings }
    | .ok p => { execute p c limits now with notes := c.warnings, risks := Risk.scan source }

end Sandbox

end SlideDeck
