import SlideDeck.Script.Operation
import SlideDeck.Script.Reading
import SlideDeck.Text.Digit
import SlideDeck.Text.Word

/-!
Failures of scripts as they are shown to their authors: a message, and the line and column that it is
about where they are known.
-/

namespace SlideDeck

structure Diagnostic where
  message : String
  line : Option Nat := none
  column : Option Nat := none
  /-- The functions that were running. -/
  traceback : Option String := none
  deriving DecidableEq, Repr

namespace Diagnostic

def afterName (before : Option Char) (cs : List Char) : Option (List Char) :=
  match Script.chunkName.toList.isPrefixOf? cs with
  | some rest => some rest
  | none => if Text.isBoundary before cs.head? then "script".toList.isPrefixOf? cs else none

def numberBetweenColons : List Char → Option (List Char)
  | ':' :: rest =>
    let digits := rest.takeWhile Text.isDigit
    match rest.drop digits.length with
    | ':' :: _ => if digits.isEmpty then none else some digits
    | _ => none
  | _ => none

/-- The digits of the first location in a text, given the character before it. -/
def locationFrom (before : Option Char) : List Char → Option (List Char)
  | [] => none
  | c :: rest =>
    match (afterName before (c :: rest)).bind numberBetweenColons with
    | some digits => some digits
    | none => locationFrom (some c) rest

/-- The line that digits stand for, if it is a number below `2 ^ 32` in ASCII digits. -/
def lineOf (digits : List Char) : Option Nat :=
  let n := Decimal.natOfDigits digits
  if digits.all Char.isDigit && n < 2 ^ 32 then some n else none

def lineIn (text : List Char) : Option Nat := (locationFrom none text).bind lineOf

def traceMark : List Char := "\nstack traceback:".toList

/-- A text before the first mark and the trace that begins there, behind what was passed already, newest
first. -/
def splitTraceFrom (passed : List Char) : List Char → List Char × Option (List Char)
  | [] => (passed.reverse, none)
  | c :: rest =>
    if traceMark.isPrefixOf (c :: rest) then (passed.reverse, some rest)
    else splitTraceFrom (c :: passed) rest

def splitTrace (text : List Char) : List Char × Option (List Char) := splitTraceFrom [] text

/-- The message and the trace of an error value that a script raised, given the functions that were running.
An error of a host function has its own trace, any other is followed by it. -/
def parts (v : Script.Value) (trace : List Script.Activation) : List Char × Option (List Char) :=
  match v with
  | .fault f =>
    let message := f.message.toList
    (if f.isRuntime then (splitTrace message).1 else message, some (Script.traceText f.trace).toList)
  | v =>
    let text := Text.Utf8.lossy (Script.upToZero (Script.Exec.displayBytes v))
    splitTrace (text ++ "\n" ++ Script.traceText trace).toList

def ofRaised (v : Script.Value) (trace : List Script.Activation) : Diagnostic :=
  let (message, trace) := parts v trace
  { message := String.ofList message
    line := (lineIn message).or (trace.bind lineIn)
    traceback := trace.map String.ofList }

def outOfMemory : Diagnostic := { message := "memory limit exceeded: not enough memory" }

def unfinished : Diagnostic := { message := "script did not finish" }

/-- The trace is that of the machine as the error left it, with what collects it on top. -/
def ofFailure (m : Script.Machine) : Script.Failure → Diagnostic
  | .raised v => ofRaised v (m.trace [.helper])
  | .outOfMemory => outOfMemory
  | .unfinished => unfinished

def ofMalformed (f : Text.Utf8.Fault) : Diagnostic := { message := Script.ConversionProblem.malformed f }

/-! Syntax errors -/

def nearAt (cs : List Char) : Option (List Char) := do
  let rest ← "near '".toList.isPrefixOf? cs
  let token := rest.takeWhile (· != '\'')
  if token.isEmpty || token.length = rest.length then none else some token

def tokenIn : List Char → Option (List Char)
  | [] => none
  | c :: rest =>
    match nearAt (c :: rest) with
    | some token => some token
    | none => tokenIn rest

def offsetFrom (part : List Char) (n : Nat) : List Char → Option Nat
  | [] => if part.isEmpty then some n else none
  | c :: rest => if part.isPrefixOf (c :: rest) then some n else offsetFrom part (n + 1) rest

def linesOf (text : String) : List String :=
  (text.splitOn "\n").map fun l => (l.dropSuffix '\r').toString

/-- Where in its line the token of a message stands, counted from one. -/
def columnIn (source : String) (line : Option Nat) (message : List Char) : Option Nat := do
  let n ← line
  if n = 0 then none
  let text ← (linesOf source)[n - 1]?
  let token ← tokenIn message
  offsetFrom token 1 text.toList

def ofCompileError (source : String) (e : Script.CompileError) : Diagnostic :=
  match e with
  | .malformed c =>
    let message := Script.Exec.position (some c.line) ++ c.message
    let line := lineIn message.toList
    { message, line, column := columnIn source line message.toList }
  | .tooDeep => { message := "C stack overflow" }
  | .binary f => { message := f.message }

end Diagnostic

end SlideDeck
