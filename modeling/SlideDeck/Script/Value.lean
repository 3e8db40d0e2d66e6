import SlideDeck.Decimal.Whole
import SlideDeck.Instances
import SlideDeck.Sandbox.Console
import SlideDeck.Script.Trace
import Std.Data.HashMap

/-!
The values that scripts compute with (Lua 5.4): two kinds of numbers, byte strings, tables and
functions by address, and values of the host. Table keys are a type of their own, in which an
integral float is the integer it equals.
-/

namespace SlideDeck.Script

inductive Builtin where
  | tostring | tonumber | type | pairs | ipairs | next | select | error | pcall | assert
  | ipairsStep
  | stringByte | stringChar | stringFind | stringFormat | stringGmatch | stringGmatchStep (state : Nat)
  | stringGsub | stringLen | stringLower | stringMatch | stringRep | stringReverse | stringSub
  | stringUpper
  | tableConcat | tableInsert | tableMove | tablePack | tableRemove | tableSort | tableUnpack
  | mathAbs | mathAcos | mathAsin | mathAtan | mathCeil | mathCos | mathDeg | mathExp | mathFloor
  | mathFmod | mathLog | mathMax | mathMin | mathModf | mathRad | mathRandom | mathRandomseed
  | mathSin | mathSqrt | mathTan | mathTointeger | mathType | mathUlt
  | utf8Char | utf8Codepoint | utf8Codes | utf8CodesStep (lax : Bool) | utf8Len | utf8Offset
  | osClock | osTime | osDate
  | jsonEncode | jsonDecode
  | write (w : ConsoleWriter)
  deriving DecidableEq, Hashable, Repr, Inhabited

/-- Script functions are known by address. -/
inductive Callable where
  | closure (address : Nat)
  | builtin (b : Builtin)
  deriving DecidableEq, Hashable, Repr, Inhabited

inductive ForeignKind where
  | thread
  | userdata
  | lightUserdata
  deriving DecidableEq, Hashable, Repr, Inhabited

/-- An error raised by a host function, with the trace that it carries: the function itself and those that
waited for it. -/
structure Fault extends Activation where
  message : String
  /-- Whether the message is that of an error at run time; others are shown without saying so. -/
  isRuntime : Bool := false
  callers : List Activation := []
  /-- The instruction that was executed. No two errors of one instruction outlive it. -/
  step : Nat := 0
  deriving DecidableEq, Hashable, Repr, Inhabited

namespace Fault

def trace (f : Fault) : List Activation := f.toActivation :: f.callers

def text (f : Fault) : String :=
  let cause := if f.isRuntime then "runtime error: " ++ f.message else f.message
  if f.callers.isEmpty then cause else cause ++ "\n" ++ traceText f.trace ++ "\n"

end Fault

inductive Value where
  | nil
  | bool (b : Bool)
  | int (n : Int64)
  | float (x : Float)
  | string (bytes : ByteArray)
  | table (address : Nat)
  | function (f : Callable)
  | foreign (kind : ForeignKind) (id : Nat)
  | fault (f : Fault)
  deriving Inhabited

/-- Everything but nil and NaN is a key. -/
inductive Key where
  | bool (b : Bool)
  | int (n : Int64)
  | float (bits : UInt64)
  | string (bytes : ByteArray)
  | table (address : Nat)
  | function (f : Callable)
  | foreign (kind : ForeignKind) (id : Nat)
  | fault (f : Fault)
  deriving DecidableEq, Hashable, Inhabited

def exactInt? (x : Float) : Option Int64 :=
  match Decimal.whole? x with
  | some n => if -(2 ^ 63) ≤ n ∧ n < 2 ^ 63 then some (Int64.ofInt n) else none
  | none => none

inductive KeyProblem where
  | nil
  | nan
  deriving DecidableEq, Repr

def KeyProblem.message : KeyProblem → String
  | .nil => "table index is nil"
  | .nan => "table index is NaN"

namespace Key

def ofValue : Value → Except KeyProblem Key
  | .nil => .error .nil
  | .bool b => .ok (.bool b)
  | .int n => .ok (.int n)
  | .float x =>
    match exactInt? x with
    | some n => .ok (.int n)
    | none => if x.isNaN then .error .nan else .ok (.float x.toBits)
  | .string s => .ok (.string s)
  | .table a => .ok (.table a)
  | .function f => .ok (.function f)
  | .foreign k i => .ok (.foreign k i)
  | .fault f => .ok (.fault f)

def toValue : Key → Value
  | .bool b => .bool b
  | .int n => .int n
  | .float bits => .float (Float.ofBits bits)
  | .string s => .string s
  | .table a => .table a
  | .function f => .function f
  | .foreign k i => .foreign k i
  | .fault f => .fault f

end Key

namespace Value

def ofString (s : String) : Value := .string s.toUTF8

def isTruthy : Value → Bool
  | .nil | .bool false => false
  | _ => true

def isNil : Value → Bool
  | .nil => true
  | _ => false

def typeName : Value → String
  | .nil => "nil"
  | .bool _ => "boolean"
  | .int _ | .float _ => "number"
  | .string _ => "string"
  | .table _ => "table"
  | .function _ => "function"
  | .foreign .thread _ => "thread"
  | .foreign _ _ | .fault _ => "userdata"

/-- The type as the host sees it, which tells integers and light userdata apart. -/
def hostType : Value → String
  | .int _ => "integer"
  | .foreign .lightUserdata _ => "lightuserdata"
  | .fault _ => "error"
  | v => v.typeName

/-- Equality without conversion: an integer equals the float of the same value. -/
def equals : Value → Value → Bool
  | .nil, .nil => true
  | .bool a, .bool b => a == b
  | .int a, .int b => a == b
  | .float a, .float b => a == b
  | .int a, .float b | .float b, .int a => exactInt? b == some a
  | .string a, .string b => a == b
  | .table a, .table b => a == b
  | .function a, .function b => a == b
  | .foreign k a, .foreign l b => k == l && a == b
  | .fault a, .fault b => a == b
  | _, _ => false

end Value

end SlideDeck.Script
