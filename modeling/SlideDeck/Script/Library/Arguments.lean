import SlideDeck.Script.Operation

/-!
The arguments of host functions of the language: how they are read, and the errors of those that do
not fit. Arguments are counted from zero here and from one in messages.
-/

namespace SlideDeck.Script

structure Invocation where
  /-- What a script called it as. -/
  callee : Option Origin := none
  builtin : Builtin
  args : Array Value

namespace Invocation

abbrev Answer := Exec (Array Value)

def arg? (c : Invocation) (i : Nat) : Option Value := c.args[i]?

def arg (c : Invocation) (i : Nat) : Value := c.args.getD i .nil

def fail {α : Type} (_ : Invocation) (message : String) : Exec α := Exec.libraryFail message

/-- An error in an argument. The object of a method call is not counted. -/
def argFail {α : Type} (c : Invocation) (i : Nat) (message : String) : Exec α := do
  match c.callee with
  | some o =>
    let name := Text.Utf8.lossy o.text
    if o.kind = .method then
      if i = 0 then c.fail ("calling '" ++ name ++ "' on bad self (" ++ message ++ ")")
      else c.fail ("bad argument #" ++ toString i ++ " to '" ++ name ++ "' (" ++ message ++ ")")
    else c.fail ("bad argument #" ++ toString (i + 1) ++ " to '" ++ name ++ "' (" ++ message ++ ")")
  | none =>
    let name := ((← get).libraryName? (.builtin c.builtin)).getD "?"
    c.fail ("bad argument #" ++ toString (i + 1) ++ " to '" ++ name ++ "' (" ++ message ++ ")")

def typeFail {α : Type} (c : Invocation) (i : Nat) (expected : String) : Exec α :=
  let got := match c.arg? i with
    | none => "no value"
    | some (.foreign .lightUserdata _) => "light userdata"
    | some v => v.typeName
  c.argFail i (expected ++ " expected, got " ++ got)

def any (c : Invocation) (i : Nat) : Exec Value := do
  match c.arg? i with
  | some v => return v
  | none => c.argFail i "value expected"

def bytes (c : Invocation) (i : Nat) : Exec ByteArray := do
  match (c.arg i).toBytes? with
  | some s => return s
  | none => c.typeFail i "string"

def tableArg (c : Invocation) (i : Nat) : Exec Nat := do
  match c.arg i with
  | .table a => return a
  | _ => c.typeFail i "table"

def int (c : Invocation) (i : Nat) : Exec Int64 := do
  match (c.arg i).toInt? with
  | some n => return n
  | none =>
    if (c.arg i).toNumber?.isSome then c.argFail i "number has no integer representation"
    else c.typeFail i "number"

def isAbsent (c : Invocation) (i : Nat) : Bool := (c.arg i).isNil

def intOr (c : Invocation) (i : Nat) (default : Int64) : Exec Int64 :=
  if c.isAbsent i then return default else c.int i

def bytesOr (c : Invocation) (i : Nat) (default : ByteArray) : Exec ByteArray :=
  if c.isAbsent i then return default else c.bytes i

def float (c : Invocation) (i : Nat) : Exec Float := do
  match (c.arg i).toFloat? with
  | some x => return x
  | none => c.typeFail i "number"

def number (c : Invocation) (i : Nat) : Exec Value := do
  match (c.arg i).toNumber? with
  | some v => return v
  | none => c.typeFail i "number"

end Invocation

end SlideDeck.Script
