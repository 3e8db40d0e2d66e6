/-!
UTF-8 bytes as text: where they stop being well formed, and a reading that never fails.
-/

namespace SlideDeck.Text.Utf8

inductive Cause where
  /-- The first so many bytes begin no character. -/
  | invalid (length : Nat)
  /-- The bytes end inside a character. -/
  | incomplete
  deriving DecidableEq, Repr

structure Fault where
  index : Nat
  cause : Cause
  deriving DecidableEq, Repr

def Fault.message (f : Fault) : String :=
  match f.cause with
  | .invalid n =>
    "invalid utf-8 sequence of " ++ toString n ++ " bytes from index " ++ toString f.index
  | .incomplete => "incomplete utf-8 byte sequence from index " ++ toString f.index

/-- How many bytes a character takes that starts with `b`; zero if none does. -/
def width (b : UInt8) : Nat :=
  if b < 0x80 then 1
  else if b < 0xC2 then 0
  else if b < 0xE0 then 2
  else if b < 0xF0 then 3
  else if b < 0xF5 then 4
  else 0

/-- Which second bytes may follow `b`: none that would make the form too long, a surrogate or a
number beyond the last character. -/
def admits (b second : UInt8) : Bool :=
  let low : UInt8 := if b = 0xE0 then 0xA0 else if b = 0xF0 then 0x90 else 0x80
  let high : UInt8 := if b = 0xED then 0x9F else if b = 0xF4 then 0x8F else 0xBF
  low ≤ second && second ≤ high

def isContinuation (b : UInt8) : Bool := 0x80 ≤ b && b < 0xC0

def characterAt (bytes : ByteArray) (i : Nat) : Except Cause Nat :=
  match bytes[i]? with
  | none => .error .incomplete
  | some b =>
    let w := width b
    if w = 0 then .error (.invalid 1)
    else if w = 1 then .ok 1
    else
      match bytes[i + 1]? with
      | none => .error .incomplete
      | some b1 =>
        if !admits b b1 then .error (.invalid 1)
        else if w = 2 then .ok 2
        else
          match bytes[i + 2]? with
          | none => .error .incomplete
          | some b2 =>
            if !isContinuation b2 then .error (.invalid 2)
            else if w = 3 then .ok 3
            else
              match bytes[i + 3]? with
              | none => .error .incomplete
              | some b3 => if !isContinuation b3 then .error (.invalid 3) else .ok 4

def faultFrom (bytes : ByteArray) : Nat → Nat → Option Fault
  | 0, _ => none
  | fuel + 1, i =>
    if bytes.size ≤ i then none
    else
      match characterAt bytes i with
      | .ok n => faultFrom bytes fuel (i + n)
      | .error c => some ⟨i, c⟩

def fault? (bytes : ByteArray) : Option Fault := faultFrom bytes bytes.size 0

def decode (bytes : ByteArray) : Except Fault String :=
  match String.fromUTF8? bytes with
  | some s => .ok s
  | none => .error ((fault? bytes).getD ⟨0, .incomplete⟩)

def replacement : Char := Char.ofNat 0xFFFD

def text (bytes : ByteArray) : String := (String.fromUTF8? bytes).getD ""

/-- Each malformed run turned into one replacement character. -/
def lossyFrom (bytes : ByteArray) : Nat → Nat → String → String
  | 0, _, acc => acc
  | fuel + 1, i, acc =>
    match faultFrom bytes bytes.size i with
    | none => acc ++ text (bytes.extract i bytes.size)
    | some f =>
      let acc := acc ++ text (bytes.extract i f.index) ++ replacement.toString
      match f.cause with
      | .incomplete => acc
      | .invalid n => lossyFrom bytes fuel (f.index + n) acc

def lossy (bytes : ByteArray) : String :=
  match String.fromUTF8? bytes with
  | some s => s
  | none => lossyFrom bytes bytes.size 0 ""

end SlideDeck.Text.Utf8
