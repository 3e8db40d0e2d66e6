import SlideDeck.Json.Basic
import SlideDeck.Script.Heap
import SlideDeck.Script.Number
import SlideDeck.Text.Utf8

/-!
Values of scripts as JSON and JSON as values of scripts. A table is a list exactly if its keys are
`1 .. n` with `n` at least one; nil stores nothing, so that null vanishes from lists and objects.
-/

namespace SlideDeck.Script

inductive ConversionProblem where
  | malformedText (f : Text.Utf8.Fault)
  | notFinite
  | tooDeep
  | function
  | thread
  | userdata
  | error (text : String)
  | key (type : String)
  deriving DecidableEq, Repr

namespace ConversionProblem

def malformed (f : Text.Utf8.Fault) : String :=
  "error converting Lua string to &str (" ++ f.message ++ ")"

def message : ConversionProblem → String
  | malformedText f => malformed f
  | notFinite => "cannot encode NaN or infinity as JSON"
  | tooDeep => "cannot encode tables nested this deeply (or containing themselves) as JSON"
  | function => "cannot encode a function as JSON"
  | thread => "cannot encode a thread as JSON"
  | userdata => "cannot encode userdata as JSON"
  | error text => "cannot encode an error as JSON: " ++ text
  | key type => "cannot encode a table with " ++ type ++ " keys as JSON"

end ConversionProblem

def maxTableNesting : Nat := 128

def decodeText (bytes : ByteArray) : Except ConversionProblem String :=
  match Text.Utf8.decode bytes with
  | .ok s => .ok s
  | .error f => .error (.malformedText f)

/-- A key of an object. Floats are written without an exponent. -/
def keyText : Key → Except ConversionProblem String
  | .string s => decodeText s
  | .int n => .ok (intText n)
  | .float bits => .ok (Decimal.display (Float.ofBits bits))
  | k => .error (.key k.toValue.hostType)

/-- How many keys there are, the greatest positive integer among them, and whether there are no others. -/
structure KeySurvey where
  count : Nat := 0
  greatest : Nat := 0
  allPositive : Bool := true

def KeySurvey.add (s : KeySurvey) (e : Key × Value) : KeySurvey :=
  match Table.position? e.1 with
  | some n => { s with count := s.count + 1, greatest := max s.greatest n }
  | none => { s with count := s.count + 1, allPositive := false }

/-- The length of a list: every position up to the number of keys is there if that is the greatest key. -/
def listLength? (entries : List (Key × Value)) : Option Nat :=
  let s := entries.foldl KeySurvey.add {}
  if s.allPositive && 0 < s.count && s.greatest = s.count then some s.count else none

def toJsonWithin (h : Heap) : Nat → Value → Except ConversionProblem Json
  | _, .nil => .ok .null
  | _, .bool b => .ok (.bool b)
  | _, .int n => .ok (.int n.toInt)
  | _, .float x => if x.isFinite then .ok (.float x) else .error .notFinite
  | _, .string s => (decodeText s).map .string
  | _, .function _ => .error .function
  | _, .foreign .thread _ => .error .thread
  | _, .foreign _ _ => .error .userdata
  | _, .fault f => .error (.error f.text)
  | 0, .table _ => .error .tooDeep
  | levels + 1, .table a =>
    let t := h.table a
    match listLength? t.entries with
    | some n => do
      let items ← (List.range n).mapM fun i => toJsonWithin h levels (t.getNat (i + 1))
      return .array items
    | none => do
      let fields ← t.entries.mapM fun e => do
        let key ← keyText e.1
        return (key, ← toJsonWithin h levels e.2)
      return .object (Json.sorted fields)

def toJson (h : Heap) (v : Value) : Except ConversionProblem Json :=
  toJsonWithin h maxTableNesting v

/-! From JSON -/

/-- Integers that fit stay integers, as do integral floats that are surely exact. -/
def ofNumber : Json → Value
  | .int n => if -(2 ^ 63) ≤ n ∧ n < 2 ^ 63 then .int (Int64.ofInt n) else .float (Float.ofInt n)
  | .float x =>
    match Decimal.whole? x with
    | some n => if n.natAbs < 2 ^ 53 then .int (Int64.ofInt n) else .float x
    | none => .float x
  | _ => .nil

mutual

def ofJson (h : Heap) : Json → Value × Heap
  | .null => (.nil, h)
  | .bool b => (.bool b, h)
  | .int n => (ofNumber (.int n), h)
  | .float x => (ofNumber (.float x), h)
  | .string s => (.ofString s, h)
  | .array items =>
    let (t, h) := ofItems h {} 1 items
    let (a, h) := h.addTable t
    (.table a, h)
  | .object fields =>
    let (t, h) := ofFields h {} fields
    let (a, h) := h.addTable t
    (.table a, h)

def ofItems (h : Heap) (t : Table) (position : Nat) : List Json → Table × Heap
  | [] => (t, h)
  | j :: rest =>
    let (v, h) := ofJson h j
    ofItems h (t.setNat position v) (position + 1) rest

def ofFields (h : Heap) (t : Table) : List (String × Json) → Table × Heap
  | [] => (t, h)
  | (k, j) :: rest =>
    let (v, h) := ofJson h j
    ofFields h (t.setString k v) rest

end

end SlideDeck.Script
