import SlideDeck.Script.Library.Text

/-!
The functions on tables as lists. Sorting takes the middle of a range as its pivot and works in place,
so that the comparisons and their order are fixed, whatever the given order function answers.
-/

namespace SlideDeck.Script.Invocation

def item (a : Nat) (i : Int64) : Exec Value := Exec.tableGet a (.int i) false

def setItem (a : Nat) (i : Int64) (v : Value) : Exec Unit := Exec.setEntry a (.int i) v

def lengthOf (a : Nat) : Exec Int64 := return Int64.ofNat (← Exec.table a).length

def copyUp (source target : Nat) : Nat → Int64 → Int64 → Exec Unit
  | 0, _, _ => return
  | count + 1, i, j => do
    setItem target j (← item source i)
    copyUp source target count (i + 1) (j + 1)

def copyDown (source target : Nat) : Nat → Int64 → Int64 → Exec Unit
  | 0, _, _ => return
  | count + 1, i, j => do
    setItem target j (← item source i)
    copyDown source target count (i - 1) (j - 1)

def joinItems (c : Invocation) (a : Nat) (separator : ByteArray) : Nat → Int64 → ByteArray → Exec ByteArray
  | 0, _, acc => return acc
  | count + 1, i, acc => do
    match (← item a i).toBytes? with
    | none => c.fail ("invalid value (at index " ++ intText i ++ ") in table for 'concat'")
    | some s => joinItems c a separator count (i + 1) (acc ++ s ++ (if count = 0 then ByteArray.empty else separator))

def tableConcat (c : Invocation) : Answer := do
  let a ← c.tableArg 0
  let size ← lengthOf a
  let separator ← c.bytesOr 1 ByteArray.empty
  let first ← c.intOr 2 1
  let last ← c.intOr 3 size
  return #[← Exec.text (← joinItems c a separator (last.toInt - first.toInt + 1).toNat first ByteArray.empty)]

def tableInsert (c : Invocation) : Answer := do
  let a ← c.tableArg 0
  let free := (← lengthOf a) + 1
  match c.args.size with
  | 2 =>
    setItem a free (c.arg 1)
    return #[]
  | 3 =>
    let position ← c.int 1
    if position.toInt < 1 ∨ free < position then c.argFail 1 "position out of bounds"
    copyDown a a (free.toInt - position.toInt).toNat (free - 1) free
    setItem a position (c.arg 2)
    return #[]
  | _ => c.fail "wrong number of arguments to 'insert'"

def tableRemove (c : Invocation) : Answer := do
  let a ← c.tableArg 0
  let size ← lengthOf a
  let position ← c.intOr 1 size
  if position ≠ size ∧ (position.toInt < 1 ∨ size.toInt + 1 < position.toInt) then
    c.argFail 1 "position out of bounds"
  let removed ← item a position
  copyUp a a (size.toInt - position.toInt).toNat (position + 1) position
  setItem a (if position < size then size else position) .nil
  return #[removed]

def tableMove (c : Invocation) : Answer := do
  let first ← c.int 1
  let last ← c.int 2
  let target ← c.int 3
  let source ← c.tableArg 0
  let goal ← if c.isAbsent 4 then pure source else c.tableArg 4
  if first ≤ last then
    let count := (last.toInt - first.toInt + 1).toNat
    if 2 ^ 63 ≤ count then c.argFail 2 "too many elements to move"
    if 2 ^ 63 < target.toInt + count then c.argFail 3 "destination wrap around"
    if last < target ∨ target ≤ first ∨ goal ≠ source then copyUp source goal count first target
    else copyDown source goal count last (target + Int64.ofNat (count - 1))
  return #[.table goal]

def tablePack (c : Invocation) : Answer := do
  let list := Table.ofList c.args.toList
  let a ← Exec.newTable (list.setString "n" (.int (Int64.ofNat c.args.size)))
  return #[.table a]

def maxResults : Nat := 999000

def unpackItems (object : Value) : Nat → Int64 → Array Value → Exec (Array Value)
  | 0, _, acc => return acc
  | count + 1, i, acc => do unpackItems object count (i + 1) (acc.push (← fieldOf object (.int i)))

def sizeOf (v : Value) : Exec Int64 := do
  match v with
  | .string s => return Int64.ofNat s.size
  | .table a => lengthOf a
  | v => Exec.raiseText ("attempt to get length of a " ++ v.typeName ++ " value")

def tableUnpack (c : Invocation) : Answer := do
  let first ← c.intOr 1 1
  let last ← if c.isAbsent 2 then sizeOf (c.arg 0) else c.int 2
  let count := (last.toInt - first.toInt + 1).toNat
  if maxResults < count then c.fail "too many results to unpack"
  unpackItems (c.arg 0) count first #[]

/-! Sorting -/

/-- Whether one value comes before another. -/
abbrev Precedes := Value → Value → Exec Bool

def naturalOrder : Precedes := fun a b => do
  match less? a b with
  | some r => return r
  | none =>
    if a.typeName = b.typeName then
      Exec.raiseText ("attempt to compare two " ++ a.typeName ++ " values")
    else Exec.raiseText ("attempt to compare " ++ a.typeName ++ " with " ++ b.typeName)

def orderOf (f : Value) (call : Caller) : Precedes := fun a b => do
  return ((← call f #[a, b]).getD 0 .nil).isTruthy

def invalidOrder {α : Type} (c : Invocation) : Exec α := c.fail "invalid order function for sorting"

/-- The first item after `i` that does not come before the pivot; the pivot itself stands at `last`. -/
def scanUp (c : Invocation) (a : Nat) (lt : Precedes) (pivot : Value) (last : Int64) :
    Nat → Int64 → Exec (Int64 × Value)
  | 0, _ => invalidOrder c
  | fuel + 1, i => do
    let v ← item a (i + 1)
    if ← lt v pivot then
      if i + 1 = last then invalidOrder c else scanUp c a lt pivot last fuel (i + 1)
    else return (i + 1, v)

def scanDown (c : Invocation) (a : Nat) (lt : Precedes) (pivot : Value) (first : Int64) :
    Nat → Int64 → Exec (Int64 × Value)
  | 0, _ => invalidOrder c
  | fuel + 1, j => do
    let v ← item a (j - 1)
    if ← lt pivot v then
      if j - 1 < first then invalidOrder c else scanDown c a lt pivot first fuel (j - 1)
    else return (j - 1, v)

/-- Splits the range around the pivot, which stands at `last`; answers where it then stands. -/
def splitRange (c : Invocation) (a : Nat) (lt : Precedes) (pivot : Value) (last : Int64) :
    Nat → Int64 → Int64 → Exec Int64
  | 0, _, _ => invalidOrder c
  | fuel + 1, i, j => do
    let (i, low) ← scanUp c a lt pivot last (fuel + 1) i
    let (j, high) ← scanDown c a lt pivot i (fuel + 1) j
    if j < i then
      setItem a last low
      setItem a i pivot
      return i
    else
      setItem a i high
      setItem a j low
      splitRange c a lt pivot last fuel i j

def exchange (a : Nat) (lt : Precedes) (i j : Int64) : Exec Unit := do
  let low ← item a i
  let high ← item a j
  if ← lt high low then
    setItem a i high
    setItem a j low

def sortRange (c : Invocation) (a : Nat) (lt : Precedes) : Nat → Int64 → Int64 → Exec Unit
  | 0, _, _ => return
  | fuel + 1, low, high => do
    if high ≤ low then return
    exchange a lt low high
    if high - low = 1 then return
    let middle := (low + high) / 2
    let m ← item a middle
    let l ← item a low
    if ← lt m l then
      setItem a middle l
      setItem a low m
    else exchange a lt middle high
    if high - low = 2 then return
    let pivot ← item a middle
    setItem a middle (← item a (high - 1))
    setItem a (high - 1) pivot
    let p ← splitRange c a lt pivot (high - 1) (high - low).toNatClampNeg low (high - 1)
    if p - low < high - p then
      sortRange c a lt fuel low (p - 1)
      sortRange c a lt fuel (p + 1) high
    else
      sortRange c a lt fuel (p + 1) high
      sortRange c a lt fuel low (p - 1)

def tableSort (c : Invocation) (call : Caller) : Answer := do
  let a ← c.tableArg 0
  let size ← lengthOf a
  if 1 < size then
    if 2147483647 ≤ size then c.argFail 0 "array too big"
    match c.arg 1 with
    | .nil => sortRange c a naturalOrder size.toNatClampNeg 1 size
    | .function f => sortRange c a (orderOf (.function f) call) size.toNatClampNeg 1 size
    | _ => c.typeFail 1 "function"
  return #[]

end SlideDeck.Script.Invocation
