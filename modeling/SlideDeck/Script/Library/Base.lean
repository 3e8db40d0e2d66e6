import SlideDeck.Script.Library.Arguments

/-!
The functions that scripts have under their own names, except for protected calls.
-/

namespace SlideDeck.Script.Invocation

def tostring (c : Invocation) : Answer := do
  match ← c.any 0 with
  | .string s => return #[.string s]
  | v => return #[← Exec.text (Exec.displayBytes v)]

def digitOf? (base : Nat) (c : Char) : Option Nat :=
  let d := if c.isDigit then c.toNat - 48 else if c.isAlpha then c.toLower.toNat - 87 else base
  if d < base then some d else none

def readInBase (base : Nat) (bytes : ByteArray) : Option Int64 :=
  let cs := (bytes.toList.dropWhile isSpaceByte).map charOfByte
  let (negative, cs) : Bool × List Char := match cs with
    | '-' :: rest => (true, rest)
    | '+' :: rest => (false, rest)
    | cs => (false, cs)
  let digits := cs.takeWhile fun c => c.isAlphanum
  let rest := cs.drop digits.length
  if digits.isEmpty || !rest.all fun c => isSpaceByte (UInt8.ofNat c.toNat) then none
  else
    (digits.foldlM (fun n c => (digitOf? base c).map (base * n + ·)) 0).map fun n =>
      let n := Int64.ofNat n
      if negative then -n else n

def tonumber (c : Invocation) : Answer := do
  if c.isAbsent 1 then
    match c.arg 0 with
    | .string s => return #[(numberOfBytes s).getD .nil]
    | v => if v.isNumber then return #[v] else
      let _ ← c.any 0
      return #[.nil]
  else
    let base ← c.int 1
    match c.arg 0 with
    | .string s =>
      if base < 2 ∨ 36 < base then c.argFail 1 "base out of range"
      else return #[((readInBase base.toNatClampNeg s).map Value.int).getD .nil]
    | _ => c.typeFail 0 "string"

def type (c : Invocation) : Answer := do return #[.ofString (← c.any 0).typeName]

def pairs (c : Invocation) : Answer := do return #[.function (.builtin .next), ← c.any 0, .nil]

def ipairs (c : Invocation) : Answer := do
  return #[.function (.builtin .ipairsStep), ← c.any 0, .int 0]

/-- The value under a key as a host function reads it: errors have no position. -/
def fieldOf (object key : Value) : Exec Value := do
  match object with
  | .table a => Exec.tableGet a key false
  | .string _ => Exec.tableGet (← get).stringMethods key false
  | v => Exec.raiseText ("attempt to index a " ++ v.typeName ++ " value")

def ipairsStep (c : Invocation) : Answer := do
  let i := (← c.int 1) + 1
  match ← fieldOf (c.arg 0) (.int i) with
  | .nil => return #[.nil]
  | v => return #[.int i, v]

def next (c : Invocation) : Answer := do
  let a ← c.tableArg 0
  let key ← match Key.ofValue (c.arg 1) with
    | .ok k => pure (some k)
    | .error .nil => pure none
    | .error .nan => Exec.raiseText "invalid key to 'next'"
  match (← Exec.table a).next key with
  | some (some (k, v)) => return #[k.toValue, v]
  | some none => return #[.nil]
  | none => Exec.raiseText "invalid key to 'next'"

def select (c : Invocation) : Answer := do
  let count := c.args.size - 1
  let counts := match c.arg 0 with
    | .string s => s[0]? == some 35
    | _ => false
  if counts then return #[.int (Int64.ofNat count)]
  else
    let n := (← c.int 0).toInt
    let i := if n < 0 then (count : Int) + 1 + n else n
    if i < 1 then c.argFail 0 "index out of range" else return c.args.extract i.toNat c.args.size

/-- Raises a value. Text gets the position of the function at a level in front. -/
def raiseAt (v : Value) (level : Int) : Answer := do
  match v with
  | .string s =>
    if 0 < level then
      Exec.raise (.string ((← Exec.levelPosition level.toNat).toUTF8 ++ s))
    else Exec.raise v
  | v => Exec.raise v

def error (c : Invocation) : Answer := do
  let level ← c.intOr 1 1
  raiseAt (c.arg 0) level.toInt

def assert (c : Invocation) : Answer := do
  if (c.arg 0).isTruthy then return c.args
  else
    let _ ← c.any 0
    raiseAt ((c.arg? 1).getD (.ofString "assertion failed!")) 1

end SlideDeck.Script.Invocation
