import SlideDeck.Script.Library.Math

/-!
The functions on texts as sequences of code points. Code points go up to `2 ^ 31`; those that no text
should hold are read only where a script asks for it.
-/

namespace SlideDeck.Script.Invocation

def maxCode : Nat := 2 ^ 31 - 1

def isContinuationAt (s : ByteArray) (i : Nat) : Bool := (s[i]?).getD 0 &&& 0xC0 == 0x80

def leastCode : Nat → Nat
  | 1 => 0x80
  | 2 => 0x800
  | 3 => 0x10000
  | 4 => 0x200000
  | 5 => 0x4000000
  | _ => maxCode + 1

def bytesBehind (b : UInt8) : Nat :=
  if b < 0xC0 then 0 else if b < 0xE0 then 1 else if b < 0xF0 then 2 else if b < 0xF8 then 3
  else if b < 0xFC then 4 else if b < 0xFE then 5 else 6

def codeAt (s : ByteArray) (i : Nat) (lax : Bool) : Option (Nat × Nat) :=
  let b := (s[i]?).getD 0
  if b < 0x80 then some (b.toNat, i + 1)
  else
    let count := bytesBehind b
    let tail := (List.range count).map fun k => i + 1 + k
    if count = 0 || 5 < count || !tail.all (isContinuationAt s) then none
    else
      let first := b.toNat % 2 ^ (6 - count)
      let code := tail.foldl (fun n k => 64 * n + ((s[k]?).getD 0).toNat % 64) first
      let isOdd := 0x10FFFF < code || (0xD800 ≤ code && code ≤ 0xDFFF)
      if code < leastCode count || maxCode < code || (isOdd && !lax) then none
      else some (code, i + count + 1)

def bytesOfCode (code : Nat) : List UInt8 :=
  if code < 0x80 then [UInt8.ofNat code]
  else
    let count := ([1, 2, 3, 4, 5].find? fun k => code < leastCode (k + 1)).getD 5
    let lead := (0xFF00 >>> (count + 1)) % 256
    UInt8.ofNat (lead + code / 64 ^ count) ::
      (List.range count).reverse.map fun k => UInt8.ofNat (0x80 + code / 64 ^ k % 64)

/-- A position, counted from the end if it is negative; zero if there is none. -/
def relativePosition (n : Int64) (length : Nat) : Int :=
  let i := n.toInt
  if 0 ≤ i then i else if (length : Int) < -i then 0 else length + i + 1

def invalidText : String := "invalid UTF-8 code"

def utf8Char (c : Invocation) : Answer := do
  let bytes ← (List.range c.args.size).mapM fun i => do
    let n ← c.int i
    if n < 0 ∨ (maxCode : Int) < n.toInt then c.argFail i "value out of range"
    return bytesOfCode n.toNatClampNeg
  return #[← Exec.text ⟨bytes.flatten.toArray⟩]

def codesFrom (c : Invocation) (s : ByteArray) (last : Nat) : Nat → Nat → Array Value → Answer
  | 0, _, acc => return acc
  | fuel + 1, i, acc => do
    if last ≤ i then return acc
    match codeAt s i (c.arg 3).isTruthy with
    | none => c.fail invalidText
    | some (code, next) => codesFrom c s last fuel next (acc.push (.int (Int64.ofNat code)))

def utf8Codepoint (c : Invocation) : Answer := do
  let s ← c.bytes 0
  let first := relativePosition (← c.intOr 1 1) s.size
  let last := relativePosition (← c.intOr 2 (Int64.ofInt first)) s.size
  if first < 1 then c.argFail 1 "out of bounds"
  if (s.size : Int) < last then c.argFail 2 "out of bounds"
  codesFrom c s last.toNat s.size (first.toNat - 1) #[]

/-- How many code points begin before `last`; otherwise the place of the first fault. -/
def countCodes (s : ByteArray) (lax : Bool) (last : Nat) : Nat → Nat → Nat → Except Nat Nat
  | 0, _, n => .ok n
  | fuel + 1, i, n =>
    if last ≤ i then .ok n
    else
      match codeAt s i lax with
      | none => .error i
      | some (_, next) => countCodes s lax last fuel next (n + 1)

def utf8Len (c : Invocation) : Answer := do
  let s ← c.bytes 0
  let first := relativePosition (← c.intOr 1 1) s.size
  let last := relativePosition (← c.intOr 2 (-1)) s.size
  if first < 1 ∨ (s.size : Int) + 1 < first then c.argFail 1 "initial position out of bounds"
  if (s.size : Int) < last then c.argFail 2 "final position out of bounds"
  match countCodes s (c.arg 3).isTruthy last.toNat (s.size + 1) (first.toNat - 1) 0 with
  | .ok n => return #[.int (Int64.ofNat n)]
  | .error i => return #[.nil, .int (Int64.ofNat (i + 1))]

def skipContinuations (s : ByteArray) : Nat → Nat → Nat
  | 0, i => i
  | fuel + 1, i => if i < s.size && isContinuationAt s i then skipContinuations s fuel (i + 1) else i

def startOfCode (s : ByteArray) : Nat → Nat
  | 0 => 0
  | i + 1 => if isContinuationAt s (i + 1) then startOfCode s i else i + 1

def codesAhead (s : ByteArray) : Nat → Nat → Nat → Nat × Nat
  | 0, n, i => (n, i)
  | fuel + 1, n, i =>
    if n = 0 || s.size ≤ i then (n, i)
    else codesAhead s fuel (n - 1) (skipContinuations s s.size (i + 1))

/-- `n` code points back; or how many are missing. -/
def codesBack (s : ByteArray) : Nat → Nat → Nat → Nat × Nat
  | 0, n, i => (n, i)
  | fuel + 1, n, i => if n = 0 || i = 0 then (n, i) else codesBack s fuel (n - 1) (startOfCode s (i - 1))

def utf8Offset (c : Invocation) : Answer := do
  let s ← c.bytes 0
  let n ← c.int 1
  let start := relativePosition (← c.intOr 2 (if 0 < n then 1 else Int64.ofNat (s.size + 1))) s.size - 1
  if start < 0 ∨ (s.size : Int) < start then c.argFail 2 "position out of bounds"
  let i := start.toNat
  if n = 0 then return #[.int (Int64.ofNat (startOfCode s i + 1))]
  if isContinuationAt s i then c.fail "initial position is a continuation byte"
  let (missing, i) :=
    if 0 < n then codesAhead s (s.size + 1) (n.toNatClampNeg - 1) i
    else codesBack s (s.size + 1) n.toInt.natAbs i
  return #[if missing = 0 then .int (Int64.ofNat (i + 1)) else .nil]

def utf8Codes (c : Invocation) : Answer := do
  let s ← c.bytes 0
  if isContinuationAt s 0 then c.argFail 0 invalidText
  return #[.function (.builtin (.utf8CodesStep (c.arg 1).isTruthy)), .string s, .int 0]

def utf8CodesStep (c : Invocation) (lax : Bool) : Answer := do
  let s ← c.bytes 0
  let n := ((c.arg 1).toInt?.getD 0).toUInt64.toNat
  let i := if n < s.size then skipContinuations s s.size n else n
  if s.size ≤ i then return #[]
  else
    match codeAt s i lax with
    | none => c.fail invalidText
    | some (code, next) =>
      if isContinuationAt s next then c.fail invalidText
      else return #[.int (Int64.ofNat (i + 1)), .int (Int64.ofNat code)]

end SlideDeck.Script.Invocation
