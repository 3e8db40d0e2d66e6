import SlideDeck.Decimal.Layout
import SlideDeck.Decimal.Reading
import SlideDeck.Script.Value

/-!
Numbers of scripts: their text, numerals, conversions between the two kinds, arithmetic and order.
Integers wrap around at 64 bits; an operation on integers that has no integer answer is done on floats.
-/

namespace SlideDeck.Script

/-! Text -/

/-- Fourteen significant digits; a float that looks like an integer gets a point and a zero. -/
def floatText (x : Float) : String :=
  match Decimal.Binary.ofFloat x with
  | .nan => "-nan"
  | .infinite n => Decimal.signText n ++ "inf"
  | .zero n => Decimal.signText n ++ "0.0"
  | .finite n m =>
    let text := Decimal.general m 14 false 'e'
    Decimal.signText n ++ (if text.all Char.isDigit then text ++ ".0" else text)

def intText (n : Int64) : String := toString n.toInt

/-! Numerals -/

def isHexDigit (c : Char) : Bool :=
  c.isDigit || ('a' ≤ c && c ≤ 'f') || ('A' ≤ c && c ≤ 'F')

def hexDigitValue (c : Char) : Nat :=
  if c.isDigit then c.toNat - '0'.toNat else c.toLower.toNat - 'a'.toNat + 10

def natOfHexDigits (cs : List Char) : Nat := cs.foldl (fun n c => 16 * n + hexDigitValue c) 0

def readBinaryExponent : List Char → Option Int
  | [] => some 0
  | c :: rest =>
    if c = 'p' ∨ c = 'P' then
      let (negative, digits) := Decimal.splitSign rest
      if digits.isEmpty || !digits.all Char.isDigit then none
      else
        let n : Int := Decimal.natOfDigits digits
        some (if negative then -n else n)
    else none

/-- What follows `0x`. Hexadecimal integers wrap around. -/
def readHexadecimal (negative : Bool) (cs : List Char) : Option Value :=
  let whole := cs.takeWhile isHexDigit
  let rest := cs.dropWhile isHexDigit
  if rest.isEmpty && !whole.isEmpty then
    let n := Int64.ofNat (natOfHexDigits whole)
    some (.int (if negative then -n else n))
  else
    let (fraction, rest) := match rest with
      | '.' :: rest => (rest.takeWhile isHexDigit, rest.dropWhile isHexDigit)
      | rest => ([], rest)
    if whole.isEmpty && fraction.isEmpty then none
    else
      (readBinaryExponent rest).map fun e =>
        let x := Decimal.Dyadic.toFloat ⟨natOfHexDigits (whole ++ fraction), e - 4 * fraction.length⟩
        .float (if negative then -x else x)

/-- Decimal digits that fit are an integer; any other decimal is a float. -/
def readDecimal (negative : Bool) (cs : List Char) : Option Value :=
  let n := Decimal.natOfDigits cs
  if !cs.isEmpty && cs.all Char.isDigit && n < 2 ^ 63 + (if negative then 1 else 0) then
    some (.int (Int64.ofInt (if negative then -(n : Int) else n)))
  else
    (Decimal.readUnsigned cs).map fun s => .float (if negative then -s.toFloat else s.toFloat)

def readNumeral (negative : Bool) : List Char → Option Value
  | '0' :: 'x' :: rest | '0' :: 'X' :: rest => readHexadecimal negative rest
  | cs => readDecimal negative cs

def isSpaceByte (b : UInt8) : Bool := b == 32 || (9 ≤ b && b ≤ 13)

def charOfByte (b : UInt8) : Char := Char.ofNat b.toNat

def numberOfBytes (bytes : ByteArray) : Option Value :=
  if 400 < bytes.size then none
  else
    let bs := (bytes.toList.dropWhile isSpaceByte).reverse.dropWhile isSpaceByte
    let (negative, digits) := Decimal.splitSign (bs.reverse.map charOfByte)
    readNumeral negative digits

namespace Value

/-- A number, or text that reads as one. -/
def toNumber? : Value → Option Value
  | .int n => some (.int n)
  | .float x => some (.float x)
  | .string s => numberOfBytes s
  | _ => none

def toFloat? (v : Value) : Option Float :=
  match v.toNumber? with
  | some (.int n) => some n.toFloat
  | some (.float x) => some x
  | _ => none

def toInt? (v : Value) : Option Int64 :=
  match v.toNumber? with
  | some (.int n) => some n
  | some (.float x) => exactInt? x
  | _ => none

def isNumber : Value → Bool
  | .int _ | .float _ => true
  | _ => false

def toBytes? : Value → Option ByteArray
  | .string s => some s
  | .int n => some (intText n).toUTF8
  | .float x => some (floatText x).toUTF8
  | _ => none

end Value

/-! Arithmetic -/

inductive Operator where
  | add | sub | mul | div | mod | pow | floorDiv
  | band | bor | bxor | shiftLeft | shiftRight
  deriving DecidableEq, Repr, Inhabited

def Operator.isBitwise : Operator → Bool
  | .band | .bor | .bxor | .shiftLeft | .shiftRight => true
  | _ => false

inductive ArithmeticProblem where
  /-- Some operand is not a number. -/
  | notNumbers
  /-- Some operand is not a whole number. -/
  | notWhole
  | divisionByZero
  | remainderByZero
  deriving DecidableEq, Repr

def floorDivInt (a b : Int64) : Int64 := Int64.ofInt (Int.fdiv a.toInt b.toInt)

def floorModInt (a b : Int64) : Int64 := Int64.ofInt (Int.fmod a.toInt b.toInt)

def truncMod (a b : Float) : Float :=
  match Decimal.Binary.ofFloat a, Decimal.Binary.ofFloat b with
  | .nan, _ | _, .nan | .infinite _, _ | _, .zero _ => 0.0 / 0.0
  | .zero _, _ | _, .infinite _ => a
  | .finite n x, .finite _ y =>
    let e := min x.exponent y.exponent
    let p := x.mantissa * 2 ^ (x.exponent - e).toNat
    let q := y.mantissa * 2 ^ (y.exponent - e).toNat
    let r := Decimal.Dyadic.toFloat ⟨p % q, e⟩
    if n then -r else r

def floorModFloat (a b : Float) : Float :=
  let m := truncMod a b
  if (0.0 < m && b < 0.0) || (m < 0.0 && 0.0 < b) then m + b else m

def shiftBits (a amount : Int64) : Int64 :=
  let word := a.toUInt64
  let k := amount.toInt
  if 64 ≤ k ∨ k ≤ -64 then 0
  else if 0 ≤ k then (word <<< UInt64.ofNat k.toNat).toInt64
  else (word >>> UInt64.ofNat (-k).toNat).toInt64

def arithInt (op : Operator) (a b : Int64) : Except ArithmeticProblem Value :=
  match op with
  | .add => .ok (.int (a + b))
  | .sub => .ok (.int (a - b))
  | .mul => .ok (.int (a * b))
  | .div => .ok (.float (a.toFloat / b.toFloat))
  | .pow => .ok (.float (a.toFloat.pow b.toFloat))
  | .mod => if b = 0 then .error .remainderByZero else .ok (.int (floorModInt a b))
  | .floorDiv => if b = 0 then .error .divisionByZero else .ok (.int (floorDivInt a b))
  | .band => .ok (.int (a &&& b))
  | .bor => .ok (.int (a ||| b))
  | .bxor => .ok (.int (a ^^^ b))
  | .shiftLeft => .ok (.int (shiftBits a b))
  | .shiftRight => .ok (.int (if b = Int64.minValue then 0 else shiftBits a (-b)))

def arithFloat (op : Operator) (a b : Float) : Float :=
  match op with
  | .add => a + b
  | .sub => a - b
  | .mul => a * b
  | .pow => if b == 2.0 then a * a else a.pow b
  | .mod => floorModFloat a b
  | .floorDiv => (a / b).floor
  | _ => a / b

/-- Bitwise operations need whole numbers; the others are done on integers if both are. -/
def arith (op : Operator) (a b : Value) : Except ArithmeticProblem Value :=
  match a, b with
  | .int m, .int n => arithInt op m n
  | _, _ =>
    match a.toNumber?, b.toNumber? with
    | some p, some q =>
      if op.isBitwise then
        match p.toInt?, q.toInt? with
        | some m, some n => arithInt op m n
        | _, _ => .error (if a.isNumber && b.isNumber then .notWhole else .notNumbers)
      else
        match p, q with
        | .int m, .int n => arithInt op m n
        | _, _ =>
          match p.toFloat?, q.toFloat? with
          | some x, some y => .ok (.float (arithFloat op x y))
          | _, _ => .error .notNumbers
    | _, _ => .error .notNumbers

def negate (v : Value) : Except ArithmeticProblem Value :=
  match v.toNumber? with
  | some (.int n) => .ok (.int (-n))
  | some (.float x) => .ok (.float (-x))
  | _ => .error .notNumbers

def complement (v : Value) : Except ArithmeticProblem Value :=
  match v.toInt? with
  | some n => .ok (.int (~~~n))
  | none => .error (if v.isNumber then .notWhole else .notNumbers)

/-! Order -/

def intBound : Float := 9223372036854775808.0

def intLtFloat (n : Int64) (x : Float) : Bool :=
  if intBound ≤ x then true else if -intBound < x then n < x.ceil.toInt64 else false

def intLeFloat (n : Int64) (x : Float) : Bool :=
  if intBound ≤ x then true else if -intBound ≤ x then n ≤ x.floor.toInt64 else false

def floatLtInt (x : Float) (n : Int64) : Bool :=
  if intBound ≤ x then false else if -intBound ≤ x then x.floor.toInt64 < n else !x.isNaN

def floatLeInt (x : Float) (n : Int64) : Bool :=
  if intBound ≤ x then false else if -intBound < x then x.ceil.toInt64 ≤ n else !x.isNaN

/-- Bytewise order, a shorter text before its extensions. -/
def bytesLt (a b : ByteArray) : Bool := go (min a.size b.size) 0
where
  go : Nat → Nat → Bool
    | 0, _ => a.size < b.size
    | fuel + 1, i =>
      let x := (a[i]?).getD 0
      let y := (b[i]?).getD 0
      if x < y then true else if y < x then false else go fuel (i + 1)

/-- Whether `a < b`, for two numbers or two texts. -/
def less? : Value → Value → Option Bool
  | .int a, .int b => some (a < b)
  | .float a, .float b => some (a < b)
  | .int a, .float b => some (intLtFloat a b)
  | .float a, .int b => some (floatLtInt a b)
  | .string a, .string b => some (bytesLt a b)
  | _, _ => none

def lessEq? : Value → Value → Option Bool
  | .int a, .int b => some (a ≤ b)
  | .float a, .float b => some (a ≤ b)
  | .int a, .float b => some (intLeFloat a b)
  | .float a, .int b => some (floatLeInt a b)
  | .string a, .string b => some (!bytesLt b a)
  | _, _ => none

end SlideDeck.Script
