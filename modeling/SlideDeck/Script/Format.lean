import SlideDeck.Script.Number

/-!
Conversions of the format function: flags, width and precision, and the texts of numbers under them.
-/

namespace SlideDeck.Script.Format

structure Flags where
  left : Bool := false
  plus : Bool := false
  blank : Bool := false
  alternate : Bool := false
  zero : Bool := false
  deriving Inhabited

structure Spec where
  flags : Flags := {}
  width : Nat := 0
  precision : Option Nat := none
  /-- What stands between the percent sign and the letter. -/
  modifiers : List Char
  /-- Absent at the end of the format. -/
  letter : Option Char
  /-- Whether the modifiers are flags, a width and a precision in this order. -/
  wellFormed : Bool
  deriving Inhabited

def Spec.text (s : Spec) : String := String.ofList ('%' :: s.modifiers ++ s.letter.toList)

def isFlag (c : Char) : Bool := "-+ #0".toList.contains c

def setFlag (f : Flags) : Char → Flags
  | '-' => { f with left := true }
  | '+' => { f with plus := true }
  | ' ' => { f with blank := true }
  | '#' => { f with alternate := true }
  | '0' => { f with zero := true }
  | _ => f

def twoDigits (cs : List Char) : List Char × List Char :=
  let digits := (cs.take 2).takeWhile Char.isDigit
  (digits, cs.drop digits.length)

/-- The conversion behind a percent sign, and what follows it; `none` if it is too long. -/
def read (cs : List Char) : Option (Spec × List Char) :=
  let modifiers := cs.takeWhile fun c => isFlag c || c.isDigit || c == '.'
  let rest := cs.drop modifiers.length
  if 21 ≤ modifiers.length then none
  else
    let flags := modifiers.takeWhile isFlag
    let (width, more) := twoDigits (modifiers.drop flags.length)
    let (precision, left) : Option Nat × List Char := match more with
      | '.' :: more =>
        let (digits, left) := twoDigits more
        (some (Decimal.natOfDigits digits), left)
      | more => (none, more)
    some ({ flags := flags.foldl setFlag {}, width := Decimal.natOfDigits width, precision, modifiers,
            letter := rest.head?, wellFormed := left.isEmpty }, rest.drop 1)

/-- Whether only the given flags are used, and a precision only if it is allowed. -/
def Spec.obeys (s : Spec) (flags : String) (precision : Bool) : Bool :=
  s.wellFormed && (s.modifiers.takeWhile isFlag).all flags.toList.contains &&
    (precision || s.precision.isNone)

def Spec.fill (s : Spec) (text : String) : String :=
  let blanks := String.ofList (List.replicate (s.width - text.length) ' ')
  if s.flags.left then text ++ blanks else blanks ++ text

def Spec.fillNumber (s : Spec) (front digits : String) (zeros : Bool) : String :=
  if zeros && s.flags.zero && !s.flags.left then
    front ++ Decimal.zeros (s.width - front.length - digits.length) ++ digits
  else s.fill (front ++ digits)

def Spec.sign (s : Spec) (negative : Bool) : String :=
  if negative then "-" else if s.flags.plus then "+" else if s.flags.blank then " " else ""

/-- At least as many digits as the precision says; zero has none under precision zero. -/
def Spec.digits (s : Spec) (text : String) : String :=
  match s.precision with
  | none => text
  | some p => if p = 0 && text = "0" then "" else Decimal.zeros (p - text.length) ++ text

def Spec.integer (s : Spec) (n : Int64) : String :=
  let i := n.toInt
  s.fillNumber (s.sign (i < 0)) (s.digits (toString i.natAbs)) s.precision.isNone

def upper (text : String) : String := String.ofList (text.toList.map Char.toUpper)

def Spec.word (s : Spec) (n : Int64) (base : Nat) (front : String) : String :=
  let text := String.ofList (Nat.toDigits base n.toUInt64.toNat)
  let front := if s.flags.alternate && n ≠ 0 then front else ""
  s.fillNumber front (s.digits text) s.precision.isNone

def Spec.pointed (s : Spec) (text : String) : String :=
  if s.flags.alternate && !text.toList.contains '.' then text ++ "." else text

def exponential (x : Decimal.Dyadic) (places : Nat) : String :=
  (Decimal.significant x (places + 1)).exponential 'e' "+" 2

/-- `text` with a point behind its first digit if it has none before its exponent. -/
def pointBeforeExponent (text : String) : String :=
  let mantissa := text.toList.takeWhile (· != 'e')
  if mantissa.contains '.' then text
  else String.ofList mantissa ++ "." ++ String.ofList (text.toList.dropWhile (· != 'e'))

def Spec.magnitude (s : Spec) (x : Option Decimal.Dyadic) : String :=
  let p := s.precision.getD 6
  let zeroTail := if p = 0 then "" else "." ++ Decimal.zeros p
  match (s.letter.getD 'g').toLower, x with
  | 'e', some x =>
    let text := exponential x p
    if s.flags.alternate then pointBeforeExponent text else text
  | 'e', none => if s.flags.alternate && p = 0 then "0.e+00" else "0" ++ zeroTail ++ "e+00"
  | 'f', some x => s.pointed (Decimal.fixed x p)
  | 'f', none => s.pointed ("0" ++ zeroTail)
  | _, some x =>
    let text := Decimal.general x (max p 1) s.flags.alternate 'e'
    if s.flags.alternate then pointBeforeExponent text else text
  | _, none => if s.flags.alternate then "0." ++ Decimal.zeros (max p 1 - 1) else "0"

/-! Hexadecimal floats -/

def hexFraction (bits n : Nat) : List Char :=
  (List.range (bits / 4)).reverse.map fun i => Nat.digitChar (n / 16 ^ i % 16)

def dropZeros (cs : List Char) : List Char := (cs.reverse.dropWhile (· == '0')).reverse

def hexadecimal (precision : Option Nat) (x : Decimal.Dyadic) : String :=
  let normal := 2 ^ 52 ≤ x.mantissa
  let exponent : Int := if normal then x.exponent + 52 else -1022
  let value := x.mantissa
  let (lead, digits) : Nat × List Char := match precision with
    | none => (value / 2 ^ 52, dropZeros (hexFraction 52 (value % 2 ^ 52)))
    | some p =>
      if 13 ≤ p then
        (value / 2 ^ 52, hexFraction 52 (value % 2 ^ 52) ++ List.replicate (p - 13) '0')
      else
        let r := Decimal.Ratio.round ⟨value, 2 ^ (52 - 4 * p)⟩ .even
        (r / 2 ^ (4 * p), hexFraction (4 * p) (r % 2 ^ (4 * p)))
  "0x" ++ toString lead ++ (if digits.isEmpty then "" else "." ++ String.ofList digits) ++ "p" ++
    (if exponent < 0 then "-" else "+") ++ toString exponent.natAbs

def Spec.hexFloat (s : Spec) (x : Option Decimal.Dyadic) : String :=
  match x with
  | some x => hexadecimal s.precision x
  | none =>
    let tail := match s.precision with
      | some p => if p = 0 then "" else "." ++ Decimal.zeros p
      | none => ""
    "0x0" ++ tail ++ "p+0"

def Spec.float (s : Spec) (x : Float) : String :=
  let finish (text : String) : String := if (s.letter.getD 'g').isUpper then upper text else text
  match Decimal.Binary.ofFloat x with
  | .nan => s.fill (finish ("-nan"))
  | .infinite n => s.fill (finish (s.sign n ++ "inf"))
  | .zero n =>
    if (s.letter.getD 'g').toLower = 'a' then s.fill (s.sign n ++ finish (s.hexFloat none))
    else s.fillNumber (s.sign n) (finish (s.magnitude none)) true
  | .finite n m =>
    if (s.letter.getD 'g').toLower = 'a' then s.fill (s.sign n ++ finish (s.hexFloat (some m)))
    else s.fillNumber (s.sign n) (finish (s.magnitude (some m))) true

/-! Quoted values -/

/-- A string that reads back as the same bytes. -/
def quoted (bytes : ByteArray) : ByteArray := go bytes.data.toList ⟨#[34]⟩
where
  go : List UInt8 → ByteArray → ByteArray
    | [], acc => acc.push 34
    | c :: rest, acc =>
      if c == 34 || c == 92 || c == 10 then go rest ((acc.push 92).push c)
      else if c == 0 || c < 32 || c == 127 then
        let digits := toString c.toNat
        let next := (rest.head?.map fun d => 48 ≤ d && d ≤ 57).getD false
        let text := if next then Decimal.zeros (3 - digits.length) ++ digits else digits
        go rest (acc ++ ("\\" ++ text).toUTF8)
      else go rest (acc.push c)

def quotedFloat (x : Float) : String :=
  match Decimal.Binary.ofFloat x with
  | .nan => "(0/0)"
  | .infinite n => Decimal.signText n ++ "1e9999"
  | .zero n => Decimal.signText n ++ "0x0p+0"
  | .finite n m => Decimal.signText n ++ hexadecimal none m

def quotedInt (n : Int64) : String :=
  if n = Int64.minValue then "0x8000000000000000" else intText n

end SlideDeck.Script.Format
