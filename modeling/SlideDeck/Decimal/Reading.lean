import SlideDeck.Decimal.Binary

/-!
Reading decimals: the nearest binary64 number to `digits * 10 ^ exponent`, and the number texts that
stored literals and script parameters accept.
-/

namespace SlideDeck.Decimal

/-- Beyond these bounds every decimal is infinite or zero. -/
def Scientific.toFloat (s : Scientific) : Float :=
  if s.digits = 0 then 0.0
  else
    let magnitude := s.exponent + (digitCount s.digits : Int)
    if 320 < magnitude then 1.0 / 0.0
    else if magnitude < -340 then 0.0
    else if s.exponent < 0 then Float.ofScientific s.digits true (-s.exponent).toNat
    else Float.ofScientific s.digits false s.exponent.toNat

def digitValue (c : Char) : Nat := c.toNat - '0'.toNat

def natOfDigits (cs : List Char) : Nat := cs.foldl (fun n c => 10 * n + digitValue c) 0

def splitSign : List Char → Bool × List Char
  | '-' :: rest => (true, rest)
  | '+' :: rest => (false, rest)
  | cs => (false, cs)

/-- `e` or `E`, an optional sign and digits to the end; nothing at all is exponent zero. -/
def readExponent : List Char → Option Int
  | [] => some 0
  | c :: rest =>
    if c = 'e' ∨ c = 'E' then
      let (negative, digits) := splitSign rest
      if digits.isEmpty || !digits.all Char.isDigit then none
      else
        let n : Int := natOfDigits digits
        some (if negative then -n else n)
    else none

/-- Digits with an optional point, at least one digit on one side of it, and an optional exponent. -/
def readUnsigned (cs : List Char) : Option Scientific :=
  let whole := cs.takeWhile Char.isDigit
  let (fraction, rest) := match cs.dropWhile Char.isDigit with
    | '.' :: rest => (rest.takeWhile Char.isDigit, rest.dropWhile Char.isDigit)
    | rest => ([], rest)
  if whole.isEmpty && fraction.isEmpty then none
  else (readExponent rest).map fun e => ⟨natOfDigits (whole ++ fraction), e - fraction.length⟩

def Dyadic.toFloat (x : Dyadic) : Float :=
  if x.mantissa = 0 then 0.0
  else
    let bits := Nat.log2 x.mantissa + 1
    let top : Int := bits + x.exponent
    if 1024 < top then 1.0 / 0.0
    else if top < -1075 then 0.0
    else
      let keep : Int := max (top - 53) (-1074)
      let drop := keep - x.exponent
      let rounded :=
        if drop ≤ 0 then x.mantissa * 2 ^ (-drop).toNat
        else Ratio.round ⟨x.mantissa, 2 ^ drop.toNat⟩ .even
      (Float.ofNat rounded).scaleB keep

/-- Number text with an optional sign; `inf`, `infinity` and `nan` in any case are numbers. -/
def read (text : List Char) : Option Float :=
  let (negative, rest) := splitSign text
  let magnitude : Option Float :=
    match String.ofList (rest.map Char.toLower) with
    | "inf" | "infinity" => some (1.0 / 0.0)
    | "nan" => some (0.0 / 0.0)
    | _ => (readUnsigned rest).map Scientific.toFloat
  magnitude.map fun x => if negative then -x else x

end SlideDeck.Decimal
