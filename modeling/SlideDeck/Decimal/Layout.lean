import SlideDeck.Decimal.Shortest

/-!
How numbers are written: plain decimals for display, JSON number text, and text with a fixed number
of places or of significant digits.
-/

namespace SlideDeck.Decimal

def zeros (n : Nat) : String := String.ofList (List.replicate n '0')

def signText (negative : Bool) : String := if negative then "-" else ""

/-- Digits with the point in place and no exponent; nothing after the point if it is integral. -/
def Scientific.positional (s : Scientific) : String :=
  let text := toString s.digits
  if 0 ≤ s.exponent then text ++ zeros s.exponent.toNat
  else
    let places := (-s.exponent).toNat
    if text.length ≤ places then "0." ++ zeros (places - text.length) ++ text
    else
      let cs := text.toList
      String.ofList (cs.take (cs.length - places)) ++ "." ++ String.ofList (cs.drop (cs.length - places))

/-- One digit, the others after the point, and the exponent with its sign, padded to `width`. -/
def Scientific.exponential (s : Scientific) (mark : Char) (plus : String) (width : Nat) : String :=
  let text := toString s.digits
  let exponent := s.exponent + (text.length - 1 : Nat)
  let tail := String.ofList (text.toList.drop 1)
  let expText := toString exponent.natAbs
  String.ofList (text.toList.take 1) ++ (if tail.isEmpty then "" else "." ++ tail) ++ mark.toString ++
    (if exponent < 0 then "-" else plus) ++ zeros (width - expText.length) ++ expText

/-- Shortest decimal, never with an exponent; a half goes up. The sign of zero is kept. -/
def display (x : Float) : String :=
  match Binary.ofFloat x with
  | .nan => "NaN"
  | .infinite n => signText n ++ "inf"
  | .zero n => signText n ++ "0"
  | .finite n m => signText n ++ (m.shortest .up).positional

/-- As `display`, but negative zero is `0`. -/
def format (x : Float) : String := if x == 0.0 then "0" else display x

/-- JSON text: a point or an exponent always shows, and the exponent begins below `10 ^ -5` and at
`10 ^ 16`. -/
def jsonText (x : Float) : String :=
  match Binary.ofFloat x with
  | .nan | .infinite _ => "null"
  | .zero n => signText n ++ "0.0"
  | .finite n m =>
    let s := m.shortest .even
    let magnitude := s.exponent + (digitCount s.digits - 1 : Nat)
    signText n ++
      if magnitude < -5 ∨ 16 ≤ magnitude then s.exponential 'e' "+" 0
      else if 0 ≤ s.exponent then s.positional ++ ".0" else s.positional

/-- A point or an exponent always shows, and the exponent begins below `10 ^ -4` and at `10 ^ 16`. -/
def pointed (x : Float) : String :=
  match Binary.ofFloat x with
  | .nan | .infinite _ => display x
  | .zero n => signText n ++ "0.0"
  | .finite n m =>
    let s := m.shortest .up
    let magnitude := s.exponent + (digitCount s.digits - 1 : Nat)
    signText n ++
      if magnitude < -4 ∨ 16 ≤ magnitude then s.exponential 'e' "" 0
      else if 0 ≤ s.exponent then s.positional ++ ".0" else s.positional

/-- Matches `-?digits(.digits)?`. -/
def isPlain (text : List Char) : Bool :=
  let unsigned := match text with
    | '-' :: rest => rest
    | other => other
  let whole := unsigned.takeWhile (· != '.')
  let digits (cs : List Char) : Bool := !cs.isEmpty && cs.all Char.isDigit
  match unsigned.dropWhile (· != '.') with
  | [] => digits whole
  | _ :: fraction => digits whole && digits fraction

/-- `places` digits after the point, a half to the even neighbour. -/
def fixed (x : Dyadic) (places : Nat) : String :=
  let r := x.toRatio.scale places
  let text := toString (r.round .even)
  if places = 0 then text
  else
    let padded := (zeros (places + 1 - text.length) ++ text).toList
    String.ofList (padded.take (padded.length - places)) ++ "." ++
      String.ofList (padded.drop (padded.length - places))

def significant (x : Dyadic) (count : Nat) : Scientific :=
  let r := x.toRatio
  let k := r.magnitude - count + 1
  let d := (r.scale (-k)).round .even
  if d = 10 ^ count then ⟨10 ^ (count - 1), k + 1⟩ else ⟨d, k⟩

/-- At most `count` significant digits, with an exponent of two digits or more if it is below -4 or not
below `count`. Zeros at the end are left out unless `padded`. -/
def general (x : Dyadic) (count : Nat) (padded : Bool) (mark : Char) : String :=
  let s := significant x count
  let magnitude := s.exponent + (count - 1 : Nat)
  let s := if padded then s else s.trim count
  if magnitude < -4 ∨ count ≤ magnitude then s.exponential mark "+" 2 else s.positional

end SlideDeck.Decimal
