import SlideDeck.Instances

/-!
Binary64 numbers as exact fractions, and the decimal numbers that approximate them.
-/

namespace SlideDeck.Decimal

/-- The positive dyadic number `mantissa * 2 ^ exponent`. -/
structure Dyadic where
  mantissa : Nat
  exponent : Int
  deriving DecidableEq, Repr

/-- The decimal number `digits * 10 ^ exponent`. -/
structure Scientific where
  digits : Nat
  exponent : Int
  deriving DecidableEq, Repr

inductive Binary where
  | nan
  | infinite (negative : Bool)
  | zero (negative : Bool)
  | finite (negative : Bool) (magnitude : Dyadic)
  deriving DecidableEq, Repr

def Binary.ofBits (bits : Nat) : Binary :=
  let negative : Bool := bits / 2 ^ 63 % 2 == 1
  let field : Nat := bits / 2 ^ 52 % 2048
  let fraction : Nat := bits % 2 ^ 52
  if field = 2047 then (if fraction = 0 then .infinite negative else .nan)
  else if field = 0 then
    if fraction = 0 then .zero negative else .finite negative ⟨fraction, -1074⟩
  else .finite negative ⟨fraction + 2 ^ 52, (field : Int) - 1075⟩

def Binary.ofFloat (x : Float) : Binary := .ofBits x.toBits.toNat

structure Ratio where
  num : Nat
  den : Nat
  deriving DecidableEq, Repr

def Dyadic.toRatio (x : Dyadic) : Ratio :=
  if x.exponent < 0 then ⟨x.mantissa, 2 ^ (-x.exponent).toNat⟩
  else ⟨x.mantissa * 2 ^ x.exponent.toNat, 1⟩

def Ratio.scale (r : Ratio) (k : Int) : Ratio :=
  if k < 0 then ⟨r.num, r.den * 10 ^ (-k).toNat⟩ else ⟨r.num * 10 ^ k.toNat, r.den⟩

/-- How many decimal digits `n` has; zero has one. -/
def digitCount (n : Nat) : Nat :=
  if n < 10 then 1 else digitCount (n / 10) + 1

/-- The `e` with `10 ^ e ≤ r < 10 ^ (e + 1)`, for a positive `r`. -/
def Ratio.magnitude (r : Ratio) : Int :=
  if r.den ≤ r.num then (digitCount (r.num / r.den) : Int) - 1
  else
    let l := digitCount (r.den / r.num)
    if r.den ≤ r.num * 10 ^ (l - 1) then -((l : Int) - 1) else -(l : Int)

inductive Tie where
  | up
  | even
  deriving DecidableEq, Repr

/-- The integer nearest to `r`. -/
def Ratio.round (r : Ratio) (tie : Tie) : Nat :=
  let q := r.num / r.den
  let twice := 2 * (r.num % r.den)
  if twice < r.den then q
  else if r.den < twice then q + 1
  else match tie with
    | .up => q + 1
    | .even => if q % 2 = 0 then q else q + 1

/-- Trailing zeros of the digits moved into the exponent; `fuel` bounds how many. -/
def Scientific.trim (fuel : Nat) (s : Scientific) : Scientific :=
  match fuel with
  | 0 => s
  | fuel + 1 =>
    if s.digits ≠ 0 ∧ s.digits % 10 = 0 then trim fuel ⟨s.digits / 10, s.exponent + 1⟩ else s

end SlideDeck.Decimal
