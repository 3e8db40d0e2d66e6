import SlideDeck.Decimal.Binary

/-!
Which binary64 numbers are integers, and which ones they are.
-/

namespace SlideDeck.Decimal

def Dyadic.whole? (x : Dyadic) : Option Nat :=
  if 0 ≤ x.exponent then some (x.mantissa * 2 ^ x.exponent.toNat)
  else
    let unit := 2 ^ (-x.exponent).toNat
    if x.mantissa % unit = 0 then some (x.mantissa / unit) else none

def Binary.whole? : Binary → Option Int
  | .nan | .infinite _ => none
  | .zero _ => some 0
  | .finite negative x => x.whole?.map fun (n : Nat) => if negative then -(n : Int) else n

/-- The integer that a number is; negative zero is zero. -/
def whole? (x : Float) : Option Int := (Binary.ofFloat x).whole?

end SlideDeck.Decimal
