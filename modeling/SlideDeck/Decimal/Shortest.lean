import SlideDeck.Decimal.Binary

/-!
The shortest decimal that reads back as a given binary64 number: the fewest digits with which some
decimal lies in the interval of reals that round to the number, and of those the nearest one.
-/

namespace SlideDeck.Decimal

/-- The reals that round to a number, over one denominator; the ends count iff `closed`. -/
structure Interval where
  low : Nat
  value : Nat
  high : Nat
  den : Nat
  closed : Bool
  deriving DecidableEq, Repr

/-- The gap below a power of two is half the gap above it. -/
def Dyadic.interval (x : Dyadic) : Interval :=
  let below := if x.mantissa = 2 ^ 52 ∧ -1074 < x.exponent then 1 else 2
  let unit := if x.exponent < 0 then 1 else 2 ^ x.exponent.toNat
  let den := if x.exponent < 0 then 4 * 2 ^ (-x.exponent).toNat else 4
  { low := (4 * x.mantissa - below) * unit
    value := 4 * x.mantissa * unit
    high := (4 * x.mantissa + 2) * unit
    den
    closed := x.mantissa % 2 = 0 }

def Interval.holds (i : Interval) (num den : Nat) : Bool :=
  let n := num * i.den
  if i.closed then i.low * den ≤ n && n ≤ i.high * den else i.low * den < n && n < i.high * den

def gridPoint (d : Nat) (k : Int) : Ratio :=
  if k < 0 then ⟨d, 10 ^ (-k).toNat⟩ else ⟨d * 10 ^ k.toNat, 1⟩

/-- The better of the value's two neighbours on the grid of step `10 ^ k`, if one lies inside. -/
def Interval.pick (i : Interval) (k : Int) (tie : Tie) : Option Nat :=
  let scaled := Ratio.scale ⟨i.value, i.den⟩ (-k)
  let d := scaled.num / scaled.den
  let inside (d : Nat) : Bool := let p := gridPoint d k; i.holds p.num p.den
  match inside d, inside (d + 1) with
  | true, true => some (scaled.round tie)
  | true, false => some d
  | false, true => some (d + 1)
  | false, false => none

def Interval.search (i : Interval) (magnitude : Int) (tie : Tie) (fuel n : Nat) : Scientific :=
  let k := magnitude - n + 1
  match fuel with
  | 0 => ⟨(Ratio.scale ⟨i.value, i.den⟩ (-k)).round tie, k⟩
  | fuel + 1 =>
    match i.pick k tie with
    | some d => ⟨d, k⟩
    | none => search i magnitude tie fuel (n + 1)

/-- Seventeen digits always suffice for a binary64 number. -/
def Dyadic.shortest (x : Dyadic) (tie : Tie) : Scientific :=
  let i := x.interval
  (i.search (Ratio.magnitude ⟨i.value, i.den⟩) tie 16 1).trim 17

end SlideDeck.Decimal
