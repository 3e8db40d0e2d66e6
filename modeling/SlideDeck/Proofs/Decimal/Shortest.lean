import Mathlib
import SlideDeck.Decimal.Shortest
import SlideDeck.Proofs.Decimal.Reading

/-!
The shortest decimal of a binary64 number is near it. What the search accepts lies in the interval of
the number, and seventeen digits are so many that the nearest decimal lies there without a look.
-/

namespace SlideDeck.Decimal

def Ratio.value (r : Ratio) : ℚ := r.num / r.den

section Ratios

variable {r : Ratio} {k : Int}

theorem Ratio.scale_den (positive : 0 < r.den) (k : Int) : 0 < (r.scale k).den := by
  unfold scale
  split
  · exact Nat.mul_pos positive (by positivity)
  · exact positive

theorem Ratio.scale_value (r : Ratio) (k : Int) : (r.scale k).value = r.value * 10 ^ k := by
  unfold scale value
  split
  · rename_i negative
    obtain ⟨n, rfl⟩ := Int.exists_eq_neg_ofNat negative.le
    have amount : (- -(n : Int)).toNat = n := by omega
    rw [amount, zpow_neg, zpow_natCast]
    push_cast
    rw [div_mul_eq_div_div, div_eq_mul_inv]
  · rename_i whole
    obtain ⟨n, rfl⟩ := Int.eq_ofNat_of_zero_le (not_lt.mp whole)
    rw [Int.toNat_natCast, zpow_natCast]
    push_cast
    ring

theorem gridPoint_eq_scale (d : Nat) (k : Int) : gridPoint d k = Ratio.scale ⟨d, 1⟩ k := by
  unfold gridPoint Ratio.scale
  simp only [Nat.one_mul]

theorem gridPoint_den (d : Nat) (k : Int) : 0 < (gridPoint d k).den := by
  rw [gridPoint_eq_scale]
  exact Ratio.scale_den Nat.one_pos k

theorem gridPoint_value (d : Nat) (k : Int) : (gridPoint d k).value = d * 10 ^ k := by
  rw [gridPoint_eq_scale, Ratio.scale_value, Ratio.value, Nat.cast_one, div_one]

/-- Rounding goes down to the quotient or up to the next integer, not past the middle. -/
theorem Ratio.round_cases (r : Ratio) (tie : Tie) :
    r.round tie = r.num / r.den ∧ 2 * (r.num % r.den) ≤ r.den ∨
      r.round tie = r.num / r.den + 1 ∧ r.den ≤ 2 * (r.num % r.den) := by
  unfold round
  cases tie <;> simp only <;> split_ifs <;> omega

theorem Ratio.round_near (positive : 0 < r.den) (tie : Tie) :
    |(r.round tie : ℚ) - r.value| ≤ 1 / 2 := by
  have positive' : (0 : ℚ) < r.den := by exact_mod_cast positive
  rw [value, div_eq_quotient_add r.num positive, abs_le]
  rcases r.round_cases tie with ⟨down, small⟩ | ⟨up, large⟩
  · have half : ((r.num % r.den : Nat) : ℚ) / r.den ≤ 1 / 2 := by
      rw [div_le_div_iff₀ positive' two_pos]
      exact_mod_cast by omega
    have low : 0 ≤ ((r.num % r.den : Nat) : ℚ) / r.den := by positivity
    rw [down]
    constructor <;> linarith
  · have half : (1 : ℚ) / 2 ≤ ((r.num % r.den : Nat) : ℚ) / r.den := by
      rw [div_le_div_iff₀ two_pos positive']
      exact_mod_cast by omega
    have high : ((r.num % r.den : Nat) : ℚ) / r.den < 1 := by
      rw [div_lt_one positive']
      exact_mod_cast Nat.mod_lt r.num positive
    rw [up]
    push_cast
    constructor <;> linarith

theorem Ratio.magnitude_le (some : 0 < r.num) (positive : 0 < r.den) :
    (10 : ℚ) ^ r.magnitude ≤ r.value := by
  have some' : (0 : ℚ) < r.num := by exact_mod_cast some
  have positive' : (0 : ℚ) < r.den := by exact_mod_cast positive
  unfold magnitude value
  rw [le_div_iff₀ positive']
  split
  · rename_i whole
    have quotient : 0 < r.num / r.den := Nat.div_pos whole positive
    have exponent : ((digitCount (r.num / r.den) : Int) - 1) = (digitCount (r.num / r.den) - 1 : Nat) := by
      have some := digitCount_pos (r.num / r.den)
      omega
    rw [exponent, zpow_natCast]
    have digits : 10 ^ (digitCount (r.num / r.den) - 1) * r.den ≤ r.num :=
      (Nat.mul_le_mul_right _ (digitCount_bounds quotient).1).trans (Nat.div_mul_le_self _ _)
    exact_mod_cast digits
  · rename_i fraction
    have quotient : 0 < r.den / r.num := Nat.div_pos (not_le.mp fraction).le some
    simp only
    split
    · rename_i fits
      have exponent : -((digitCount (r.den / r.num) : Int) - 1) =
          -(digitCount (r.den / r.num) - 1 : Nat) := by
        have some := digitCount_pos (r.den / r.num)
        omega
      rw [exponent, zpow_neg, zpow_natCast, inv_mul_le_iff₀ (by positivity), mul_comm]
      exact_mod_cast fits
    · have digits : r.den ≤ 10 ^ digitCount (r.den / r.num) * r.num :=
        calc
          r.den ≤ r.num * (r.den / r.num + 1) := (Nat.lt_mul_div_succ _ some).le
          _ ≤ r.num * 10 ^ digitCount (r.den / r.num) :=
            Nat.mul_le_mul_left _ (digitCount_bounds quotient).2
          _ = 10 ^ digitCount (r.den / r.num) * r.num := Nat.mul_comm _ _
      rw [zpow_neg, zpow_natCast, inv_mul_le_iff₀ (by positivity)]
      exact_mod_cast digits

end Ratios

section Search

variable {x : Dyadic} {k : Int} {tie : Tie} {d : Nat}

theorem interval_quarter (x : Dyadic) :
    (if x.exponent < 0 then (1 : ℚ) else 2 ^ x.exponent.toNat) / x.interval.den =
      2 ^ x.exponent / 4 := by
  unfold Dyadic.interval
  simp only
  split
  · rename_i negative
    obtain ⟨n, exponent⟩ := Int.exists_eq_neg_ofNat negative.le
    have amount : (- -(n : Int)).toNat = n := by omega
    rw [exponent, amount, zpow_neg, zpow_natCast]
    push_cast
    field_simp
  · rename_i whole
    obtain ⟨n, exponent⟩ := Int.eq_ofNat_of_zero_le (not_lt.mp whole)
    rw [exponent, Int.toNat_natCast, zpow_natCast]
    norm_num

theorem interval_den (x : Dyadic) : 0 < x.interval.den := by
  unfold Dyadic.interval
  simp only
  split <;> positivity

theorem interval_value (x : Dyadic) :
    Ratio.value ⟨x.interval.value, x.interval.den⟩ = x.value := by
  have quarter := interval_quarter x
  have shape : (x.interval.value : ℚ) =
      4 * x.mantissa * (if x.exponent < 0 then 1 else 2 ^ x.exponent.toNat) := by
    unfold Dyadic.interval
    push_cast
    rfl
  rw [Ratio.value, shape, mul_div_assoc, quarter, Dyadic.value]
  ring

theorem interval_low (canonical : x.Canonical) :
    (x.interval.low : ℚ) / x.interval.den = (x.mantissa - (x.below : ℚ) / 4) * 2 ^ x.exponent := by
  have quarter := interval_quarter x
  have least : x.below ≤ 4 * x.mantissa := by
    have some := canonical.positive
    unfold Dyadic.below
    split <;> omega
  have shape : (x.interval.low : ℚ) =
      (4 * x.mantissa - x.below) * (if x.exponent < 0 then 1 else 2 ^ x.exponent.toNat) := by
    change (((4 * x.mantissa - x.below) * (if x.exponent < 0 then 1 else 2 ^ x.exponent.toNat) : Nat) : ℚ) = _
    push_cast [Nat.cast_sub least]
    rfl
  rw [shape, mul_div_assoc, quarter]
  ring

theorem interval_high (x : Dyadic) :
    (x.interval.high : ℚ) / x.interval.den = (x.mantissa + 1 / 2) * 2 ^ x.exponent := by
  have quarter := interval_quarter x
  have shape : (x.interval.high : ℚ) =
      (4 * x.mantissa + 2) * (if x.exponent < 0 then 1 else 2 ^ x.exponent.toNat) := by
    unfold Dyadic.interval
    push_cast
    rfl
  rw [shape, mul_div_assoc, quarter]
  ring

/-- What lies in the interval of a number is near it. -/
theorem near_of_holds (canonical : x.Canonical) {r : Ratio} (positive : 0 < r.den)
    (holds : x.interval.holds r.num r.den = true) : x.Near r.value := by
  have unit : (0 : ℚ) < 2 ^ x.exponent := by positivity
  have den : (0 : ℚ) < x.interval.den := by exact_mod_cast interval_den x
  have den' : (0 : ℚ) < r.den := by exact_mod_cast positive
  have low : (x.interval.low : ℚ) / x.interval.den / 2 ^ x.exponent = x.mantissa - (x.below : ℚ) / 4 := by
    rw [interval_low canonical]
    field_simp
  have high : (x.interval.high : ℚ) / x.interval.den / 2 ^ x.exponent = x.mantissa + 1 / 2 := by
    rw [interval_high]
    field_simp
  refine ⟨r.value / 2 ^ x.exponent, by field_simp, ?_⟩
  rw [← low, ← high, Ratio.value]
  unfold Interval.holds at holds
  simp only at holds
  split at holds
  · rename_i closed
    simp only [Bool.and_eq_true, decide_eq_true_eq] at holds
    refine ⟨?_, ?_, fun _ => Nat.even_iff.mpr (of_decide_eq_true closed)⟩
    · gcongr ?_ / _
      rw [div_le_div_iff₀ den den']
      exact_mod_cast holds.1
    · gcongr ?_ / _
      rw [div_le_div_iff₀ den' den]
      exact_mod_cast holds.2
  · simp only [Bool.and_eq_true, decide_eq_true_eq] at holds
    have above : (x.interval.low : ℚ) / x.interval.den / 2 ^ x.exponent < r.num / r.den / 2 ^ x.exponent := by
      gcongr ?_ / _
      rw [div_lt_div_iff₀ den den']
      exact_mod_cast holds.1
    have under : (r.num : ℚ) / r.den / 2 ^ x.exponent < x.interval.high / x.interval.den / 2 ^ x.exponent := by
      gcongr ?_ / _
      rw [div_lt_div_iff₀ den' den]
      exact_mod_cast holds.2
    refine ⟨above.le, under.le, ?_⟩
    rintro (same | same)
    · exact absurd same above.ne'
    · exact absurd same under.ne

theorem holds_of_pick {i : Interval} (found : i.pick k tie = some d) :
    i.holds (gridPoint d k).num (gridPoint d k).den = true := by
  unfold Interval.pick at found
  simp only at found
  split at found
  · rename_i down up
    cases found
    rcases (Ratio.scale ⟨i.value, i.den⟩ (-k)).round_cases tie with ⟨same, -⟩ | ⟨same, -⟩
    · rwa [same]
    · rwa [same]
  · rename_i down up
    cases found
    exact down
  · rename_i down up
    cases found
    exact up
  · cases found

/-- The seventeenth digit is finer than a quarter of the gap above a number, and than that below it. -/
theorem below_grain (canonical : x.Canonical) : 2 * (x.mantissa : ℚ) < x.below * 10 ^ 16 := by
  have small := canonical.small
  have bound : 2 * x.mantissa < x.below * 10 ^ 16 := by
    unfold Dyadic.below
    split <;> omega
  exact_mod_cast bound

/-- What is at most half a step away is near a number with so many steps in it. -/
theorem near_of_close (canonical : x.Canonical) {q step : ℚ} (fine : step * 10 ^ 16 ≤ x.value)
    (close : |q - x.value| ≤ step / 2) : x.Near q := by
  have unit : (0 : ℚ) < 2 ^ x.exponent := by positivity
  have grain := below_grain canonical
  have below := x.below_le
  have fine' : step / 2 ^ x.exponent * 10 ^ 16 ≤ x.mantissa := by
    rwa [div_mul_eq_mul_div, div_le_iff₀ unit]
  have close' : |q / 2 ^ x.exponent - x.mantissa| ≤ step / 2 ^ x.exponent / 2 := by
    have shape : q / 2 ^ x.exponent - x.mantissa = (q - x.value) / 2 ^ x.exponent := by
      rw [Dyadic.value]
      field_simp
    rw [shape, abs_div, abs_of_pos unit, div_right_comm]
    gcongr
  obtain ⟨above, under⟩ := abs_le.mp close'
  refine ⟨q / 2 ^ x.exponent, by field_simp, by linarith, by linarith, ?_⟩
  rintro (same | same) <;> linarith

/-- Seventeen digits are enough to be near a number. -/
theorem near_of_seventeen (canonical : x.Canonical) (tie : Tie) :
    let i := x.interval
    let k := Ratio.magnitude ⟨i.value, i.den⟩ - 16
    x.Near ((Ratio.scale ⟨i.value, i.den⟩ (-k)).round tie * 10 ^ k) := by
  intro i k
  have step : (0 : ℚ) < 10 ^ k := by positivity
  have positive : 0 < i.den := interval_den x
  have value : Ratio.value ⟨i.value, i.den⟩ = x.value := interval_value x
  have some : 0 < i.value := by
    have mantissa := canonical.positive
    change 0 < 4 * x.mantissa * _
    positivity
  have near := ((⟨i.value, i.den⟩ : Ratio).scale (-k)).round_near (Ratio.scale_den positive _) tie
  rw [Ratio.scale_value, value, zpow_neg, ← div_eq_mul_inv] at near
  generalize ((Ratio.scale ⟨i.value, i.den⟩ (-k)).round tie : ℚ) = d at near ⊢
  have fine : (10 : ℚ) ^ k * 10 ^ 16 ≤ x.value := by
    have power : (10 : ℚ) ^ k * 10 ^ 16 = 10 ^ Ratio.magnitude ⟨i.value, i.den⟩ := by
      rw [← zpow_natCast, ← zpow_add₀ (by norm_num)]
      congr 1
      omega
    rw [power, ← value]
    exact Ratio.magnitude_le some positive
  apply near_of_close canonical fine
  have shape : d * 10 ^ k - x.value = (d - x.value / 10 ^ k) * 10 ^ k := by field_simp
  calc
    |d * 10 ^ k - x.value| = |d - x.value / 10 ^ k| * 10 ^ k := by
      rw [shape, abs_mul, abs_of_pos step]
    _ ≤ 1 / 2 * 10 ^ k := by gcongr
    _ = 10 ^ k / 2 := by ring

theorem search_near (canonical : x.Canonical) (tie : Tie) {fuel n : Nat} (all : fuel + n = 17) :
    let i := x.interval
    x.Near (i.search (Ratio.magnitude ⟨i.value, i.den⟩) tie fuel n).value := by
  intro i
  induction fuel generalizing n with
  | zero =>
      have exponent : Ratio.magnitude ⟨i.value, i.den⟩ - (n : Int) + 1 =
          Ratio.magnitude ⟨i.value, i.den⟩ - 16 := by omega
      unfold Interval.search Scientific.value
      simp only [exponent]
      exact near_of_seventeen canonical tie
  | succ fuel ih =>
      unfold Interval.search
      simp only
      split
      · rename_i d found
        have inside := near_of_holds canonical (gridPoint_den d _) (holds_of_pick found)
        rwa [gridPoint_value] at inside
      · exact ih (by omega)

theorem Scientific.trim_value (fuel : Nat) (s : Scientific) : (s.trim fuel).value = s.value := by
  induction fuel generalizing s with
  | zero => rfl
  | succ fuel ih =>
      unfold trim
      split
      · rename_i zeros
        have digits : (s.digits : ℚ) = 10 * (s.digits / 10 : Nat) := by
          exact_mod_cast (Nat.mul_div_cancel' (Nat.dvd_of_mod_eq_zero zeros.2)).symm
        have ten : (10 : ℚ) ≠ 0 := by norm_num
        rw [ih, value, value, digits, zpow_add_one₀ ten]
        ring
      · rfl

/-- The shortest decimal of a binary64 number is near it. -/
theorem shortest_near (canonical : x.Canonical) (tie : Tie) : x.Near (x.shortest tie).value := by
  rw [Dyadic.shortest, Scientific.trim_value]
  exact search_near canonical tie rfl

end Search

end SlideDeck.Decimal
