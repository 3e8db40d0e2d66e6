import Mathlib
import SlideDeck.Json.Reader
import SlideDeck.Proofs.Decimal.Shortest
import SlideDeck.Proofs.Decimal.Whole

/-!
The shortest decimal of a binary64 number can be multiplied out: its digits fit 64 bits, and the product
of its digits and its power of ten, each rounded and the product rounded again, does not overflow.
-/

namespace SlideDeck.Decimal

open Json.Reader (tenTo)

section Digits

variable {x : Dyadic} {r : Ratio} {k : Int} {tie : Tie} {d : Nat}

theorem Ratio.lt_magnitude (some : 0 < r.num) (positive : 0 < r.den) :
    r.value < (10 : ℚ) ^ (r.magnitude + 1) := by
  have some' : (0 : ℚ) < r.num := by exact_mod_cast some
  have positive' : (0 : ℚ) < r.den := by exact_mod_cast positive
  unfold magnitude value
  rw [div_lt_iff₀ positive']
  split
  · rename_i whole
    have quotient : 0 < r.num / r.den := Nat.div_pos whole positive
    rw [sub_add_cancel, zpow_natCast]
    have digits : r.num < 10 ^ digitCount (r.num / r.den) * r.den :=
      (Nat.div_lt_iff_lt_mul positive).mp (digitCount_bounds quotient).2
    exact_mod_cast digits
  · rename_i fraction
    have quotient : 0 < r.den / r.num := Nat.div_pos (not_le.mp fraction).le some
    have count := digitCount_pos (r.den / r.num)
    have least := (digitCount_bounds quotient).1
    simp only
    generalize digitCount (r.den / r.num) = l at count least ⊢
    obtain ⟨l, rfl⟩ : ∃ n, l = n + 1 := ⟨l - 1, by omega⟩
    rw [Nat.add_sub_cancel] at least ⊢
    have under : r.num * 10 ^ l ≤ r.den := by
      rw [Nat.mul_comm]
      exact (Nat.le_div_iff_mul_le some).mp least
    split
    · have exponent : -(((l + 1 : Nat) : Int) - 1) + 1 = -(l : Int) + 1 := by push_cast; ring
      rw [exponent, zpow_add_one₀ (by norm_num), zpow_neg, zpow_natCast, mul_assoc, inv_mul_eq_div,
        lt_div_iff₀ (by positivity)]
      have wide : r.num * 10 ^ l < 10 * r.den := by omega
      exact_mod_cast wide
    · rename_i less
      have exponent : -((l + 1 : Nat) : Int) + 1 = -(l : Int) := by push_cast; ring
      rw [exponent, zpow_neg, zpow_natCast, inv_mul_eq_div, lt_div_iff₀ (by positivity)]
      exact_mod_cast not_le.mp less

theorem Ratio.floor_lt (positive : 0 < r.den) {n : Nat} (bound : r.value < n) : r.num / r.den < n := by
  have positive' : (0 : ℚ) < r.den := by exact_mod_cast positive
  rw [value, div_lt_iff₀ positive'] at bound
  exact (Nat.div_lt_iff_lt_mul positive).mpr (by exact_mod_cast bound)

theorem floor_scale_lt (canonical : x.Canonical) (n : Nat) :
    let i := x.interval
    let scaled := Ratio.scale ⟨i.value, i.den⟩ (-(Ratio.magnitude ⟨i.value, i.den⟩ - n + 1))
    scaled.num / scaled.den < 10 ^ n := by
  intro i scaled
  have positive : 0 < i.den := interval_den x
  have some : 0 < i.value := by
    have mantissa := canonical.positive
    change 0 < 4 * x.mantissa * _
    positivity
  apply Ratio.floor_lt (Ratio.scale_den positive _)
  have high := Ratio.lt_magnitude (r := ⟨i.value, i.den⟩) some positive
  rw [Ratio.scale_value]
  calc
    _ < (10 : ℚ) ^ (Ratio.magnitude ⟨i.value, i.den⟩ + 1) *
        10 ^ (-(Ratio.magnitude ⟨i.value, i.den⟩ - n + 1)) := by gcongr
    _ = ((10 ^ n : Nat) : ℚ) := by
      rw [← zpow_add₀ (by norm_num), Nat.cast_pow, Nat.cast_ofNat, ← zpow_natCast]
      congr 1
      ring

theorem le_of_pick {i : Interval} (found : i.pick k tie = some d) :
    d ≤ (Ratio.scale ⟨i.value, i.den⟩ (-k)).num / (Ratio.scale ⟨i.value, i.den⟩ (-k)).den + 1 := by
  unfold Interval.pick at found
  simp only at found
  split at found
  · cases found
    rcases (Ratio.scale ⟨i.value, i.den⟩ (-k)).round_cases tie with ⟨same, -⟩ | ⟨same, -⟩ <;> omega
  · cases found
    omega
  · cases found
    exact le_rfl
  · cases found

theorem search_digits_le (canonical : x.Canonical) (tie : Tie) {fuel n : Nat} (all : fuel + n = 17) :
    let i := x.interval
    (i.search (Ratio.magnitude ⟨i.value, i.den⟩) tie fuel n).digits ≤ 10 ^ 17 := by
  intro i
  have fits : 10 ^ n ≤ 10 ^ 17 := Nat.pow_le_pow_right (by norm_num) (by omega)
  have floor : (Ratio.scale ⟨i.value, i.den⟩ (-(Ratio.magnitude ⟨i.value, i.den⟩ - n + 1))).num /
      (Ratio.scale ⟨i.value, i.den⟩ (-(Ratio.magnitude ⟨i.value, i.den⟩ - n + 1))).den < 10 ^ n :=
    floor_scale_lt canonical n
  induction fuel generalizing n with
  | zero =>
      unfold Interval.search
      rcases (Ratio.scale ⟨i.value, i.den⟩ (-(Ratio.magnitude ⟨i.value, i.den⟩ - n + 1))).round_cases tie with
        ⟨same, -⟩ | ⟨same, -⟩ <;> simp only [same] <;> omega
  | succ fuel ih =>
      unfold Interval.search
      simp only
      split
      · rename_i d found
        exact (le_of_pick found).trans (by omega)
      · exact ih (by omega) (Nat.pow_le_pow_right (by norm_num) (by omega)) (floor_scale_lt canonical _)

theorem Scientific.trim_digits_le (fuel : Nat) (s : Scientific) : (s.trim fuel).digits ≤ s.digits := by
  induction fuel generalizing s with
  | zero => exact le_rfl
  | succ fuel ih =>
      unfold trim
      split
      · exact (ih _).trans (Nat.div_le_self _ _)
      · exact le_rfl

theorem shortest_digits_le (canonical : x.Canonical) (tie : Tie) : (x.shortest tie).digits ≤ 10 ^ 17 :=
  (Scientific.trim_digits_le _ _).trans (search_digits_le canonical tie rfl)

theorem shortest_digits_pos (canonical : x.Canonical) (high : x.exponent ≤ 971) (tie : Tie) :
    0 < (x.shortest tie).digits := by
  have least := ((shortest_near canonical tie).bounds canonical high).1
  apply Nat.pos_of_ne_zero
  intro none
  have unit : (0 : ℚ) < 2 ^ (-1075 : Int) := by positivity
  rw [Scientific.value, none, Nat.cast_zero, zero_mul] at least
  linarith

theorem shortest_magnitude (canonical : x.Canonical) (high : x.exponent ≤ 971) (tie : Tie) :
    -340 < (x.shortest tie).exponent + digitCount (x.shortest tie).digits ∧
      (x.shortest tie).exponent + digitCount (x.shortest tie).digits ≤ 320 := by
  obtain ⟨least, most⟩ := (shortest_near canonical tie).bounds canonical high
  obtain ⟨low, under⟩ := (x.shortest tie).value_bounds (shortest_digits_pos canonical high tie)
  have ten : (1 : ℚ) < 10 := by norm_num
  constructor
  · rw [← zpow_lt_zpow_iff_right₀ ten]
    exact smallest_ge.trans_lt (least.trans_lt under)
  · have below : (x.shortest tie).exponent + digitCount (x.shortest tie).digits - 1 < 320 := by
      rw [← zpow_lt_zpow_iff_right₀ ten]
      exact (low.trans_lt most).trans_le largest_le
    omega

end Digits

section Product

variable {x a b : Dyadic} {q : ℚ} {n d e : Nat}

theorem Dyadic.Near.one_le (normal : x.Normal) (near : x.Near q) (one : 1 ≤ q) : 1 ≤ x.value := by
  obtain ⟨r, rfl, -, high, -⟩ := near
  have full := normal.full
  unfold value
  rcases le_or_gt 0 x.exponent with whole | fraction
  · have unit : (1 : ℚ) ≤ 2 ^ x.exponent := one_le_zpow₀ one_le_two whole
    have mantissa : (1 : ℚ) ≤ x.mantissa := by exact_mod_cast (by omega : 1 ≤ x.mantissa)
    exact one_le_mul_of_one_le_of_one_le mantissa unit
  · obtain ⟨k, exponent⟩ := Int.exists_eq_neg_ofNat fraction.le
    rw [exponent, zpow_neg, zpow_natCast, ← div_eq_mul_inv, le_div_iff₀ (by positivity), one_mul] at one ⊢
    have close : ((2 ^ k : Nat) : ℚ) < (x.mantissa + 1 : Nat) := by
      push_cast
      linarith
    have integers : 2 ^ k < x.mantissa + 1 := by exact_mod_cast close
    exact_mod_cast (by omega : 2 ^ k ≤ x.mantissa)

theorem Dyadic.Normal.inside (normal : x.Normal) (one : 1 ≤ x.value) : -1074 < x.exponent := by
  by_contra low
  have small : (x.mantissa : ℚ) < 2 ^ 53 := by exact_mod_cast normal.small
  have unit : (2 : ℚ) ^ x.exponent ≤ 2 ^ (-53 : Int) := zpow_le_zpow_right₀ one_le_two (by omega)
  have product : x.value < 2 ^ 53 * 2 ^ (-53 : Int) := by
    unfold value
    exact mul_lt_mul small unit (by positivity) (by positivity)
  have units : (2 : ℚ) ^ 53 * 2 ^ (-53 : Int) = 1 := by norm_num
  linarith

theorem exists_packed_mul (left : a.Normal) (right : b.Normal) (one : 1 ≤ a.value) (one' : 1 ≤ b.value)
    (bound : a.value * b.value < overflowBound) :
    ∃ y : Dyadic, y.Normal ∧ a.packed * b.packed = y.packed := by
  obtain ⟨y, normal, near⟩ := exists_near (one_le_mul_of_one_le_of_one_le one one') bound
  exact ⟨y, normal, Dyadic.packed_mul normal.canonical left right near⟩

theorem isInf_packed (normal : x.Normal) : x.packed.isInf = false := by
  unfold Float.isInf Float.Model.isInf
  rw [normal.unpack]
  rfl

theorem overflowBound_eq : overflowBound = (2 ^ 54 - 1) * (2 ^ 97) ^ 10 := by
  unfold overflowBound
  rw [← pow_mul, ← zpow_natCast]
  rfl

theorem exists_tenTo (range : e ≤ 308) :
    ∃ b : Dyadic, b.Normal ∧ b.Near (10 ^ e) ∧ 1 ≤ b.value ∧ tenTo e = b.packed := by
  have one : (1 : ℚ) ≤ 10 ^ e := one_le_pow₀ (by norm_num)
  have bound : (10 : ℚ) ^ e < overflowBound := by
    calc
      (10 : ℚ) ^ e ≤ 10 ^ (77 * 4) := pow_le_pow_right₀ (by norm_num) range
      _ = (10 ^ 77) ^ 4 := pow_mul _ _ _
      _ < (2 ^ 54 - 1) * (2 ^ 97) ^ 10 := by norm_num
      _ = overflowBound := overflowBound_eq.symm
  obtain ⟨b, normal, near⟩ := exists_near one bound
  refine ⟨b, normal, near, near.one_le normal one, ?_⟩
  apply ofScientific_eq normal.canonical Nat.one_pos false
  · simp only [Bool.false_eq_true, if_false]
    omega
  · simp only [Bool.false_eq_true, if_false]
    omega
  · simpa using near

theorem ofNat_eq_exact (positive : 0 < n) (small : n < 2 ^ 53) :
    Float.ofNat n = (Dyadic.normalized n 0).packed := by
  have canonical := Dyadic.normalized_canonical (e := 0) positive small (by norm_num)
  have value := Dyadic.normalized_value (e := 0) small
  have near := (Dyadic.normalized n 0).near_value
  rw [value] at near
  apply ofScientific_eq canonical positive false
  · simp only [Bool.false_eq_true, if_false]
    omega
  · simp only [Bool.false_eq_true, if_false]
    omega
  · simpa using near

theorem value?_ofNat (positive : 0 < n) (small : n ≤ 2 ^ 53) : value? (Float.ofNat n) = some (n : ℚ) := by
  rcases small.lt_or_eq with less | rfl
  · have normal : (Dyadic.normalized n 0).Normal := Dyadic.normalized_normal (k := 0) positive less (by omega)
    rw [ofNat_eq_exact positive less, value?_packed normal, Dyadic.normalized_value less, zpow_zero, mul_one]
  · have whole : whole? (Float.ofNat (2 ^ 53)) = some ((2 ^ 53 : Nat) : Int) := by decide +kernel
    exact whole?_eq_some_iff.mp whole

theorem Dyadic.Near.value_le_succ (normal : x.Normal) (near : x.Near q) (small : q < 2 ^ 54 - 2) :
    x.value ≤ q + 1 := by
  obtain ⟨r, rfl, low, -, -⟩ := near
  have below := x.below_le
  have full : (2 : ℚ) ^ 52 ≤ x.mantissa := by exact_mod_cast normal.full
  have least : (x.mantissa : ℚ) ≤ r + 1 / 2 := by linarith
  have exponent : x.exponent ≤ 1 := by
    by_contra large
    have unit : (2 : ℚ) ^ (2 : Int) ≤ 2 ^ x.exponent := zpow_le_zpow_right₀ one_le_two (by omega)
    have most : ((2 : ℚ) ^ 52 - 1 / 2) * 2 ^ (2 : Int) ≤ r * 2 ^ x.exponent :=
      mul_le_mul (by linarith) unit (by positivity) (by linarith)
    have edge : ((2 : ℚ) ^ 52 - 1 / 2) * 2 ^ (2 : Int) = 2 ^ 54 - 2 := by norm_num
    linarith
  have unit : (2 : ℚ) ^ x.exponent ≤ 2 ^ (1 : Int) := zpow_le_zpow_right₀ one_le_two exponent
  rw [zpow_one] at unit
  calc
    x.value ≤ (r + 1 / 2) * 2 ^ x.exponent := by
      unfold value
      gcongr
    _ = r * 2 ^ x.exponent + 2 ^ x.exponent / 2 := by ring
    _ ≤ r * 2 ^ x.exponent + 1 := by linarith

theorem Dyadic.Near.le_of_ne_largest (canonical : x.Canonical) (high : x.exponent ≤ 971)
    (other : x ≠ ⟨2 ^ 53 - 1, 971⟩) (near : x.Near q) : q ≤ (2 ^ 54 - 3) * (2 ^ 97) ^ 10 := by
  obtain ⟨r, rfl, -, most, -⟩ := near
  have powers : ((2 : ℚ) ^ 97) ^ 10 = 2 ^ (970 : Int) := by
    rw [← pow_mul, ← zpow_natCast]
    rfl
  have small := canonical.small
  rw [powers]
  rcases high.lt_or_eq with less | top
  · have unit : (2 : ℚ) ^ x.exponent ≤ 2 ^ (970 : Int) := zpow_le_zpow_right₀ one_le_two (by omega)
    have narrow : (x.mantissa : ℚ) ≤ 2 ^ 53 := by exact_mod_cast small.le
    have wide : r ≤ 2 ^ 54 - 3 := by linarith
    calc
      r * 2 ^ x.exponent ≤ (2 ^ 54 - 3) * 2 ^ x.exponent := by gcongr
      _ ≤ (2 ^ 54 - 3) * 2 ^ (970 : Int) := mul_le_mul_of_nonneg_left unit (by norm_num)
  · have before : x.mantissa ≤ 2 ^ 53 - 2 := by
      have differs : x.mantissa ≠ 2 ^ 53 - 1 := by
        intro last
        apply other
        obtain ⟨m, e⟩ := x
        simp only at last top
        rw [last, top]
      omega
    have narrow : (x.mantissa : ℚ) ≤ 2 ^ 53 - 2 := by
      have cast : (x.mantissa : ℚ) ≤ (2 ^ 53 - 2 : Nat) := by exact_mod_cast before
      norm_num at cast ⊢
      exact cast
    have wide : r * 2 ≤ 2 ^ 54 - 3 := by linarith
    have double : (2 : ℚ) ^ x.exponent = 2 * 2 ^ (970 : Int) := by
      rw [top, ← zpow_one_add₀ two_ne_zero]
      rfl
    calc
      r * 2 ^ x.exponent = r * 2 * 2 ^ (970 : Int) := by rw [double]; ring
      _ ≤ (2 ^ 54 - 3) * 2 ^ (970 : Int) := by gcongr

theorem isInf_product_small (positive : 0 < d) (digits : d ≤ 10 ^ 17) (range : e ≤ 291) :
    (Float.ofNat d * tenTo e).isInf = false := by
  obtain ⟨a, left, near, packed⟩ := ofNat_eq_packed positive (by omega)
  obtain ⟨b, right, near', one', packed'⟩ := exists_tenTo (by omega : e ≤ 308)
  have one := near.one_le left (by exact_mod_cast positive)
  have digits' : (d : ℚ) ≤ 10 ^ 17 := by exact_mod_cast digits
  have power : (10 : ℚ) ^ e ≤ (10 ^ 97) ^ 3 := by
    rw [← pow_mul]
    exact pow_le_pow_right₀ (by norm_num) range
  obtain ⟨y, normal, product⟩ := exists_packed_mul left right one one' <| by
    calc
      a.value * b.value ≤ d * (1 + 1 / 2 ^ 53) * (10 ^ e * (1 + 1 / 2 ^ 53)) := by
        gcongr
        · exact near.value_le left (left.inside one)
        · exact near'.value_le right (right.inside one')
      _ ≤ 10 ^ 17 * (1 + 1 / 2 ^ 53) * ((10 ^ 97) ^ 3 * (1 + 1 / 2 ^ 53)) := by gcongr
      _ < (2 ^ 54 - 1) * (2 ^ 97) ^ 10 := by norm_num
      _ = overflowBound := overflowBound_eq.symm
  rw [packed, packed', product]
  exact isInf_packed normal

theorem isInf_product_exact (positive : 0 < d) (small : d < 2 ^ 53) (range : e ≤ 308)
    (bound : (d * 10 ^ e : ℚ) ≤ (2 ^ 54 - 3) * (2 ^ 97) ^ 10) :
    (Float.ofNat d * tenTo e).isInf = false := by
  obtain ⟨b, right, near, one', packed⟩ := exists_tenTo range
  have left : (Dyadic.normalized d 0).Normal :=
    Dyadic.normalized_normal (k := 0) positive small (by omega)
  have value : (Dyadic.normalized d 0).value = d := by
    rw [Dyadic.normalized_value small, zpow_zero, mul_one]
  have one : 1 ≤ (Dyadic.normalized d 0).value := by
    rw [value]
    exact_mod_cast positive
  obtain ⟨y, normal, product⟩ := exists_packed_mul left right one one' <| by
    calc
      (Dyadic.normalized d 0).value * b.value ≤ d * (10 ^ e * (1 + 1 / 2 ^ 53)) := by
        rw [value]
        gcongr
        exact near.value_le right (right.inside one')
      _ = d * 10 ^ e * (1 + 1 / 2 ^ 53) := by ring
      _ ≤ (2 ^ 54 - 3) * (2 ^ 97) ^ 10 * (1 + 1 / 2 ^ 53) := by gcongr
      _ < (2 ^ 54 - 1) * (2 ^ 97) ^ 10 := by norm_num
      _ = overflowBound := overflowBound_eq.symm
  rw [ofNat_eq_exact positive small, packed, product]
  exact isInf_packed normal

/-- The power of ten at which the largest number is written. -/
theorem tenTo_largest : tenTo 292 = Dyadic.packed ⟨4512985939662074, 918⟩ := by
  decide +kernel

theorem isInf_product_largest (positive : 0 < d) (digits : d < 17976931348623157) :
    (Float.ofNat d * tenTo 292).isInf = false := by
  obtain ⟨a, left, near, packed⟩ := ofNat_eq_packed positive (by omega)
  have right : Dyadic.Normal ⟨4512985939662074, 918⟩ := by constructor <;> norm_num
  have one := near.one_le left (by exact_mod_cast positive)
  have value : Dyadic.value ⟨4512985939662074, 918⟩ = 4512985939662074 * (2 ^ 102) ^ 9 := by
    unfold Dyadic.value
    rw [← pow_mul, ← zpow_natCast]
    rfl
  have digits' : (d : ℚ) + 1 ≤ 17976931348623157 := by exact_mod_cast digits
  obtain ⟨y, normal, product⟩ := exists_packed_mul left right one
      (by rw [value]; norm_num) <| by
    calc
      a.value * Dyadic.value ⟨4512985939662074, 918⟩ ≤ 17976931348623157 * (4512985939662074 * (2 ^ 102) ^ 9) := by
        rw [value]
        gcongr
        exact (near.value_le_succ left (by linarith)).trans digits'
      _ < (2 ^ 54 - 1) * (2 ^ 97) ^ 10 := by norm_num
      _ = overflowBound := overflowBound_eq.symm
  rw [packed, tenTo_largest, product]
  exact isInf_packed normal

/-- Multiplying out the shortest decimal of a finite number does not overflow. -/
theorem isInf_shortest_product (canonical : x.Canonical) (high : x.exponent ≤ 971)
    (whole : 0 ≤ (x.shortest .even).exponent) :
    (x.shortest .even).exponent ≤ 308 ∧
      (Float.ofNat (x.shortest .even).digits * tenTo (x.shortest .even).exponent.toNat).isInf = false := by
  by_cases largest : x = ⟨2 ^ 53 - 1, 971⟩
  · subst largest
    decide +kernel
  · have positive := shortest_digits_pos canonical high .even
    have digits := shortest_digits_le canonical .even
    have bound := (shortest_near canonical .even).le_of_ne_largest canonical high largest
    obtain ⟨k, exponent⟩ := Int.eq_ofNat_of_zero_le whole
    unfold Scientific.value at bound
    rw [exponent, zpow_natCast] at bound
    rw [exponent, Int.toNat_natCast]
    generalize (x.shortest .even).digits = d at positive digits bound ⊢
    have bound' : d * 10 ^ k ≤ (2 ^ 54 - 3) * (2 ^ 97) ^ 10 := by
      have cast : ((d * 10 ^ k : Nat) : ℚ) ≤ ((2 ^ 54 - 3) * (2 ^ 97) ^ 10 : Nat) := by
        push_cast
        norm_num at bound ⊢
        exact bound
      exact_mod_cast cast
    have range : k ≤ 308 := by
      by_contra large
      have power : (10 ^ 103) ^ 3 ≤ 10 ^ k := by
        rw [← pow_mul]
        exact pow_le_pow_right₀ (by norm_num) (by omega)
      have product : 1 * (10 ^ 103) ^ 3 ≤ d * 10 ^ k := Nat.mul_le_mul positive power
      norm_num at product bound'
      omega
    refine ⟨by exact_mod_cast range, ?_⟩
    rcases lt_trichotomy k 292 with less | rfl | more
    · exact isInf_product_small positive digits (by omega)
    · apply isInf_product_largest positive
      by_contra large
      have product : 17976931348623157 * (10 ^ 73) ^ 4 ≤ d * 10 ^ (73 * 4) := by
        rw [pow_mul]
        gcongr
        omega
      norm_num at product bound'
      omega
    · refine isInf_product_exact positive ?_ range bound
      by_contra large
      have power : 10 * (10 ^ 73) ^ 4 ≤ 10 ^ k := by
        rw [← pow_mul, ← pow_succ']
        exact pow_le_pow_right₀ (by norm_num) (by omega)
      have product : 2 ^ 53 * (10 * (10 ^ 73) ^ 4) ≤ d * 10 ^ k :=
        Nat.mul_le_mul (not_lt.mp large) power
      norm_num at product bound'
      omega

end Product

end SlideDeck.Decimal
