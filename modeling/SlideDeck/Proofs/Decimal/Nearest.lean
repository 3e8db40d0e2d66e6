import Mathlib
import SlideDeck.Proofs.Decimal.Magnitude

/-!
Every number from one to the largest binary64 number has a binary64 number nearest to it, whose relative
error is at most half a unit in the last place.
-/

namespace SlideDeck.Decimal

section Existence

variable {q : ℚ} {n : Nat} {e : Int}

/-- Half a unit above the largest number, where rounding begins to overflow. -/
def overflowBound : ℚ := (2 ^ 54 - 1) * 2 ^ (970 : Int)

theorem Dyadic.Normal.canonical {x : Dyadic} (normal : x.Normal) : x.Canonical :=
  ⟨normal.positive, normal.small, normal.low, fun _ => normal.full⟩

/-- A number with the 53 bits of its binade before the point. -/
theorem exists_binade (one : 1 ≤ q) : ∃ e : Int, -1074 < e ∧
    (2 : ℚ) ^ 52 ≤ q / 2 ^ e ∧ q / 2 ^ e < 2 ^ 53 := by
  have positive : 0 < q := by linarith
  have low := Int.zpow_log_le_self (b := 2) one_lt_two positive
  have high := Int.lt_zpow_succ_log_self (b := 2) one_lt_two q
  have whole : 0 ≤ Int.log 2 q := by
    rw [Int.log_of_one_le_right 2 one]
    exact Int.natCast_nonneg _
  push_cast at low high
  refine ⟨Int.log 2 q - 52, by omega, ?_, ?_⟩
  · rw [le_div_iff₀ (by positivity), ← zpow_natCast, ← zpow_add₀ two_ne_zero]
    simpa using low
  · rw [div_lt_iff₀ (by positivity), ← zpow_natCast, ← zpow_add₀ two_ne_zero]
    convert high using 2
    omega

theorem near_floor (low : (n : ℚ) ≤ q / 2 ^ e) (high : q / 2 ^ e ≤ n + 1 / 2)
    (even : q / 2 ^ e = n + 1 / 2 → Even n) : Dyadic.Near ⟨n, e⟩ q := by
  have gap : (0 : ℚ) < Dyadic.below ⟨n, e⟩ := by
    unfold Dyadic.below
    split <;> norm_num
  refine ⟨q / 2 ^ e, by field_simp, by simp only; linarith, high, ?_⟩
  rintro (under | above)
  · simp only at under
    linarith
  · exact even above

theorem near_ceil (full : 2 ^ 52 ≤ n) (low : (n : ℚ) + 1 / 2 ≤ q / 2 ^ e)
    (high : q / 2 ^ e < n + 1) (even : q / 2 ^ e = n + 1 / 2 → Even (n + 1)) :
    Dyadic.Near ⟨n + 1, e⟩ q := by
  have gap : Dyadic.below ⟨n + 1, e⟩ = 2 := if_neg fun power => by
    simp only at power
    omega
  refine ⟨q / 2 ^ e, by field_simp, ?_, ?_, ?_⟩
  · rw [gap]
    push_cast
    linarith
  · push_cast
    linarith
  · rw [gap]
    push_cast
    rintro (under | above)
    · exact even (by linarith)
    · linarith

theorem near_carry (least : -1074 < e) (low : (2 : ℚ) ^ 53 - 1 / 2 ≤ q / 2 ^ e)
    (high : q / 2 ^ e < 2 ^ 53) : Dyadic.Near ⟨2 ^ 52, e + 1⟩ q := by
  have gap : Dyadic.below ⟨2 ^ 52, e + 1⟩ = 1 := if_pos ⟨rfl, by simp only; omega⟩
  have half : q / 2 ^ (e + 1) = q / 2 ^ e / 2 := by
    rw [zpow_add_one₀ two_ne_zero, div_div]
  have even : Even (2 ^ 52) := by decide
  refine ⟨q / 2 ^ (e + 1), by field_simp, ?_, ?_, fun _ => even⟩
  · rw [gap, half]
    push_cast
    linarith
  · rw [half]
    push_cast
    linarith

/-- Below the overflow, rounding up stays within the exponents of binary64. -/
theorem exists_near_ceil (bound : q < overflowBound) (least : -1074 < e) (range : e ≤ 971)
    (full : 2 ^ 52 ≤ n) (narrow : n < 2 ^ 53) (low : (n : ℚ) + 1 / 2 ≤ q / 2 ^ e)
    (high : q / 2 ^ e < n + 1) (even : q / 2 ^ e = n + 1 / 2 → Even (n + 1)) :
    ∃ x : Dyadic, x.Normal ∧ x.Near q := by
  rcases (by omega : n + 1 < 2 ^ 53 ∨ n = 2 ^ 53 - 1) with fits | rfl
  · exact ⟨⟨n + 1, e⟩, ⟨by simp only; omega, fits, least.le, range⟩, near_ceil full low high even⟩
  · have low' : (2 : ℚ) ^ 53 - 1 / 2 ≤ q / 2 ^ e := by
      norm_num at low ⊢
      linarith
    have high' : q / 2 ^ e < 2 ^ 53 := by
      norm_num at high ⊢
      linarith
    have room : e ≠ 970 + 1 := by
      rintro rfl
      rw [le_div_iff₀ (by positivity), zpow_add_one₀ two_ne_zero] at low'
      unfold overflowBound at bound
      linarith
    exact ⟨⟨2 ^ 52, e + 1⟩, ⟨le_rfl, by norm_num, by simp only; omega, by simp only; omega⟩,
      near_carry least low' high'⟩

theorem exponent_le_of_bound (low : (2 : ℚ) ^ 52 ≤ q / 2 ^ e) (bound : q < overflowBound) : e ≤ 971 := by
  have under : (2 : ℚ) ^ (52 + e) ≤ q := by
    rw [le_div_iff₀ (by positivity)] at low
    rwa [zpow_add₀ two_ne_zero]
  have top : overflowBound < 2 ^ (1024 : Int) := by
    calc
      overflowBound < 2 ^ (54 : Int) * 2 ^ (970 : Int) := by
        unfold overflowBound
        gcongr
        norm_num
      _ = 2 ^ (1024 : Int) := by rw [← zpow_add₀ two_ne_zero]; rfl
  have less : 52 + e < 1024 := by
    rw [← zpow_lt_zpow_iff_right₀ (one_lt_two : (1 : ℚ) < 2)]
    linarith
  omega

theorem exists_near (one : 1 ≤ q) (bound : q < overflowBound) :
    ∃ x : Dyadic, x.Normal ∧ x.Near q := by
  obtain ⟨e, least, low, high⟩ := exists_binade one
  have range := exponent_le_of_bound low bound
  obtain ⟨n, floor⟩ : ∃ n : Nat, n = ⌊q / 2 ^ e⌋₊ := ⟨_, rfl⟩
  have below : (n : ℚ) ≤ q / 2 ^ e := by
    rw [floor]
    exact Nat.floor_le (by positivity)
  have above : q / 2 ^ e < n + 1 := by
    rw [floor]
    exact Nat.lt_floor_add_one _
  have full : 2 ^ 52 ≤ n := by
    rw [floor]
    exact Nat.le_floor (by exact_mod_cast low)
  have narrow : n < 2 ^ 53 := by
    have less : (n : ℚ) < 2 ^ 53 := below.trans_lt high
    exact_mod_cast less
  have normal : Dyadic.Normal ⟨n, e⟩ := ⟨full, narrow, least.le, range⟩
  rcases lt_trichotomy (q / 2 ^ e) (n + 1 / 2) with under | middle | upper
  · exact ⟨_, normal, near_floor below under.le fun same => absurd same under.ne⟩
  · by_cases even : Even n
    · exact ⟨_, normal, near_floor below middle.le fun _ => even⟩
    · exact exists_near_ceil bound least range full narrow middle.ge above fun _ =>
        Nat.even_add_one.mpr even
  · exact exists_near_ceil bound least range full narrow upper.le above fun same =>
      absurd same upper.ne'

end Existence

section Error

variable {x : Dyadic} {q : ℚ}

/-- Rounding adds no more than half a unit in the last place. -/
theorem Dyadic.Near.value_le (normal : x.Normal) (inside : -1074 < x.exponent) (near : x.Near q) :
    x.value ≤ q * (1 + 1 / 2 ^ 53) := by
  obtain ⟨r, rfl, low, -, -⟩ := near
  have full : ((2 : ℚ) ^ 52) ≤ x.mantissa := by exact_mod_cast normal.full
  have unit : (x.mantissa : ℚ) ≤ r * (1 + 1 / 2 ^ 53) := by
    by_cases power : x.mantissa = 2 ^ 52
    · have gap : x.below = 1 := if_pos ⟨power, inside⟩
      rw [gap] at low
      push_cast at low
      linarith
    · have gap : x.below = 2 := if_neg fun both => power both.1
      have more : ((2 : ℚ) ^ 52) + 1 ≤ x.mantissa := by
        have next := normal.full
        exact_mod_cast (by omega : 2 ^ 52 + 1 ≤ x.mantissa)
      rw [gap] at low
      push_cast at low
      linarith
  calc
    x.value ≤ r * (1 + 1 / 2 ^ 53) * 2 ^ x.exponent := by
      unfold value
      gcongr
    _ = r * 2 ^ x.exponent * (1 + 1 / 2 ^ 53) := by ring

theorem Dyadic.Near.le_double (normal : x.Normal) (near : x.Near q) : q ≤ 2 * x.value := by
  obtain ⟨r, rfl, -, high, -⟩ := near
  have full : ((2 : ℚ) ^ 52) ≤ x.mantissa := by exact_mod_cast normal.full
  have unit : r ≤ 2 * x.mantissa := by linarith
  calc
    r * 2 ^ x.exponent ≤ 2 * x.mantissa * 2 ^ x.exponent := by gcongr
    _ = 2 * x.value := by
      unfold value
      ring

end Error

end SlideDeck.Decimal
