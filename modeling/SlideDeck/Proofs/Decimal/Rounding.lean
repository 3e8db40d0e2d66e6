import Mathlib
import SlideDeck.Decimal.Binary

/-!
Rounding to binary64. A mantissa with its residual bits stands for a number up to what rounding can
tell; shifting keeps that, and so whatever lies in the interval of a binary64 number rounds to it.
-/

namespace SlideDeck.Decimal

open Float.Model Float.Model.UnpackedFloat

/-- The number `r`, in units of the mantissa, is what the mantissa and its residual bits say. -/
def Represents (em : ExtendedMantissa) (r : ℚ) : Prop :=
  ∃ rest : ℚ, 0 ≤ rest ∧ rest < 1 / 2 ∧ (em.stickyBit = true ↔ 0 < rest) ∧
    r = em.mantissa + (if em.roundBit then 1 / 2 else 0) + rest

/-- No integer is nearer to `r` than `m`, and `m` is even if another one is as near. -/
def Nearest (m : Nat) (r : ℚ) : Prop := |r - m| ≤ 1 / 2 ∧ (|r - m| = 1 / 2 → Even m)

section Residual

variable {em : ExtendedMantissa} {r : ℚ} {m : Nat}

theorem Represents.floor (represents : Represents em r) :
    (em.mantissa : ℚ) ≤ r ∧ r < em.mantissa + 1 := by
  obtain ⟨rest, low, high, -, rfl⟩ := represents
  constructor <;> split <;> linarith

theorem Represents.shiftRightOne (represents : Represents em r) :
    Represents em.shiftRightOne (r / 2) := by
  obtain ⟨rest, low, high, sticky, rfl⟩ := represents
  have parts : (em.mantissa : ℚ) = 2 * (em.mantissa / 2 : Nat) + (em.mantissa % 2 : Nat) := by
    exact_mod_cast (Nat.div_add_mod em.mantissa 2).symm
  refine ⟨(if em.roundBit then 1 / 4 else 0) + rest / 2, ?_, ?_, ?_, ?_⟩
  · split <;> linarith
  · split <;> linarith
  · cases bit : em.roundBit
    · simp [ExtendedMantissa.shiftRightOne, bit, sticky]
    · have positive : 0 < 1 / 4 + rest / 2 := by linarith
      simpa [ExtendedMantissa.shiftRightOne, bit] using positive
  · rw [parts]
    rcases Nat.mod_two_eq_zero_or_one em.mantissa with even | odd
    · simp only [ExtendedMantissa.shiftRightOne, even]
      cases em.roundBit <;> norm_num <;> ring
    · simp only [ExtendedMantissa.shiftRightOne, odd]
      cases em.roundBit <;> norm_num <;> ring

theorem Represents.shiftRight (represents : Represents em r) (n : Nat) :
    Represents (em >>> n) (r / 2 ^ n) := by
  change Represents (n.repeat ExtendedMantissa.shiftRightOne em) _
  induction n with
  | zero => simpa [Nat.repeat] using represents
  | succ n ih =>
      rw [Nat.repeat, pow_succ, ← div_div]
      exact ih.shiftRightOne

/-- The nearest integer is one of the two around `r`, an even one in the middle. -/
theorem Nearest.around {n : Nat} (nearest : Nearest m r) (low : (n : ℚ) ≤ r) (high : r < n + 1) :
    m = n ∧ r ≤ n + 1 / 2 ∧ (r = n + 1 / 2 → n % 2 = 0) ∨
      m = n + 1 ∧ n + 1 / 2 ≤ r ∧ (r = n + 1 / 2 → n % 2 = 1) := by
  obtain ⟨near, tie⟩ := nearest
  obtain ⟨above, below⟩ := abs_le.mp near
  have least : n ≤ m := by
    have bound : (n : ℚ) < m + 1 := by linarith
    exact Nat.lt_succ_iff.mp (by exact_mod_cast bound)
  have most : m < n + 2 := by
    have bound : (m : ℚ) < n + 2 := by linarith
    exact_mod_cast bound
  rcases (by omega : m = n ∨ m = n + 1) with rfl | rfl
  · refine Or.inl ⟨rfl, by linarith, fun middle => ?_⟩
    have half : |r - m| = 1 / 2 := by
      rw [middle]
      norm_num
    exact Nat.even_iff.mp (tie half)
  · push_cast at above below tie
    refine Or.inr ⟨rfl, by linarith, fun middle => ?_⟩
    have half : |r - (n + 1)| = 1 / 2 := by
      rw [middle]
      norm_num
    have even := Nat.even_iff.mp (tie half)
    omega

theorem Represents.roundedMantissa (represents : Represents em r) (nearest : Nearest m r) :
    em.roundedMantissa = m := by
  have around := nearest.around represents.floor.1 represents.floor.2
  obtain ⟨rest, low, high, sticky, rfl⟩ := represents
  obtain ⟨n, roundBit, stickyBit⟩ := em
  simp only at sticky around
  -- the residual bits tell on which side of the middle `r` lies
  cases roundBit <;> cases stickyBit
  · have none : rest = 0 := by linarith [not_lt.mp fun some => by simpa using sticky.mpr some]
    subst none
    rcases around with ⟨rfl, -⟩ | ⟨-, middle, -⟩
    · rfl
    · norm_num at middle
  · rcases around with ⟨rfl, -⟩ | ⟨-, middle, -⟩
    · rfl
    · norm_num at middle
      linarith
  · have none : rest = 0 := by linarith [not_lt.mp fun some => by simpa using sticky.mpr some]
    subst none
    simp only [ExtendedMantissa.roundedMantissa, ExtendedMantissa.accuracy,
      Accuracy.roundToNearestEven]
    rcases around with ⟨rfl, -, even⟩ | ⟨rfl, -, odd⟩
    · rw [even (by norm_num), Nat.add_zero]
    · rw [odd (by norm_num)]
  · have some : 0 < rest := sticky.mp rfl
    rcases around with ⟨-, middle, -⟩ | ⟨rfl, -⟩
    · norm_num at middle
      linarith
    · rfl

end Residual

section Shifting

variable {em : ExtendedMantissa} {q : ℚ} {m n : Nat} {e t : Int} {accuracy : Accuracy}

theorem represents_exact (m : Nat) :
    Represents (ExtendedMantissa.ofMantissaAndAccuracy m .exact) m :=
  ⟨0, le_rfl, by norm_num, by simp [ExtendedMantissa.ofMantissaAndAccuracy],
    by simp [ExtendedMantissa.ofMantissaAndAccuracy]⟩

theorem mantissa_ofMantissaAndAccuracy (m : Nat) (accuracy : Accuracy) :
    (ExtendedMantissa.ofMantissaAndAccuracy m accuracy).mantissa = m := by
  rcases accuracy with _ | (_ | _ | _) <;> rfl

/-- The exponent of a number with as many bits as a mantissa holds. -/
theorem targetExponent_eq (m : Nat) (e : Int) :
    Format.binary64.targetExponent (totalExponent m e) = max (m.log2 + e - 52) (-1074) := by
  simp only [Format.targetExponent, totalExponent, Format.mantissaBits, Format.minExponent]
  norm_num
  omega

theorem shift_to_target
    (start : Represents (ExtendedMantissa.ofMantissaAndAccuracy m accuracy) (q / 2 ^ e))
    (target : Format.binary64.targetExponent (totalExponent m e) = t) (le : e ≤ t) :
    ∃ em, shiftToTargetExponent Format.binary64 m e accuracy = (em, t) ∧
      Represents em (q / 2 ^ t) := by
  obtain ⟨k, rfl⟩ := Int.le.dest le
  have amount : (e + k - e).toNat = k := by omega
  refine ⟨ExtendedMantissa.ofMantissaAndAccuracy m accuracy >>> k, ?_, ?_⟩
  · simp only [shiftToTargetExponent, shiftToExponent, target, amount]
  · rw [zpow_add₀ two_ne_zero, zpow_natCast, ← div_div]
    exact start.shiftRight k

theorem log2_le_of_small (small : m < 2 ^ 53) : m.log2 ≤ 52 := by
  rcases Nat.eq_zero_or_pos m with rfl | positive
  · simp
  · exact Nat.lt_succ_iff.mp ((Nat.log2_lt positive.ne').mpr small)

theorem shift_fitting (small : m < 2 ^ 53) (low : -1074 ≤ e) :
    shiftToTargetExponent Format.binary64 m e .exact = (⟨m, false, false⟩, e) := by
  have bits := log2_le_of_small small
  have amount : (Format.binary64.targetExponent (totalExponent m e) - e).toNat = 0 := by
    rw [targetExponent_eq]
    omega
  simp only [shiftToTargetExponent, shiftToExponent, amount, Nat.cast_zero, add_zero]
  rfl

theorem shift_carried (low : -1074 ≤ e) :
    shiftToTargetExponent Format.binary64 (2 ^ 53) e .exact = (⟨2 ^ 52, false, false⟩, e + 1) := by
  have amount : (Format.binary64.targetExponent (totalExponent (2 ^ 53) e) - e).toNat = 1 := by
    rw [targetExponent_eq, Nat.log2_two_pow]
    omega
  simp only [shiftToTargetExponent, shiftToExponent, amount]
  rfl

end Shifting

structure Dyadic.Canonical (x : Dyadic) : Prop where
  positive : 0 < x.mantissa
  small : x.mantissa < 2 ^ 53
  low : -1074 ≤ x.exponent
  normal : -1074 < x.exponent → 2 ^ 52 ≤ x.mantissa

def Dyadic.value (x : Dyadic) : ℚ := x.mantissa * 2 ^ x.exponent

def Dyadic.below (x : Dyadic) : Nat := if x.mantissa = 2 ^ 52 ∧ -1074 < x.exponent then 1 else 2

/-- No binary64 number is nearer to `q` than `x`, and `x` is even if another one is as near. -/
def Dyadic.Near (x : Dyadic) (q : ℚ) : Prop :=
  ∃ r : ℚ, q = r * 2 ^ x.exponent ∧ x.mantissa - (x.below : ℚ) / 4 ≤ r ∧ r ≤ x.mantissa + 1 / 2 ∧
    (r = x.mantissa - (x.below : ℚ) / 4 ∨ r = x.mantissa + 1 / 2 → Even x.mantissa)

section Nearness

variable {x : Dyadic} {q r : ℚ} {m : Nat} {e : Int} {accuracy : Accuracy}

theorem Dyadic.below_le (x : Dyadic) : (x.below : ℚ) ≤ 2 := by
  unfold below
  split <;> norm_num

theorem Dyadic.nearest (low : x.mantissa - (x.below : ℚ) / 4 ≤ r) (high : r ≤ x.mantissa + 1 / 2)
    (ends : r = x.mantissa - (x.below : ℚ) / 4 ∨ r = x.mantissa + 1 / 2 → Even x.mantissa) :
    Nearest x.mantissa r := by
  have below := x.below_le
  have near : |r - x.mantissa| ≤ 1 / 2 := by
    rw [abs_le]
    constructor <;> linarith
  refine ⟨near, fun half => ends ?_⟩
  rcases (abs_eq (by norm_num)).mp half with above | under
  · exact Or.inr (by linarith)
  · exact Or.inl (by linarith)

/-- Only the gap below a power of two reaches into the binade before, where rounding carries. -/
theorem Dyadic.nearest_below (canonical : x.Canonical) (normal : -1074 < x.exponent)
    (low : x.mantissa - (x.below : ℚ) / 4 ≤ r) (under : r < 2 ^ 52) :
    x.mantissa = 2 ^ 52 ∧ 2 ^ 52 - 1 / 4 ≤ r ∧ Nearest (2 ^ 53) (2 * r) := by
  have atLeast := canonical.normal normal
  have mantissa : x.mantissa = 2 ^ 52 := by
    by_contra other
    have above : ((2 : ℚ) ^ 52) + 1 ≤ x.mantissa := by exact_mod_cast by omega
    linarith [x.below_le]
  have below : x.below = 1 := if_pos ⟨mantissa, normal⟩
  rw [mantissa, below] at low
  push_cast at low
  have near : |2 * r - ((2 ^ 53 : Nat) : ℚ)| ≤ 1 / 2 := by
    push_cast
    rw [abs_le]
    constructor <;> linarith
  exact ⟨mantissa, low, near, fun _ => by decide⟩

theorem Represents.binade
    (start : Represents (ExtendedMantissa.ofMantissaAndAccuracy m accuracy) (q / 2 ^ e))
    (positive : 0 < m) :
    (2 : ℚ) ^ (m.log2 + e) ≤ q ∧ q < 2 ^ (m.log2 + e + 1) := by
  obtain ⟨low, high⟩ := start.floor
  rw [mantissa_ofMantissaAndAccuracy] at low high
  have unit : (0 : ℚ) < 2 ^ e := by positivity
  rw [le_div_iff₀ unit] at low
  rw [div_lt_iff₀ unit] at high
  have least : ((2 : ℚ) ^ m.log2) ≤ m := by
    exact_mod_cast Nat.log2_self_le (Nat.ne_of_gt positive)
  have most : (m : ℚ) + 1 ≤ 2 ^ (m.log2 + 1) := by
    exact_mod_cast Nat.lt_log2_self
  constructor
  · calc
      (2 : ℚ) ^ (m.log2 + e) = 2 ^ m.log2 * 2 ^ e := by rw [zpow_add₀ two_ne_zero, zpow_natCast]
      _ ≤ m * 2 ^ e := by gcongr
      _ ≤ q := low
  · calc
      q < (m + 1) * 2 ^ e := high
      _ ≤ 2 ^ (m.log2 + 1) * 2 ^ e := by gcongr
      _ = 2 ^ (m.log2 + e + 1) := by
        rw [add_right_comm, zpow_add₀ two_ne_zero]
        norm_cast

theorem Represents.log2_eq
    (start : Represents (ExtendedMantissa.ofMantissaAndAccuracy m accuracy) (q / 2 ^ e))
    (positive : 0 < m) {top : Int} (low : (2 : ℚ) ^ top ≤ q) (high : q < 2 ^ (top + 1)) :
    m.log2 + e = top := by
  obtain ⟨least, most⟩ := start.binade positive
  have above : m.log2 + e < top + 1 := by
    rw [← zpow_lt_zpow_iff_right₀ (one_lt_two : (1 : ℚ) < 2)]
    exact least.trans_lt high
  have under : top < m.log2 + e + 1 := by
    rw [← zpow_lt_zpow_iff_right₀ (one_lt_two : (1 : ℚ) < 2)]
    exact low.trans_lt most
  omega

theorem Represents.lt_unit
    (start : Represents (ExtendedMantissa.ofMantissaAndAccuracy 0 accuracy) (q / 2 ^ e)) :
    q < 2 ^ e := by
  have high := start.floor.2
  rw [mantissa_ofMantissaAndAccuracy, Nat.cast_zero, zero_add, div_lt_one (by positivity)] at high
  exact high

theorem Represents.pos_of_le
    (start : Represents (ExtendedMantissa.ofMantissaAndAccuracy m accuracy) (q / 2 ^ e))
    (grain : 2 ^ 52 ≤ m ∨ e ≤ -1074) (large : (2 : ℚ) ^ (-1074 : Int) ≤ q) : 0 < m := by
  rcases Nat.eq_zero_or_pos m with rfl | positive
  · have fine : e ≤ -1074 := grain.resolve_left (by norm_num)
    have unit : (2 : ℚ) ^ e ≤ 2 ^ (-1074 : Int) := zpow_le_zpow_right₀ one_le_two fine
    linarith [start.lt_unit]
  · exact positive

/-- Below the smallest normal number the exponent is the least one. -/
theorem Represents.target_subnormal
    (start : Represents (ExtendedMantissa.ofMantissaAndAccuracy m accuracy) (q / 2 ^ e))
    (grain : 2 ^ 52 ≤ m ∨ e ≤ -1074) (small : q < 2 ^ (-1021 : Int)) :
    max (m.log2 + e - 52) (-1074) = (-1074 : Int) := by
  rcases Nat.eq_zero_or_pos m with rfl | positive
  · have fine : e ≤ -1074 := grain.resolve_left (by norm_num)
    rw [Nat.log2_zero]
    omega
  · have under : m.log2 + e < -1021 := by
      rw [← zpow_lt_zpow_iff_right₀ (one_lt_two : (1 : ℚ) < 2)]
      exact (start.binade positive).1.trans_lt small
    omega

theorem Represents.target_normal
    (start : Represents (ExtendedMantissa.ofMantissaAndAccuracy m accuracy) (q / 2 ^ e))
    (grain : 2 ^ 52 ≤ m ∨ e ≤ -1074) {exponent : Int} (normal : -1074 ≤ exponent)
    (shape : q = r * 2 ^ exponent) (low : 2 ^ 52 ≤ r) (high : r < 2 ^ 53) :
    max (m.log2 + e - 52) (-1074) = exponent := by
  subst shape
  have least : (2 : ℚ) ^ (52 + exponent) ≤ r * 2 ^ exponent := by
    rw [zpow_add₀ two_ne_zero]
    gcongr
    exact_mod_cast low
  have most : r * 2 ^ exponent < (2 : ℚ) ^ (52 + exponent + 1) := by
    rw [add_right_comm, zpow_add₀ two_ne_zero]
    gcongr
    exact_mod_cast high
  have large : (2 : ℚ) ^ (-1074 : Int) ≤ r * 2 ^ exponent :=
    (zpow_le_zpow_right₀ one_le_two (by omega)).trans least
  have top := start.log2_eq (start.pos_of_le grain large) least most
  omega

/-- What is near a number is shifted to the exponent of that number, or just below a power of two to
the exponent before. -/
theorem target_of_near (canonical : x.Canonical) (near : x.Near q)
    (start : Represents (ExtendedMantissa.ofMantissaAndAccuracy m accuracy) (q / 2 ^ e))
    (grain : 2 ^ 52 ≤ m ∨ e ≤ -1074) :
    Format.binary64.targetExponent (totalExponent m e) = x.exponent ∧
        Nearest x.mantissa (q / 2 ^ x.exponent) ∨
      x.mantissa = 2 ^ 52 ∧ -1074 ≤ x.exponent - 1 ∧
        Format.binary64.targetExponent (totalExponent m e) = x.exponent - 1 ∧
        Nearest (2 ^ 53) (q / 2 ^ (x.exponent - 1)) := by
  rw [targetExponent_eq]
  obtain ⟨r, shape, low, high, ends⟩ := near
  have ratio : q / 2 ^ x.exponent = r := by
    rw [shape]
    field_simp
  have small : (x.mantissa : ℚ) + 1 ≤ 2 ^ 53 := by exact_mod_cast canonical.small
  have narrow : r < 2 ^ 53 := by linarith
  have nearest : Nearest x.mantissa (q / 2 ^ x.exponent) := by
    rw [ratio]
    exact Dyadic.nearest low high ends
  rcases canonical.low.eq_or_lt with least | normal
  · refine Or.inl ⟨?_, nearest⟩
    rw [← least] at shape ⊢
    apply start.target_subnormal grain
    calc
      q = r * 2 ^ (-1074 : Int) := shape
      _ < 2 ^ 53 * 2 ^ (-1074 : Int) := by gcongr
      _ = 2 ^ ((53 : Int) + -1074) := by rw [zpow_add₀ two_ne_zero, zpow_ofNat]
  · rcases le_or_gt (2 ^ 52) r with full | under
    · exact Or.inl ⟨start.target_normal grain canonical.low shape full narrow, nearest⟩
    · obtain ⟨mantissa, low, nearest⟩ := Dyadic.nearest_below canonical normal low under
      have shape' : q = 2 * r * 2 ^ (x.exponent - 1) := by
        rw [shape, zpow_sub_one₀ two_ne_zero]
        ring
      have ratio' : q / 2 ^ (x.exponent - 1) = 2 * r := by
        rw [shape']
        field_simp
      refine Or.inr ⟨mantissa, by omega, ?_, by rwa [ratio']⟩
      exact start.target_normal grain (by omega) shape' (by linarith) (by linarith)

/-- Whatever is near a binary64 number rounds to it. -/
theorem roundWithAccuracy_eq (sign : Sign) (canonical : x.Canonical) (near : x.Near q)
    (start : Represents (ExtendedMantissa.ofMantissaAndAccuracy m accuracy) (q / 2 ^ e))
    (grain : 2 ^ 52 ≤ m ∨ e ≤ -1074) :
    roundWithAccuracy Format.binary64 sign m e accuracy =
      .finite sign x.mantissa x.exponent canonical.positive := by
  have fits : e ≤ Format.binary64.targetExponent (totalExponent m e) := by
    rw [targetExponent_eq]
    rcases grain with full | fine
    · have bits : 52 ≤ m.log2 := (Nat.le_log2 (by omega)).mpr full
      omega
    · omega
  rcases target_of_near canonical near start grain with ⟨target, nearest⟩ | ⟨carry, low, target, nearest⟩
  · obtain ⟨em, shifted, represents⟩ := shift_to_target start target (target ▸ fits)
    rw [roundWithAccuracy, shifted]
    simp only [represents.roundedMantissa nearest, shift_fitting canonical.small canonical.low,
      dif_neg (Nat.ne_of_gt canonical.positive)]
  · obtain ⟨em, shifted, represents⟩ := shift_to_target start target (target ▸ fits)
    rw [roundWithAccuracy, shifted]
    simp only [represents.roundedMantissa nearest, shift_carried low, Int.sub_add_cancel, carry]
    rfl

theorem Represents.mantissa_pos {em : ExtendedMantissa} (represents : Represents em r)
    (whole : 1 ≤ r) : 0 < em.mantissa := by
  have above : (0 : ℚ) < em.mantissa := by linarith [represents.floor.2]
  exact_mod_cast above

theorem mantissa_le_rounded (em : ExtendedMantissa) : em.mantissa ≤ em.roundedMantissa := by
  obtain ⟨n, roundBit, stickyBit⟩ := em
  cases roundBit <;> cases stickyBit <;>
    simp [ExtendedMantissa.roundedMantissa, ExtendedMantissa.accuracy, Accuracy.roundToNearestEven]

theorem shift_exact (positive : 0 < m) {t : Int} (low : -1074 ≤ t) : ∃ em, ∃ k : Nat,
    shiftToTargetExponent Format.binary64 m t .exact = (em, t + k) ∧ 0 < em.mantissa := by
  refine ⟨_, (Format.binary64.targetExponent (totalExponent m t) - t).toNat, rfl, ?_⟩
  have few : (Format.binary64.targetExponent (totalExponent m t) - t).toNat ≤ m.log2 := by
    rw [targetExponent_eq]
    omega
  generalize (Format.binary64.targetExponent (totalExponent m t) - t).toNat = k at few ⊢
  have least : 2 ^ k ≤ m :=
    (Nat.pow_le_pow_right two_pos few).trans (Nat.log2_self_le positive.ne')
  apply ((represents_exact m).shiftRight k).mantissa_pos
  rw [one_le_div (by positivity)]
  exact_mod_cast least

theorem pack_roundWithAccuracy_large (sign : Sign)
    (start : Represents (ExtendedMantissa.ofMantissaAndAccuracy m accuracy) (q / 2 ^ e))
    (full : 2 ^ 52 ≤ m) (large : (2 : ℚ) ^ (1024 : Int) ≤ q) :
    UnpackedFloat.pack Format.binary64 (roundWithAccuracy Format.binary64 sign m e accuracy) =
      packedInfinity Format.binary64 sign := by
  have bits : 52 ≤ m.log2 := (Nat.le_log2 (by omega)).mpr full
  obtain ⟨least, most⟩ := start.binade (by omega)
  have top : 1024 < m.log2 + e + 1 := by
    rw [← zpow_lt_zpow_iff_right₀ (one_lt_two : (1 : ℚ) < 2)]
    exact large.trans_lt most
  have target : Format.binary64.targetExponent (totalExponent m e) = m.log2 + e - 52 := by
    rw [targetExponent_eq]
    omega
  obtain ⟨em, shifted, represents⟩ := shift_to_target start target (by omega)
  have whole : 1 ≤ q / 2 ^ (m.log2 + e - 52) := by
    rw [one_le_div (by positivity)]
    exact (zpow_le_zpow_right₀ one_le_two (by omega)).trans least
  have some := (represents.mantissa_pos whole).trans_le (mantissa_le_rounded em)
  obtain ⟨final, k, again, positive⟩ := shift_exact some (by omega : -1074 ≤ m.log2 + e - 52)
  have beyond : 2 ^ Format.binary64.exponentBits ≤
      ((m.log2 + e - 52 + k : Int) + Format.binary64.exponentBias +
        Format.binary64.mantissaBitsWithoutImplicit).toNat + 1 := by
    change 2048 ≤ ((m.log2 + e - 52 + k : Int) + 1023 + 52).toNat + 1
    omega
  rw [roundWithAccuracy, shifted]
  simp only [again, dif_neg positive.ne', UnpackedFloat.pack, if_pos beyond]

end Nearness

section Operations

variable {x : Dyadic} {m n : Nat} {e f : Int}

theorem mul_eq (canonical : x.Canonical) {hm : 0 < m} {hn : 0 < n}
    (near : x.Near (m * 2 ^ e * (n * 2 ^ f))) (grain : 2 ^ 52 ≤ m * n) :
    mul Format.binary64 (.finite .positive m e hm) (.finite .positive n f hn) =
      .finite .positive x.mantissa x.exponent canonical.positive := by
  have units : (m * 2 ^ e * (n * 2 ^ f) : ℚ) / 2 ^ (e + f) = (m * n : Nat) := by
    rw [zpow_add₀ two_ne_zero]
    push_cast
    field_simp
  have start := represents_exact (m * n)
  rw [← units] at start
  exact roundWithAccuracy_eq .positive canonical near start (Or.inl grain)

theorem div_eq_quotient_add (m : Nat) {n : Nat} (positive : 0 < n) :
    (m : ℚ) / n = (m / n : Nat) + ((m % n : Nat) : ℚ) / n := by
  have nonzero : (n : ℚ) ≠ 0 := by exact_mod_cast positive.ne'
  rw [eq_comm, add_div_eq_mul_add_div _ _ nonzero]
  congr 1
  exact_mod_cast Nat.div_add_mod' m n

theorem represents_fraction (m : Nat) {n : Nat} (positive : 0 < n) :
    Represents (ExtendedMantissa.ofMantissaAndAccuracy (m / n) (accuracyOfFraction (m % n) n))
      ((m : ℚ) / n) := by
  have positive' : (0 : ℚ) < n := by exact_mod_cast positive
  have proper : ((m % n : Nat) : ℚ) < n := by exact_mod_cast Nat.mod_lt m positive
  rw [div_eq_quotient_add m positive]
  generalize m % n = rest at proper ⊢
  unfold accuracyOfFraction
  split
  · rename_i none
    subst none
    simpa using represents_exact (m / n)
  · rename_i some
    have some' : (0 : ℚ) < rest := by exact_mod_cast Nat.pos_of_ne_zero some
    rcases order : compare (2 * rest) n with _ | _ | _
    · have small : (2 * rest : ℚ) < n := by exact_mod_cast Nat.compare_eq_lt.mp order
      refine ⟨rest / n, by positivity, ?_, ?_, ?_⟩
      · rw [div_lt_div_iff₀ positive' two_pos]
        linarith
      · simp only [ExtendedMantissa.ofMantissaAndAccuracy, true_iff]
        positivity
      · simp [ExtendedMantissa.ofMantissaAndAccuracy]
    · have half : (2 * rest : ℚ) = n := by exact_mod_cast Nat.compare_eq_eq.mp order
      refine ⟨0, le_rfl, by norm_num, by simp [ExtendedMantissa.ofMantissaAndAccuracy], ?_⟩
      simp only [ExtendedMantissa.ofMantissaAndAccuracy, if_true, add_zero, ← half]
      field_simp
    · have large : (n : ℚ) < 2 * rest := by exact_mod_cast Nat.compare_eq_gt.mp order
      have above : (1 : ℚ) / 2 < rest / n := by
        rw [div_lt_div_iff₀ two_pos positive']
        linarith
      have under : (rest : ℚ) / n < 1 := (div_lt_one positive').mpr proper
      refine ⟨rest / n - 1 / 2, by linarith, by linarith, ?_, ?_⟩
      · simp only [ExtendedMantissa.ofMantissaAndAccuracy, true_iff]
        linarith
      · simp only [ExtendedMantissa.ofMantissaAndAccuracy, if_true]
        ring

/-- A quotient has the bits of a mantissa, or it reaches down to the least exponent. -/
theorem divCore_grain (hm : 0 < m) (hn : 0 < n) {shift : Nat} {target : Int}
    (bound : target ≤ max (totalExponent m e - totalExponent n f - 53) (-1074))
    (shifted : target = e - f - shift) : 2 ^ 52 ≤ m <<< shift / n ∨ target ≤ -1074 := by
  rcases le_or_gt target (-1074) with fine | coarse
  · exact Or.inr fine
  · left
    simp only [totalExponent] at bound
    have bits : n.log2 + 53 ≤ m.log2 + shift := by omega
    rw [Nat.le_div_iff_mul_le hn, Nat.shiftLeft_eq]
    calc
      2 ^ 52 * n ≤ 2 ^ 52 * 2 ^ (n.log2 + 1) := Nat.mul_le_mul_left _ Nat.lt_log2_self.le
      _ = 2 ^ (n.log2 + 53) := by rw [← pow_add, Nat.add_comm]
      _ ≤ 2 ^ (m.log2 + shift) := Nat.pow_le_pow_right two_pos bits
      _ = 2 ^ m.log2 * 2 ^ shift := pow_add _ _ _
      _ ≤ m * 2 ^ shift := Nat.mul_le_mul_right _ (Nat.log2_self_le hm.ne')

theorem div_eq (canonical : x.Canonical) {hm : 0 < m} {hn : 0 < n}
    (near : x.Near (m * 2 ^ e / (n * 2 ^ f))) :
    div Format.binary64 (.finite .positive m e hm) (.finite .positive n f hn) =
      .finite .positive x.mantissa x.exponent canonical.positive := by
  have least : min (e - f) (Format.binary64.targetExponent (totalExponent m e - totalExponent n f)) ≤
      max (totalExponent m e - totalExponent n f - 53) (-1074) := min_le_right _ _
  have under := min_le_left (e - f)
    (Format.binary64.targetExponent (totalExponent m e - totalExponent n f))
  simp only [UnpackedFloat.div, divCore]
  generalize min (e - f) _ = target at least under ⊢
  obtain ⟨shift, shape⟩ := Int.le.dest under
  have amount : (e - f - target).toNat = shift := by omega
  have units : (m * 2 ^ e / (n * 2 ^ f) : ℚ) / 2 ^ target = (m <<< shift : Nat) / n := by
    have exponent : e = target + shift + f := by omega
    rw [exponent, zpow_add₀ two_ne_zero, zpow_add₀ two_ne_zero, zpow_natCast, Nat.shiftLeft_eq]
    push_cast
    field_simp
  have start := represents_fraction (m <<< shift) hn
  rw [← units] at start
  rw [amount]
  exact roundWithAccuracy_eq .positive canonical near start
    (divCore_grain hm hn least (by omega))

end Operations

end SlideDeck.Decimal
