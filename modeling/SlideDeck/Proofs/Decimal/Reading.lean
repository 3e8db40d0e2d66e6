import Mathlib
import SlideDeck.Decimal.Reading
import SlideDeck.Proofs.Decimal.Float
import SlideDeck.Proofs.Decimal.Rounding

/-!
Reading a decimal gives the binary64 number to which it is nearest, whether it is made by one operation
on two exact numbers or by rounding a quotient or a product of integers.
-/

namespace SlideDeck.Decimal

open Float.Model Float.Model.UnpackedFloat

def Scientific.value (s : Scientific) : ℚ := s.digits * 10 ^ s.exponent

def Dyadic.packed (x : Dyadic) : Float :=
  if positive : 0 < x.mantissa then
    .ofModel (.pack (.finite .positive x.mantissa x.exponent positive))
  else 0

section Exact

theorem exists_fields {m : Nat} {e : Int} (full : 2 ^ 52 ≤ m) (small : m < 2 ^ 53) (low : -1074 ≤ e)
    (high : e ≤ 971) :
    ∃ (exponent : BitVec 11) (mantissa : BitVec 52), m = (1#1 ++ mantissa).toNat ∧ e = exponent.toNat - 1075 ∧
      exponent ≠ -1#_ ∧ exponent ≠ 0#_ := by
  have exponent : (BitVec.ofNat 11 (e + 1075).toNat).toNat = e + 1075 := by
    rw [BitVec.toNat_ofNat]
    omega
  refine ⟨.ofNat 11 (e + 1075).toNat, .ofNat 52 m, ?_, by omega, ?_, ?_⟩
  · rw [toNat_implicit, BitVec.toNat_ofNat]
    omega
  · intro ones
    have top : ((-1#11 : BitVec 11).toNat : Int) = 2047 := rfl
    rw [ones] at exponent
    omega
  · intro zero
    have bottom : ((0#11 : BitVec 11).toNat : Int) = 0 := rfl
    rw [zero] at exponent
    omega

/-- A mantissa of 53 bits survives being packed. -/
theorem unpack_pack {m : Nat} {e : Int} (positive : 0 < m) (full : 2 ^ 52 ≤ m) (small : m < 2 ^ 53)
    (low : -1074 ≤ e) (high : e ≤ 971) (sign : Sign) :
    (Float.Model.pack (.finite sign m e positive)).unpack = .finite sign m e positive := by
  obtain ⟨exponent, mantissa, rfl, rfl, finite, nonzero⟩ := exists_fields full small low high
  change UnpackedFloat.unpack Format.binary64 (UnpackedFloat.pack Format.binary64 _) = _
  rw [pack_normal sign finite positive]
  simp only [UnpackedFloat.unpack, unpackExponent_assemble, unpackMantissa_assemble,
    unpackSign_assemble, if_neg finite, if_neg nonzero]
  rfl

/-- The number `n * 2 ^ e` with a mantissa of 53 bits, for a positive `n` of no more bits. -/
def Dyadic.normalized (n : Nat) (e : Int) : Dyadic := ⟨n <<< (52 - n.log2), e + n.log2 - 52⟩

variable {n : Nat} {e : Int}

theorem Dyadic.normalized_bounds (positive : 0 < n) (small : n < 2 ^ 53) :
    2 ^ 52 ≤ (normalized n e).mantissa ∧ (normalized n e).mantissa < 2 ^ 53 := by
  have bits := log2_le_of_small small
  simp only [normalized, Nat.shiftLeft_eq]
  constructor
  · calc
      2 ^ 52 = 2 ^ n.log2 * 2 ^ (52 - n.log2) := by rw [← pow_add, Nat.add_sub_cancel' bits]
      _ ≤ n * 2 ^ (52 - n.log2) := Nat.mul_le_mul_right _ (Nat.log2_self_le positive.ne')
  · calc
      n * 2 ^ (52 - n.log2) < 2 ^ (n.log2 + 1) * 2 ^ (52 - n.log2) := by
        gcongr
        exact Nat.lt_log2_self
      _ = 2 ^ 53 := by
        rw [← pow_add]
        congr 1
        omega

theorem Dyadic.normalized_value (small : n < 2 ^ 53) :
    (normalized n e).value = n * 2 ^ e := by
  have bits := log2_le_of_small small
  obtain ⟨k, shift⟩ := Nat.le.dest bits
  have amount : 52 - n.log2 = k := by omega
  have exponent : e = e + n.log2 - 52 + k := by omega
  simp only [value, normalized, amount, Nat.shiftLeft_eq]
  push_cast
  rw [mul_assoc, ← zpow_natCast, ← zpow_add₀ two_ne_zero, add_comm (k : Int), ← exponent]

theorem Dyadic.normalized_canonical (positive : 0 < n) (small : n < 2 ^ 53) (low : -1022 ≤ e) :
    (normalized n e).Canonical := by
  obtain ⟨full, narrow⟩ := normalized_bounds (e := e) positive small
  refine ⟨by omega, narrow, ?_, fun _ => full⟩
  simp only [normalized]
  omega

theorem Dyadic.packed_eq {x : Dyadic} (positive : 0 < x.mantissa) :
    x.packed = .ofModel (.pack (.finite .positive x.mantissa x.exponent positive)) :=
  dif_pos positive

theorem Dyadic.near_value (x : Dyadic) : x.Near x.value := by
  refine ⟨x.mantissa, rfl, ?_, by linarith, ?_⟩
  · have positive : (0 : ℚ) ≤ x.below := Nat.cast_nonneg _
    linarith
  · have positive : (0 : ℚ) < x.below := by
      unfold below
      split <;> norm_num
    rintro (same | same) <;> linarith

theorem toFloat_toUInt64 (positive : 0 < n) (small : n < 2 ^ 53) :
    n.toUInt64.toFloat = (Dyadic.normalized n 0).packed := by
  have canonical := Dyadic.normalized_canonical (e := 0) positive small (by norm_num)
  have same : n.toUInt64.toNat = n := by
    rw [Nat.toUInt64, UInt64.toNat_ofNat']
    omega
  have order : compare (n : Int) 0 = .gt := Int.compare_eq_gt.mpr (by omega)
  have target : Format.binary64.targetExponent (totalExponent n 0) = n.log2 - 52 := by
    rw [targetExponent_eq]
    omega
  have amount : (0 - ((n.log2 : Int) - 52)).toNat = 52 - n.log2 := by omega
  have bits := log2_le_of_small small
  have exponent : (0 : Int) - (52 - n.log2 : Nat) = 0 + n.log2 - 52 := by omega
  have start := represents_exact (Dyadic.normalized n 0).mantissa
  rw [← mul_div_cancel_right₀ ((Dyadic.normalized n 0).mantissa : ℚ)
    (zpow_ne_zero (Dyadic.normalized n 0).exponent two_ne_zero)] at start
  have rounded := roundWithAccuracy_eq .positive canonical (Dyadic.near_value _) start
    (Or.inl (Dyadic.normalized_bounds positive small).1)
  rw [Dyadic.packed_eq canonical.positive, ← rounded]
  change Float.ofModel (.pack (UnpackedFloat.normalize Format.binary64 n.toUInt64.toNat 0 .positive)) = _
  rw [same, UnpackedFloat.normalize, order]
  simp only [Int.toNat_natCast, UnpackedFloat.round, target, decreaseExponent, amount, exponent]
  rfl

theorem five_pow_lt {k : Nat} (small : k < 23) : 5 ^ k < 2 ^ 53 :=
  calc
    5 ^ k ≤ 5 ^ 22 := Nat.pow_le_pow_right (by norm_num) (by omega)
    _ < 2 ^ 53 := by norm_num

/-- The powers of ten in the table are exact. -/
theorem table_power : ∀ k : Fin 23,
    Float.exactlyRepresentablePowersOfTen[k] = (Dyadic.normalized (5 ^ k.val) k).packed := by
  decide +kernel

end Exact

section Operations

variable {x a b : Dyadic} {n k : Nat}

structure Dyadic.Normal (x : Dyadic) : Prop where
  full : 2 ^ 52 ≤ x.mantissa
  small : x.mantissa < 2 ^ 53
  low : -1074 ≤ x.exponent
  high : x.exponent ≤ 971

theorem Dyadic.Normal.positive (normal : a.Normal) : 0 < a.mantissa :=
  Nat.lt_of_lt_of_le (by norm_num) normal.full

theorem Dyadic.Normal.unpack (normal : a.Normal) :
    a.packed.toModel.unpack = .finite .positive a.mantissa a.exponent normal.positive := by
  rw [packed_eq normal.positive]
  exact unpack_pack _ normal.full normal.small normal.low normal.high _

theorem Dyadic.packed_mul (canonical : x.Canonical) (left : a.Normal) (right : b.Normal)
    (near : x.Near (a.value * b.value)) : a.packed * b.packed = x.packed := by
  have grain : 2 ^ 52 ≤ a.mantissa * b.mantissa :=
    Nat.le_trans left.full (Nat.le_mul_of_pos_right _ right.positive)
  change Float.ofModel (.pack (UnpackedFloat.mul Format.binary64 a.packed.toModel.unpack
    b.packed.toModel.unpack)) = _
  rw [left.unpack, right.unpack, mul_eq canonical near grain, packed_eq]

theorem Dyadic.packed_div (canonical : x.Canonical) (left : a.Normal) (right : b.Normal)
    (near : x.Near (a.value / b.value)) : a.packed / b.packed = x.packed := by
  change Float.ofModel (.pack (UnpackedFloat.div Format.binary64 a.packed.toModel.unpack
    b.packed.toModel.unpack)) = _
  rw [left.unpack, right.unpack, div_eq canonical near, packed_eq]

theorem Dyadic.normalized_normal (positive : 0 < n) (small : n < 2 ^ 53) (range : k ≤ 22) :
    (normalized n k).Normal := by
  obtain ⟨full, narrow⟩ := normalized_bounds (e := k) positive small
  have bits := log2_le_of_small small
  refine ⟨full, narrow, ?_, ?_⟩ <;> simp only [normalized] <;> omega

theorem Dyadic.power_value (range : k ≤ 22) : (normalized (5 ^ k) k).value = 10 ^ k := by
  rw [normalized_value (five_pow_lt (by omega)), zpow_natCast]
  push_cast
  rw [← mul_pow]
  norm_num

theorem Dyadic.power_normal (range : k ≤ 22) : (normalized (5 ^ k) k).Normal :=
  normalized_normal (by positivity) (five_pow_lt (by omega)) range

theorem shifted_value (n : Nat) : ((n <<< 53 : Nat) * 2 ^ (-53 : Int) : ℚ) = n := by
  have units : ((2 : ℚ) ^ 53) * 2 ^ (-53 : Int) = 1 := by
    rw [← zpow_natCast, ← zpow_add₀ two_ne_zero]
    rfl
  rw [Nat.shiftLeft_eq, Nat.cast_mul, Nat.cast_pow, Nat.cast_ofNat, mul_assoc, units, mul_one]

/-- Integers of any size are multiplied or divided exactly and rounded once. -/
theorem ofScientific_model_eq (canonical : x.Canonical) (positive : 0 < n) {e : Int}
    (low : -(2048 + n.log2 : Int) ≤ e) (high : e ≤ 2048) (near : x.Near (n * 10 ^ e)) :
    UnpackedFloat.ofScientific Format.binary64 n e =
      .finite .positive x.mantissa x.exponent canonical.positive := by
  have notLarge : ¬ e > 2 ^ Format.binary64.exponentBits := by
    change ¬ e > 2 ^ 11
    omega
  have notSmall : ¬ e < -((2 ^ Format.binary64.exponentBits : Int) + n.log2) := by
    change ¬ e < -((2 ^ 11 : Int) + n.log2)
    omega
  rw [UnpackedFloat.ofScientific, dif_neg positive.ne', if_neg notLarge, if_neg notSmall]
  split
  · rename_i whole
    obtain ⟨k, rfl⟩ := Int.eq_ofNat_of_zero_le whole
    have value : ((n <<< 53 : Nat) * 2 ^ (-53 : Int) * ((10 ^ k : Nat) * 2 ^ (0 : Int)) : ℚ) =
        n * 10 ^ (k : Int) := by
      rw [shifted_value, zpow_zero, mul_one, zpow_natCast, Nat.cast_pow, Nat.cast_ofNat]
    have grain : 2 ^ 52 ≤ n <<< 53 * 10 ^ k := by
      rw [Nat.shiftLeft_eq]
      calc
        2 ^ 52 ≤ 1 * 2 ^ 53 * 1 := by norm_num
        _ ≤ n * 2 ^ 53 * 10 ^ k := by
          gcongr
          · omega
          · exact Nat.one_le_pow _ _ (by norm_num)
    rw [← value] at near
    exact mul_eq canonical near grain
  · rename_i fraction
    obtain ⟨k, rfl⟩ := Int.exists_eq_neg_ofNat (not_le.mp fraction).le
    have amount : (- -(k : Int)).toNat = k := by omega
    have value : (n * 2 ^ (0 : Int) / ((10 ^ k : Nat) * 2 ^ (0 : Int)) : ℚ) = n * 10 ^ (-k : Int) := by
      rw [zpow_neg, zpow_natCast, zpow_zero, mul_one, mul_one, div_eq_mul_inv, Nat.cast_pow,
        Nat.cast_ofNat]
    rw [← value] at near
    simp only [amount]
    exact div_eq canonical near

/-- A small number over a power of ten in the table is one operation on exact numbers. -/
theorem ofScientific_fast (canonical : x.Canonical) (positive : 0 < n) (small : n < 2 ^ 53)
    (range : k ≤ 22) (negative : Bool)
    (near : x.Near (n * 10 ^ (if negative then -(k : Int) else k))) :
    Float.ofScientific n negative k = x.packed := by
  have whole := Dyadic.normalized_value (e := 0) small
  rw [zpow_zero, mul_one] at whole
  have left : (Dyadic.normalized n 0).Normal :=
    Dyadic.normalized_normal (k := 0) positive small (by omega)
  have inside : k < Float.exactlyRepresentablePowersOfTen.size := by
    change k < 23
    omega
  have table : Float.exactlyRepresentablePowersOfTen[k] =
      (Dyadic.normalized (5 ^ k) k).packed := table_power ⟨k, by omega⟩
  have power := Dyadic.power_value range
  unfold Float.ofScientific
  rw [dif_pos ⟨small, range⟩, toFloat_toUInt64 positive small]
  simp only [table]
  cases negative
  · apply Dyadic.packed_mul canonical left (Dyadic.power_normal range)
    rw [whole, power]
    simpa using near
  · apply Dyadic.packed_div canonical left (Dyadic.power_normal range)
    rw [whole, power]
    simpa [div_eq_mul_inv] using near

theorem ofScientific_eq (canonical : x.Canonical) (positive : 0 < n) (negative : Bool)
    (low : -(2048 + n.log2 : Int) ≤ if negative then -(k : Int) else k)
    (high : (if negative then -(k : Int) else k) ≤ 2048)
    (near : x.Near (n * 10 ^ (if negative then -(k : Int) else k))) :
    Float.ofScientific n negative k = x.packed := by
  by_cases fast : n < 2 ^ 53 ∧ k ≤ 22
  · exact ofScientific_fast canonical positive fast.1 fast.2 negative near
  · have exponent : (if negative = true then Int.negOfNat k else Int.ofNat k) =
        if negative then -(k : Int) else k := by
      cases negative
      · rfl
      · exact Int.negOfNat_eq
    unfold Float.ofScientific
    rw [dif_neg fast, Dyadic.packed_eq canonical.positive]
    change Float.ofModel (.pack (UnpackedFloat.ofScientific Format.binary64 n _)) = _
    rw [exponent, ofScientific_model_eq canonical positive low high near]

end Operations

section Magnitude

theorem digitCount_pos (n : Nat) : 1 ≤ digitCount n := by
  rw [digitCount]
  split <;> omega

theorem digitCount_bounds {n : Nat} (positive : 0 < n) :
    10 ^ (digitCount n - 1) ≤ n ∧ n < 10 ^ digitCount n := by
  induction n using Nat.strongRecOn with
  | _ n ih =>
      rw [digitCount]
      split
      · omega
      · rename_i large
        obtain ⟨low, high⟩ := ih (n / 10) (by omega) (by omega)
        obtain ⟨c, count⟩ : ∃ c, digitCount (n / 10) = c + 1 :=
          ⟨_, (Nat.sub_add_cancel (digitCount_pos _)).symm⟩
        rw [count] at low high ⊢
        simp only [Nat.add_sub_cancel, pow_succ] at low high ⊢
        omega

theorem digitCount_le_log2 {n : Nat} (positive : 0 < n) : digitCount n ≤ n.log2 + 1 := by
  have decimal : 2 ^ (digitCount n - 1) ≤ n :=
    (Nat.pow_le_pow_left (by norm_num) _).trans (digitCount_bounds positive).1
  have bits := (Nat.le_log2 positive.ne').mpr decimal
  omega

theorem Dyadic.Near.bounds {x : Dyadic} {q : ℚ} (canonical : x.Canonical) (high : x.exponent ≤ 971)
    (near : x.Near q) : (2 : ℚ) ^ (-1075 : Int) ≤ q ∧ q < 2 ^ (1024 : Int) := by
  obtain ⟨r, rfl, least, most, -⟩ := near
  have positive : (1 : ℚ) ≤ x.mantissa := by exact_mod_cast canonical.positive
  have small : (x.mantissa : ℚ) + 1 ≤ 2 ^ 53 := by exact_mod_cast canonical.small
  have below := x.below_le
  constructor
  · calc
      (2 : ℚ) ^ (-1075 : Int) = 2 ^ (-1 : Int) * 2 ^ (-1074 : Int) := by
        rw [← zpow_add₀ two_ne_zero]
        rfl
      _ ≤ r * 2 ^ x.exponent := by
        have half : (2 : ℚ) ^ (-1 : Int) ≤ r := by
          norm_num
          linarith
        have unit : (2 : ℚ) ^ (-1074 : Int) ≤ 2 ^ x.exponent :=
          zpow_le_zpow_right₀ one_le_two canonical.low
        exact mul_le_mul half unit (by positivity) (by linarith)
  · calc
      r * 2 ^ x.exponent < 2 ^ 53 * 2 ^ (971 : Int) := by
        have narrow : r < 2 ^ 53 := by linarith
        have unit : (2 : ℚ) ^ x.exponent ≤ 2 ^ (971 : Int) := zpow_le_zpow_right₀ one_le_two high
        exact mul_lt_mul narrow unit (by positivity) (by positivity)
      _ = 2 ^ (1024 : Int) := by
        rw [← zpow_natCast, ← zpow_add₀ two_ne_zero]
        rfl

theorem Scientific.value_bounds {s : Scientific} (positive : 0 < s.digits) :
    (10 : ℚ) ^ (s.exponent + digitCount s.digits - 1) ≤ s.value ∧
      s.value < 10 ^ (s.exponent + digitCount s.digits) := by
  obtain ⟨low, high⟩ := digitCount_bounds positive
  have least : (10 : ℚ) ^ (digitCount s.digits - 1) ≤ s.digits := by exact_mod_cast low
  have most : (s.digits : ℚ) < 10 ^ digitCount s.digits := by exact_mod_cast high
  have some := digitCount_pos s.digits
  have exponent : s.exponent + digitCount s.digits - 1 =
      (digitCount s.digits - 1 : Nat) + s.exponent := by omega
  have ten : (10 : ℚ) ≠ 0 := by norm_num
  rw [exponent, add_comm s.exponent, zpow_add₀ ten, zpow_add₀ ten, zpow_natCast, zpow_natCast, value]
  constructor <;> gcongr

theorem largest_le : (2 : ℚ) ^ (1024 : Int) ≤ 10 ^ (320 : Int) :=
  calc
    (2 : ℚ) ^ (1024 : Int) = (2 ^ 16) ^ 64 := by rw [← pow_mul]; rfl
    _ ≤ (10 ^ 5) ^ 64 := by gcongr; norm_num
    _ = 10 ^ (320 : Int) := by rw [← pow_mul]; rfl

theorem smallest_ge : (10 : ℚ) ^ (-340 : Int) ≤ 2 ^ (-1075 : Int) := by
  rw [zpow_neg, zpow_neg]
  gcongr
  calc
    (2 : ℚ) ^ (1075 : Int) ≤ 2 ^ (1088 : Int) := zpow_le_zpow_right₀ one_le_two (by norm_num)
    _ = (2 ^ 16) ^ 68 := by rw [← pow_mul]; rfl
    _ ≤ (10 ^ 5) ^ 68 := by gcongr; norm_num
    _ = 10 ^ (340 : Int) := by rw [← pow_mul]; rfl

/-- A decimal reads as the binary64 number to which it is nearest. -/
theorem Scientific.toFloat_eq {x : Dyadic} (canonical : x.Canonical) (high : x.exponent ≤ 971)
    {s : Scientific} (near : x.Near s.value) : s.toFloat = x.packed := by
  obtain ⟨least, most⟩ := near.bounds canonical high
  have positive : 0 < s.digits := by
    rcases Nat.eq_zero_or_pos s.digits with none | some
    · have unit : (0 : ℚ) < 2 ^ (-1075 : Int) := by positivity
      rw [value, none, Nat.cast_zero, zero_mul] at least
      linarith
    · exact some
  obtain ⟨low, under⟩ := s.value_bounds positive
  have below : s.exponent + digitCount s.digits - 1 < 320 := by
    rw [← zpow_lt_zpow_iff_right₀ (by norm_num : (1 : ℚ) < 10)]
    exact (low.trans_lt most).trans_le largest_le
  have above : -340 < s.exponent + digitCount s.digits := by
    rw [← zpow_lt_zpow_iff_right₀ (by norm_num : (1 : ℚ) < 10)]
    exact smallest_ge.trans_lt (least.trans_lt under)
  have bits := digitCount_le_log2 positive
  unfold toFloat
  simp only [if_neg positive.ne', if_neg (not_lt.mpr (by omega : s.exponent + digitCount s.digits ≤ 320)),
    if_neg (by omega : ¬ s.exponent + digitCount s.digits < -340)]
  split
  · rename_i negative
    obtain ⟨k, exponent⟩ := Int.exists_eq_neg_ofNat negative.le
    have amount : (-s.exponent).toNat = k := by omega
    rw [amount]
    rw [value, exponent] at near
    have low' : -(2048 + s.digits.log2 : Int) ≤ -k := by omega
    exact ofScientific_eq canonical positive true low' (by change -(k : Int) ≤ 2048; omega) near
  · rename_i whole
    obtain ⟨k, exponent⟩ := Int.eq_ofNat_of_zero_le (not_lt.mp whole)
    have amount : s.exponent.toNat = k := by omega
    rw [amount]
    rw [value, exponent] at near
    have low' : -(2048 + s.digits.log2 : Int) ≤ k := by omega
    exact ofScientific_eq canonical positive false low' (by change (k : Int) ≤ 2048; omega) near

theorem ofScientific_large {n : Nat} (positive : 0 < n) (digits : 320 < digitCount n) :
    Float.ofScientific n false 0 = 1.0 / 0.0 := by
  have infinite : (1.0 / 0.0 : Float) = .ofModel (.pack (.infinity .positive)) := by rfl
  have large : (2 : ℚ) ^ (1024 : Int) ≤ n := by
    have least := (Scientific.value_bounds (s := ⟨n, 0⟩) positive).1
    rw [Scientific.value, zpow_zero, mul_one] at least
    calc
      (2 : ℚ) ^ (1024 : Int) ≤ 10 ^ (320 : Int) := largest_le
      _ ≤ 10 ^ ((0 : Int) + digitCount n - 1) := zpow_le_zpow_right₀ (by norm_num) (by omega)
      _ ≤ n := least
  have wide : 2 ^ 53 ≤ n := by
    have bits : (2 : ℚ) ^ 53 ≤ n := (pow_le_pow_right₀ one_le_two (by norm_num)).trans large
    exact_mod_cast bits
  have start := represents_exact (n <<< 53 * 10 ^ 0)
  have value : ((n <<< 53 * 10 ^ 0 : Nat) : ℚ) = n / 2 ^ (-53 + 0 : Int) := by
    rw [eq_div_iff (by positivity), pow_zero, mul_one, add_zero, shifted_value]
  have full : 2 ^ 52 ≤ n <<< 53 * 10 ^ 0 := by
    rw [pow_zero, mul_one, Nat.shiftLeft_eq]
    omega
  rw [value] at start
  have packed := pack_roundWithAccuracy_large .positive start full large
  have slow : ¬ (n < 2 ^ 53 ∧ 0 ≤ 22) := by omega
  have product : UnpackedFloat.ofScientific Format.binary64 n 0 =
      roundWithAccuracy Format.binary64 .positive (n <<< 53 * 10 ^ 0) (-53 + 0) .exact := by
    have notSmall : ¬ (0 : Int) < -((2 ^ Format.binary64.exponentBits : Int) + n.log2) := by
      change ¬ (0 : Int) < -((2 ^ 11 : Int) + n.log2)
      omega
    rw [UnpackedFloat.ofScientific, dif_neg positive.ne', if_neg (by decide), if_neg notSmall,
      if_pos le_rfl]
    rfl
  unfold Float.ofScientific
  rw [dif_neg slow, infinite]
  change Float.ofModel (.pack (UnpackedFloat.ofScientific Format.binary64 n 0)) = _
  rw [product]
  simp only [Float.Model.pack, packed]
  rfl

theorem Scientific.toFloat_whole (n : Nat) : Scientific.toFloat ⟨n, 0⟩ = Float.ofNat n := by
  unfold toFloat
  split
  · rename_i none
    change n = 0 at none
    subst none
    rfl
  · rename_i some
    have positive : 0 < n := Nat.pos_of_ne_zero some
    simp only
    split
    · rename_i large
      exact (ofScientific_large positive (by omega)).symm
    · split
      · omega
      · rfl

end Magnitude

end SlideDeck.Decimal
