import Mathlib
import SlideDeck.Decimal.Whole
import SlideDeck.Proofs.Decimal.Nearest

/-!
The exact value of a finite binary64 number. A number is an integer exactly if its value is one, and
an integer of 64 bits that is turned into a number loses at most half of itself.
-/

namespace SlideDeck.Decimal

open Float.Model Float.Model.UnpackedFloat

def Binary.value? : Binary → Option ℚ
  | .nan | .infinite _ => none
  | .zero _ => some 0
  | .finite negative x => some (if negative then -x.value else x.value)

def value? (y : Float) : Option ℚ := (Binary.ofFloat y).value?

theorem isFinite_iff (y : Float) : y.isFinite = true ↔ ∃ q, value? y = some q := by
  constructor
  · intro finite
    obtain ⟨negative, bits | ⟨magnitude, bits⟩⟩ := ofFloat_of_isFinite finite <;>
      exact ⟨_, by rw [value?, bits]; rfl⟩
  · rintro ⟨q, value⟩
    have shown : y.isFinite = y.toModel.unpack.isFinite := rfl
    rcases bits : Binary.ofFloat y with _ | _ | negative | ⟨negative, magnitude⟩
    · simp [value?, bits, Binary.value?] at value
    · simp [value?, bits, Binary.value?] at value
    · have unpacked := ofBits_zero (b := y.toModel.toBits.toBitVec) bits
      rw [shown, Float.Model.unpack, unpacked]
      rfl
    · obtain ⟨positive, unpacked⟩ := unpack_of_finite bits
      rw [shown, unpacked]
      rfl

section Whole

variable {x : Dyadic} {n : Nat} {y : Float}

theorem div_eq_natCast_iff (m : Nat) {d : Nat} (positive : 0 < d) :
    (m : ℚ) / d = n ↔ m % d = 0 ∧ m / d = n := by
  have nonzero : (d : ℚ) ≠ 0 := by exact_mod_cast positive.ne'
  rw [div_eq_iff nonzero]
  constructor
  · intro product
    obtain rfl : m = n * d := by exact_mod_cast product
    exact ⟨Nat.mul_mod_left n d, Nat.mul_div_cancel n positive⟩
  · rintro ⟨rest, rfl⟩
    exact_mod_cast (Nat.div_mul_cancel (Nat.dvd_of_mod_eq_zero rest)).symm

theorem Dyadic.whole?_eq_some_iff : x.whole? = some n ↔ x.value = n := by
  unfold whole? value
  split
  · rename_i up
    obtain ⟨k, shape⟩ := Int.eq_ofNat_of_zero_le up
    rw [shape, Int.toNat_natCast, zpow_natCast, Option.some.injEq]
    norm_cast
  · rename_i down
    obtain ⟨k, shape⟩ := Int.exists_eq_neg_ofNat (not_le.mp down).le
    have quotient := div_eq_natCast_iff (n := n) x.mantissa (Nat.two_pow_pos k)
    push_cast at quotient
    rw [shape, neg_neg, Int.toNat_natCast, zpow_neg, zpow_natCast, ← div_eq_mul_inv, quotient]
    dsimp only
    split <;> simp_all

theorem Dyadic.value_nonneg (x : Dyadic) : 0 ≤ x.value := by
  unfold value
  positivity

theorem Binary.whole?_eq_some_iff {b : Binary} {n : Int} : b.whole? = some n ↔ b.value? = some (n : ℚ) := by
  cases b with
  | nan => simp [whole?, value?]
  | infinite negative => simp [whole?, value?]
  | zero negative =>
      simp only [whole?, value?, Option.some.injEq]
      exact_mod_cast Iff.rfl
  | finite negative x =>
      simp only [whole?, value?, Option.map_eq_some_iff, Dyadic.whole?_eq_some_iff, Option.some.injEq]
      constructor
      · rintro ⟨m, value, rfl⟩
        rw [value]
        cases negative <;> simp
      · intro value
        have nonneg := x.value_nonneg
        cases negative
        · have upper : 0 ≤ n := by
            simp only [Bool.false_eq_true, if_false] at value
            exact_mod_cast value ▸ nonneg
          obtain ⟨m, rfl⟩ := Int.eq_ofNat_of_zero_le upper
          exact ⟨m, by simpa using value, rfl⟩
        · have lower : 0 ≤ -n := by
            simp only [if_true] at value
            have opposite : x.value = (-n : Int) := by
              push_cast
              linarith
            exact_mod_cast opposite ▸ nonneg
          obtain ⟨m, same⟩ := Int.eq_ofNat_of_zero_le lower
          obtain rfl : n = -m := by omega
          refine ⟨m, ?_, rfl⟩
          push_cast at value
          simpa using value

/-- A number is an integer exactly if its value is one. -/
theorem whole?_eq_some_iff {n : Int} : whole? y = some n ↔ value? y = some (n : ℚ) :=
  Binary.whole?_eq_some_iff

theorem isFinite_of_whole? {n : Int} (whole : whole? y = some n) : y.isFinite = true :=
  (isFinite_iff y).mpr ⟨n, whole?_eq_some_iff.mp whole⟩

end Whole

section Packed

variable {x : Dyadic} {n : Nat}

theorem ofFloat_pack (normal : x.Normal) (negative : Bool) :
    Binary.ofFloat (.ofModel (.pack (.finite (signOf negative) x.mantissa x.exponent normal.positive))) =
      .finite negative x := by
  obtain ⟨m, e⟩ := x
  obtain ⟨full, small, low, high⟩ := normal
  obtain ⟨exponent, mantissa, rfl, rfl, finite, nonzero⟩ := exists_fields full small low high
  have implicit := toNat_implicit mantissa
  have notOnes : exponent.toNat ≠ 2047 := fun ones => finite (BitVec.eq_of_toNat_eq ones)
  have notZero : exponent.toNat ≠ 0 := fun zero => nonzero (BitVec.eq_of_toNat_eq zero)
  change Binary.ofBits (UnpackedFloat.pack Format.binary64 _).toNat = _
  rw [pack_normal _ finite, ofBits_assemble]
  simp only [if_neg notOnes, if_neg notZero, implicit, Nat.add_comm]
  cases negative <;> rfl

theorem ofFloat_packed (normal : x.Normal) : Binary.ofFloat x.packed = .finite false x := by
  rw [Dyadic.packed_eq normal.positive]
  exact ofFloat_pack normal false

theorem ofFloat_neg_packed (normal : x.Normal) : Binary.ofFloat (-x.packed) = .finite true x := by
  change Binary.ofFloat (.ofModel (.pack x.packed.toModel.unpack.neg)) = _
  rw [normal.unpack]
  exact ofFloat_pack normal true

theorem value?_packed (normal : x.Normal) : value? x.packed = some x.value := by
  rw [value?, ofFloat_packed normal]
  rfl

theorem isFinite_packed (normal : x.Normal) : x.packed.isFinite = true :=
  (isFinite_iff _).mpr ⟨_, value?_packed normal⟩

/-- A positive integer of 64 bits becomes the number nearest to it. -/
theorem ofNat_eq_packed (positive : 0 < n) (bound : n < 2 ^ 64) :
    ∃ x : Dyadic, x.Normal ∧ x.Near n ∧ Float.ofNat n = x.packed := by
  have one : (1 : ℚ) ≤ n := by exact_mod_cast positive
  have range : (n : ℚ) < overflowBound := by
    have word : (n : ℚ) < 2 ^ 64 := by exact_mod_cast bound
    have room : (2 : ℚ) ^ 64 ≤ 2 ^ (970 : Int) := by
      rw [← zpow_natCast]
      exact zpow_le_zpow_right₀ one_le_two (by norm_num)
    have many : (2 : ℚ) ^ (970 : Int) ≤ overflowBound := by
      unfold overflowBound
      exact le_mul_of_one_le_left (by positivity) (by norm_num)
    exact (word.trans_le room).trans_le many
  obtain ⟨x, normal, near⟩ := exists_near one range
  refine ⟨x, normal, near, ?_⟩
  apply ofScientific_eq normal.canonical positive false <;> simp
  exact near

variable {y : Float}

/-- The power of two behind the integers of 64 bits. -/
def wordEnd : Dyadic := ⟨2 ^ 52, 11⟩

theorem normal_wordEnd : wordEnd.Normal := ⟨le_rfl, by decide, by decide, by decide⟩

theorem Dyadic.Near.bound_of_whole {k : Nat} (near : x.Near n) (exponent : x.exponent = k)
    (positive : 0 < x.mantissa) : (2 * x.mantissa - 1) * 2 ^ k ≤ 2 * n := by
  obtain ⟨r, whole, low, -⟩ := near
  have below := x.below_le
  rw [exponent, zpow_natCast] at whole
  have least : ((2 * x.mantissa - 1 : Nat) : ℚ) ≤ 2 * r := by
    rw [Nat.cast_sub (by omega)]
    push_cast
    linarith
  have product : ((2 * x.mantissa - 1 : Nat) : ℚ) * 2 ^ k ≤ 2 * (r * 2 ^ k) := by
    rw [← mul_assoc]
    gcongr
  rw [← whole] at product
  exact_mod_cast product

theorem Dyadic.Near.mantissa_of_whole {k : Nat} (near : x.Near n) (exponent : x.exponent = -k) :
    x.mantissa = n * 2 ^ k := by
  obtain ⟨r, whole, low, high, -⟩ := near
  have below := x.below_le
  rw [exponent, zpow_neg, zpow_natCast, ← div_eq_mul_inv, eq_div_iff (by positivity)] at whole
  have upper : n * 2 ^ k * 2 ≤ 2 * x.mantissa + 1 := by
    have most : r * 2 ≤ 2 * x.mantissa + 1 := by linarith
    rw [← whole] at most
    exact_mod_cast most
  have lower : 2 * x.mantissa ≤ n * 2 ^ k * 2 + 1 := by
    have least : 2 * (x.mantissa : ℚ) ≤ r * 2 + 1 := by linarith
    rw [← whole] at least
    exact_mod_cast least
  omega

/-- What is near an integer is an integer, and no power of two lies between them. -/
theorem Dyadic.Near.whole (normal : x.Normal) (near : x.Near n) (small : n ≤ 2 ^ 63) :
    ∃ m : Nat, x.value = m ∧ (m < 2 ^ 63 ∨ x = wordEnd) := by
  have full := normal.full
  have narrow := normal.small
  rcases le_or_gt 0 x.exponent with up | down
  · obtain ⟨k, exponent⟩ := Int.eq_ofNat_of_zero_le up
    refine ⟨x.mantissa * 2 ^ k, by rw [value, exponent]; push_cast; rfl, ?_⟩
    have bound := near.bound_of_whole exponent (by omega)
    have limit : k ≤ 11 := by
      by_contra large
      have unit : 2 ^ 12 ≤ 2 ^ k := Nat.pow_le_pow_right (by decide) (by omega)
      have most := Nat.mul_le_mul (by omega : 2 ^ 53 - 1 ≤ 2 * x.mantissa - 1) unit
      omega
    rcases Nat.lt_or_eq_of_le limit with less | top
    · have unit : 2 ^ k ≤ 2 ^ 10 := Nat.pow_le_pow_right (by decide) (by omega)
      have most := Nat.mul_lt_mul_of_lt_of_le narrow unit (by decide)
      omega
    · rw [top] at bound
      have half : x.mantissa = 2 ^ 52 := by omega
      refine Or.inr ?_
      rw [wordEnd, ← half, ← show x.exponent = 11 by omega]
  · obtain ⟨k, exponent⟩ := Int.exists_eq_neg_ofNat down.le
    have same := near.mantissa_of_whole exponent
    have less : n ≤ n * 2 ^ k := Nat.le_mul_of_pos_right n (Nat.two_pow_pos k)
    refine ⟨n, ?_, Or.inl (by omega)⟩
    rw [value, exponent, same, zpow_neg, zpow_natCast]
    push_cast
    field_simp

theorem value?_of_packed {negative : Bool} (normal : x.Normal)
    (packed : (if negative then -y else y) = x.packed) :
    value? y = some (if negative then -x.value else x.value) := by
  cases negative
  · rw [if_neg (by decide)] at packed
    rw [packed, value?_packed normal]
    rfl
  · have shape : y = -x.packed := by rw [← packed, if_pos rfl, float_neg_neg]
    rw [shape, value?, ofFloat_neg_packed normal]
    rfl

theorem whole_of_ofNat (negative : Bool) (positive : 0 < n) (small : n ≤ 2 ^ 63)
    (packed : (if negative then -y else y) = Float.ofNat n) :
    ∃ m : Nat, whole? y = some (if negative then -(m : Int) else m) ∧
      (m < 2 ^ 63 ∨ m = 2 ^ 63 ∧ (if negative then -y else y) = wordEnd.packed) := by
  obtain ⟨x, normal, near, shape⟩ := ofNat_eq_packed (n := n) positive (by omega)
  obtain ⟨m, value, most⟩ := near.whole normal small
  refine ⟨m, whole?_eq_some_iff.mpr ?_, most.imp_right ?_⟩
  · rw [value?_of_packed normal (packed.trans shape), value]
    cases negative <;> simp
  · rintro rfl
    refine ⟨?_, packed.trans shape⟩
    have size : (m : ℚ) = 2 ^ 63 := by
      rw [← value, wordEnd, Dyadic.value]
      norm_num
    exact_mod_cast size

end Packed

section Large

variable {n : Int}

theorem isFinite_ofInt (large : 2 ^ 63 ≤ n) (bound : n < 2 ^ 64) :
    (Float.ofInt n).isFinite = true := by
  obtain ⟨k, rfl⟩ := Int.eq_ofNat_of_zero_le (by omega : 0 ≤ n)
  obtain ⟨x, normal, near, packed⟩ := ofNat_eq_packed (n := k) (by omega) (by omega)
  change (Float.ofNat k).isFinite = true
  rw [packed]
  exact isFinite_packed normal

theorem large_of_whole?_ofInt (large : 2 ^ 63 ≤ n) (bound : n < 2 ^ 64) {m : Int}
    (whole : whole? (Float.ofInt n) = some m) : 2 ^ 53 ≤ m.natAbs := by
  obtain ⟨k, rfl⟩ := Int.eq_ofNat_of_zero_le (by omega : 0 ≤ n)
  obtain ⟨x, normal, near, packed⟩ := ofNat_eq_packed (n := k) (by omega) (by omega)
  have value : value? (Float.ofNat k) = some (m : ℚ) := whole?_eq_some_iff.mp whole
  rw [packed, value?_packed normal, Option.some.injEq] at value
  have double := near.le_double normal
  rw [value] at double
  have half : k ≤ 2 * m := by exact_mod_cast double
  omega

end Large

end SlideDeck.Decimal
