import Mathlib
import SlideDeck.Decimal.Binary

/-!
What the bits of a binary64 number say about its sign and about whether it is finite.
-/

namespace SlideDeck.Decimal

open Float.Model Float.Model.UnpackedFloat

abbrev Bits := BitVec Format.binary64.numBits

def assemble (sign : Sign) (exponent : BitVec 11) (mantissa : BitVec 52) : Bits :=
  packComponents Format.binary64 sign exponent mantissa

theorem toNat_assemble (sign : Sign) (exponent : BitVec 11) (mantissa : BitVec 52) :
    (assemble sign exponent mantissa).toNat =
      sign.toBitVec.toNat * 2 ^ 63 + exponent.toNat * 2 ^ 52 + mantissa.toNat := by
  have upper := Nat.shiftLeft_add_eq_or_of_lt exponent.isLt sign.toBitVec.toNat
  have whole := Nat.shiftLeft_add_eq_or_of_lt mantissa.isLt (sign.toBitVec ++ exponent).toNat
  rw [assemble, packComponents, BitVec.toNat_append, ← whole, BitVec.toNat_append, ← upper]
  simp only [Nat.shiftLeft_eq]
  omega

theorem toNat_unpackSign (b : Bits) : (unpackSign b).toNat = b.toNat / 2 ^ 63 := by
  have bound : b.toNat < 2 ^ 64 := b.isLt
  simp only [unpackSign, BitVec.extractLsb, BitVec.toNat_cast, BitVec.extractLsb'_toNat,
    Nat.shiftRight_eq_div_pow]
  omega

theorem toNat_unpackExponent (b : Bits) : (unpackExponent b).toNat = b.toNat / 2 ^ 52 % 2048 := by
  simp [unpackExponent, BitVec.extractLsb, Nat.shiftRight_eq_div_pow]

theorem toNat_unpackMantissa (b : Bits) : (unpackMantissa b).toNat = b.toNat % 2 ^ 52 := by
  simp [unpackMantissa, BitVec.extractLsb]

theorem toNat_ofBitVec (b : BitVec 1) : (Sign.ofBitVec b).toBitVec.toNat = b.toNat := by
  revert b
  decide

theorem eq_assemble (b : Bits) :
    b = assemble (Sign.ofBitVec (unpackSign b)) (unpackExponent b) (unpackMantissa b) := by
  have bound : b.toNat < 2 ^ 64 := b.isLt
  apply BitVec.eq_of_toNat_eq
  rw [toNat_assemble, toNat_ofBitVec, toNat_unpackSign, toNat_unpackExponent, toNat_unpackMantissa]
  omega

@[simp] theorem unpackExponent_assemble (sign : Sign) (exponent : BitVec 11)
    (mantissa : BitVec 52) : unpackExponent (assemble sign exponent mantissa) = exponent :=
  unpackExponent_packComponents

@[simp] theorem unpackMantissa_assemble (sign : Sign) (exponent : BitVec 11)
    (mantissa : BitVec 52) : unpackMantissa (assemble sign exponent mantissa) = mantissa :=
  unpackMantissa_packComponents

@[simp] theorem unpackSign_assemble (sign : Sign) (exponent : BitVec 11)
    (mantissa : BitVec 52) : Sign.ofBitVec (unpackSign (assemble sign exponent mantissa)) = sign := by
  have field : unpackSign (assemble sign exponent mantissa) = sign.toBitVec := by
    apply BitVec.eq_of_toNat_eq
    rw [toNat_unpackSign, toNat_assemble]
    have upper := exponent.isLt
    have lower := mantissa.isLt
    omega
  rw [field]
  cases sign <;> rfl

section Finite

theorem field_ne_of_isFinite {x : Float} (finite : x.isFinite = true) :
    x.toBits.toNat / 2 ^ 52 % 2048 ≠ 2047 := by
  intro full
  have ones : @unpackExponent Format.binary64 x.toModel.toBits.toBitVec = -1#_ := by
    apply BitVec.eq_of_toNat_eq
    rw [toNat_unpackExponent]
    exact full
  simp only [Float.isFinite, Float.Model.isFinite, Float.Model.unpack, UnpackedFloat.unpack,
    ones, if_true] at finite
  split at finite <;> cases finite

theorem ofFloat_of_isFinite {x : Float} (finite : x.isFinite = true) :
    ∃ negative, Binary.ofFloat x = .zero negative ∨
      ∃ magnitude, Binary.ofFloat x = .finite negative magnitude := by
  refine ⟨x.toBits.toNat / 2 ^ 63 % 2 == 1, ?_⟩
  simp only [Binary.ofFloat, Binary.ofBits, if_neg (field_ne_of_isFinite finite)]
  split
  · split
    · exact Or.inl rfl
    · exact Or.inr ⟨_, rfl⟩
  · exact Or.inr ⟨_, rfl⟩

end Finite

section Negation

theorem log2_lt_of_subnormal {mantissa : BitVec 52} (positive : 0 < mantissa.toNat) :
    mantissa.toNat.log2 < 52 :=
  (Nat.log2_lt (by omega)).mpr mantissa.isLt

theorem toNat_implicit (mantissa : BitVec 52) :
    (1#1 ++ mantissa).toNat = 2 ^ 52 + mantissa.toNat := by
  have split := Nat.shiftLeft_add_eq_or_of_lt mantissa.isLt 1
  rw [BitVec.toNat_append]
  exact split.symm

theorem pack_subnormal (sign : Sign) {mantissa : BitVec 52} (positive : 0 < mantissa.toNat) :
    pack Format.binary64 (.finite sign mantissa.toNat (-1074) positive) =
      assemble sign 0 mantissa := by
  have small := log2_lt_of_subnormal positive
  have narrow : mantissa.toNat.log2 + 1 ≠ Format.binary64.mantissaBits := by
    have width : Format.binary64.mantissaBits = 53 := rfl
    omega
  simp only [UnpackedFloat.pack, if_neg narrow, BitVec.ofNat_toNat, BitVec.setWidth_eq]
  rfl

theorem pack_normal (sign : Sign) {exponent : BitVec 11} {mantissa : BitVec 52}
    (finite : exponent ≠ -1#_) (positive : 0 < (1#1 ++ mantissa).toNat) :
    pack Format.binary64 (.finite sign (1#1 ++ mantissa).toNat (exponent.toNat - 1075) positive) =
      assemble sign exponent mantissa := by
  have bound : exponent.toNat < 2047 := by
    have lt := exponent.isLt
    have ne : exponent.toNat ≠ 2047 := fun full => finite (BitVec.eq_of_toNat_eq full)
    omega
  have wide : (1#1 ++ mantissa).toNat.log2 + 1 = Format.binary64.mantissaBits := by
    have width : Format.binary64.mantissaBits = 53 := rfl
    have low : 52 ≤ (1#1 ++ mantissa).toNat.log2 :=
      (Nat.le_log2 (by omega)).mpr (by rw [toNat_implicit]; omega)
    have high : (1#1 ++ mantissa).toNat.log2 < 53 :=
      (Nat.log2_lt (by omega)).mpr (by rw [toNat_implicit]; have lt := mantissa.isLt; omega)
    omega
  have biased : ((exponent.toNat : Int) - 1075 + Format.binary64.exponentBias +
      Format.binary64.mantissaBitsWithoutImplicit).toNat = exponent.toNat := by
    change ((exponent.toNat : Int) - 1075 + 1023 + 52).toNat = exponent.toNat
    omega
  have implicit : BitVec.ofNat 52 (1#1 ++ mantissa).toNat = mantissa := by
    apply BitVec.eq_of_toNat_eq
    rw [BitVec.toNat_ofNat, toNat_implicit, Nat.add_mod_left, Nat.mod_eq_of_lt mantissa.isLt]
  have fits : ¬ 2 ^ Format.binary64.exponentBits ≤ exponent.toNat + 1 := by
    change ¬ 2048 ≤ exponent.toNat + 1
    omega
  simp only [UnpackedFloat.pack, biased, if_neg fits, if_pos wide, implicit, BitVec.ofNat_toNat,
    BitVec.setWidth_eq]
  rfl

theorem pack_neg_unpack (sign : Sign) {exponent : BitVec 11} {mantissa : BitVec 52}
    (number : exponent = -1#_ → mantissa = 0) :
    pack Format.binary64 (UnpackedFloat.unpack Format.binary64 (assemble sign exponent mantissa)).neg =
      assemble (-sign) exponent mantissa := by
  simp only [UnpackedFloat.unpack, unpackExponent_assemble, unpackMantissa_assemble,
    unpackSign_assemble]
  split
  · rename_i full
    subst full
    rw [number rfl]
    rfl
  · rename_i finite
    split
    · rename_i low
      subst low
      split
      · rename_i zero
        subst zero
        rfl
      · rename_i nonzero
        have positive : 0 < mantissa.toNat :=
          Nat.pos_of_ne_zero fun zero => nonzero (BitVec.eq_of_toNat_eq zero)
        exact pack_subnormal (-sign) positive
    · exact pack_normal (-sign) finite _

theorem sign_neg_neg (sign : Sign) : - -sign = sign := by
  cases sign <;> rfl

def negated (b : Bits) : Bits :=
  pack Format.binary64 (UnpackedFloat.unpack Format.binary64 b).neg

theorem negated_negated {b : Bits} (valid : Format.binary64.Valid b) : negated (negated b) = b := by
  by_cases number : unpackExponent b = -1#_ → unpackMantissa b = 0
  · rw [eq_assemble b, negated, negated, pack_neg_unpack _ number, pack_neg_unpack _ number,
      sign_neg_neg]
  · rw [Classical.not_imp] at number
    rw [valid.eq_packedNaN number.1 number.2]
    decide

theorem float_neg_neg (x : Float) : - -x = x := by
  obtain ⟨⟨bits, valid⟩⟩ := x
  have same : UInt64.ofBitVec (negated (negated bits.toBitVec)) = bits := by
    rw [negated_negated valid]
  change Float.ofModel ⟨UInt64.ofBitVec (negated (negated bits.toBitVec)), _⟩ = _
  congr

end Negation

end SlideDeck.Decimal
