import Mathlib
import SlideDeck.Proofs.Decimal.Reading

/-!
Finite numbers by their bits: a sign and a magnitude in canonical form.
-/

namespace SlideDeck.Decimal

open Float.Model Float.Model.UnpackedFloat

def signOf (negative : Bool) : Sign := if negative then .negative else .positive

theorem ofBits_assemble (sign : Sign) (exponent : BitVec 11) (mantissa : BitVec 52) :
    Binary.ofBits (assemble sign exponent mantissa).toNat =
      let negative := sign.toBitVec.toNat == 1
      if exponent.toNat = 2047 then (if mantissa.toNat = 0 then .infinite negative else .nan)
      else if exponent.toNat = 0 then
        if mantissa.toNat = 0 then .zero negative else .finite negative ⟨mantissa.toNat, -1074⟩
      else .finite negative ⟨mantissa.toNat + 2 ^ 52, exponent.toNat - 1075⟩ := by
  have narrow := sign.toBitVec.isLt
  have range := exponent.isLt
  have width := mantissa.isLt
  have top : (assemble sign exponent mantissa).toNat / 2 ^ 63 % 2 = sign.toBitVec.toNat := by
    rw [toNat_assemble]
    omega
  have field : (assemble sign exponent mantissa).toNat / 2 ^ 52 % 2048 = exponent.toNat := by
    rw [toNat_assemble]
    omega
  have fraction : (assemble sign exponent mantissa).toNat % 2 ^ 52 = mantissa.toNat := by
    rw [toNat_assemble]
    omega
  simp only [Binary.ofBits, top, field, fraction]

theorem exists_assemble (b : Bits) : ∃ sign exponent mantissa, b = assemble sign exponent mantissa :=
  ⟨_, _, _, eq_assemble b⟩

/-- What bits stand for is what they unpack to; a finite number has its magnitude in canonical form. -/
theorem ofBits_unpack (b : Bits) :
    match Binary.ofBits b.toNat with
    | .nan => UnpackedFloat.unpack Format.binary64 b = .notANumber
    | .infinite negative => UnpackedFloat.unpack Format.binary64 b = .infinity (signOf negative)
    | .zero negative => UnpackedFloat.unpack Format.binary64 b = .zero (signOf negative)
    | .finite negative x => x.Canonical ∧ x.exponent ≤ 971 ∧ ∃ positive,
        UnpackedFloat.unpack Format.binary64 b = .finite (signOf negative) x.mantissa x.exponent positive := by
  obtain ⟨sign, exponent, mantissa, rfl⟩ := exists_assemble b
  have signed : signOf (sign.toBitVec.toNat == 1) = sign := by cases sign <;> rfl
  have range := exponent.isLt
  have width := mantissa.isLt
  have fraction : mantissa.toNat = 0 ↔ mantissa = 0#_ := BitVec.toNat_inj (y := 0#52)
  have full : exponent.toNat = 2047 ↔ exponent = -1#_ := BitVec.toNat_inj (y := -1#11)
  have low : exponent.toNat = 0 ↔ exponent = 0#_ := BitVec.toNat_inj (y := 0#11)
  rw [ofBits_assemble]
  simp only [UnpackedFloat.unpack, unpackExponent_assemble, unpackMantissa_assemble, unpackSign_assemble, full,
    low, fraction]
  by_cases ones : exponent = -1#_
  · rw [if_pos ones, if_pos ones]
    by_cases none : mantissa = 0#_
    · rw [if_pos none, if_pos none]
      exact congrArg _ signed.symm
    · rw [if_neg none, if_neg none]
  · rw [if_neg ones, if_neg ones]
    by_cases subnormal : exponent = 0#_
    · rw [if_pos subnormal, if_pos subnormal]
      by_cases none : mantissa = 0#_
      · rw [if_pos none, dif_pos none]
        exact congrArg _ signed.symm
      · rw [if_neg none, dif_neg none]
        have positive : 0 < mantissa.toNat := Nat.pos_of_ne_zero (mt fraction.mp none)
        refine ⟨⟨positive, by simp only; omega, le_rfl, by simp⟩, by norm_num, positive, ?_⟩
        rw [subnormal, signed]
        rfl
    · rw [if_neg subnormal, if_neg subnormal]
      have normal : exponent.toNat ≠ 0 := mt low.mp subnormal
      have finite : exponent.toNat ≠ 2047 := mt full.mp ones
      have implicit : (1#1 ++ mantissa).toNat = mantissa.toNat + 2 ^ 52 := by
        rw [toNat_implicit, Nat.add_comm]
      refine ⟨⟨by simp only; omega, by simp only; omega, by simp only; omega,
        fun _ => by simp only; omega⟩, by simp only; omega, by simp only; omega, ?_⟩
      rw [signed]
      simp only [implicit]
      rfl

section Bits

variable {b : Bits} {negative : Bool}

theorem ofBits_zero (bits : Binary.ofBits b.toNat = .zero negative) :
    UnpackedFloat.unpack Format.binary64 b = .zero (signOf negative) := by
  have unpacked := ofBits_unpack b
  rwa [bits] at unpacked

theorem ofBits_infinite (bits : Binary.ofBits b.toNat = .infinite negative) :
    UnpackedFloat.unpack Format.binary64 b = .infinity (signOf negative) := by
  have unpacked := ofBits_unpack b
  rwa [bits] at unpacked

theorem ofBits_nan (bits : Binary.ofBits b.toNat = .nan) :
    UnpackedFloat.unpack Format.binary64 b = .notANumber := by
  have unpacked := ofBits_unpack b
  rwa [bits] at unpacked

theorem ofBits_finite {x : Dyadic} (bits : Binary.ofBits b.toNat = .finite negative x) :
    x.Canonical ∧ x.exponent ≤ 971 ∧ ∃ positive,
      UnpackedFloat.unpack Format.binary64 b =
        .finite (signOf negative) x.mantissa x.exponent positive := by
  have unpacked := ofBits_unpack b
  rwa [bits] at unpacked

end Bits

section Float

variable {y : Float} {negative : Bool} {x : Dyadic}

theorem unpack_of_finite (bits : Binary.ofFloat y = .finite negative x) : ∃ positive,
    y.toModel.unpack = .finite (signOf negative) x.mantissa x.exponent positive :=
  (ofBits_finite bits).2.2

theorem eq_packed (bits : Binary.ofFloat y = .finite false x) : y = x.packed := by
  obtain ⟨positive, unpacked⟩ := unpack_of_finite bits
  calc
    y = .ofModel (.pack y.toModel.unpack) := (Float.ofBits_toBits y).symm
    _ = x.packed := by
      rw [unpacked, Dyadic.packed_eq positive]
      rfl

theorem neg_eq_packed (bits : Binary.ofFloat y = .finite true x) : -y = x.packed := by
  obtain ⟨positive, unpacked⟩ := unpack_of_finite bits
  change Float.ofModel (.pack y.toModel.unpack.neg) = _
  rw [unpacked, Dyadic.packed_eq positive]
  rfl

theorem beq_zero (bits : Binary.ofFloat y = .zero negative) : (y == 0) = true := by
  have unpacked := ofBits_zero (b := y.toModel.toBits.toBitVec) bits
  change (UnpackedFloat.unpack Format.binary64 y.toModel.toBits.toBitVec).beq
    (0 : Float).toModel.unpack = true
  rw [unpacked]
  cases negative <;> rfl

theorem not_beq_zero (bits : Binary.ofFloat y = .finite negative x) : ¬ (y == 0) = true := by
  obtain ⟨positive, unpacked⟩ := unpack_of_finite bits
  change ¬ y.toModel.unpack.beq (0 : Float).toModel.unpack = true
  rw [unpacked]
  cases negative <;> exact Bool.false_ne_true

theorem lt_zero_iff (bits : Binary.ofFloat y = .finite negative x) : y < 0 ↔ negative = true := by
  obtain ⟨positive, unpacked⟩ := unpack_of_finite bits
  have order : y < 0 ↔ (y.toModel.unpack.compare (0 : Float).toModel.unpack == some .lt) = true :=
    decide_eq_true_iff
  have zero : (0 : Float).toModel.unpack = .zero .positive := by rfl
  rw [order, unpacked, zero]
  cases negative
  · change (some Ordering.gt == some Ordering.lt) = true ↔ false = true
    decide
  · change (some Ordering.lt == some Ordering.lt) = true ↔ true = true
    decide

theorem eq_of_infinite {z : Float} (one : Binary.ofFloat y = .infinite negative)
    (other : Binary.ofFloat z = .infinite negative) : y = z := by
  have packed {u : Float} (bits : Binary.ofFloat u = .infinite negative) :
      u = .ofModel (.pack (.infinity (signOf negative))) := by
    have unpacked : u.toModel.unpack = .infinity (signOf negative) := ofBits_infinite bits
    rw [← unpacked]
    exact (Float.ofBits_toBits u).symm
  rw [packed one, packed other]

theorem isNaN_of_nan (bits : Binary.ofFloat y = .nan) : y.isNaN = true := by
  have unpacked : y.toModel.unpack = .notANumber := ofBits_nan bits
  change y.toModel.unpack.isNaN = true
  rw [unpacked]
  rfl

end Float

end SlideDeck.Decimal
