import Mathlib
import SlideDeck.Proofs.Decimal.Magnitude
import SlideDeck.Proofs.Decimal.Shortest
import SlideDeck.Proofs.Formula.Hygiene

/-!
Numbers put in as text are read back as they were: the digits that are shown have the value of the
shortest decimal, which is near the number, and so the number is what they read as.
-/

namespace SlideDeck.Decimal

open Formula (Numeral)

theorem numeral_positional (s : Scientific) : ∃ i f, Numeral s.positional.toList i f ∧
    Scientific.value ⟨natOfDigits (i ++ f), -(f.length : Int)⟩ = s.value := by
  rcases s.positional_cases with ⟨k, exponent, layout⟩ | ⟨w, f, digits, fraction, exponent, layout, number, -⟩
  · refine ⟨s.positional.toList, [], .whole ?_, ?_⟩
    · rw [layout]
      exact (digits_toString s.digits).append fun c => isDigit_of_mem_zeros
    · rw [layout, List.append_nil, natOfDigits_append_zeros, natOfDigits_toString]
      unfold Scientific.value
      rw [exponent, zpow_natCast, List.length_nil, Nat.cast_zero, neg_zero, zpow_zero, mul_one, Nat.cast_mul,
        Nat.cast_pow, Nat.cast_ofNat]
  · refine ⟨w, f, ?_, ?_⟩
    · rw [layout]
      exact .decimal digits fraction
    · rw [number, ← exponent]

theorem read_shortest {x : Dyadic} (canonical : x.Canonical) (high : x.exponent ≤ 971) (tie : Tie) :
    ∃ i f, Numeral (x.shortest tie).positional.toList i f ∧
      read (x.shortest tie).positional.toList = some x.packed := by
  obtain ⟨i, f, numeral, value⟩ := numeral_positional (x.shortest tie)
  refine ⟨i, f, numeral, ?_⟩
  rw [numeral.read]
  congr 1
  apply Scientific.toFloat_eq canonical high
  rw [value]
  exact shortest_near canonical tie

theorem display_infinite {y : Float} {negative : Bool} (bits : Binary.ofFloat y = .infinite negative) :
    (display y).toList = if negative then ['-', 'i', 'n', 'f'] else ['i', 'n', 'f'] := by
  rw [display, bits, toList_signText_append]
  rfl

end SlideDeck.Decimal

namespace SlideDeck.Formula

/-- A finite number is shown as digits that read back as its magnitude, behind a minus sign if it is
negative. -/
theorem shown_format {y : Float} (finite : y.isFinite = true) :
    Shown (Decimal.format y).toList
      (if y < 0 then [.minus, .number (-y)] else [.number (settled y)]) := by
  have literal : (0.0 : Float) = 0 := rfl
  unfold Decimal.format
  rw [literal]
  by_cases zero : (y == 0) = true
  · have unsigned : ¬ y < 0 := fun negative => by simp [beq_zero_of_neg negative] at zero
    rw [if_pos zero, if_neg unsigned, settled, if_pos zero]
    have digits : Numeral ['0'] ['0'] [] := .whole (Decimal.digits_singleton rfl)
    exact .unsigned digits (digits.read.trans (by rfl))
  · rw [if_neg zero, settled, if_neg zero, Decimal.display]
    obtain ⟨negative, bits | ⟨x, bits⟩⟩ := Decimal.ofFloat_of_isFinite finite
    · exact absurd (Decimal.beq_zero bits) zero
    · obtain ⟨canonical, high, -⟩ := Decimal.ofBits_finite bits
      obtain ⟨i, f, numeral, value⟩ := Decimal.read_shortest canonical high .up
      simp only [bits, Decimal.toList_signText_append]
      have sign := Decimal.lt_zero_iff bits
      cases negative
      · have unsigned : ¬ y < 0 := fun below => by cases sign.mp below
        rw [if_neg unsigned]
        rw [← Decimal.eq_packed bits] at value
        exact .unsigned numeral value
      · rw [if_pos (sign.mpr rfl)]
        rw [← Decimal.neg_eq_packed bits] at value
        exact .negative numeral value

theorem numeral_nat (n : Nat) : Numeral (toString n).toList (toString n).toList [] ∧
    Decimal.read (toString n).toList = some (Float.ofNat n) := by
  have digits : Numeral (toString n).toList (toString n).toList [] :=
    .whole (Decimal.digits_toString n)
  have value := digits.read
  rw [List.append_nil, Decimal.natOfDigits_toString, List.length_nil, Nat.cast_zero, neg_zero,
    Decimal.Scientific.toFloat_whole] at value
  exact ⟨digits, value⟩

theorem shown_nat (n : Nat) : Shown (toString n).toList [.number (Float.ofNat n)] :=
  .unsigned (numeral_nat n).1 (numeral_nat n).2

section Shown

variable {w : List Char} {ts us : List Token}

/-- A text shows one number. -/
theorem Shown.unique (one : Shown w ts) (other : Shown w us) : ts = us := by
  cases one with
  | unsigned numeral value =>
      cases other with
      | unsigned _ same => rw [Option.some.inj (value.symm.trans same)]
      | negative => exact absurd (numeral.numeric '-' List.mem_cons_self) (by decide)
  | negative _ value =>
      cases other with
      | unsigned numeral => exact absurd (numeral.numeric '-' List.mem_cons_self) (by decide)
      | negative _ same => rw [Option.some.inj (value.symm.trans same)]

theorem Shown.no_letter (shown : Shown w ts) : 'n' ∉ w := by
  have plain {u i f : List Char} (numeral : Numeral u i f) : 'n' ∉ u := fun member =>
    absurd (numeral.numeric 'n' member) (by decide)
  cases shown with
  | unsigned numeral => exact plain numeral
  | negative numeral => exact List.not_mem_cons_of_ne_of_not_mem (by decide) (plain numeral)

def signed (negative : Bool) (x : Float) : List Token :=
  if negative then [.minus, .number x] else [.number x]

theorem signed_inj {negative negative' : Bool} {x y : Float}
    (same : signed negative x = signed negative' y) : negative = negative' ∧ x = y := by
  cases negative <;> cases negative' <;> simp_all [signed]

theorem shown_int (n : Int) :
    Shown (toString n).toList (signed (decide (n < 0)) (Float.ofNat n.natAbs)) := by
  cases n with
  | ofNat m => exact shown_nat m
  | negSucc m =>
      rw [decide_eq_true (Int.negSucc_lt_zero m), Decimal.toList_negSucc]
      exact .negative (numeral_nat (m + 1)).1 (numeral_nat (m + 1)).2

theorem shown_display {y : Float} (finite : y.isFinite = true) (nonzero : ¬ (y == 0) = true) :
    Shown (Decimal.display y).toList (signed (decide (y < 0)) (if y < 0 then -y else y)) := by
  have literal : (0.0 : Float) = 0 := rfl
  have shown := shown_format finite
  rw [Decimal.format, literal, if_neg nonzero, settled, if_neg nonzero] at shown
  by_cases negative : y < 0
  · simpa [signed, negative] using shown
  · simpa [signed, negative] using shown

end Shown

end SlideDeck.Formula
