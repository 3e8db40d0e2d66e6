import Mathlib
import SlideDeck.Context.Binding
import SlideDeck.Proofs.Decimal.Whole
import SlideDeck.Proofs.Formula.Number

/-!
Values fitted to the type of a parameter: they have that type or are left alone, fitting them again changes
nothing, and a number that was turned into text for one parameter is the same number for another.
-/

namespace SlideDeck

namespace Text

variable {cs : List Char}

theorem trim_of_no_blank (none : ∀ c ∈ cs, isBlank c = false) : trim cs = cs := by
  have kept (ds : List Char) (inside : ∀ c ∈ ds, c ∈ cs) : ds.dropWhile isBlank = ds := by
    cases ds with
    | nil => rfl
    | cons d ds => rw [List.dropWhile_cons_of_neg (by simp [none d (inside d List.mem_cons_self)])]
  rw [trim, kept cs fun c member => member, kept cs.reverse fun c member => List.mem_reverse.mp member,
    List.reverse_reverse]

theorem not_blank_of_bounds {c : Char} (low : 32 < c.toNat) (high : c.toNat < 0x85) : isBlank c = false := by
  simp [isBlank]
  omega

end Text

namespace Decimal

open Formula (Numeral settled isNumeric)

section Text

variable {w i f : List Char} {x y : Float}

theorem not_blank_of_numeric {c : Char} (numeric : isNumeric c = true) : Text.isBlank c = false := by
  simp only [isNumeric, Bool.or_eq_true, decide_eq_true_eq] at numeric
  rcases numeric with digit | rfl
  · simp only [Char.isDigit, Bool.and_eq_true, decide_eq_true_eq] at digit
    have low : 48 ≤ c.toNat := digit.1
    have high : c.toNat ≤ 57 := digit.2
    exact Text.not_blank_of_bounds (by omega) (by omega)
  · decide

theorem splitSign_of_numeric (numeric : ∀ c ∈ w, isNumeric c = true) : splitSign w = (false, w) := by
  unfold splitSign
  split
  · exact absurd (numeric '-' List.mem_cons_self) (by decide)
  · exact absurd (numeric '+' List.mem_cons_self) (by decide)
  · rfl

/-- A minus sign in front of a text without a sign negates its number. -/
theorem read_minus (unsigned : splitSign w = (false, w)) : read ('-' :: w) = (read w).map (- ·) := by
  have signed : splitSign ('-' :: w) = (true, w) := rfl
  unfold read
  rw [signed, unsigned]
  simp

theorem read_format (finite : y.isFinite = true) :
    read (Text.trim (format y).toList) = some (settled y) := by
  have shown := Formula.shown_format finite
  generalize (format y).toList = w at shown
  have visible {u i f : List Char} (numeral : Numeral u i f) : ∀ c ∈ u, Text.isBlank c = false :=
    fun c member => not_blank_of_numeric (numeral.numeric c member)
  by_cases negative : y < 0
  · rw [if_pos negative] at shown
    cases shown with
    | negative numeral value =>
        rw [Text.trim_of_no_blank (List.forall_mem_cons.mpr ⟨by decide, visible numeral⟩),
          read_minus (splitSign_of_numeric numeral.numeric), value, Formula.settled_of_neg negative]
        exact congrArg some (float_neg_neg y)
  · rw [if_neg negative] at shown
    cases shown with
    | unsigned numeral value => rw [Text.trim_of_no_blank (visible numeral), value]

end Text

section Whole

variable {n : Int} {y : Float}

theorem ofNat_small {k : Nat} (positive : 0 < k) (small : k < 2 ^ 53) :
    Float.ofNat k = (Dyadic.normalized k 0).packed := by
  have value : (Dyadic.normalized k 0).value = k * 10 ^ (0 : Int) := by
    rw [Dyadic.normalized_value small, zpow_zero, zpow_zero]
  have near := (Dyadic.normalized k 0).near_value
  rw [value] at near
  apply ofScientific_eq (Dyadic.normalized_canonical positive small (by decide)) positive false <;> simp
  simpa using near

theorem whole?_ofInt (small : n.natAbs < 2 ^ 53) : whole? (Float.ofInt n) = some n := by
  have normal {k : Nat} (positive : 0 < k) (small : k < 2 ^ 53) : (Dyadic.normalized k 0).Normal :=
    Dyadic.normalized_normal (k := 0) positive small (by decide)
  have value {k : Nat} (small : k < 2 ^ 53) : (Dyadic.normalized k 0).value = k := by
    rw [Dyadic.normalized_value small, zpow_zero, mul_one]
  rw [whole?_eq_some_iff]
  cases n with
  | ofNat k =>
      change k < 2 ^ 53 at small
      rcases Nat.eq_zero_or_pos k with rfl | positive
      · rfl
      · rw [Float.ofInt, ofNat_small positive small, value?_packed (normal positive small), value small]
        rfl
  | negSucc k =>
      change k + 1 < 2 ^ 53 at small
      have packed : (if true = true then -Float.ofInt (.negSucc k) else Float.ofInt (.negSucc k)) =
          (Dyadic.normalized (k + 1) 0).packed :=
        (float_neg_neg (Float.ofNat (k + 1))).trans (ofNat_small k.succ_pos small)
      rw [value?_of_packed (normal k.succ_pos small) packed, if_pos rfl, value small, Int.cast_negSucc]

end Whole

theorem whole?_zero {y : Float} (finite : y.isFinite = true) (zero : (y == 0) = true) : whole? y = some 0 := by
  rcases ofFloat_of_isFinite finite with ⟨negative, bits | ⟨x, bits⟩⟩
  · rw [whole?, bits]
    rfl
  · exact absurd zero (not_beq_zero bits)

theorem isFinite_settled {y : Float} (finite : y.isFinite = true) : (settled y).isFinite = true := by
  unfold settled
  split
  · rfl
  · exact finite

end Decimal

def Json.Fits : ParamType → Json → Prop
  | .number, .int _ | .number, .float _ => True
  | .string, .string _ | .color, .string _ => True
  | .boolean, .bool _ => True
  | _, _ => False

section Numbers

open Formula (settled)

variable {x : Float}

theorem Json.ofFloat_settled (finite : x.isFinite = true) : Json.ofFloat (settled x) = Json.ofFloat x := by
  unfold settled
  split
  · rename_i zero
    rw [Json.ofFloat, Json.ofFloat, Decimal.whole?_zero finite zero]
    rfl
  · rfl

theorem Json.fits_ofFloat (finite : x.isFinite = true) : (Json.ofFloat x).Fits .number := by
  unfold Json.ofFloat
  split
  · split <;> trivial
  · rw [if_pos finite]
    trivial

/-- The text of a number is that number again. -/
theorem coerce_format (finite : x.isFinite = true) :
    coerce .number (.string (Decimal.format x)) = Json.ofFloat x := by
  have read := Decimal.read_format finite
  simp only [coerce, read, if_pos (Decimal.isFinite_settled finite)]
  exact Json.ofFloat_settled finite

end Numbers

section Coercion

variable {k : ParamType} {v : Json} {x : Float}

theorem coerce_of_fits (fits : v.Fits k) : coerce k v = v := by
  cases k <;> cases v <;> first | rfl | exact fits.elim

theorem coerce_fits (k : ParamType) (v : Json) : coerce k v = v ∨ (coerce k v).Fits k := by
  fun_cases coerce k v
  case case1 s x read finite => exact Or.inr (Json.fits_ofFloat finite)
  all_goals first | exact Or.inl rfl | exact Or.inr trivial

theorem coerce_text (text : k = .string ∨ k = .color) (finite : x.isFinite = true) :
    ∃ y : Float, y.isFinite = true ∧ Json.ofFloat y = Json.ofFloat x ∧
      coerce k (Json.ofFloat x) = .string (Decimal.format y) := by
  have kept : Json.ofFloat x = .float x → ∃ y : Float, y.isFinite = true ∧ Json.ofFloat y = Json.ofFloat x ∧
      coerce k (Json.ofFloat x) = .string (Decimal.format y) := by
    intro float
    refine ⟨x, finite, rfl, ?_⟩
    rw [float]
    rcases text with rfl | rfl <;> rfl
  cases whole : Decimal.whole? x with
  | none => exact kept (by rw [Json.ofFloat, whole]; exact if_pos finite)
  | some n =>
      by_cases small : n.natAbs < 9000000000000000
      · have exact : Decimal.whole? (Float.ofInt n) = some n := Decimal.whole?_ofInt (by omega)
        have int : ∀ y, Decimal.whole? y = some n → Json.ofFloat y = .int n := by
          intro y same
          rw [Json.ofFloat, same]
          exact if_pos small
        refine ⟨Float.ofInt n, Decimal.isFinite_of_whole? exact, ?_, ?_⟩
        · rw [int _ exact, int _ whole]
        · rw [int _ whole]
          rcases text with rfl | rfl <;> rfl
      · exact kept (by rw [Json.ofFloat, whole]; exact if_neg small)

/-- Fitting a value twice is fitting it once, and it gets the declared type or stays; a finite number that
was made text is the same number again. -/
theorem coercion_lossless :
    (∀ k v, coerce k (coerce k v) = coerce k v ∧ (coerce k v = v ∨ (coerce k v).Fits k)) ∧
    ∀ x : Float, x.isFinite = true → ∀ k, k = .string ∨ k = .color →
      coerce .number (coerce k (Json.ofFloat x)) = Json.ofFloat x := by
  constructor
  · intro k v
    rcases coerce_fits k v with same | fits
    · exact ⟨congrArg (coerce k) same, Or.inl same⟩
    · exact ⟨coerce_of_fits fits, Or.inr fits⟩
  · intro x finite k text
    rcases coerce_text text finite with ⟨y, finite', same, written⟩
    rw [written, coerce_format finite', same]

/-- The first number that is too large to become an integer keeps its kind. -/
theorem coercion_lossless_of_large :
    Json.ofFloat (-9000000000000000) = .float (-9000000000000000) ∧
      coerce .color (.float (-9000000000000000)) = .string "-9000000000000000" ∧
      coerce .number (.string "-9000000000000000") = .float (-9000000000000000) := by
  have float : Json.ofFloat (-9000000000000000) = .float (-9000000000000000) := by rfl
  have written : coerce .color (.float (-9000000000000000)) = .string "-9000000000000000" :=
    congrArg Json.string (by decide +kernel)
  have back := coercion_lossless.2 (-9000000000000000) (by rfl) .color (Or.inr rfl)
  rw [float, written] at back
  exact ⟨float, written, back⟩

end Coercion

end SlideDeck
