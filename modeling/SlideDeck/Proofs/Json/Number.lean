import Mathlib
import SlideDeck.Proofs.Decimal.Overflow
import SlideDeck.Proofs.Formula.Number
import SlideDeck.Proofs.Json.Reading

/-!
Numbers as they are written are read back: an integer as it was, and a finite float as some float, whose
digits can be multiplied out.
-/

namespace SlideDeck.Decimal

section Text

variable {n : Nat}

/-- As many digits are written as a number has. -/
theorem length_toDigits (n : Nat) : (Nat.toDigits 10 n).length = digitCount n := by
  induction n using Nat.strongRecOn with
  | _ n ih =>
      rw [Nat.toDigits_eq_if (by norm_num), digitCount]
      split
      · rfl
      · rw [List.length_append, ih (n / 10) (by omega), List.length_singleton]

theorem length_toString (n : Nat) : (toString n).toList.length = digitCount n := by
  rw [Nat.toString_eq_ofList_toDigits, String.toList_ofList, length_toDigits]

theorem toString_eq_cons (positive : 0 < n) : ∃ c cs, (toString n).toList = c :: cs ∧ c ≠ '0' := by
  rw [Nat.toString_eq_ofList_toDigits, String.toList_ofList]
  induction n using Nat.strongRecOn with
  | _ n ih =>
      rw [Nat.toDigits_eq_if (by norm_num)]
      split
      · rename_i small
        refine ⟨n.digitChar, [], rfl, ?_⟩
        interval_cases n <;> decide
      · obtain ⟨c, cs, digits, lead⟩ := ih (n / 10) (by omega) (by omega)
        exact ⟨c, cs ++ [(n % 10).digitChar], by rw [digits]; rfl, lead⟩

theorem natOfDigits_mono (cs ds : List Char) : natOfDigits cs ≤ natOfDigits (cs ++ ds) := by
  induction ds using List.reverseRecOn with
  | nil => rw [List.append_nil]
  | append_singleton ds d ih =>
      have step : natOfDigits (cs ++ (ds ++ [d])) = 10 * natOfDigits (cs ++ ds) + digitValue d := by
        rw [← List.append_assoc, natOfDigits_append]
        rfl
      omega

end Text

end SlideDeck.Decimal

namespace SlideDeck.Json.Reader

open Decimal (Digits natOfDigits digitValue)

variable {negative : Bool} {n depth : Nat} {base exponent : Int} {w f rest rest' : List Char} {c : Char}
  {whole j : Json}

def Ends (rest : List Char) : Prop :=
  ∀ c ∈ rest.head?, c.isDigit = false ∧ c ≠ '.' ∧ c ≠ 'e' ∧ c ≠ 'E'

theorem Stops.ends (stops : Stops rest) : Ends rest := by
  intro c head
  rcases stops c head with rfl | rfl | rfl <;> decide

theorem Ends.noDigit (ends : Ends rest) : ∀ c ∈ rest.head?, c.isDigit = false := fun c head => (ends c head).1

theorem noDigit_cons (other : c.isDigit = false) (tail : List Char) :
    ∀ d ∈ (c :: tail).head?, d.isDigit = false := by
  rintro d ⟨⟩
  exact other

theorem isMark_head? (ends : Ends rest) : isMark rest.head? = false := by
  cases rest with
  | nil => rfl
  | cons c rest => simp [isMark, (ends c rfl).2.2]

/-- Digits that fit 64 bits are all kept. -/
theorem absorb_eq (w ds : List Char) (small : natOfDigits (w ++ ds) < 2 ^ 64) :
    absorb (natOfDigits w) ds = (natOfDigits (w ++ ds), ds.length) := by
  induction ds generalizing w with
  | nil => rw [List.append_nil]; rfl
  | cons d ds ih =>
      have step : natOfDigits w * 10 + digitValue d = natOfDigits (w ++ [d]) := by
        rw [Decimal.natOfDigits_append, Nat.mul_comm]
        rfl
      have shift : w ++ d :: ds = w ++ [d] ++ ds := by rw [List.append_assoc, List.singleton_append]
      rw [shift] at small ⊢
      have fits := (Decimal.natOfDigits_mono (w ++ [d]) ds).trans_lt small
      rw [absorb]
      simp only [step, if_pos fits, ih (w ++ [d]) small, List.length_cons]

def signed (negative : Bool) (n : Nat) : Json :=
  if n = 0 then number.zero negative 0 else number.integer negative n

theorem digitValue_pos (digit : c.isDigit = true) (other : c ≠ '0') : 0 < digitValue c := by
  have bounds : 48 ≤ c.toNat ∧ c.toNat ≤ 57 := by
    simpa [Char.isDigit, UInt32.le_iff_toNat_le] using digit
  have differs : c.toNat ≠ 48 := fun same => other (Char.toNat_inj.mp same)
  have zero : '0'.toNat = 48 := rfl
  unfold digitValue
  omega

theorem reads_number (digits : Digits w) (lead : w = ['0'] ∨ w.head? ≠ some '0')
    (small : natOfDigits w < 2 ^ 64) (stop : ∀ c ∈ rest.head?, c.isDigit = false)
    (tail : Reads (numberTail negative (natOfDigits w) 0 (pure (signed negative (natOfDigits w)))) depth
      rest rest' j) :
    Reads (number negative) depth (w ++ rest) rest' j := by
  obtain ⟨c, ds, rfl⟩ := List.exists_cons_of_ne_nil digits.1
  unfold number
  refine (reads_next depth c (ds ++ rest)).bind ?_
  rcases lead with zero | other
  · obtain ⟨rfl, rfl⟩ := List.cons.inj zero
    refine (reads_peek depth rest).bind ?_
    have value : natOfDigits ['0'] = 0 := rfl
    rw [value, signed, if_pos rfl] at tail
    cases head : rest.head? with
    | none => exact tail
    | some d =>
        simp only [stop d head, Bool.false_eq_true, if_false]
        exact tail
  · have nonzero : c ≠ '0' := fun same => other (by rw [same]; rfl)
    have digit := digits.2 c List.mem_cons_self
    have single : natOfDigits [c] = digitValue c := by
      unfold natOfDigits
      simp
    have positive : natOfDigits (c :: ds) ≠ 0 := by
      have least := Decimal.natOfDigits_mono [c] ds
      have some := digitValue_pos digit nonzero
      rw [List.singleton_append] at least
      omega
    rw [signed, if_neg positive] at tail
    split
    · rename_i nothing
      cases nothing
    · rename_i same
      exact absurd (Option.some.inj same) nonzero
    · rename_i d _ same
      obtain rfl := Option.some.inj same
      simp only [digit, Bool.not_true, Bool.false_eq_true, if_false]
      refine (reads_takeWhile (fun e member => digits.2 e (List.mem_cons_of_mem c member)) stop depth).bind ?_
      have kept := absorb_eq [c] ds small
      rw [single] at kept
      simp only [kept, if_true]
      exact tail

theorem reads_numberTail_end (ends : Ends rest) (n : Nat) (whole : Json) (depth : Nat) :
    Reads (numberTail negative n base (pure whole)) depth rest rest whole := by
  unfold numberTail
  refine (reads_peek depth rest).bind ?_
  split
  · rename_i point
    exact absurd rfl (ends '.' point).2.1
  · simp only [isMark_head? ends, Bool.false_eq_true, if_false]
    exact reads_pure whole depth rest

theorem reads_numberTail_point (fraction : Digits f) (small : natOfDigits (w ++ f) < 2 ^ 64)
    (stop : ∀ c ∈ rest.head?, c.isDigit = false) {integer : Reader Json}
    (tail : Reads (if isMark rest.head? then exponentPart negative (natOfDigits (w ++ f)) (-(f.length : Int))
      else scaled negative (natOfDigits (w ++ f)) (-(f.length : Int))) depth rest rest' j) :
    Reads (numberTail negative (natOfDigits w) 0 integer) depth ('.' :: (f ++ rest)) rest' j := by
  unfold numberTail
  refine (reads_peek depth _).bind ?_
  refine (reads_skip depth '.' (f ++ rest)).bind ?_
  refine (reads_takeWhile fraction.2 stop depth).bind ?_
  have some : f.isEmpty = false := List.isEmpty_eq_false_iff.mpr fraction.1
  simp only [some, Bool.false_eq_true, if_false, absorb_eq w f small, zero_sub]
  refine (reads_peek depth rest).bind ?_
  split at tail <;> rename_i mark <;> simp only [mark, if_true, Bool.false_eq_true, if_false] <;> exact tail

theorem reads_exponentPart (down : Bool) (digits : Digits w) (small : natOfDigits w ≤ 2147483647)
    (stop : ∀ c ∈ rest.head?, c.isDigit = false)
    (tail : Reads (scaled negative n (if down then base - natOfDigits w else base + natOfDigits w)) depth
      rest rest' j) :
    Reads (exponentPart negative n base) depth ('e' :: (if down then '-' else '+') :: (w ++ rest)) rest' j := by
  obtain ⟨c, ds, rfl⟩ := List.exists_cons_of_ne_nil digits.1
  have digit := digits.2 c List.mem_cons_self
  unfold exponentPart
  refine (reads_skip depth 'e' _).bind ?_
  refine (reads_peek depth _).bind ?_
  cases down
  all_goals
    refine (reads_skip depth _ _).bind ?_
    refine (reads_pure _ depth _).bind ?_
    refine (reads_next depth c (ds ++ rest)).bind ?_
    simp only [digit, Bool.not_true, Bool.false_eq_true, if_false]
    refine (reads_takeWhile (fun e member => digits.2 e (List.mem_cons_of_mem c member)) stop depth).bind ?_
    rw [if_neg (not_lt.mpr small)]
    exact tail

theorem reads_exponentText {e : Int} (small : e.natAbs ≤ 2147483647) (ends : Ends rest)
    (tail : Reads (scaled negative n (base + e)) depth rest rest' j) :
    Reads (exponentPart negative n base) depth
      ('e' :: (if decide (e < 0) then '-' else '+') :: ((toString e.natAbs).toList ++ rest)) rest' j := by
  have amount := Decimal.natOfDigits_toString e.natAbs
  refine reads_exponentPart _ (Decimal.digits_toString e.natAbs) (by rwa [amount]) ends.noDigit ?_
  have moved : (if decide (e < 0) = true then base - e.natAbs else base + e.natAbs) = base + e := by
    split <;> rename_i sign <;> simp only [decide_eq_true_eq] at sign <;> omega
  rwa [amount, moved]

theorem reads_scaled
    (fits : exponent < 0 ∨ exponent ≤ 308 ∧ (Float.ofNat n * tenTo exponent.toNat).isInf = false)
    (negative : Bool) :
    ∃ y, ∀ depth text, Reads (scaled negative n exponent) depth text text (.float y) := by
  have always {r : Reader Json} (value : ∃ y, r = pure (.float y)) :
      ∃ y, ∀ depth text, Reads r depth text text (.float y) := by
    obtain ⟨y, rfl⟩ := value
    exact ⟨y, reads_pure _⟩
  refine always ?_
  unfold scaled
  rcases lt_or_ge exponent 0 with down | up
  · rw [if_neg (by omega), if_neg (by omega)]
    simp only
    split <;> exact ⟨_, rfl⟩
  · obtain ⟨range, finite⟩ := fits.resolve_left (not_lt.mpr up)
    rw [if_neg (by omega), if_pos up]
    simp only [finite, Bool.false_eq_true, if_false]
    exact ⟨_, rfl⟩

/-- Digits with a sign, from which a number that `holds` is read wherever they stand. -/
def Numeric (text : List Char) (holds : Json → Prop) : Prop :=
  ∃ negative body, text = (if negative then '-' :: body else body) ∧
    (∃ c cs, body = c :: cs ∧ c.isDigit = true) ∧
    ∀ depth rest, Ends rest → ∃ j, holds j ∧ Reads (number negative) depth (body ++ rest) rest j

theorem exists_digit_append (digits : Digits w) (more : List Char) :
    ∃ c cs, w ++ more = c :: cs ∧ c.isDigit = true := by
  obtain ⟨c, ds, rfl⟩ := List.exists_cons_of_ne_nil digits.1
  exact ⟨c, ds ++ more, rfl, digits.2 c List.mem_cons_self⟩

theorem numeric_toString {n : Int} (low : -(2 ^ 63) ≤ n) (high : n < 2 ^ 64) :
    Numeric (toString n).toList (· = .int n) := by
  have reads : ∀ (m : Nat) (negative : Bool), m < 2 ^ 64 → signed negative m = .int n →
      ∀ depth rest, Ends rest →
        ∃ j, j = .int n ∧ Reads (number negative) depth ((toString m).toList ++ rest) rest j := by
    intro m negative small value depth rest ends
    have digits := Decimal.natOfDigits_toString m
    have lead : (toString m).toList = ['0'] ∨ (toString m).toList.head? ≠ some '0' := by
      rcases Nat.eq_zero_or_pos m with rfl | positive
      · exact Or.inl rfl
      · obtain ⟨c, cs, text, other⟩ := Decimal.toString_eq_cons positive
        rw [text]
        exact Or.inr fun same => other (Option.some.inj same)
    refine ⟨.int n, rfl, reads_number (Decimal.digits_toString m) lead (by rwa [digits]) ends.noDigit ?_⟩
    rw [digits, value]
    exact reads_numberTail_end ends m _ depth
  cases n with
  | ofNat m =>
      refine ⟨false, (toString m).toList, rfl, ?_, reads m false (by simpa using high) ?_⟩
      · simpa using exists_digit_append (Decimal.digits_toString m) []
      · unfold signed
        split
        · rename_i zero
          rw [zero]
          rfl
        · rfl
  | negSucc m =>
      have bound : m + 1 ≤ 2 ^ 63 := by omega
      refine ⟨true, (toString (m + 1)).toList, Decimal.toList_negSucc m, ?_, reads (m + 1) true (by omega) ?_⟩
      · simpa using exists_digit_append (Decimal.digits_toString (m + 1)) []
      · rw [signed, if_neg (Nat.succ_ne_zero m)]
        simp only [number.integer, Bool.not_true, Bool.false_eq_true, if_false, if_pos bound]
        rfl

theorem reads_point (digits : Digits w) (fraction : Digits f) (lead : w = ['0'] ∨ w.head? ≠ some '0')
    (small : natOfDigits (w ++ f) < 2 ^ 64) (negative : Bool) :
    ∃ y, ∀ depth rest, Ends rest →
      Reads (number negative) depth (w ++ '.' :: (f ++ rest)) rest (.float y) := by
  have places : 0 < f.length := List.length_pos_iff.mpr fraction.1
  have down : -(f.length : Int) < 0 := by omega
  obtain ⟨y, scaled⟩ := reads_scaled (n := natOfDigits (w ++ f)) (Or.inl down) negative
  refine ⟨y, fun depth rest ends => reads_number digits lead
    ((Decimal.natOfDigits_mono w f).trans_lt small) (noDigit_cons rfl _)
    (reads_numberTail_point fraction small ends.noDigit ?_)⟩
  rw [isMark_head? ends]
  exact scaled depth rest

/-- A decimal below `10 ^ 16` is written with a point and at most so many digits as fit 64 bits. -/
theorem pointed_eq {s : Decimal.Scientific} (positive : 0 < s.digits) (most : s.digits ≤ 10 ^ 17)
    (small : s.exponent + (Decimal.digitCount s.digits - 1 : Nat) < 16) :
    ∃ w f, Digits w ∧ Digits f ∧ (w = ['0'] ∨ w.head? ≠ some '0') ∧ natOfDigits (w ++ f) < 2 ^ 64 ∧
      (if 0 ≤ s.exponent then s.positional ++ ".0" else s.positional).toList = w ++ '.' :: f := by
  obtain ⟨c, cs, shape, other⟩ := Decimal.toString_eq_cons positive
  rcases s.positional_cases with ⟨k, exponent, layout⟩ | ⟨w, f, digits, fraction, exponent, layout, number, lead⟩
  · have tail : ".0".toList = ['.', '0'] := rfl
    refine ⟨(toString s.digits).toList ++ (Decimal.zeros k).toList, ['0'],
      (Decimal.digits_toString s.digits).append fun c => Decimal.isDigit_of_mem_zeros,
      Decimal.digits_singleton rfl, Or.inr ?_, ?_, ?_⟩
    · rw [shape, List.cons_append, List.head?_cons]
      exact fun same => other (Option.some.inj same)
    · have count := Decimal.digitCount_pos s.digits
      have product : s.digits * 10 ^ k < 10 ^ 16 :=
        calc
          s.digits * 10 ^ k < 10 ^ Decimal.digitCount s.digits * 10 ^ k := by
            gcongr
            exact (Decimal.digitCount_bounds positive).2
          _ = 10 ^ (Decimal.digitCount s.digits + k) := (pow_add _ _ _).symm
          _ ≤ 10 ^ 16 := Nat.pow_le_pow_right (by norm_num) (by omega)
      have value : natOfDigits ((toString s.digits).toList ++ (Decimal.zeros k).toList ++ ['0']) =
          10 * (s.digits * 10 ^ k) := by
        rw [Decimal.natOfDigits_append, Decimal.natOfDigits_append_zeros, Decimal.natOfDigits_toString]
        rfl
      omega
    · rw [if_pos (by omega), String.toList_append, layout, tail]
  · have some : 0 < f.length := List.length_pos_iff.mpr fraction.1
    refine ⟨w, f, digits, fraction, lead.imp_right fun first => ?_, by omega, ?_⟩
    · rw [first, shape, List.head?_cons]
      exact fun same => other (Option.some.inj same)
    · rw [if_neg (by omega), layout]

theorem toList_exponential (s : Decimal.Scientific) {c : Char} {cs : List Char}
    (digits : (toString s.digits).toList = c :: cs) :
    (s.exponential 'e' "+" 0).toList =
      c :: ((if cs = [] then [] else '.' :: cs) ++
        'e' :: (if decide (s.exponent + cs.length < 0) then '-' else '+') ::
          (toString (s.exponent + cs.length).natAbs).toList) := by
  have length : (toString s.digits).length = cs.length + 1 := by
    rw [← String.length_toList, digits, List.length_cons]
  have more : (if (String.ofList cs).isEmpty then "" else "." ++ String.ofList cs).toList =
      if cs = [] then [] else '.' :: cs := by
    cases cs with
    | nil => rfl
    | cons d ds =>
        have some : (String.ofList (d :: ds)).isEmpty = false := by simp
        rw [some, if_neg (List.cons_ne_nil d ds), if_neg Bool.false_ne_true, String.toList_append]
        simp
  have sign (e : Int) : (if e < 0 then "-" else "+").toList = [if decide (e < 0) then '-' else '+'] := by
    by_cases down : e < 0 <;> simp [down]
  have none (k : Nat) : Decimal.zeros (0 - k) = "" := by
    rw [Nat.zero_sub]
    rfl
  have mark : ('e'.toString).toList = ['e'] := rfl
  unfold Decimal.Scientific.exponential
  simp only [length, digits, Nat.add_sub_cancel, List.drop_succ_cons, List.drop_zero, List.take_succ_cons,
    List.take_zero, none, String.toList_append, more, sign, mark, String.toList_ofList, String.toList_empty,
    List.append_nil, List.append_assoc, List.cons_append, List.nil_append]

theorem reads_exponential {s : Decimal.Scientific} (positive : 0 < s.digits) (most : s.digits ≤ 10 ^ 17)
    (low : -340 < s.exponent + Decimal.digitCount s.digits)
    (high : s.exponent + Decimal.digitCount s.digits ≤ 320)
    (fits : s.exponent < 0 ∨ s.exponent ≤ 308 ∧ (Float.ofNat s.digits * tenTo s.exponent.toNat).isInf = false)
    (negative : Bool) :
    ∃ y, ∀ depth rest, Ends rest →
      Reads (number negative) depth ((s.exponential 'e' "+" 0).toList ++ rest) rest (.float y) := by
  obtain ⟨c, cs, text, other⟩ := Decimal.toString_eq_cons positive
  have digits := Decimal.digits_toString s.digits
  have value := Decimal.natOfDigits_toString s.digits
  have count := Decimal.length_toString s.digits
  rw [text] at digits value count
  rw [List.length_cons] at count
  obtain ⟨y, scaled⟩ := reads_scaled fits negative
  refine ⟨y, fun depth rest ends => ?_⟩
  have part : Reads (exponentPart negative s.digits (-(cs.length : Int))) depth
      ('e' :: (if decide (s.exponent + cs.length < 0) then '-' else '+') ::
        ((toString (s.exponent + cs.length).natAbs).toList ++ rest)) rest (.float y) := by
    refine reads_exponentText (by omega) ends ?_
    rw [Int.add_comm, Int.add_neg_cancel_right]
    exact scaled depth rest
  have lead : [c] = ['0'] ∨ [c].head? ≠ some '0' := Or.inr fun same => other (Option.some.inj same)
  have first : Digits [c] := Decimal.digits_singleton (digits.2 c List.mem_cons_self)
  have small : natOfDigits ([c] ++ cs) < 2 ^ 64 := by
    rw [List.singleton_append, value]
    omega
  rw [toList_exponential s text, List.cons_append, List.append_assoc, List.cons_append, List.cons_append]
  cases cs with
  | nil =>
      refine reads_number (w := [c]) first lead small (noDigit_cons rfl _) ?_
      unfold numberTail
      refine (reads_peek depth _).bind ?_
      rw [value]
      exact part
  | cons d ds =>
      have fraction : Digits (d :: ds) := ⟨List.cons_ne_nil d ds, fun e member =>
        digits.2 e (List.mem_cons_of_mem c member)⟩
      refine reads_number (w := [c]) first lead ((Decimal.natOfDigits_mono [c] (d :: ds)).trans_lt small)
        (noDigit_cons rfl _) (reads_numberTail_point fraction small (noDigit_cons rfl _) ?_)
      rw [List.singleton_append, value]
      exact part

/-- A finite float is read as some float, the same wherever its text stands. -/
theorem numeric_jsonText {x : Float} (finite : x.isFinite = true) :
    ∃ y, Numeric (Decimal.jsonText x).toList (· = .float y) := by
  unfold Decimal.jsonText
  obtain ⟨negative, bits | ⟨m, bits⟩⟩ := Decimal.ofFloat_of_isFinite finite
  all_goals
    simp only [bits, Decimal.toList_signText_append]
    have signed {body : List Char} (spelled : ∃ y, (∃ c cs, body = c :: cs ∧ c.isDigit = true) ∧
        ∀ depth rest, Ends rest → Reads (number negative) depth (body ++ rest) rest (.float y)) :
        ∃ y, Numeric (if negative then '-' :: body else body) (· = .float y) := by
      obtain ⟨y, first, reads⟩ := spelled
      exact ⟨y, negative, body, rfl, first, fun depth rest ends => ⟨_, rfl, reads depth rest ends⟩⟩
    refine signed ?_
  · obtain ⟨y, reads⟩ := reads_point (Decimal.digits_singleton (c := '0') rfl)
      (Decimal.digits_singleton (c := '0') rfl) (Or.inl rfl) (by decide) negative
    exact ⟨y, ⟨'0', ['.', '0'], rfl, rfl⟩, reads⟩
  · obtain ⟨canonical, high, -⟩ := Decimal.ofBits_finite bits
    have positive := Decimal.shortest_digits_pos canonical high .even
    have most := Decimal.shortest_digits_le canonical .even
    obtain ⟨low, range⟩ := Decimal.shortest_magnitude canonical high .even
    have count := Decimal.digitCount_pos (m.shortest .even).digits
    split
    · obtain ⟨c, cs, text, -⟩ := Decimal.toString_eq_cons positive
      have digits := Decimal.digits_toString (m.shortest .even).digits
      rw [text] at digits
      obtain ⟨y, reads⟩ := reads_exponential positive most low range
        ((lt_or_ge _ _).imp_right (Decimal.isInf_shortest_product canonical high)) negative
      exact ⟨y, ⟨c, _, toList_exponential _ text, digits.2 c List.mem_cons_self⟩, reads⟩
    · rename_i middle
      obtain ⟨w, f, digits, fraction, lead, small, text⟩ := pointed_eq positive most (by omega)
      obtain ⟨y, reads⟩ := reads_point digits fraction lead small negative
      rw [text]
      refine ⟨y, exists_digit_append digits _, fun depth rest ends => ?_⟩
      rw [List.append_assoc, List.cons_append]
      exact reads depth rest ends

end SlideDeck.Json.Reader
