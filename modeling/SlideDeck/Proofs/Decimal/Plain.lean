import Mathlib
import SlideDeck.Decimal.Layout
import SlideDeck.Decimal.Reading
import SlideDeck.Proofs.Decimal.Float

/-!
Numbers for display are written as plain decimals: every finite number has digits with at most one
point among them, and no exponent.
-/

namespace SlideDeck.Decimal

def Digits (cs : List Char) : Prop := cs ≠ [] ∧ ∀ c ∈ cs, c.isDigit = true

inductive Unsigned : List Char → Prop
  | whole {w : List Char} (digits : Digits w) : Unsigned w
  | decimal {w f : List Char} (digits : Digits w) (fraction : Digits f) : Unsigned (w ++ '.' :: f)

section Digits

theorem Digits.ne {cs : List Char} (digits : Digits cs) {c : Char} (member : c ∈ cs) (other : Char)
    (sign : other.isDigit = false) : c ≠ other := by
  rintro rfl
  simp [digits.2 c member] at sign

theorem digits_singleton {c : Char} (digit : c.isDigit = true) : Digits [c] :=
  ⟨List.cons_ne_nil c [], fun _ member => List.mem_singleton.mp member ▸ digit⟩

theorem Digits.append {cs ds : List Char} (digits : Digits cs) (more : ∀ c ∈ ds, c.isDigit = true) :
    Digits (cs ++ ds) := by
  refine ⟨by simp [digits.1], fun c member => ?_⟩
  rcases List.mem_append.mp member with here | there
  · exact digits.2 c here
  · exact more c there

theorem digits_toString (n : Nat) : Digits (toString n).toList := by
  rw [Nat.toString_eq_ofList_toDigits, String.toList_ofList]
  refine ⟨Nat.toDigits_ne_nil, fun c member => ?_⟩
  exact Nat.isDigit_of_mem_toDigits (by decide) (by decide) member

theorem isDigit_of_mem_zeros {n : Nat} {c : Char} (member : c ∈ (zeros n).toList) :
    c.isDigit = true := by
  rw [zeros, String.toList_ofList] at member
  rw [List.eq_of_mem_replicate member]
  rfl

theorem Digits.take {cs : List Char} (digits : Digits cs) {n : Nat} (some : 0 < n) :
    Digits (cs.take n) :=
  ⟨by simp [digits.1, Nat.ne_of_gt some], fun c member => digits.2 c (List.mem_of_mem_take member)⟩

theorem Digits.drop {cs : List Char} (digits : Digits cs) {n : Nat} (more : n < cs.length) :
    Digits (cs.drop n) :=
  ⟨by simpa using more, fun c member => digits.2 c (List.mem_of_mem_drop member)⟩

theorem natOfDigits_append (cs ds : List Char) :
    natOfDigits (cs ++ ds) = ds.foldl (fun n c => 10 * n + digitValue c) (natOfDigits cs) :=
  List.foldl_append

theorem natOfDigits_toString (n : Nat) : natOfDigits (toString n).toList = n := by
  rw [Nat.toString_eq_ofList_toDigits, String.toList_ofList]
  exact Nat.ofDigitChars_toDigits (by norm_num) (by norm_num)

theorem foldl_zeros (k n : Nat) :
    (List.replicate k '0').foldl (fun n c => 10 * n + digitValue c) n = n * 10 ^ k := by
  induction k generalizing n with
  | zero => simp
  | succ k ih =>
      have zero : digitValue '0' = 0 := rfl
      rw [List.replicate_succ, List.foldl_cons, ih, zero, pow_succ]
      ring

theorem natOfDigits_append_zeros (cs : List Char) (k : Nat) :
    natOfDigits (cs ++ (zeros k).toList) = natOfDigits cs * 10 ^ k := by
  rw [natOfDigits_append, zeros, String.toList_ofList, foldl_zeros]

theorem natOfDigits_zeros_append (cs : List Char) (k : Nat) :
    natOfDigits ((zeros k).toList ++ cs) = natOfDigits cs := by
  rw [natOfDigits_append, zeros, String.toList_ofList, natOfDigits, foldl_zeros, Nat.zero_mul]
  rfl

theorem natOfDigits_zero_cons (cs : List Char) : natOfDigits ('0' :: cs) = natOfDigits cs := rfl

theorem digits_padded {cs : List Char} (digits : Digits cs) (k : Nat) :
    Digits ((zeros k).toList ++ cs) := by
  refine ⟨fun nothing => digits.1 (List.append_eq_nil_iff.mp nothing).2, fun c member => ?_⟩
  rcases List.mem_append.mp member with padding | digit
  · exact isDigit_of_mem_zeros padding
  · exact digits.2 c digit

theorem length_padded {cs : List Char} {n : Nat} (short : cs.length ≤ n) :
    ((zeros (n - cs.length)).toList ++ cs).length = n := by
  rw [List.length_append, zeros, String.toList_ofList, List.length_replicate]
  omega

theorem toList_negSucc (n : Nat) :
    (toString (Int.negSucc n)).toList = '-' :: (toString (n + 1)).toList :=
  String.toList_append

end Digits

/-- How the digits of a decimal are laid out: with zeros behind them, or with a point and as many behind it
as the exponent takes away. A zero stands in front of the point where no digit is left. -/
theorem Scientific.positional_cases (s : Scientific) :
    (∃ k : Nat, s.exponent = k ∧ s.positional.toList = (toString s.digits).toList ++ (zeros k).toList) ∨
    ∃ w f, Digits w ∧ Digits f ∧ s.exponent = -(f.length : Int) ∧ s.positional.toList = w ++ '.' :: f ∧
      natOfDigits (w ++ f) = s.digits ∧ (w = ['0'] ∨ w.head? = (toString s.digits).toList.head?) := by
  have text := digits_toString s.digits
  have number := natOfDigits_toString s.digits
  unfold Scientific.positional
  generalize toString s.digits = t at text number ⊢
  by_cases whole : 0 ≤ s.exponent
  · obtain ⟨k, exponent⟩ := Int.eq_ofNat_of_zero_le whole
    refine Or.inl ⟨k, exponent, ?_⟩
    rw [if_pos whole, exponent, Int.toNat_natCast, String.toList_append]
  · obtain ⟨n, exponent⟩ := Int.exists_eq_neg_ofNat (not_le.mp whole).le
    have places : (-s.exponent).toNat = n := by omega
    have length : t.length = t.toList.length := String.length_toList.symm
    simp only [if_neg whole, places, length]
    by_cases short : t.toList.length ≤ n
    · have width := length_padded short
      have lead : "0.".toList = ['0', '.'] := rfl
      refine Or.inr ⟨['0'], _, digits_singleton rfl, digits_padded text _, by rw [width, exponent], ?_, ?_,
        Or.inl rfl⟩
      · rw [if_pos short, String.toList_append, String.toList_append, lead, List.append_assoc]
        rfl
      · rw [List.singleton_append, natOfDigits_zero_cons, natOfDigits_zeros_append, number]
    · have width : (t.toList.drop (t.toList.length - n)).length = n := by
        rw [List.length_drop]
        omega
      have point : ".".toList = ['.'] := rfl
      refine Or.inr ⟨t.toList.take (t.toList.length - n), t.toList.drop (t.toList.length - n),
        text.take (by omega), text.drop (by omega), by rw [width, exponent], ?_, ?_, Or.inr ?_⟩
      · rw [if_neg short, String.toList_append, String.toList_append, point, String.toList_ofList,
          String.toList_ofList, List.append_assoc]
        rfl
      · rw [List.take_append_drop, number]
      · rw [List.head?_take, if_neg (by omega)]

theorem unsigned_positional (s : Scientific) : Unsigned s.positional.toList := by
  rcases s.positional_cases with ⟨k, -, layout⟩ | ⟨w, f, digits, fraction, -, layout, -⟩
  · rw [layout]
    exact .whole ((digits_toString s.digits).append fun c => isDigit_of_mem_zeros)
  · rw [layout]
    exact .decimal digits fraction

section Plain

theorem Digits.takeWhile_ne_point {w : List Char} (digits : Digits w) (rest : List Char) :
    (w ++ '.' :: rest).takeWhile (· != '.') = w ∧
      (w ++ '.' :: rest).dropWhile (· != '.') = '.' :: rest := by
  have before : ∀ c ∈ w, (c != '.') = true := fun c member => by
    simpa using digits.ne member '.' rfl
  rw [List.takeWhile_append_of_pos before, List.dropWhile_append_of_pos before]
  simp

theorem isPlain_minus {cs : List Char} (unsigned : Unsigned cs) : isPlain ('-' :: cs) = true := by
  cases unsigned with
  | whole digits =>
      have before : ∀ c ∈ cs, (c != '.') = true := fun c member => by
        simpa using digits.ne member '.' rfl
      simp only [isPlain]
      rw [List.dropWhile_eq_nil_iff.mpr before, List.takeWhile_eq_self_iff.mpr before]
      simpa [digits.1] using digits.2
  | @decimal w f digits fraction =>
      simp only [isPlain]
      rw [(digits.takeWhile_ne_point f).1, (digits.takeWhile_ne_point f).2]
      simpa [digits.1, fraction.1] using ⟨digits.2, fraction.2⟩

theorem isPlain_unsigned {cs : List Char} (unsigned : Unsigned cs) : isPlain cs = true := by
  rw [← isPlain_minus unsigned]
  obtain ⟨c, rest, rfl, sign⟩ : ∃ c rest, cs = c :: rest ∧ c ≠ '-' := by
    cases unsigned with
    | whole digits =>
        obtain ⟨c, rest, rfl⟩ := List.exists_cons_of_ne_nil digits.1
        exact ⟨c, rest, rfl, digits.ne List.mem_cons_self '-' rfl⟩
    | @decimal w f digits fraction =>
        obtain ⟨c, rest, rfl⟩ := List.exists_cons_of_ne_nil digits.1
        exact ⟨c, rest ++ '.' :: f, rfl, digits.ne List.mem_cons_self '-' rfl⟩
  unfold isPlain
  split
  · rename_i same
    cases same
    exact absurd rfl sign
  · rfl

theorem toList_signText_append (negative : Bool) (text : String) :
    (signText negative ++ text).toList = if negative then '-' :: text.toList else text.toList := by
  cases negative <;> rw [String.toList_append] <;> rfl

/-- Every finite number is shown as a plain decimal. -/
theorem isPlain_format {x : Float} (finite : x.isFinite = true) :
    isPlain (format x).toList = true := by
  unfold format
  split
  · rfl
  · have zero : Unsigned "0".toList := .whole (digits_singleton rfl)
    unfold display
    obtain ⟨negative, bits | ⟨magnitude, bits⟩⟩ := ofFloat_of_isFinite finite
    · simp only [bits, toList_signText_append]
      cases negative
      · exact isPlain_unsigned zero
      · exact isPlain_minus zero
    · simp only [bits, toList_signText_append]
      cases negative
      · exact isPlain_unsigned (unsigned_positional _)
      · exact isPlain_minus (unsigned_positional _)

end Plain

end SlideDeck.Decimal
