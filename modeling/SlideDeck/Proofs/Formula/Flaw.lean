import Mathlib
import SlideDeck.Proofs.Formula.Lexing

/-!
Texts that cannot be cut into tokens. What is reported is the leftmost place at which no token stands, and
for a number that lacks digits after its point, where that number starts.
-/

namespace SlideDeck.Formula

open Decimal (Digits)
open String (utf8Len)

/-- What stands before the number to which a point behind `front` belongs. The digits just before the point
are its own, unless they are those behind the point of another number. -/
def numberStart (front : List Char) : List Char :=
  let before := front.rdropWhile Char.isDigit
  if before.getLast? = some '.' then front else before

/-- `Flaw front cs e`: behind `front`, what `cs` begins with is part of no token, as `e` reports. -/
inductive Flaw (front : List Char) : List Char → GrammarError → Prop
  | stray {c : Char} {cs : List Char} (stray : Stray c) :
      Flaw front (c :: cs) (.unexpectedChar c (utf8Len front))
  | point {cs : List Char} (bare : ∀ c ∈ cs.head?, c.isDigit = false) :
      Flaw front ('.' :: cs) (.malformedNumber (utf8Len (numberStart front)))

def FlawAt (text : List Char) (k : Nat) (e : GrammarError) : Prop := Flaw (text.take k) (text.drop k) e

def FirstFlaw (text : List Char) (e : GrammarError) : Prop :=
  ∃ k, FlawAt text k e ∧ ∀ j < k, ∀ e', ¬ FlawAt text j e'

theorem Flaw.unique {front cs : List Char} {e e' : GrammarError} (flaw : Flaw front cs e)
    (flaw' : Flaw front cs e') : e = e' := by
  cases flaw with
  | stray stray =>
      cases flaw' with
      | stray => rfl
      | point => cases stray.numeric
  | point bare =>
      cases flaw' with
      | stray stray => cases stray.numeric
      | point => rfl

theorem FirstFlaw.unique {text : List Char} {e e' : GrammarError} (first : FirstFlaw text e)
    (first' : FirstFlaw text e') : e = e' := by
  obtain ⟨k, flaw, before⟩ := first
  obtain ⟨k', flaw', before'⟩ := first'
  rcases Nat.lt_trichotomy k k' with earlier | rfl | later
  · exact absurd flaw (before' k earlier e)
  · exact flaw.unique flaw'
  · exact absurd flaw' (before k' later e')

def Unflawed (cs : List Char) : Prop := ∀ front e, ¬ Flaw front cs e

section Unflawed

variable {c : Char} {cs : List Char}

theorem unflawed_cons (noStray : ¬ Stray c) (noPoint : c ≠ '.') : Unflawed (c :: cs) := by
  intro front e flaw
  cases flaw with
  | stray stray => exact noStray stray
  | point => exact noPoint rfl

theorem unflawed_blank (between : c ∈ [' ', '\t', '\n', '\r', '\x0c']) : Unflawed (c :: cs) := by
  apply unflawed_cons fun stray => stray.blank between
  rintro rfl
  simp at between

theorem Mark.unflawed {t : Token} (mark : Mark c t) : Unflawed (c :: cs) := by
  apply unflawed_cons fun stray => stray.mark t mark
  rintro rfl
  cases mark

theorem unflawed_digit (digit : c.isDigit = true) : Unflawed (c :: cs) := by
  apply unflawed_cons
  · intro stray
    have other := stray.numeric
    rw [isNumeric_of_isDigit digit] at other
    cases other
  · rintro rfl
    cases digit

theorem unflawed_point {f : List Char} (fraction : Digits f) : Unflawed ('.' :: (f ++ cs)) := by
  intro front e flaw
  cases flaw with
  | stray stray => cases stray.numeric
  | point bare =>
      obtain ⟨d, f, rfl⟩ := List.exists_cons_of_ne_nil fraction.1
      have none := bare d rfl
      rw [fraction.2 d List.mem_cons_self] at none
      cases none

end Unflawed

def Clean (used rest : List Char) : Prop := ∀ j < used.length, Unflawed ((used ++ rest).drop j)

section Clean

variable {front used rest cs : List Char}

theorem clean_nil : Clean [] rest := by
  intro j impossible
  cases impossible

theorem Clean.cons {c : Char} (clean : Clean used rest) (here : Unflawed (c :: (used ++ rest))) :
    Clean (c :: used) rest := by
  intro j inside
  cases j with
  | zero => exact here
  | succ j => exact clean j (Nat.lt_of_succ_lt_succ inside)

theorem Clean.append (clean : Clean used rest) (before : Clean front (used ++ rest)) :
    Clean (front ++ used) rest := by
  intro j inside
  rw [List.append_assoc]
  by_cases early : j < front.length
  · exact before j early
  · rw [List.drop_append, List.drop_eq_nil_of_le (by omega), List.nil_append]
    rw [List.length_append] at inside
    exact clean _ (by omega)

theorem clean_digits {ds : List Char} (digits : ∀ d ∈ ds, d.isDigit = true) : Clean ds rest := by
  induction ds with
  | nil => exact clean_nil
  | cons d ds ih =>
      have others : Clean ds rest := ih fun c member => digits c (List.mem_cons_of_mem _ member)
      exact others.cons (unflawed_digit (digits d List.mem_cons_self))

theorem Numeral.clean {w i f : List Char} (numeral : Numeral w i f) : Clean w rest := by
  cases numeral with
  | whole digits => exact clean_digits digits.2
  | decimal digits fraction =>
      exact ((clean_digits fraction.2).cons (unflawed_point fraction)).append (clean_digits digits.2)
  | fraction fraction => exact (clean_digits fraction.2).cons (unflawed_point fraction)

theorem Lexed.clean {items : List Item} (lexed : Lexed front cs items) : Clean cs [] := by
  induction lexed with
  | done => exact clean_nil
  | blank between rest ih => exact ih.cons (unflawed_blank between)
  | mark mark rest ih => exact ih.cons mark.unflawed
  | number numeral value ends rest ih => exact ih.append numeral.clean

end Clean

inductive Seam (front cs : List Char) : Prop
  | outside (other : ∀ c ∈ front.getLast?, isNumeric c = false) : Seam front cs
  | quiet (quiet : Quiet cs) : Seam front cs
  | fraction {before f : List Char} (shape : front = before ++ '.' :: f) (digits : Digits f)
      (stopped : ∀ c ∈ cs.head?, c.isDigit = false) : Seam front cs

section Seam

variable {front cs : List Char}

theorem seam_concat {c : Char} (other : isNumeric c = false) : Seam (front ++ [c]) cs := by
  apply Seam.outside
  intro d last
  rw [List.getLast?_concat] at last
  cases last
  exact other

theorem Numeral.seam {w i f : List Char} (numeral : Numeral w i f) (ends : Ends f cs) :
    Seam (front ++ w) cs := by
  have stopped : ∀ c ∈ cs.head?, c.isDigit = false := fun c first => (ends c first).1
  cases numeral with
  | whole digits =>
      apply Seam.quiet
      intro c first
      simp [isNumeric, stopped c first, (ends c first).2 rfl]
  | decimal digits fraction => exact .fraction (List.append_assoc _ _ _).symm fraction stopped
  | fraction fraction => exact .fraction rfl fraction stopped

theorem rdropWhile_digits {ds : List Char} (digits : ∀ d ∈ ds, d.isDigit = true)
    (stopped : ∀ c ∈ front.getLast?, c.isDigit = false) :
    (front ++ ds).rdropWhile Char.isDigit = front := by
  have digits' : ∀ d ∈ ds.reverse, d.isDigit = true := fun d member => digits d (List.mem_reverse.mp member)
  have stopped' : ∀ c ∈ front.reverse.head?, c.isDigit = false := by
    rw [List.head?_reverse]
    exact stopped
  rw [List.rdropWhile, List.reverse_append, (span_digits front.reverse digits' stopped').2,
    List.reverse_reverse]

theorem Seam.numberStart {whole : List Char} (seam : Seam front (whole ++ '.' :: cs))
    (digits : ∀ d ∈ whole, d.isDigit = true) : Formula.numberStart (front ++ whole) = front := by
  cases seam with
  | outside other =>
      have stopped : ∀ c ∈ front.getLast?, c.isDigit = false := by
        intro c last
        have numeric := other c last
        simp only [isNumeric, Bool.or_eq_false_iff] at numeric
        exact numeric.1
      have noPoint : front.getLast? ≠ some '.' := by
        intro last
        cases other '.' last
      rw [Formula.numberStart, rdropWhile_digits digits stopped, if_neg noPoint]
  | quiet quiet =>
      cases whole with
      | nil => cases quiet '.' rfl
      | cons d whole =>
          have other := quiet d rfl
          rw [isNumeric_of_isDigit (digits d List.mem_cons_self)] at other
          cases other
  | @fraction before f shape fraction stopped =>
      cases whole with
      | cons d whole =>
          have other := stopped d rfl
          rw [digits d List.mem_cons_self] at other
          cases other
      | nil =>
          have last : (before ++ ['.']).getLast? = some '.' := List.getLast?_concat
          have cut : front.rdropWhile Char.isDigit = before ++ ['.'] := by
            rw [shape, ← List.singleton_append, ← List.append_assoc]
            apply rdropWhile_digits fraction.2
            rw [last]
            rintro _ ⟨⟩
            rfl
          rw [List.append_nil, Formula.numberStart, cut, if_pos last]

end Seam

/-- `Breaks offset cs e`: what `cs` begins with is no token, nor is it part of one, as `e` reports at the
offset. -/
inductive Breaks (offset : Nat) : List Char → GrammarError → Prop
  | stray {c : Char} {cs : List Char} (stray : Stray c) : Breaks offset (c :: cs) (.unexpectedChar c offset)
  | dangling {whole cs : List Char} (digits : ∀ d ∈ whole, d.isDigit = true)
      (bare : ∀ c ∈ cs.head?, c.isDigit = false) : Breaks offset (whole ++ '.' :: cs) (.malformedNumber offset)

section Breaking

variable {fuel : Nat} {acc : List Item} {front cs text : List Char} {e : GrammarError}

theorem breaks_of_tokensFrom (enough : cs.length ≤ fuel) (seam : Seam front cs)
    (failed : tokensFrom fuel acc (utf8Len front) cs = .error e) :
    ∃ used rest, cs = used ++ rest ∧ Seam (front ++ used) rest ∧ Breaks (utf8Len (front ++ used)) rest e ∧
      Clean used rest := by
  induction fuel generalizing acc front cs with
  | zero =>
      rw [List.length_eq_zero_iff.mp (Nat.le_zero.mp enough), tokensFrom_nil] at failed
      cases failed
  | succ fuel ih =>
      cases begins cs with
      | nothing =>
          rw [tokensFrom_nil] at failed
          cases failed
      | @blank c cs between =>
          have blank := isAsciiBlank_iff.mpr between
          rw [tokensFrom_blank blank, ← utf8Len_blank between] at failed
          obtain ⟨used, rest, rfl, seam, breaks, clean⟩ :=
            ih (Nat.le_of_succ_le_succ enough) (seam_concat (isNumeric_of_blank blank)) failed
          rw [List.append_assoc] at seam breaks
          exact ⟨c :: used, rest, rfl, seam, breaks, clean.cons (unflawed_blank between)⟩
      | @mark c t cs mark =>
          rw [tokensFrom_mark mark, ← mark.utf8Len] at failed
          obtain ⟨used, rest, rfl, seam, breaks, clean⟩ :=
            ih (Nat.le_of_succ_le_succ enough) (seam_concat mark.not_numeric) failed
          rw [List.append_assoc] at seam breaks
          exact ⟨c :: used, rest, rfl, seam, breaks, clean.cons mark.unflawed⟩
      | @number w i f cs numeral ends =>
          have some := List.length_pos_iff.mpr numeral.ne_nil
          rw [List.length_append] at enough
          rw [tokensFrom_number numeral numeral.read ends, ← numeral.utf8Len] at failed
          obtain ⟨used, rest, rfl, seam, breaks, clean⟩ := ih (by omega) (numeral.seam ends) failed
          rw [List.append_assoc] at seam breaks
          exact ⟨w ++ used, rest, (List.append_assoc w used rest).symm, seam, breaks, clean.append numeral.clean⟩
      | @stray c cs stray =>
          rw [tokensFrom_stray stray] at failed
          cases failed
          refine ⟨[], c :: cs, rfl, ?_, ?_, clean_nil⟩ <;> rw [List.append_nil]
          · exact seam
          · exact .stray stray
      | @dangling whole cs digits bare =>
          rw [tokensFrom_dangling digits bare] at failed
          cases failed
          refine ⟨[], whole ++ '.' :: cs, rfl, ?_, ?_, clean_nil⟩ <;> rw [List.append_nil]
          · exact seam
          · exact .dangling digits bare

theorem breaks_of_tokens (failed : tokens text = .error e) :
    ∃ used rest, text = used ++ rest ∧ Seam used rest ∧ Breaks (utf8Len used) rest e ∧ Clean used rest := by
  have fromStart : tokensFrom text.length [] (utf8Len []) text = .error e := failed
  have seam : Seam [] text := .outside (by simp)
  exact breaks_of_tokensFrom (Nat.le_refl _) seam fromStart

/-- Where cutting fails there is a flaw, and none before it. -/
theorem flaw_of_tokens (failed : tokens text = .error e) :
    ∃ used rest, text = used ++ rest ∧ Flaw used rest e ∧ Clean used rest := by
  obtain ⟨used, _, rfl, seam, breaks, clean⟩ := breaks_of_tokens failed
  cases breaks with
  | @stray c cs stray => exact ⟨used, c :: cs, rfl, .stray stray, clean⟩
  | @dangling whole cs digits bare =>
      have flaw : Flaw (used ++ whole) ('.' :: cs) _ := .point bare
      rw [seam.numberStart digits] at flaw
      exact ⟨used ++ whole, '.' :: cs, (List.append_assoc _ _ _).symm, flaw, (clean_digits digits).append clean⟩

end Breaking

theorem tokens_eq_error_iff {text : List Char} {e : GrammarError} :
    tokens text = .error e ↔ FirstFlaw text e := by
  have reported {e : GrammarError} (failed : tokens text = .error e) : FirstFlaw text e := by
    obtain ⟨used, rest, rfl, flaw, clean⟩ := flaw_of_tokens failed
    refine ⟨used.length, ?_, fun j earlier e' => clean j earlier _ e'⟩
    rw [FlawAt, List.take_left, List.drop_left]
    exact flaw
  constructor
  · exact reported
  · intro first
    cases cut : tokens text with
    | error e' => rw [(reported cut).unique first]
    | ok items =>
        obtain ⟨k, flaw, -⟩ := first
        have inside : k < text.length := by
          by_contra beyond
          rw [FlawAt, List.drop_eq_nil_of_le (by omega)] at flaw
          cases flaw
        have clean := (tokens_eq_ok_iff.mp cut).clean k inside (text.take k) e
        rw [List.append_nil] at clean
        exact absurd flaw clean

end SlideDeck.Formula
