import Mathlib
import SlideDeck.Proofs.Formula.Sentence

/-!
Cutting a text into tokens. What is cut is spelled by the text, and where no two numbers stand side by
side the text spells nothing else: a number taken as long as possible then ends where it should.
-/

namespace SlideDeck.Formula

open Decimal (Digits Scientific natOfDigits)
open String (utf8Len)

def isNumeric (c : Char) : Bool := c.isDigit || c = '.'

def Quiet (cs : List Char) : Prop := ∀ c ∈ cs.head?, isNumeric c = false

/-- Nothing that could go on with a number that has the digits `f` behind its point. -/
def Ends (f cs : List Char) : Prop := ∀ c ∈ cs.head?, c.isDigit = false ∧ (f = [] → c ≠ '.')

section Numerals

theorem isNumeric_of_isDigit {c : Char} (digit : c.isDigit = true) : isNumeric c = true := by
  simp [isNumeric, digit]

theorem numeric_pointed {f : List Char} (fraction : Digits f) :
    ∀ c ∈ '.' :: f, isNumeric c = true := by
  intro c member
  rcases List.mem_cons.mp member with rfl | behind
  · rfl
  · exact isNumeric_of_isDigit (fraction.2 c behind)

theorem Numeral.numeric {w i f : List Char} (numeral : Numeral w i f) :
    ∀ c ∈ w, isNumeric c = true := by
  cases numeral with
  | whole digits => exact fun c member => isNumeric_of_isDigit (digits.2 c member)
  | decimal digits fraction =>
      intro c member
      rcases List.mem_append.mp member with before | behind
      · exact isNumeric_of_isDigit (digits.2 c before)
      · exact numeric_pointed fraction c behind
  | fraction fraction => exact numeric_pointed fraction

theorem Numeral.ne_nil {w i f : List Char} (numeral : Numeral w i f) : w ≠ [] := by
  cases numeral with
  | whole digits => exact digits.1
  | decimal digits fraction => simp
  | fraction fraction => simp

theorem span_digits {ds : List Char} (after : List Char) (digits : ∀ c ∈ ds, c.isDigit = true)
    (stop : ∀ c ∈ after.head?, c.isDigit = false) :
    (ds ++ after).takeWhile Char.isDigit = ds ∧ (ds ++ after).dropWhile Char.isDigit = after := by
  rw [List.takeWhile_append_of_pos digits, List.dropWhile_append_of_pos digits]
  cases after with
  | nil => simp
  | cons c rest => simp [stop c rfl]

theorem Quiet.ends {after : List Char} (quiet : Quiet after) (f : List Char) : Ends f after := by
  intro c first
  have other := quiet c first
  simp only [isNumeric, Bool.or_eq_false_iff, decide_eq_false_iff_not] at other
  exact ⟨other.1, fun _ => other.2⟩

theorem splitNumber_pointed {i f after : List Char} (digits : ∀ c ∈ i, c.isDigit = true)
    (fraction : Digits f) (ends : Ends f after) :
    splitNumber (i ++ '.' :: (f ++ after)) = some (i, f, after) := by
  have first := span_digits ('.' :: (f ++ after)) digits (by simp)
  have second := span_digits after fraction.2 fun c head => (ends c head).1
  simp [splitNumber, first, second, fraction.1]

/-- A number is split off whole where nothing after it could go on with it. -/
theorem Numeral.split {w i f after : List Char} (numeral : Numeral w i f) (ends : Ends f after) :
    splitNumber (w ++ after) = some (i, f, after) := by
  cases numeral with
  | whole digits =>
      have span := span_digits after digits.2 fun c head => (ends c head).1
      unfold splitNumber
      simp only [span]
      split
      · exact absurd rfl ((ends '.' rfl).2 rfl)
      · rfl
  | decimal digits fraction =>
      rw [List.append_assoc, List.cons_append]
      exact splitNumber_pointed digits.2 fraction ends
  | fraction fraction => exact splitNumber_pointed (i := []) (by simp) fraction ends

theorem readUnsigned_pointed {i f : List Char} (digits : ∀ c ∈ i, c.isDigit = true)
    (fraction : Digits f) :
    Decimal.readUnsigned (i ++ '.' :: f) = some ⟨natOfDigits (i ++ f), -(f.length : Int)⟩ := by
  have first := span_digits ('.' :: f) digits (by simp)
  have second := span_digits [] fraction.2 (by simp)
  rw [List.append_nil] at second
  simp [Decimal.readUnsigned, first, second, fraction.1, Decimal.readExponent]

theorem Numeral.readUnsigned {w i f : List Char} (numeral : Numeral w i f) :
    Decimal.readUnsigned w = some ⟨natOfDigits (i ++ f), -(f.length : Int)⟩ := by
  cases numeral with
  | whole digits =>
      have span := span_digits [] digits.2 (by simp)
      rw [List.append_nil] at span
      simp [Decimal.readUnsigned, span, digits.1, Decimal.readExponent]
  | decimal digits fraction => exact readUnsigned_pointed digits.2 fraction
  | fraction fraction => exact readUnsigned_pointed (i := []) (by simp) fraction

theorem toLower_of_isNumeric {c : Char} (numeric : isNumeric c = true) : c.toLower = c := by
  have small : c.val < 'A'.val := by
    simp only [isNumeric, Char.isDigit, Bool.or_eq_true, Bool.and_eq_true, decide_eq_true_eq] at numeric
    rcases numeric with digit | rfl
    · exact UInt32.lt_of_le_of_lt digit.2 (by decide)
    · decide
  unfold Char.toLower
  rw [dif_neg fun upper => UInt32.not_le.mpr small upper.1]

/-- Text of digits and points alone is none of the words for infinities and for no number. -/
theorem read_of_numeric {cs : List Char} (numeric : ∀ c ∈ cs, isNumeric c = true) :
    Decimal.read cs = (Decimal.readUnsigned cs).map Scientific.toFloat := by
  have unsigned : Decimal.splitSign cs = (false, cs) := by
    unfold Decimal.splitSign
    split
    · simpa [isNumeric] using numeric '-' List.mem_cons_self
    · simpa [isNumeric] using numeric '+' List.mem_cons_self
    · rfl
  have lower : cs.map Char.toLower = cs :=
    (List.map_congr_left fun c member => toLower_of_isNumeric (numeric c member)).trans
      (List.map_id cs)
  have other (word : String) (letter : 'n' ∈ word.toList) : String.ofList cs ≠ word := by
    rintro rfl
    rw [String.toList_ofList] at letter
    simpa [isNumeric] using numeric 'n' letter
  unfold Decimal.read
  rw [unsigned]
  simp only [lower, Bool.false_eq_true, if_false, Option.map_id_fun']
  split
  · rename_i same
    exact absurd same (other "inf" (by decide))
  · rename_i same
    exact absurd same (other "infinity" (by decide))
  · rename_i same
    exact absurd same (other "nan" (by decide))
  · rfl

theorem Numeral.read {w i f : List Char} (numeral : Numeral w i f) :
    Decimal.read w = some (Scientific.toFloat ⟨natOfDigits (i ++ f), -(f.length : Int)⟩) := by
  rw [read_of_numeric numeral.numeric, numeral.readUnsigned]
  rfl

end Numerals

/-- `Lexed front cs items`: behind the text `front`, which is cut already, the text `cs` is cut into `items`.
Numbers are taken as long as possible, and every token stands at the offset in bytes of where it starts. -/
inductive Lexed : List Char → List Char → List Item → Prop
  | done {front : List Char} : Lexed front [] []
  | blank {front : List Char} {c : Char} {cs : List Char} {items : List Item}
      (between : c ∈ [' ', '\t', '\n', '\r', '\x0c']) (rest : Lexed (front ++ [c]) cs items) :
      Lexed front (c :: cs) items
  | mark {front : List Char} {c : Char} {t : Token} {cs : List Char} {items : List Item}
      (mark : Mark c t) (rest : Lexed (front ++ [c]) cs items) :
      Lexed front (c :: cs) ((t, utf8Len front) :: items)
  | number {front w i f cs : List Char} {x : Float} {items : List Item}
      (numeral : Numeral w i f) (value : Decimal.read w = some x) (ends : Ends f cs)
      (rest : Lexed (front ++ w) cs items) : Lexed front (w ++ cs) ((.number x, utf8Len front) :: items)

structure Stray (c : Char) : Prop where
  blank : c ∉ [' ', '\t', '\n', '\r', '\x0c']
  numeric : isNumeric c = false
  mark : ∀ t, ¬ Mark c t

/-- What a text begins with. `dangling` is a number that lacks the digits after its point. -/
inductive Begins : List Char → Prop
  | nothing : Begins []
  | blank {c : Char} {cs : List Char} (between : c ∈ [' ', '\t', '\n', '\r', '\x0c']) : Begins (c :: cs)
  | mark {c : Char} {t : Token} {cs : List Char} (mark : Mark c t) : Begins (c :: cs)
  | number {w i f cs : List Char} (numeral : Numeral w i f) (ends : Ends f cs) : Begins (w ++ cs)
  | stray {c : Char} {cs : List Char} (stray : Stray c) : Begins (c :: cs)
  | dangling {whole cs : List Char} (digits : ∀ d ∈ whole, d.isDigit = true)
      (bare : ∀ c ∈ cs.head?, c.isDigit = false) : Begins (whole ++ '.' :: cs)

section Beginnings

variable {c : Char} {cs : List Char}

theorem exists_digits (cs : List Char) :
    ∃ ds after, cs = ds ++ after ∧ (∀ d ∈ ds, d.isDigit = true) ∧ ∀ c ∈ after.head?, c.isDigit = false := by
  refine ⟨_, _, (List.takeWhile_append_dropWhile (p := Char.isDigit)).symm, fun d => List.mem_takeWhile_imp, ?_⟩
  intro c first
  have stopped := List.head?_dropWhile_not Char.isDigit cs
  rw [first] at stopped
  exact stopped

theorem begins_numeric (start : isNumeric c = true) : Begins (c :: cs) := by
  obtain ⟨whole, tail, shape, digits, stopped⟩ := exists_digits (c :: cs)
  rw [shape]
  match tail with
  | [] =>
      have some : whole ≠ [] := by
        rintro rfl
        cases shape
      exact .number (.whole ⟨some, digits⟩) (by simp [Ends])
  | d :: behind =>
      by_cases point : d = '.'
      · subst point
        obtain ⟨fraction, after, rfl, digits', stopped'⟩ := exists_digits behind
        cases fraction with
        | nil => exact .dangling digits stopped'
        | cons e fraction =>
            have digits' : Digits (e :: fraction) := ⟨by simp, digits'⟩
            have ends : Ends (e :: fraction) after := fun c first => ⟨stopped' c first, by simp⟩
            cases whole with
            | nil => exact Begins.number (w := '.' :: e :: fraction) (.fraction digits') ends
            | cons d whole =>
                have number : Numeral (d :: whole ++ '.' :: e :: fraction) (d :: whole) (e :: fraction) :=
                  .decimal ⟨by simp, digits⟩ digits'
                rw [← List.cons_append, ← List.append_assoc]
                exact Begins.number number ends
      · have some : whole ≠ [] := by
          rintro rfl
          cases shape
          simp [isNumeric, point, stopped c rfl] at start
        apply Begins.number (.whole ⟨some, digits⟩)
        rintro _ ⟨⟩
        exact ⟨stopped d rfl, fun _ => point⟩

theorem begins (cs : List Char) : Begins cs := by
  match cs with
  | [] => exact .nothing
  | c :: cs =>
      by_cases between : c ∈ [' ', '\t', '\n', '\r', '\x0c']
      · exact .blank between
      · cases numeric : isNumeric c with
        | true => exact begins_numeric numeric
        | false =>
            by_cases marked : ∃ t, Mark c t
            · obtain ⟨t, mark⟩ := marked
              exact .mark mark
            · exact .stray ⟨between, numeric, not_exists.mp marked⟩

end Beginnings

section Tokens

variable {fuel offset : Nat} {acc : List Item} {c : Char} {rest : List Char}

theorem tokensFrom_nil : tokensFrom fuel acc offset [] = .ok acc.reverse := by
  cases fuel <;> rfl

theorem tokensFrom_blank (blank : isAsciiBlank c = true) :
    tokensFrom (fuel + 1) acc offset (c :: rest) = tokensFrom fuel acc (offset + 1) rest := by
  rw [tokensFrom, if_pos blank]

theorem isNumeric_of_blank (blank : isAsciiBlank c = true) : isNumeric c = false := by
  have listed := isAsciiBlank_iff.mp blank
  simp only [List.mem_cons, List.not_mem_nil, or_false] at listed
  rcases listed with rfl | rfl | rfl | rfl | rfl <;> rfl

theorem not_blank_of_isNumeric (numeric : isNumeric c = true) : isAsciiBlank c = false := by
  by_contra blank
  rw [isNumeric_of_blank (by simpa using blank)] at numeric
  cases numeric

theorem Mark.not_numeric {t : Token} (mark : Mark c t) : isNumeric c = false := by
  cases mark <;> rfl

theorem Mark.not_blank {t : Token} (mark : Mark c t) : isAsciiBlank c = false := by
  cases mark <;> rfl

theorem tokensFrom_mark {t : Token} (mark : Mark c t) :
    tokensFrom (fuel + 1) acc offset (c :: rest) =
      tokensFrom fuel ((t, offset) :: acc) (offset + 1) rest := by
  have other := mark.not_numeric
  rw [isNumeric] at other
  simp only [tokensFrom, mark.not_blank, other, symbol_eq_some_iff.mpr mark, Bool.false_eq_true,
    if_false]

theorem tokensFrom_number {w i f : List Char} {x : Float} (numeral : Numeral w i f)
    (value : Decimal.read w = some x) (ends : Ends f rest) :
    tokensFrom (fuel + 1) acc offset (w ++ rest) =
      tokensFrom fuel ((.number x, offset) :: acc) (offset + w.length) rest := by
  have found := numeral.split ends
  obtain rfl := Option.some.inj (numeral.read.symm.trans value)
  obtain ⟨c, w, rfl⟩ := List.exists_cons_of_ne_nil numeral.ne_nil
  have start := numeral.numeric c List.mem_cons_self
  have solid := not_blank_of_isNumeric start
  have width : (c :: (w ++ rest)).length - rest.length = (c :: w).length := by
    simp only [List.length_cons, List.length_append]
    omega
  rw [isNumeric] at start
  rw [List.cons_append] at found ⊢
  simp only [tokensFrom, solid, start, found, width, Bool.false_eq_true, if_true, if_false]

theorem tokensFrom_stray (stray : Stray c) :
    tokensFrom (fuel + 1) acc offset (c :: rest) = .error (.unexpectedChar c offset) := by
  have solid : isAsciiBlank c = false := by
    by_contra blank
    exact stray.blank (isAsciiBlank_iff.mp (by simpa using blank))
  have other := stray.numeric
  rw [isNumeric] at other
  have unknown : symbol? c = none :=
    Option.eq_none_iff_forall_ne_some.mpr fun t known => stray.mark t (symbol_eq_some_iff.mp known)
  simp only [tokensFrom, solid, other, unknown, Bool.false_eq_true, if_false]

/-- A number that lacks the digits after its point starts as a number does. -/
theorem exists_numeric {whole : List Char} (digits : ∀ d ∈ whole, d.isDigit = true) (rest : List Char) :
    ∃ c tail, whole ++ '.' :: rest = c :: tail ∧ isNumeric c = true := by
  cases whole with
  | nil => exact ⟨'.', rest, rfl, rfl⟩
  | cons d whole => exact ⟨d, _, rfl, isNumeric_of_isDigit (digits d List.mem_cons_self)⟩

theorem tokensFrom_dangling {whole : List Char} (digits : ∀ d ∈ whole, d.isDigit = true)
    (bare : ∀ c ∈ rest.head?, c.isDigit = false) :
    tokensFrom (fuel + 1) acc offset (whole ++ '.' :: rest) = .error (.malformedNumber offset) := by
  have first := span_digits ('.' :: rest) digits (by simp)
  have second : rest.takeWhile Char.isDigit = [] := (span_digits rest (List.forall_mem_nil _) bare).1
  have nothing : splitNumber (whole ++ '.' :: rest) = none := by simp [splitNumber, first, second]
  obtain ⟨c, tail, shape, start⟩ := exists_numeric digits rest
  have solid := not_blank_of_isNumeric start
  rw [isNumeric] at start
  rw [shape] at nothing ⊢
  simp only [tokensFrom, solid, start, nothing, Bool.false_eq_true, if_true, if_false]

theorem Spells.quiet {cs : List Char} {ts : List Token} (spelled : Spells cs ts)
    (first : ∀ t ∈ ts.head?, t.isNumber = false) : Quiet cs := by
  intro c head
  cases spelled with
  | done => cases head
  | blank between rest =>
      cases head
      exact isNumeric_of_blank (isAsciiBlank_iff.mpr between)
  | mark mark rest =>
      cases head
      exact mark.not_numeric
  | number numeral value rest => cases first _ rfl

/-- Where no two numbers stand side by side, a text is cut into the tokens that it spells. -/
theorem Spells.lexed {cs : List Char} {ts : List Token} (spelled : Spells cs ts) (spaced : Spaced ts)
    (front : List Char) : ∃ items, Lexed front cs items ∧ items.map Prod.fst = ts := by
  induction spelled generalizing front with
  | done => exact ⟨[], .done, rfl⟩
  | @blank c cs ts between rest ih =>
      obtain ⟨items, lexed, same⟩ := ih spaced (front ++ [c])
      exact ⟨items, .blank between lexed, same⟩
  | @mark c t cs ts mark rest ih =>
      obtain ⟨items, lexed, same⟩ := ih spaced.tail (front ++ [c])
      exact ⟨_, .mark mark lexed, congrArg (t :: ·) same⟩
  | @number w i f cs x ts numeral value rest ih =>
      have first : ∀ t ∈ ts.head?, t.isNumber = false := by
        intro t head
        simpa [Token.isNumber] using (List.isChain_cons.mp spaced).1 t head
      obtain ⟨items, lexed, same⟩ := ih spaced.tail (front ++ w)
      exact ⟨_, .number numeral value ((rest.quiet first).ends f) lexed, congrArg (Token.number x :: ·) same⟩

theorem Lexed.spells {front cs : List Char} {items : List Item} (lexed : Lexed front cs items) :
    Spells cs (items.map Prod.fst) := by
  induction lexed with
  | done => exact .done
  | blank between rest ih => exact .blank between ih
  | mark mark rest ih => exact .mark mark ih
  | number numeral value ends rest ih => exact .number numeral value ih

/-- A text of digits, points, marks and blanks has as many bytes as characters. -/
theorem utf8Len_of_ascii {cs : List Char} (ascii : ∀ c ∈ cs, c.val ≤ 127) : utf8Len cs = cs.length := by
  induction cs with
  | nil => rfl
  | cons c cs ih =>
      have single : c.utf8Size = 1 := if_pos (ascii c List.mem_cons_self)
      have others := ih fun d member => ascii d (List.mem_cons_of_mem _ member)
      rw [String.utf8Len_cons, List.length_cons, single, others]

theorem val_le_of_isNumeric (numeric : isNumeric c = true) : c.val ≤ 127 := by
  simp only [isNumeric, Char.isDigit, Bool.or_eq_true, Bool.and_eq_true, decide_eq_true_eq] at numeric
  rcases numeric with digit | rfl
  · exact UInt32.le_trans digit.2 (by decide)
  · decide

theorem utf8Len_blank (between : c ∈ [' ', '\t', '\n', '\r', '\x0c']) (front : List Char) :
    utf8Len (front ++ [c]) = utf8Len front + 1 := by
  simp only [List.mem_cons, List.not_mem_nil, or_false] at between
  rw [String.utf8Len_append]
  rcases between with rfl | rfl | rfl | rfl | rfl <;> rfl

theorem Mark.utf8Len {t : Token} (mark : Mark c t) (front : List Char) :
    utf8Len (front ++ [c]) = utf8Len front + 1 := by
  rw [String.utf8Len_append]
  cases mark <;> rfl

theorem Numeral.utf8Len {w i f : List Char} (numeral : Numeral w i f) (front : List Char) :
    utf8Len (front ++ w) = utf8Len front + w.length := by
  rw [String.utf8Len_append, utf8Len_of_ascii fun c member => val_le_of_isNumeric (numeral.numeric c member)]

/-- The tokens of a text are cut from it, whatever was cut before. -/
theorem Lexed.tokensFrom {front cs : List Char} {items : List Item} (lexed : Lexed front cs items)
    (enough : cs.length ≤ fuel) :
    Formula.tokensFrom fuel acc (utf8Len front) cs = .ok (acc.reverse ++ items) := by
  induction lexed generalizing fuel acc with
  | done => rw [tokensFrom_nil, List.append_nil]
  | @blank front c cs items between rest ih =>
      rw [List.length_cons] at enough
      obtain ⟨fuel, rfl⟩ : ∃ k, fuel = k + 1 := ⟨fuel - 1, by omega⟩
      rw [tokensFrom_blank (isAsciiBlank_iff.mpr between), ← utf8Len_blank between]
      exact ih (Nat.le_of_succ_le_succ enough)
  | @mark front c t cs items mark rest ih =>
      rw [List.length_cons] at enough
      obtain ⟨fuel, rfl⟩ : ∃ k, fuel = k + 1 := ⟨fuel - 1, by omega⟩
      rw [tokensFrom_mark mark, ← mark.utf8Len, ih (Nat.le_of_succ_le_succ enough), List.reverse_cons,
        List.append_assoc]
      rfl
  | @number front w i f cs x items numeral value ends rest ih =>
      have some := List.length_pos_iff.mpr numeral.ne_nil
      rw [List.length_append] at enough
      obtain ⟨fuel, rfl⟩ : ∃ k, fuel = k + 1 := ⟨fuel - 1, by omega⟩
      rw [tokensFrom_number numeral value ends, ← numeral.utf8Len, ih (by omega), List.reverse_cons,
        List.append_assoc]
      rfl

theorem lexed_of_tokensFrom {front cs : List Char} {items : List Item} (enough : cs.length ≤ fuel)
    (done : tokensFrom fuel acc (utf8Len front) cs = .ok items) :
    ∃ more, items = acc.reverse ++ more ∧ Lexed front cs more := by
  induction fuel generalizing acc front cs with
  | zero =>
      rw [List.length_eq_zero_iff.mp (Nat.le_zero.mp enough), tokensFrom_nil] at *
      cases done
      exact ⟨[], by simp, .done⟩
  | succ fuel ih =>
      cases begins cs with
      | nothing =>
          rw [tokensFrom_nil] at done
          cases done
          exact ⟨[], by simp, .done⟩
      | @blank c cs between =>
          rw [tokensFrom_blank (isAsciiBlank_iff.mpr between), ← utf8Len_blank between] at done
          obtain ⟨more, rfl, lexed⟩ := ih (Nat.le_of_succ_le_succ enough) done
          exact ⟨more, rfl, .blank between lexed⟩
      | @mark c t cs mark =>
          rw [tokensFrom_mark mark, ← mark.utf8Len] at done
          obtain ⟨more, rfl, lexed⟩ := ih (Nat.le_of_succ_le_succ enough) done
          exact ⟨_, by rw [List.reverse_cons, List.append_assoc]; rfl, .mark mark lexed⟩
      | @number w i f cs numeral ends =>
          have some := List.length_pos_iff.mpr numeral.ne_nil
          rw [List.length_append] at enough
          rw [tokensFrom_number numeral numeral.read ends, ← numeral.utf8Len] at done
          obtain ⟨more, rfl, lexed⟩ := ih (by omega) done
          exact ⟨_, by rw [List.reverse_cons, List.append_assoc]; rfl, .number numeral numeral.read ends lexed⟩
      | stray stray =>
          rw [tokensFrom_stray stray] at done
          cases done
      | dangling digits bare =>
          rw [tokensFrom_dangling digits bare] at done
          cases done

theorem tokens_eq_ok_iff {text : List Char} {items : List Item} :
    tokens text = .ok items ↔ Lexed [] text items := by
  constructor
  · intro cut
    have fromStart : tokensFrom text.length [] (utf8Len []) text = .ok items := cut
    obtain ⟨more, rfl, lexed⟩ := lexed_of_tokensFrom (Nat.le_refl _) fromStart
    exact lexed
  · exact fun lexed => lexed.tokensFrom (Nat.le_refl _)

theorem tokens_sound {text : List Char} {items : List Item} (cut : tokens text = .ok items) :
    Spells text (items.map Prod.fst) :=
  (tokens_eq_ok_iff.mp cut).spells

theorem Spells.tokens {text : List Char} {ts : List Token} (spelled : Spells text ts)
    (spaced : Spaced ts) : ∃ items, Formula.tokens text = .ok items ∧ items.map Prod.fst = ts := by
  obtain ⟨items, lexed, same⟩ := spelled.lexed spaced []
  exact ⟨items, tokens_eq_ok_iff.mpr lexed, same⟩

end Tokens

end SlideDeck.Formula
