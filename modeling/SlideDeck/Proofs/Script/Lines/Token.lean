import SlideDeck.Proofs.Script.Lines.Basic
import SlideDeck.Script.Token

/-!
Reading tokens keeps to the lines of the text: what is behind a cursor has no more line breaks than the
line of the cursor leaves room for.
-/

namespace SlideDeck.Script

open Located (Within)

variable {L : Nat → Prop}

section Breaks

theorem breaks_cons (c : Char) (cs : List Char) : breaks cs ≤ breaks (c :: cs) ∧ breaks (c :: cs) ≤ breaks cs + 1 := by
  induction cs generalizing c with
  | nil =>
      rw [breaks.eq_4 c [] nofun nofun]
      split <;> simp [breaks]
  | cons d rest ih =>
      have tail := ih d
      by_cases pair : (c = '\r' ∧ d = '\n') ∨ (c = '\n' ∧ d = '\r')
      · have joined : breaks (c :: d :: rest) = breaks rest + 1 := by
          obtain ⟨rfl, rfl⟩ | ⟨rfl, rfl⟩ := pair <;> rfl
        omega
      · rw [breaks.eq_4 c (d :: rest) (by grind) (by grind)]
        split <;> omega

theorem breaks_le_of_suffix {cs rest : List Char} (suffix : rest <:+ cs) : breaks rest ≤ breaks cs := by
  obtain ⟨front, rfl⟩ := suffix
  induction front with
  | nil => exact le_rfl
  | cons c front ih => exact ih.trans (breaks_cons c _).1

theorem breaks_dropBreak {cs rest : List Char} (passed : Cursor.dropBreak cs = some rest) :
    breaks cs = breaks rest + 1 := by
  unfold Cursor.dropBreak at passed
  split at passed
  · obtain rfl := Option.some.inj passed
    rfl
  · obtain rfl := Option.some.inj passed
    rfl
  · obtain rfl := Option.some.inj passed
    rw [breaks.eq_4 _ _ (by grind) (by grind), if_pos (.inl rfl)]
  · obtain rfl := Option.some.inj passed
    rw [breaks.eq_4 _ _ (by grind) (by grind), if_pos (.inr rfl)]
  · exact nomatch passed

theorem lastLine_eq (cs : List Char) (line : Nat) : Cursor.lastLine cs line = line + breaks cs := by
  fun_induction Cursor.lastLine cs line with
  | case1 line => rfl
  | case2 rest line ih =>
    rw [ih]
    change line + 1 + breaks rest = line + (breaks rest + 1)
    omega
  | case3 rest line ih =>
    rw [ih]
    change line + 1 + breaks rest = line + (breaks rest + 1)
    omega
  | case4 c rest line crlf lfcr ih =>
    rw [ih, breaks.eq_4 c rest crlf lfcr]
    split <;> omega

end Breaks

section Kinds

/-- A cursor may still come to as many lines as there are breaks ahead. -/
instance : Located Cursor := ⟨fun L c => ∀ k ≤ breaks c.rest, L (c.line + k)⟩

instance : Located Complaint := ⟨fun L e => L e.line⟩

instance : Located Token := ⟨fun L t => match t with
  | .number v _ => Within L v
  | _ => True⟩

instance : Located Cursor.Escape := ⟨fun L e => match e with
  | .bytes _ after => Within L after
  | .bad _ _ => True⟩

end Kinds

namespace Cursor

variable {cs rest : List Char} {line : Nat}

section Moves

theorem within_line {c : Cursor} (within : Within L c) : L c.line := within 0 (Nat.zero_le _)

theorem within_suffix (within : Within L (⟨cs, line⟩ : Cursor)) (suffix : rest <:+ cs) :
    Within L (⟨rest, line⟩ : Cursor) :=
  fun k bound => within k (bound.trans (breaks_le_of_suffix suffix))

theorem within_tail {c : Char} (within : Within L (⟨c :: cs, line⟩ : Cursor)) : Within L (⟨cs, line⟩ : Cursor) :=
  within_suffix within (List.suffix_cons c cs)

theorem within_next (within : Within L (⟨cs, line⟩ : Cursor)) (passed : breaks cs = breaks rest + 1) :
    Within L (⟨rest, line + 1⟩ : Cursor) := by
  intro k bound
  have ahead := within (k + 1) (by rw [passed]; exact Nat.succ_le_succ bound)
  rwa [Nat.add_comm k 1, ← Nat.add_assoc] at ahead

theorem within_lastLine (within : Within L (⟨cs, line⟩ : Cursor)) : L (lastLine cs line) := by
  rw [lastLine_eq]
  exact within _ le_rfl

theorem breaks_cons_of_break {c : Char} (single : c = '\n' ∨ c = '\r')
    (crlf : ∀ more, c = '\r' → rest = '\n' :: more → False)
    (lfcr : ∀ more, c = '\n' → rest = '\r' :: more → False) : breaks (c :: rest) = breaks rest + 1 := by
  rw [breaks.eq_4 c rest crlf lfcr, if_pos single]

end Moves

section Brackets

theorem suffix_longOpening {level : Nat} (opening : longOpening cs = some (level, rest)) : rest <:+ cs := by
  unfold longOpening at opening
  dsimp only at opening
  split at opening
  · rename_i more left
    obtain ⟨-, rfl⟩ := Prod.mk.inj (Option.some.inj opening)
    exact (List.suffix_cons _ _).trans (left ▸ List.dropWhile_suffix _)
  · exact nomatch opening

theorem suffix_longClosing {level : Nat} (closing : longClosing level cs = some rest) : rest <:+ cs := by
  unfold longClosing at closing
  split at closing
  · split at closing
    · rename_i more left
      obtain rfl := Option.some.inj closing
      exact (List.suffix_cons _ _).trans (left ▸ List.dropWhile_suffix _)
    · exact nomatch closing
  · exact nomatch closing

theorem within_readLong (level : Nat) (acc : ByteArray) (within : Within L (⟨cs, line⟩ : Cursor)) :
    Within L (readLong level cs line acc) := by
  fun_induction readLong level cs line acc with
  | case1 => exact within_none
  | case2 rest line acc ih => exact ih (within_next within rfl)
  | case3 rest line acc ih => exact ih (within_next within rfl)
  | case4 c rest line acc crlf lfcr single ih => exact ih (within_next within (breaks_cons_of_break single crlf lfcr))
  | case5 rest line acc after closing crlf lfcr =>
      exact within_some.mpr ⟨trivial, within_suffix (within_tail within) (suffix_longClosing closing)⟩
  | case6 rest line acc crlf lfcr _ closing ih => exact ih (within_tail within)
  | case7 c rest line acc crlf lfcr _ _ ih => exact ih (within_tail within)

theorem within_readLongBody (level : Nat) {c : Cursor} (within : Within L c) : Within L (readLongBody level c) := by
  unfold readLongBody
  split
  · rename_i rest passed
    exact within_readLong level _ (within_next within (breaks_dropBreak passed))
  · exact within_readLong level _ within

theorem within_unfinishedLong {α : Type} [Located α] (what : String) (start : Nat) {c : Cursor}
    (within : Within L c) :
    Within L (unfinishedLong what start c : Except Complaint α) := within_error.mpr (within_lastLine within)

theorem within_skip (fuel : Nat) {c : Cursor} (within : Within L c) : Within L (skip fuel c) := by
  induction fuel generalizing c with
  | zero => exact within
  | succ fuel ih =>
      obtain ⟨cs, line⟩ := c
      unfold skip
      dsimp only
      split
      · rename_i rest
        have text := within_suffix within (List.suffix_append ['-', '-', '['] rest)
        split
        · rename_i level body opening
          have inside := within_suffix text (suffix_longOpening opening)
          have closed := within_readLongBody level inside
          split
          · rename_i bytes after found
            rw [found] at closed
            exact ih (within_some.mp closed).2
          · exact within_unfinishedLong _ _ inside
        · exact ih (within_suffix text (List.dropWhile_suffix _))
      · rename_i rest _
        have text := within_suffix within (List.suffix_append ['-', '-'] rest)
        exact ih (within_suffix text (List.dropWhile_suffix _))
      · split
        · rename_i after passed
          exact ih (within_next within (breaks_dropBreak passed))
        · split
          · exact ih (within_tail within)
          · exact within
      · exact within

end Brackets

section Numbers

theorem suffix_numeralChars (hexadecimal afterMark : Bool) (cs : List Char) :
    (numeralChars hexadecimal afterMark cs).2 <:+ cs := by
  fun_induction numeralChars hexadecimal afterMark cs with
  | case1 => exact List.suffix_rfl
  | case2 afterMark c rest _ text after read ih =>
      rw [read] at ih
      exact ih.trans (List.suffix_cons c rest)
  | case3 => exact List.suffix_rfl

theorem within_readNumber (within : Within L (⟨cs, line⟩ : Cursor)) : Within L (readNumber cs line) := by
  unfold readNumber
  split
  rename_i start more hexadecimal front
  have behind : more <:+ cs := by
    split at front
    · obtain ⟨-, rfl, -⟩ := Prod.mk.inj front |>.imp_right Prod.mk.inj
      exact List.suffix_append ['0', 'x'] _
    · obtain ⟨-, rfl, -⟩ := Prod.mk.inj front |>.imp_right Prod.mk.inj
      exact List.suffix_append ['0', 'X'] _
    · obtain ⟨-, rfl, -⟩ := Prod.mk.inj front |>.imp_right Prod.mk.inj
      exact List.suffix_rfl
  split
  rename_i digits rest numeral
  have left : rest <:+ more := by
    have suffix := suffix_numeralChars hexadecimal false more
    rwa [numeral] at suffix
  split
  rename_i text after touched
  have passed : after <:+ rest := by
    split at touched
    · split at touched
      · obtain ⟨-, rfl⟩ := Prod.mk.inj touched
        exact List.suffix_cons _ _
      · obtain ⟨-, rfl⟩ := Prod.mk.inj touched
        exact List.suffix_rfl
    · obtain ⟨-, rfl⟩ := Prod.mk.inj touched
      exact List.suffix_rfl
  have number := @within_readNumeral L false (start ++ text)
  dsimp only
  split
  · rename_i v read
    rw [read] at number
    have value : Within L v := within_some.mp number
    exact ⟨value, within_suffix within (passed.trans (left.trans behind))⟩
  · exact within_line within

end Numbers

section Escapes

theorem within_skipBlanks (within : Within L (⟨cs, line⟩ : Cursor)) : Within L (skipBlanks cs line) := by
  fun_induction skipBlanks cs line with
  | case1 => exact within
  | case2 rest line ih => exact ih (within_next within rfl)
  | case3 rest line ih => exact ih (within_next within rfl)
  | case4 c rest line crlf lfcr single ih =>
      have atBreak : c = '\n' ∨ c = '\r' := by simpa [isBreak] using single
      exact ih (within_next within (breaks_cons_of_break atBreak crlf lfcr))
  | case5 c rest line crlf lfcr _ _ ih => exact ih (within_tail within)
  | case6 => exact within

theorem within_hexEscape (within : Within L (⟨cs, line⟩ : Cursor)) : Within L (hexEscape cs line) := by
  unfold hexEscape
  split
  · split
    · trivial
    · split
      · trivial
      · exact within_suffix within (List.drop_suffix 2 cs)
  · trivial

theorem within_decimalEscape (within : Within L (⟨cs, line⟩ : Cursor)) : Within L (decimalEscape cs line) := by
  unfold decimalEscape
  dsimp only
  split
  · exact within_suffix within (List.drop_suffix _ cs)
  · trivial

theorem suffix_numberDigits (seen : List Char) (n : Nat) {found : Nat × List Char × List Char}
    (read : numberDigits seen n cs = .ok found) : found.2.2 <:+ cs := by
  fun_induction numberDigits seen n cs with
  | case1 =>
      obtain rfl := Except.ok.inj read
      exact List.suffix_rfl
  | case2 => exact nomatch read
  | case3 seen n c rest _ _ ih => exact (ih read).trans (List.suffix_cons c rest)
  | case4 =>
      obtain rfl := Except.ok.inj read
      exact List.suffix_rfl

theorem within_unicodeEscape (within : Within L (⟨cs, line⟩ : Cursor)) : Within L (unicodeEscape cs line) := by
  unfold unicodeEscape
  split
  · rename_i rest
    split
    · trivial
    · rename_i n digits after read
      have behind := suffix_numberDigits _ _ read
      split
      · trivial
      · split
        · rename_i after
          exact within_suffix (within_tail within) ((List.suffix_cons _ _).trans behind)
        · trivial
  · trivial

theorem within_readEscape (within : Within L (⟨cs, line⟩ : Cursor)) : Within L (readEscape cs line) := by
  unfold readEscape
  split
  · exact within_none
  · rename_i c rest
    have text := within_tail within
    split
    · exact within_some.mpr text
    · split
      · rename_i after passed
        exact within_some.mpr (within_next within (breaks_dropBreak passed))
      · split
        · exact within_some.mpr (within_hexEscape text)
        · split
          · exact within_some.mpr (within_skipBlanks text)
          · split
            · exact within_some.mpr (within_unicodeEscape text)
            · split
              · exact within_some.mpr (within_decimalEscape within)
              · exact within_some.mpr trivial

end Escapes

section Scan

theorem within_readQuoted (quote : Char) (fuel : Nat) {c : Cursor} (acc : ByteArray) (within : Within L c) :
    Within L (readQuoted quote fuel c acc) := by
  induction fuel generalizing c acc with
  | zero => exact within_line within
  | succ fuel ih =>
      obtain ⟨cs, line⟩ := c
      unfold readQuoted
      dsimp only
      split
      · exact within_line within
      · rename_i rest
        have escape := within_readEscape (within_tail within)
        split
        · exact within_line within
        · rename_i bytes after read
          rw [read] at escape
          have moved : Within L (Escape.bytes bytes after) := within_some.mp escape
          exact ih _ moved
        · exact within_line within
      · split
        · exact ⟨trivial, within_tail within⟩
        · split
          · exact within_line within
          · exact ih _ (within_tail within)

theorem within_readOperator (within : Within L (⟨cs, line⟩ : Cursor)) : Within L (readOperator cs line) := by
  unfold readOperator
  split
  · exact ⟨trivial, within_suffix within (List.drop_suffix _ cs)⟩
  · split
    · exact ⟨trivial, within⟩
    · split
      · exact ⟨trivial, within_tail within⟩
      · exact ⟨trivial, within_tail within⟩

theorem within_readLongString (within : Within L (⟨cs, line⟩ : Cursor)) : Within L (readLongString cs line) := by
  unfold readLongString
  cases opening : longOpening cs with
  | none => exact within_none
  | some found =>
      obtain ⟨level, body⟩ := found
      have inside := within_suffix within (suffix_longOpening opening)
      have closed := within_readLongBody level inside
      refine within_some.mpr ?_
      dsimp only
      split
      · exact within_unfinishedLong _ _ inside
      · rename_i bytes after read
        rw [read] at closed
        exact ⟨trivial, (within_some.mp closed).2⟩

/-- A token, what follows it and what is wrong with it are all at lines of the text. -/
theorem within_scan (fuel : Nat) {c : Cursor} (within : Within L c) : Within L (scan fuel c) := by
  have skipped := within_skip fuel within
  unfold scan
  split
  · rename_i e wrong
    rw [wrong] at skipped
    exact skipped
  · rename_i c ahead
    rw [ahead] at skipped
    obtain ⟨cs, line⟩ := c
    have here : Within L (⟨cs, line⟩ : Cursor) := within_ok.mp skipped
    have operator := within_readOperator here
    split
    · exact ⟨trivial, here⟩
    · rename_i a rest text
      obtain rfl : cs = a :: rest := text
      have behind := within_tail here
      split
      · refine ⟨?_, within_suffix here (List.dropWhile_suffix _)⟩
        split <;> trivial
      · split
        · exact within_readNumber here
        · split
          · exact within_readQuoted a fuel _ behind
          · split
            · split
              · rename_i r read
                have string := within_readLongString behind
                rw [read] at string
                exact within_some.mp string
              · dsimp only
                split
                · exact operator
                · exact within_line here
            · exact operator

end Scan

end Cursor

end SlideDeck.Script
