import Mathlib
import SlideDeck.Proofs.Formula.Scan
import SlideDeck.Proofs.Formula.Diagnosis

/-!
Tokens cut by byte offsets, and the offsets that errors give. A byte is taken for the character of its
number: it is a digit, a point, a blank or a mark only where such a character stands, so every offset that
is reached, and every one that is reported, is one between two characters.
-/

namespace SlideDeck.Formula

open Decimal (Digits)
open String (utf8Len)
open Text (encode between? from?)

def digitsEnd (bytes : List UInt8) (pos : Nat) : Nat :=
  if inside : pos < bytes.length then
    if (Char.ofUInt8 bytes[pos]).isDigit then digitsEnd bytes (pos + 1) else pos
  else pos
termination_by bytes.length - pos

/-- Where the number at an offset ends, unless it has a point and no digits behind it. -/
def numberEnd? (bytes : List UInt8) (pos : Nat) : Option Nat :=
  let whole := digitsEnd bytes pos
  if bytes[whole]?.map Char.ofUInt8 = some '.' then
    let stop := digitsEnd bytes (whole + 1)
    if stop = whole + 1 then none else some stop
  else some whole

/-- The tokens cut so far, and the offset of what is left. -/
structure Cutting where
  items : List Item
  offset : Nat

def Cutting.take (text : List Char) (s : Cutting) (c : Char) :
    Option (Round Cutting (Except GrammarError (List Item))) :=
  if isAsciiBlank c then some (.more ⟨s.items, s.offset + 1⟩)
  else if isNumeric c then
    match numberEnd? (encode text) s.offset with
    | none => some (.done (.error (.malformedNumber s.offset)))
    | some stop => do
      let w ← between? s.offset stop text
      match Decimal.read w with
      | none => some (.done (.error (.malformedNumber s.offset)))
      | some x => some (.more ⟨s.items ++ [(.number x, s.offset)], stop⟩)
  else
    match symbol? c with
    | some t => some (.more ⟨s.items ++ [(t, s.offset)], s.offset + 1⟩)
    | none => do
      let rest ← from? s.offset text
      some (.done (.error (.unexpectedChar (rest.head?.getD '\ufffd') s.offset)))

def Cutting.round (text : List Char) (s : Cutting) :
    Option (Round Cutting (Except GrammarError (List Item))) :=
  if s.offset < (encode text).length then do
    let b ← (encode text)[s.offset]?
    s.take text (Char.ofUInt8 b)
  else some (.done (.ok s.items))

structure Alike (c d : Char) : Prop where
  blank : isAsciiBlank c = isAsciiBlank d
  digit : c.isDigit = d.isDigit
  point : c = '.' ↔ d = '.'
  symbol : symbol? c = symbol? d

section Bytes

variable {c : Char} {cs front rest ds after : List Char}

theorem Alike.numeric {c d : Char} (alike : Alike c d) : isNumeric c = isNumeric d := by
  rw [isNumeric, isNumeric, alike.digit, decide_eq_decide.mpr alike.point]

theorem stray_of_wide (wide : 127 < c.val) : Stray c := by
  have other {a : Char} (ascii : a.val ≤ 127) : c ≠ a := by
    rintro rfl
    exact UInt32.not_le.mpr wide ascii
  refine ⟨?_, ?_, ?_⟩
  · simp only [List.mem_cons, List.not_mem_nil, or_false, not_or]
    exact ⟨other (by decide), other (by decide), other (by decide), other (by decide), other (by decide)⟩
  · by_contra numeric
    exact UInt32.not_le.mpr wide (val_le_of_isNumeric (by simpa using numeric))
  · rintro t ⟨⟩ <;> exact absurd wide (by decide)

theorem Stray.not_blank (stray : Stray c) : isAsciiBlank c = false :=
  Bool.eq_false_iff.mpr fun blank => stray.blank (isAsciiBlank_iff.mp blank)

theorem Stray.symbol (stray : Stray c) : symbol? c = none :=
  Option.eq_none_iff_forall_ne_some.mpr fun t known => stray.mark t (symbol_eq_some_iff.mp known)

theorem Stray.alike {d : Char} (stray : Stray c) (stray' : Stray d) : Alike c d := by
  have numeric {c : Char} (stray : Stray c) : c.isDigit = false ∧ c ≠ '.' := by
    simpa [isNumeric] using stray.numeric
  exact ⟨stray.not_blank.trans stray'.not_blank.symm, (numeric stray).1.trans (numeric stray').1.symm,
    iff_of_false (numeric stray).2 (numeric stray').2, stray.symbol.trans stray'.symbol.symm⟩

/-- The byte where a character starts tells what the character starts. -/
theorem exists_byte (front : List Char) (c : Char) (rest : List Char) :
    ∃ b, (encode (front ++ c :: rest))[utf8Len front]? = some b ∧ Alike (Char.ofUInt8 b) c := by
  rw [Text.getElem?_encode]
  -- The first byte of a character beyond ASCII is no ASCII character, and neither of the two starts a token.
  by_cases small : c.val ≤ 127
  · rw [Text.encode_cons_ascii small]
    refine ⟨_, rfl, ?_⟩
    rw [Text.ofUInt8_val small]
    exact ⟨rfl, rfl, Iff.rfl, rfl⟩
  · have wide := UInt32.not_le.mp small
    obtain ⟨b, bytes, shape, high⟩ := Text.exists_high wide rest
    rw [shape]
    have wide' : 127 < (Char.ofUInt8 b).val := UInt32.lt_iff_toNat_lt.mpr (Nat.lt_of_lt_of_le (by decide) high)
    exact ⟨b, rfl, (stray_of_wide wide').alike (stray_of_wide wide)⟩

theorem utf8Len_digits {ds : List Char} (digits : ∀ d ∈ ds, d.isDigit = true) (front : List Char) :
    utf8Len (front ++ ds) = utf8Len front + ds.length := by
  rw [String.utf8Len_append,
    utf8Len_of_ascii fun d member => val_le_of_isNumeric (isNumeric_of_isDigit (digits d member))]

theorem digitsEnd_eq (front after : List Char) (digits : ∀ d ∈ ds, d.isDigit = true)
    (stopped : ∀ c ∈ after.head?, c.isDigit = false) :
    digitsEnd (encode (front ++ (ds ++ after))) (utf8Len front) = utf8Len (front ++ ds) := by
  induction ds generalizing front with
  | nil =>
      rw [List.nil_append, List.append_nil, digitsEnd]
      split
      · rename_i inside
        cases after with
        | nil =>
            rw [List.append_nil, Text.length_encode] at inside
            exact absurd inside (Nat.lt_irrefl _)
        | cons c rest =>
            obtain ⟨b, found, alike⟩ := exists_byte front c rest
            obtain ⟨_, rfl⟩ := List.getElem?_eq_some_iff.mp found
            rw [alike.digit, stopped c rfl, if_neg (by decide)]
      · rfl
  | cons d ds ih =>
      obtain ⟨digit, others⟩ := List.forall_mem_cons.mp digits
      obtain ⟨b, found, alike⟩ := exists_byte front d (ds ++ after)
      obtain ⟨inside, rfl⟩ := List.getElem?_eq_some_iff.mp found
      have next := ih (front ++ [d]) others
      have step : utf8Len (front ++ [d]) = utf8Len front + 1 := utf8Len_digits (by simpa using digit) front
      rw [List.append_assoc, List.singleton_append, step, List.append_assoc, List.singleton_append] at next
      rw [List.cons_append, digitsEnd, dif_pos inside, alike.digit, digit, if_pos rfl, next]

theorem byte_point_iff (front cs : List Char) :
    (encode (front ++ cs))[utf8Len front]?.map Char.ofUInt8 = some '.' ↔ cs.head? = some '.' := by
  cases cs with
  | nil =>
      rw [List.append_nil, List.getElem?_eq_none (by rw [Text.length_encode])]
      simp
  | cons c rest =>
      obtain ⟨b, found, alike⟩ := exists_byte front c rest
      rw [found, Option.map_some, Option.some.injEq, alike.point]
      simp

theorem numberEnd_point {i f : List Char} (front : List Char) (digits : ∀ d ∈ i, d.isDigit = true)
    (digits' : ∀ d ∈ f, d.isDigit = true) (stopped : ∀ c ∈ after.head?, c.isDigit = false) :
    numberEnd? (encode (front ++ (i ++ '.' :: (f ++ after)))) (utf8Len front) =
      if f = [] then none else some (utf8Len (front ++ (i ++ '.' :: f))) := by
  have whole := digitsEnd_eq front ('.' :: (f ++ after)) digits (by simp)
  have point := (byte_point_iff (front ++ i) ('.' :: (f ++ after))).mpr rfl
  have stop := digitsEnd_eq (front ++ (i ++ ['.'])) after digits' stopped
  have behind : utf8Len (front ++ (i ++ ['.'])) = utf8Len (front ++ i) + 1 := by
    rw [← List.append_assoc, String.utf8Len_append]
    rfl
  have more : utf8Len (front ++ (i ++ '.' :: f)) = utf8Len (front ++ i) + 1 ↔ f = [] := by
    rw [List.append_cons i, ← List.append_assoc front, utf8Len_digits digits', behind, Nat.add_eq_left,
      List.length_eq_zero_iff]
  simp only [List.append_assoc, List.cons_append, List.nil_append] at whole point stop
  rw [behind] at stop
  simp only [numberEnd?, whole, point, stop, if_pos, more]

theorem numberEnd_plain (front : List Char) (digits : ∀ d ∈ ds, d.isDigit = true)
    (stopped : ∀ c ∈ after.head?, c.isDigit = false ∧ c ≠ '.') :
    numberEnd? (encode (front ++ (ds ++ after))) (utf8Len front) = some (utf8Len (front ++ ds)) := by
  have whole := digitsEnd_eq front after digits fun c first => (stopped c first).1
  have noPoint : ¬ (encode (front ++ ds ++ after))[utf8Len (front ++ ds)]?.map Char.ofUInt8 = some '.' := by
    rw [byte_point_iff]
    exact fun first => (stopped '.' first).2 rfl
  rw [List.append_assoc] at noPoint
  simp only [numberEnd?, whole, if_neg noPoint]

theorem Numeral.numberEnd {w i f : List Char} (numeral : Numeral w i f) (ends : Ends f after)
    (front : List Char) :
    numberEnd? (encode (front ++ (w ++ after))) (String.utf8Len front) =
      some (String.utf8Len (front ++ w)) := by
  have stopped : ∀ c ∈ after.head?, c.isDigit = false := fun c first => (ends c first).1
  cases numeral with
  | whole digits =>
      exact numberEnd_plain front digits.2 fun c first => ⟨stopped c first, (ends c first).2 rfl⟩
  | decimal digits fraction =>
      rw [List.append_assoc, List.cons_append, numberEnd_point front digits.2 fraction.2 stopped,
        if_neg fraction.1]
  | fraction fraction =>
      have cut := numberEnd_point (i := []) front (List.forall_mem_nil _) fraction.2 stopped
      rwa [if_neg fraction.1] at cut

theorem numberEnd_dangling {whole : List Char} (front : List Char) (digits : ∀ d ∈ whole, d.isDigit = true)
    (bare : ∀ c ∈ after.head?, c.isDigit = false) :
    numberEnd? (encode (front ++ (whole ++ '.' :: after))) (utf8Len front) = none :=
  numberEnd_point (f := []) front digits (List.forall_mem_nil _) bare

end Bytes

section Rounds

variable {c : Char} {cs front whole : List Char} {items : List Item}

theorem Alike.take {c d : Char} (alike : Alike c d) (text : List Char) (s : Cutting) :
    s.take text c = s.take text d := by
  rw [Cutting.take, alike.blank, alike.numeric, alike.symbol]
  rfl

theorem Cutting.round_nil : round front ⟨items, utf8Len front⟩ = some (.done (.ok items)) := by
  rw [round, if_neg (by rw [Text.length_encode]; exact Nat.lt_irrefl _)]

theorem Cutting.round_cons :
    round (front ++ c :: cs) ⟨items, utf8Len front⟩ =
      take (front ++ c :: cs) ⟨items, utf8Len front⟩ c := by
  obtain ⟨b, found, alike⟩ := exists_byte front c cs
  have inside := (List.getElem?_eq_some_iff.mp found).1
  rw [round, if_pos inside, found, ← alike.take]
  rfl

theorem Cutting.round_blank (between : c ∈ [' ', '\t', '\n', '\r', '\x0c']) :
    round (front ++ c :: cs) ⟨items, utf8Len front⟩ = some (.more ⟨items, utf8Len (front ++ [c])⟩) := by
  rw [round_cons, take, if_pos (isAsciiBlank_iff.mpr between), utf8Len_blank between]

theorem Cutting.round_mark {t : Token} (mark : Mark c t) :
    round (front ++ c :: cs) ⟨items, utf8Len front⟩ =
      some (.more ⟨items ++ [(t, utf8Len front)], utf8Len (front ++ [c])⟩) := by
  rw [round_cons, mark.utf8Len]
  simp only [take, mark.not_blank, mark.not_numeric, symbol_eq_some_iff.mpr mark, Bool.false_eq_true, if_false]

theorem Cutting.round_stray (stray : Stray c) :
    round (front ++ c :: cs) ⟨items, utf8Len front⟩ =
      some (.done (.error (.unexpectedChar c (utf8Len front)))) := by
  have rest : from? (utf8Len front) (front ++ c :: cs) = some (c :: cs) := Text.from_append rfl
  rw [round_cons]
  simp only [take, stray.not_blank, stray.numeric, stray.symbol, rest, Bool.false_eq_true, if_false]
  rfl

theorem Cutting.round_number {w i f : List Char} {x : Float} (numeral : Numeral w i f)
    (value : Decimal.read w = some x) (ends : Ends f cs) :
    round (front ++ (w ++ cs)) ⟨items, utf8Len front⟩ =
      some (.more ⟨items ++ [(.number x, utf8Len front)], utf8Len (front ++ w)⟩) := by
  have stop := numeral.numberEnd ends front
  have cut : between? (utf8Len front) (utf8Len (front ++ w)) (front ++ (w ++ cs)) = some w :=
    Text.between_append rfl rfl
  obtain ⟨c, w, rfl⟩ := List.exists_cons_of_ne_nil numeral.ne_nil
  have start := numeral.numeric c List.mem_cons_self
  rw [List.cons_append] at stop cut ⊢
  rw [round_cons]
  simp only [take, not_blank_of_isNumeric start, start, stop, cut, value, Option.bind_eq_bind,
    Option.bind_some, Bool.false_eq_true, if_true, if_false]

theorem Cutting.round_dangling (digits : ∀ d ∈ whole, d.isDigit = true)
    (bare : ∀ c ∈ cs.head?, c.isDigit = false) :
    round (front ++ (whole ++ '.' :: cs)) ⟨items, utf8Len front⟩ =
      some (.done (.error (.malformedNumber (utf8Len front)))) := by
  have stop := numberEnd_dangling front digits bare
  obtain ⟨c, tail, shape, start⟩ := exists_numeric digits cs
  rw [shape] at stop ⊢
  rw [round_cons]
  simp only [take, not_blank_of_isNumeric start, start, stop, Bool.false_eq_true, if_true, if_false]

/-- A round cuts the token or the blank that stands at the offset, and goes on behind it. -/
theorem Cutting.approaches (text : List Char) :
    Approaches (utf8Len text - ·.offset) (round text) fun s r =>
      ∃ front cs fuel, text = front ++ cs ∧ s.offset = utf8Len front ∧ cs.length ≤ fuel ∧
        tokensFrom fuel s.items.reverse s.offset cs = r := by
  rintro ⟨items, _⟩ r ⟨front, cs, fuel, rfl, rfl, enough, cut⟩
  -- A token takes one unit of fuel and at least one byte, so there is enough of both for what is left.
  have shrinks (used rest : List Char) (nonempty : used ≠ []) :
      utf8Len (front ++ (used ++ rest)) - utf8Len (front ++ used) <
        utf8Len (front ++ (used ++ rest)) - utf8Len front := by
    have := utf8Len_pos nonempty
    simp only [String.utf8Len_append]
    omega
  have spare (used rest : List Char) (nonempty : used ≠ []) (enough : (used ++ rest).length ≤ fuel) :
      ∃ k, fuel = k + 1 ∧ rest.length ≤ k := by
    have := List.length_pos_iff.mpr nonempty
    rw [List.length_append] at enough
    exact ⟨fuel - 1, by omega, by omega⟩
  cases begins cs with
  | nothing =>
      left
      rw [tokensFrom_nil, List.reverse_reverse] at cut
      rw [List.append_nil, round_nil, cut]
  | @blank c cs between =>
      right
      obtain ⟨fuel, rfl, fewer⟩ := spare [c] cs (by simp) enough
      rw [tokensFrom_blank (isAsciiBlank_iff.mpr between), ← utf8Len_blank between] at cut
      exact ⟨_, round_blank between, shrinks [c] cs (by simp), front ++ [c], cs, fuel, by simp, rfl,
        fewer, cut⟩
  | @mark c t cs mark =>
      right
      obtain ⟨fuel, rfl, fewer⟩ := spare [c] cs (by simp) enough
      rw [tokensFrom_mark mark, ← mark.utf8Len] at cut
      refine ⟨_, round_mark mark, shrinks [c] cs (by simp), front ++ [c], cs, fuel, by simp, rfl,
        fewer, ?_⟩
      rw [List.reverse_concat]
      exact cut
  | @number w i f cs numeral ends =>
      right
      obtain ⟨fuel, rfl, fewer⟩ := spare w cs numeral.ne_nil enough
      rw [tokensFrom_number numeral numeral.read ends, ← numeral.utf8Len] at cut
      refine ⟨_, round_number numeral numeral.read ends, shrinks w cs numeral.ne_nil, front ++ w, cs, fuel,
        by simp, rfl, fewer, ?_⟩
      rw [List.reverse_concat]
      exact cut
  | @stray c cs stray =>
      left
      obtain ⟨fuel, rfl, -⟩ := spare [c] cs (by simp) enough
      rw [tokensFrom_stray stray] at cut
      rw [round_stray stray, cut]
  | @dangling whole cs digits bare =>
      left
      obtain ⟨fuel, rfl, -⟩ := spare (whole ++ '.' :: cs) [] (by simp) (by simpa using enough)
      rw [tokensFrom_dangling digits bare] at cut
      rw [round_dangling digits bare, cut]

theorem loop_cutting (text : List Char) :
    loop (utf8Len text - ·.offset) (Cutting.round text) ⟨[], 0⟩ = some (tokens text) :=
  (Cutting.approaches text).loop ⟨[], text, text.length, rfl, rfl, Nat.le_refl _, rfl⟩

end Rounds

def GrammarError.offset? : GrammarError → Option Nat
  | .unexpectedChar _ offset => some offset
  | .malformedNumber offset => some offset
  | .unexpectedToken _ offset => some offset
  | .empty | .unexpectedEnd | .tooDeep => none

inductive Shows : GrammarError → List Char → Prop
  | broken {e : GrammarError} {cs : List Char} {offset : Nat} (breaks : Breaks offset cs e) : Shows e cs
  | mark {c : Char} {t : Token} {cs : List Char} {offset : Nat} (mark : Mark c t) :
      Shows (.unexpectedToken t offset) (c :: cs)
  | number {w i f cs : List Char} {x : Float} {offset : Nat} (numeral : Numeral w i f)
      (value : Decimal.read w = some x) (ends : Ends f cs) :
      Shows (.unexpectedToken (.number x) offset) (w ++ cs)

/-- If an error gives an offset, then what it reports starts there, and is no part of a number before it. -/
def Located (text : List Char) (e : GrammarError) : Prop :=
  ∀ offset ∈ e.offset?, ∃ front rest, text = front ++ rest ∧ utf8Len front = offset ∧
    Seam front rest ∧ Shows e rest

section Locating

variable {front cs rest text : List Char} {e : GrammarError} {items : List Item}

theorem Shows.ne_nil (shows : Shows e rest) : rest ≠ [] := by
  cases shows with
  | broken breaks => cases breaks <;> simp
  | mark => simp
  | number numeral => simp [numeral.ne_nil]

theorem Breaks.offset {offset : Nat} (breaks : Breaks offset cs e) : e.offset? = some offset := by
  cases breaks <;> rfl

theorem Seam.located (seam : Seam front cs) (shows : Shows e cs) (here : e.offset? = some (utf8Len front)) :
    Located (front ++ cs) e := by
  intro offset given
  rw [here] at given
  cases given
  exact ⟨front, cs, rfl, rfl, seam, shows⟩

theorem Lexed.located {t : Token} {offset : Nat} (lexed : Lexed front cs items) (seam : Seam front cs)
    (member : (t, offset) ∈ items) : Located (front ++ cs) (.unexpectedToken t offset) := by
  induction lexed with
  | done => cases member
  | @blank front c cs items between rest ih =>
      rw [List.append_cons]
      exact ih (seam_concat (isNumeric_of_blank (isAsciiBlank_iff.mpr between))) member
  | @mark front c t' cs items mark rest ih =>
      rcases List.mem_cons.mp member with same | later
      · cases same
        exact seam.located (.mark mark) rfl
      · rw [List.append_cons]
        exact ih (seam_concat mark.not_numeric) later
  | @number front w i f cs x items numeral value ends rest ih =>
      rcases List.mem_cons.mp member with same | later
      · cases same
        exact seam.located (.number numeral value ends) rfl
      · rw [← List.append_assoc]
        exact ih (numeral.seam ends) later

theorem mem_of_sentence {n offset : Nat} (failed : sentence n items = .error e) (given : offset ∈ e.offset?) :
    ∃ t, (t, offset) ∈ items ∧ e = .unexpectedToken t offset := by
  obtain ⟨used, rest, s, rfl, -, halts⟩ := stuck_of_sentence failed
  cases halts with
  | atEnd | tooDeep => cases given
  | @atToken s t offset rest never =>
      cases given
      exact ⟨t, by simp, rfl⟩

theorem located_of_evaluate (failed : evaluate text = .error e) : Located text e := by
  rw [evaluate_eq] at failed
  split at failed
  · rename_i cause cut
    cases failed
    obtain ⟨used, rest, rfl, seam, breaks, -⟩ := breaks_of_tokens cut
    exact seam.located (.broken breaks) breaks.offset
  · cases failed
    rintro offset ⟨⟩
  · rename_i items _ cut
    intro offset given
    obtain ⟨t, member, rfl⟩ := mem_of_sentence failed given
    have seam : Seam [] text := .outside (by simp)
    exact (tokens_eq_ok_iff.mp cut).located seam member offset given

end Locating

/-- Whatever characters a text is made of, it is cut only where one of them starts, or at its end. The rounds
that list its references, put in their values and cut its tokens never fail, each leaves less of the text, and
they come to what is listed, put in and cut character by character. Every offset that an error gives is
one before the end at which the character, the number or the token starts that it reports. -/
theorem cut_between_characters (text : String) :
    (∀ n, (Text.cut? n text.toList).isSome ↔ (⟨n⟩ : String.Pos.Raw).IsValid text) ∧
    ((∀ s, Advances (utf8Len ·.rest) Listing.round s) ∧
      loop (utf8Len ·.rest) Listing.round ⟨[], text.toList⟩ = some (references text)) ∧
    (∀ values, (∀ s, Advances (utf8Len ·.rest) (Filling.round values) s) ∧
      loop (utf8Len ·.rest) (Filling.round values) ⟨[], text.toList⟩ = some (substitute values text)) ∧
    ((∀ s, (⟨s.offset⟩ : String.Pos.Raw).IsValid text →
        Advances (text.utf8ByteSize - ·.offset) (Cutting.round text.toList) s) ∧
      loop (text.utf8ByteSize - ·.offset) (Cutting.round text.toList) ⟨[], 0⟩ = some (tokens text.toList)) ∧
    ∀ e, evaluate text.toList = .error e → ∀ offset ∈ e.offset?,
      (⟨offset⟩ : String.Pos.Raw).IsValid text ∧ offset < text.utf8ByteSize ∧
        ∃ front rest, text.toList = front ++ rest ∧ utf8Len front = offset ∧
          Seam front rest ∧ Shows e rest := by
  have valid (n : Nat) : (Text.cut? n text.toList).isSome ↔ (⟨n⟩ : String.Pos.Raw).IsValid text := by
    rw [Text.isSome_cut_iff, String.ofList_toList]
  have size : utf8Len text.toList = text.utf8ByteSize := by
    rw [← String.utf8ByteSize_ofList, String.ofList_toList]
  refine ⟨valid, ⟨fun s => Listing.approaches.advances rfl, loop_listing text⟩,
    fun values => ⟨fun s => (Filling.approaches values).advances rfl, loop_filling values text⟩,
    ⟨?_, ?_⟩, ?_⟩
  · intro s start
    obtain ⟨⟨front, rest⟩, cut⟩ := Option.isSome_iff_exists.mp ((valid s.offset).mpr start)
    obtain ⟨shape, here⟩ := Text.cut_eq_some_iff.mp cut
    rw [← size]
    exact (Cutting.approaches text.toList).advances ⟨front, rest, _, shape, here.symm, Nat.le_refl _, rfl⟩
  · rw [← size]
    exact loop_cutting text.toList
  · intro e failed offset given
    obtain ⟨front, rest, shape, here, seam, shows⟩ := located_of_evaluate failed offset given
    refine ⟨?_, ?_, front, rest, shape, here, seam, shows⟩
    · rw [← valid, shape, ← here, Text.cut_append]
      rfl
    · have behind := utf8Len_pos shows.ne_nil
      rw [← size, shape, String.utf8Len_append]
      omega

/-- Inside a character there is nothing to cut. -/
example : Cutting.round "é".toList ⟨[], 1⟩ = none := rfl

end SlideDeck.Formula
