import Mathlib
import SlideDeck.Proofs.Markup.Syntax

/-!
On well-formed markup the check for event handlers is exact: it finds the first attribute whose whole
name is that of a handler, and nothing in a text or in a value counts as one.
-/

namespace SlideDeck.Markup

open Text

section Names

variable {c : Char} {cs rest : List Char}

/-- `on` and at least one letter, in any case. -/
def isHandler : List Char → Bool
  | c :: d :: letters => c.toLower = 'o' && d.toLower = 'n' && !letters.isEmpty && letters.all Char.isAlpha
  | _ => false

theorem foldsToLetter_of_toLower {p : Char} (letter : p.isAlpha = true) (lower : c.toLower = p) :
    foldsToLetter c = true := by
  have alpha : c.isAlpha = true := by
    unfold Char.toLower at lower
    split at lower
    · rename_i upper
      rw [Char.isAlpha, Char.isUpper, decide_eq_true upper, Bool.true_or]
    · exact lower ▸ letter
  rw [foldsToLetter, alpha, Bool.true_or, Bool.true_or]

theorem foldsToLetter_of_isNameChar (named : isNameChar c = true) : foldsToLetter c = c.isAlpha := by
  have long : c ≠ longS := ne_of_kind named (by decide)
  have sign : c ≠ kelvin := ne_of_kind named (by decide)
  simp [foldsToLetter, long, sign]

theorem foldsToLetter_of_isBlank (blank : isBlank c = true) : foldsToLetter c = false := by
  have long : c ≠ longS := ne_of_kind blank (by decide)
  have sign : c ≠ kelvin := ne_of_kind blank (by decide)
  have letter : c.isAlpha = false := by
    by_contra alpha
    rw [Bool.not_eq_false] at alpha
    have named : isNameChar c = true := by simp [isNameChar, Char.isAlphanum, alpha]
    exact Bool.false_ne_true ((not_blank_of_isNameChar named).symm.trans blank)
  simp [foldsToLetter, letter, long, sign]

theorem handlerName_other (other : foldsToLetter c = false) : handlerName (c :: cs) = none := by
  have first : c.toLower ≠ 'o' := fun lower =>
    Bool.false_ne_true (other.symm.trans (foldsToLetter_of_toLower rfl lower))
  simp [handlerName, stripFolded, foldsTo, first]

theorem dropWhile_letters (rest : List Char) (named : ∀ c ∈ cs, isNameChar c = true)
    (mixed : cs.all Char.isAlpha = false) :
    ∃ d more, (cs ++ rest).dropWhile foldsToLetter = d :: more ∧ isNameChar d = true := by
  induction cs with
  | nil => cases mixed
  | cons c cs ih =>
      obtain ⟨here, later⟩ := List.forall_mem_cons.mp named
      rw [List.cons_append, List.dropWhile_cons, foldsToLetter_of_isNameChar here]
      split
      · rename_i letter
        rw [List.all_cons, letter, Bool.true_and] at mixed
        exact ih later mixed
      · exact ⟨c, cs ++ rest, rfl, here⟩

theorem span_letters (letters : ∀ c ∈ cs, foldsToLetter c = true)
    (stop : ∀ c ∈ rest.head?, foldsToLetter c = false) :
    (cs ++ rest).takeWhile foldsToLetter = cs ∧ (cs ++ rest).dropWhile foldsToLetter = rest := by
  rw [List.takeWhile_append_of_pos letters, List.dropWhile_append_of_pos letters]
  cases rest with
  | nil => simp
  | cons d rest => simp [stop d rfl]

theorem stripFolded_on {d : Char} : stripFolded ['o', 'n'] (c :: d :: cs) =
    if c.toLower = 'o' ∧ d.toLower = 'n' then some cs else none := by
  by_cases first : c.toLower = 'o' <;> by_cases second : d.toLower = 'n' <;>
    simp [stripFolded, foldsTo, first, second]

theorem stripFolded_short (stop : ∀ c ∈ rest.head?, foldsToLetter c = false) :
    stripFolded ['n'] rest = none := by
  cases rest with
  | nil => rfl
  | cons d rest =>
      have other : d.toLower ≠ 'n' := fun lower =>
        Bool.false_ne_true ((stop d rfl).symm.trans (foldsToLetter_of_toLower rfl lower))
      simp [stripFolded, foldsTo, other]

theorem handlerName_name (n : Name) (stop : ∀ c ∈ rest.head?, foldsToLetter c = false) :
    handlerName (n.chars ++ rest) =
      if isHandler n.chars ∧ (rest.dropWhile isBlank).head? = some '=' then some n.chars else none := by
  obtain ⟨chars, nonempty, named⟩ := n
  match chars, nonempty, named with
  | [c], _, named => simp [handlerName, stripFolded, stripFolded_short stop, isHandler]
  | c :: d :: letters, _, named =>
      have inside : ∀ e ∈ letters, isNameChar e = true := fun e member =>
        named e (List.mem_cons_of_mem c (List.mem_cons_of_mem d member))
      rw [handlerName, List.cons_append, List.cons_append, stripFolded_on]
      by_cases folded : c.toLower = 'o' ∧ d.toLower = 'n'
      · rw [if_pos folded]
        cases mixed : letters.all Char.isAlpha with
        | true =>
            have all : ∀ e ∈ letters, foldsToLetter e = true := fun e member => by
              rw [foldsToLetter_of_isNameChar (inside e member)]
              exact List.all_eq_true.mp mixed e member
            obtain ⟨taken, left⟩ := span_letters all stop
            simp only [taken, left, isHandler, folded, mixed]
            cases letters <;> simp
        | false =>
            obtain ⟨e, more, left, named'⟩ := dropWhile_letters rest inside mixed
            have sign : e ≠ '=' := ne_of_kind named' rfl
            simp [left, not_blank_of_isNameChar named', sign, isHandler, mixed]
      · have other : isHandler (c :: d :: letters) = false := by
          rw [isHandler, ← Bool.decide_and, decide_eq_false folded, Bool.false_and, Bool.false_and]
        simp [if_neg folded, other]

end Names

section Searching

variable {c : Char} {cs rest : List Char} {found : Option (List Char)}

def Searches (cs : List Char) (found : Option (List Char)) : Prop :=
  ∀ fuel, cs.length ≤ fuel → handlerInTag fuel cs = found

def Follows (cs : List Char) (found : Option (List Char)) : Prop :=
  ∃ later, Searches cs later ∧ (handlerName cs).or later = found

theorem Searches.follows (searches : Searches cs found) (nothing : handlerName cs = none) :
    Follows cs found :=
  ⟨found, searches, by rw [nothing, Option.none_or]⟩

theorem Follows.searches (follows : Follows cs found) (nothing : handlerName cs = none) :
    Searches cs found := by
  obtain ⟨later, searches, rfl⟩ := follows
  rwa [nothing, Option.none_or]

theorem searches_of_step
    (step : ∀ fuel, rest.length ≤ fuel → handlerInTag (fuel + 1) (c :: rest) = found) :
    Searches (c :: rest) found := by
  intro fuel enough
  cases fuel with
  | zero => exact absurd enough (Nat.not_succ_le_zero _)
  | succ fuel => exact step fuel (Nat.le_of_succ_le_succ enough)

theorem searches_end (rest : List Char) : Searches ('>' :: rest) none :=
  searches_of_step fun fuel _ => by rw [handlerInTag, if_neg (by decide), if_pos rfl]

theorem Searches.cons (searches : Searches rest found) (quote : isQuote c = false) (inside : c ≠ '>')
    (joined : (isBlank c || c = '/') = false) : Searches (c :: rest) found :=
  searches_of_step fun fuel enough => by
    rw [handlerInTag, if_neg (by simp [quote]), if_neg inside, if_neg (by simp [joined]),
      searches fuel enough]

/-- What separates attributes opens no quoted text and ends no tag. -/
theorem plain_of_separator (separator : isBlank c = true ∨ c = '/') : isQuote c = false ∧ c ≠ '>' := by
  rcases separator with blank | rfl
  · exact ⟨not_quote_of_kind blank fun q => by cases q <;> rfl, ne_of_kind blank rfl⟩
  · exact ⟨rfl, by decide⟩

theorem Follows.separated (follows : Follows rest found) (separator : isBlank c = true ∨ c = '/') :
    Searches (c :: rest) found := by
  obtain ⟨later, searches, rfl⟩ := follows
  obtain ⟨quote, inside⟩ := plain_of_separator separator
  refine searches_of_step fun fuel enough => ?_
  rw [handlerInTag, if_neg (by simp [quote]), if_neg inside, if_pos (by simpa using separator),
    searches fuel enough]

theorem afterQuote_value {quote : Char} {value : List Char} (closed : quote ∉ value) :
    afterQuote quote (value ++ quote :: rest) = some rest := by
  have others : ∀ c ∈ value, (c != quote) = true := fun c member => by
    simpa using ne_of_mem_of_not_mem member closed
  rw [afterQuote, List.dropWhile_append_of_pos others, List.dropWhile_cons, if_neg (by simp)]

/-- A value is passed over whole, and an attribute may begin behind it. -/
theorem Follows.quoted (q : Quote) {value : List Char} (closed : q.char ∉ value)
    (follows : Follows rest found) : Searches (q.char :: (value ++ q.char :: rest)) found := by
  obtain ⟨later, searches, rfl⟩ := follows
  have quote : isQuote q.char = true := by cases q <;> rfl
  refine searches_of_step fun fuel enough => ?_
  rw [handlerInTag, if_pos quote, afterQuote_value closed]
  simp only
  rw [searches fuel (by simp at enough; omega)]

theorem Follows.blanks (b : Blanks) (follows : Follows rest found) : Follows (b.chars ++ rest) found := by
  obtain ⟨chars, blank⟩ := b
  induction chars with
  | nil => exact follows
  | cons c chars ih =>
      obtain ⟨here, later⟩ := List.forall_mem_cons.mp blank
      exact ((ih later).separated (Or.inl here)).follows (handlerName_other (foldsToLetter_of_isBlank here))

theorem Follows.slash (present : Bool) (follows : Follows rest found) :
    Follows (slash present ++ rest) found := by
  cases present with
  | false => exact follows
  | true => exact (follows.separated (Or.inr rfl)).follows (handlerName_other rfl)

theorem Searches.name (searches : Searches rest found) (named : ∀ c ∈ cs, isNameChar c = true) :
    Searches (cs ++ rest) found := by
  induction cs with
  | nil => exact searches
  | cons c cs ih =>
      obtain ⟨here, later⟩ := List.forall_mem_cons.mp named
      have quote : isQuote c = false := not_quote_of_kind here fun q => by cases q <;> rfl
      have slash : c ≠ '/' := ne_of_kind here rfl
      exact (ih later).cons quote (ne_of_kind here rfl) (by simp [not_blank_of_isNameChar here, slash])

end Searching

section Tags

variable {rest : List Char} {found : Option (List Char)}

theorem head?_blanks {b : Blanks} {c : Char} (more : List Char)
    (start : b.chars = [] → foldsToLetter c = false) :
    ∀ d ∈ (b.chars ++ c :: more).head?, foldsToLetter d = false := by
  obtain ⟨chars, blank⟩ := b
  cases chars with
  | nil => simpa using start rfl
  | cons d chars => simpa using foldsToLetter_of_isBlank (blank d List.mem_cons_self)

theorem dropWhile_blanks (b : Blanks) {c : Char} (more : List Char) (other : isBlank c = false) :
    (b.chars ++ c :: more).dropWhile isBlank = c :: more := by
  rw [List.dropWhile_append_of_pos b.blank, List.dropWhile_cons, other]
  rfl

theorem handlerName_of_head? {cs : List Char} (stop : ∀ d ∈ cs.head?, foldsToLetter d = false) :
    handlerName cs = none := by
  cases cs with
  | nil => rfl
  | cons d cs => exact handlerName_other (stop d rfl)

def firstHandler (attributes : List Attribute) : Option (List Char) :=
  (attributes.find? fun a => isHandler a.name.chars).map fun a => a.name.chars

theorem firstHandler_append (as bs : List Attribute) :
    firstHandler (as ++ bs) = (firstHandler as).or (firstHandler bs) := by
  rw [firstHandler, List.find?_append, Option.map_or]
  rfl

theorem Follows.valued (a : Attribute) (follows : Follows rest found) :
    Searches (a.valued ++ rest) found := by
  have quote : foldsToLetter a.quote.char = false := by cases a.quote <;> decide
  have value := follows.quoted a.quote a.closed
  have after := ((value.follows (handlerName_other quote)).blanks a.afterSign).searches
    (handlerName_of_head? (head?_blanks _ fun _ => quote))
  have sign := after.cons (c := '=') rfl (by decide) rfl
  have before := ((sign.follows (handlerName_other rfl)).blanks a.beforeSign).searches
    (handlerName_of_head? (head?_blanks _ fun _ => rfl))
  simpa [Attribute.valued] using before

/-- An attribute is found if it is a handler, and passed over if it is not. -/
theorem Follows.attribute (a : Attribute) (follows : Follows rest found) :
    Follows (a.render ++ rest)
      ((if isHandler a.name.chars then some a.name.chars else none).or found) := by
  obtain ⟨more, shape⟩ : ∃ more, a.valued ++ rest = a.beforeSign.chars ++ '=' :: more :=
    ⟨_, by rw [Attribute.valued, List.append_assoc, List.cons_append]⟩
  have stop : ∀ c ∈ (a.valued ++ rest).head?, foldsToLetter c = false :=
    shape ▸ head?_blanks more fun _ => rfl
  have sign : ((a.valued ++ rest).dropWhile isBlank).head? = some '=' := by
    rw [shape, dropWhile_blanks a.beforeSign more rfl, List.head?_cons]
  have named : Follows (a.name.chars ++ (a.valued ++ rest))
      ((if isHandler a.name.chars then some a.name.chars else none).or found) := by
    refine ⟨found, (follows.valued a).name a.name.named, ?_⟩
    rw [handlerName_name a.name stop]
    simp only [sign, and_true]
  simpa [Attribute.render] using named.blanks a.space

theorem Follows.attributes (as : List Attribute) (follows : Follows rest none) :
    Follows (as.flatMap Attribute.render ++ rest) (firstHandler as) := by
  induction as with
  | nil => exact follows
  | cons a as ih =>
      have first : firstHandler [a] = if isHandler a.name.chars then some a.name.chars else none := by
        rw [firstHandler, List.find?_singleton]
        split <;> rfl
      rw [List.flatMap_cons, List.append_assoc, ← List.singleton_append, firstHandler_append, first]
      exact ih.attribute a

theorem follows_ending (t : Tag) (rest : List Char) : Follows (t.ending ++ rest) none := by
  have last : Follows ('>' :: rest) none := (searches_end rest).follows (handlerName_other rfl)
  simpa [Tag.ending] using (last.slash t.empty).blanks t.space

theorem behind_name (t : Tag) (rest : List Char) : ∃ (b : Blanks) (c : Char) (more : List Char),
    t.attributes.flatMap Attribute.render ++ (t.ending ++ rest) = b.chars ++ c :: more ∧
      isBlank c = false ∧ c ≠ '=' ∧ (b.chars = [] → foldsToLetter c = false) := by
  have apart := t.apart
  cases shape : t.attributes with
  | nil =>
      cases ending : t.empty with
      | false =>
          refine ⟨t.space, '>', rest, ?_, rfl, by decide, fun _ => rfl⟩
          simp [Tag.ending, slash, ending]
      | true =>
          refine ⟨t.space, '/', '>' :: rest, ?_, rfl, by decide, fun _ => rfl⟩
          simp [Tag.ending, slash, ending]
  | cons a others =>
      obtain ⟨c, name, chars⟩ := List.exists_cons_of_ne_nil a.name.nonempty
      have named : isNameChar c = true := a.name.named c (chars ▸ List.mem_cons_self)
      have other : isBlank c = false ∧ c ≠ '=' :=
        ⟨not_blank_of_isNameChar named, ne_of_kind named rfl⟩
      refine ⟨a.space, c, name ++ (a.valued ++ (others.flatMap Attribute.render ++ (t.ending ++ rest))),
        by simp [Attribute.render, chars], other.1, other.2, fun none => ?_⟩
      exact absurd none (apart a (by simp [shape]))

theorem searches_body (t : Tag) (rest : List Char) :
    Searches (t.body ++ rest) (firstHandler t.attributes) := by
  have follows := (follows_ending t rest).attributes t.attributes
  obtain ⟨b, c, more, shape, other, sign, start⟩ := behind_name t rest
  have stop : ∀ d ∈ (t.attributes.flatMap Attribute.render ++ (t.ending ++ rest)).head?,
      foldsToLetter d = false := shape ▸ head?_blanks more start
  have searches := follows.searches (handlerName_of_head? stop)
  have named := searches.name t.name.named
  have nothing : handlerName (t.name.chars ++ (t.attributes.flatMap Attribute.render ++
      (t.ending ++ rest))) = none := by
    rw [handlerName_name t.name stop, if_neg]
    rw [shape, dropWhile_blanks b more other]
    simp [sign]
  have body : Searches (slash t.closing ++ (t.name.chars ++ (t.attributes.flatMap Attribute.render ++
      (t.ending ++ rest)))) (firstHandler t.attributes) := by
    cases t.closing with
    | false => exact named
    | true => exact (named.follows nothing).separated (Or.inr rfl)
  simpa [Tag.body] using body

end Tags

section Texts

variable {rest : List Char}

theorem handler?_plain {run : List Char} (plain : '<' ∉ run) : handler? (run ++ rest) = handler? rest := by
  induction run with
  | nil => rfl
  | cons c run ih =>
      have other : c ≠ '<' := ne_of_mem_of_not_mem List.mem_cons_self plain
      rw [List.cons_append, handler?, if_neg other, ih (List.not_mem_of_not_mem_cons plain)]

theorem lower_of_isNameChar {c : Char} (named : isNameChar c = true) : lower c = c.toLower :=
  if_neg (ne_of_kind named (by decide))

theorem map_lower (n : Name) : n.chars.map lower = n.chars.map Char.toLower :=
  List.map_congr_left fun c member => lower_of_isNameChar (n.named c member)

theorem handler?_tag (t : Tag) : handler? ('<' :: (t.body ++ rest)) =
    match firstHandler t.attributes with
    | some name => some (String.ofList (name.map lower))
    | none => handler? rest := by
  rw [handler?, if_pos rfl, searches_body t rest _ le_rfl]
  cases firstHandler t.attributes with
  | some name => rfl
  | none => exact handler?_plain t.no_angle

theorem handler?_render (pieces : List Piece) : handler? (render pieces) =
    (firstHandler (attributes pieces)).map fun name => String.ofList (name.map lower) := by
  induction pieces with
  | nil => rfl
  | cons piece pieces ih =>
      rw [render, List.flatMap_cons, attributes, List.flatMap_cons]
      cases piece with
      | text run plain => exact (handler?_plain plain).trans ih
      | tag t =>
          change handler? ('<' :: (t.body ++ render pieces)) =
            (firstHandler (t.attributes ++ attributes pieces)).map _
          rw [handler?_tag, ih, firstHandler_append]
          cases firstHandler t.attributes <;> rfl

end Texts

section Violations

variable {output : String}

/-- Not refused for being empty, for its elements or for a script. -/
structure Passes (output : String) : Prop where
  filled : violation? output ≠ some .empty
  drawn : violation? output ≠ some .noMarkup
  unscripted : violation? output ≠ some .scriptElement

theorem violation?_of_passes (passes : Passes output) : violation? output =
    match handler? output.toList with
    | some name => some (.eventHandler name)
    | none => (scriptUri? output.toList).map .scriptUri := by
  obtain ⟨filled, drawn, unscripted⟩ := passes
  unfold violation? at filled drawn unscripted ⊢
  simp only at filled drawn unscripted ⊢
  by_cases blank : output.toList.all isBlank = true
  · exact absurd (if_pos blank) filled
  · rw [if_neg blank] at drawn unscripted ⊢
    by_cases unknown : (!hasElement svgNames output.toList) = true
    · exact absurd (if_pos unknown) drawn
    · rw [if_neg unknown] at unscripted ⊢
      by_cases script : hasElement ["script"] output.toList = true
      · exact absurd (if_pos script) unscripted
      · exact if_neg script

theorem violation_eventHandler_iff {h : String} : violation? output = some (.eventHandler h) ↔
    Passes output ∧ handler? output.toList = some h := by
  constructor
  · intro refused
    have passes : Passes output := by constructor <;> simp [refused]
    refine ⟨passes, ?_⟩
    rw [violation?_of_passes passes] at refused
    split at refused
    · rename_i name found
      rw [found, Violation.eventHandler.inj (Option.some.inj refused)]
    · obtain ⟨scheme, -, other⟩ := Option.map_eq_some_iff.mp refused
      cases other
  · rintro ⟨passes, found⟩
    rw [violation?_of_passes passes, found]

theorem handler?_text {pieces : List Piece} {h : String} : handler? (text pieces).toList = some h ↔
    ∃ a, (attributes pieces).find? (fun a => isHandler a.name.chars) = some a ∧
      h = String.ofList (a.name.chars.map Char.toLower) := by
  rw [text, String.toList_ofList, handler?_render, firstHandler, Option.map_map, Option.map_eq_some_iff]
  refine exists_congr fun a => and_congr_right fun _ => ?_
  rw [Function.comp_apply, map_lower]
  exact eq_comm

/-- Markup that gets past the checks before is refused for an event handler exactly if some tag has an
attribute whose whole name is that of one, and by the name of the first such attribute. -/
theorem eventHandler_exact (pieces : List Piece) :
    (∀ h, violation? (text pieces) = some (.eventHandler h) ↔ Passes (text pieces) ∧
      ∃ a, (attributes pieces).find? (fun a => isHandler a.name.chars) = some a ∧
        h = String.ofList (a.name.chars.map Char.toLower)) ∧
    ((∃ h, violation? (text pieces) = some (.eventHandler h)) ↔ Passes (text pieces) ∧
      ∃ t, .tag t ∈ pieces ∧ ∃ a ∈ t.attributes, isHandler a.name.chars = true) := by
  have exact (h : String) := violation_eventHandler_iff.trans
    (and_congr_right fun (_ : Passes (text pieces)) => handler?_text (h := h))
  refine ⟨exact, ?_⟩
  constructor
  · rintro ⟨h, refused⟩
    obtain ⟨passes, a, found, -⟩ := (exact h).mp refused
    obtain ⟨t, tag, inside⟩ := mem_attributes.mp (List.mem_of_find?_eq_some found)
    exact ⟨passes, t, tag, a, inside, by simpa using List.find?_some found⟩
  · rintro ⟨passes, t, tag, a, inside, handler⟩
    have some_found : ((attributes pieces).find? fun a => isHandler a.name.chars).isSome = true :=
      List.find?_isSome.mpr ⟨a, mem_attributes.mpr ⟨t, tag, inside⟩, handler⟩
    obtain ⟨b, found⟩ := Option.isSome_iff_exists.mp some_found
    exact ⟨_, (exact _).mpr ⟨passes, b, found, rfl⟩⟩

/-- A quoted value and a run of text that look like handlers, and right behind a quoted value one that is. -/
theorem eventHandler_exact_of_quotes :
    let blank : Blanks := ⟨[' '], List.all_eq_true.mp rfl⟩
    let nothing : Blanks := ⟨[], nofun⟩
    let title : Attribute :=
      { space := blank, name := ⟨"title".toList, by decide, List.all_eq_true.mp rfl⟩, beforeSign := nothing
        afterSign := nothing, quote := .single, value := "a onload=b".toList, closed := by decide, plain := by decide }
    let width : Attribute :=
      { space := blank, name := ⟨"width".toList, by decide, List.all_eq_true.mp rfl⟩, beforeSign := nothing
        afterSign := nothing, quote := .double, value := ['1'], closed := by decide, plain := by decide }
    let click : Attribute :=
      { space := nothing, name := ⟨"ONclick".toList, by decide, List.all_eq_true.mp rfl⟩, beforeSign := blank
        afterSign := blank, quote := .single, value := ['2'], closed := by decide, plain := by decide }
    let g : Name := ⟨['g'], by decide, List.all_eq_true.mp rfl⟩
    let rect : Name := ⟨"rect".toList, by decide, List.all_eq_true.mp rfl⟩
    let pieces : List Piece :=
      [.tag ⟨false, g, [title], by simp [title, blank], nothing, false⟩, .text "on=".toList (by decide),
        .tag ⟨false, rect, [width, click], by simp [width, blank], nothing, true⟩,
        .tag ⟨true, g, [], nofun, nothing, false⟩]
    text pieces = "<g title='a onload=b'>on=<rect width=\"1\"ONclick = '2'/></g>" ∧ Passes (text pieces) ∧
      violation? (text pieces) = some (.eventHandler "onclick") := by
  intro blank nothing title width click g rect pieces
  have shown : text pieces = "<g title='a onload=b'>on=<rect width=\"1\"ONclick = '2'/></g>" := by
    decide +kernel
  have passes : Passes (text pieces) := by
    rw [shown]
    constructor <;> decide +kernel
  have first : (attributes pieces).find? (fun a => isHandler a.name.chars) = some click := rfl
  exact ⟨shown, passes, ((eventHandler_exact pieces).1 "onclick").mpr ⟨passes, click, first, by decide⟩⟩

end Violations

end SlideDeck.Markup
