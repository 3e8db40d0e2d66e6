import Mathlib
import SlideDeck.Proofs.Formula.Lexing
import SlideDeck.Proofs.Formula.Reference

/-!
Formula text as it stands before anything is put in: which symbols it is written with, and which
tokens are cut from it once references and page tokens have given way to numbers.
-/

namespace SlideDeck.Formula

open Decimal (Digits Scientific natOfDigits)

inductive Symbol where
  | token (t : Token)
  | reference (name : String)
  | pageNumber
  | pageCount

/-- `Placeholder w s`: the text `w` stands for `s`, which is put in later. -/
inductive Placeholder : List Char → Symbol → Prop
  | reference {name : List Char} (named : name ≠ []) (closed : '}' ∉ name) :
      Placeholder ('%' :: '{' :: name ++ ['}']) (.reference (.ofList name))
  | pageNumber : Placeholder ['%', 'p'] .pageNumber
  | pageCount : Placeholder ['%', 'P'] .pageCount

def Apart (cs : List Char) : Prop := cs.head? ≠ some '%'

/-- `Written cs ss`: the text `cs` is the symbols `ss` one after another, with blanks around them but
not inside. Numbers are taken as long as possible, and placeholders stand next to no digit, no point
and no other placeholder. -/
inductive Written : List Char → List Symbol → Prop
  | done : Written [] []
  | blank {c : Char} {cs : List Char} {ss : List Symbol}
      (between : c ∈ [' ', '\t', '\n', '\r', '\x0c']) (rest : Written cs ss) : Written (c :: cs) ss
  | mark {c : Char} {t : Token} {cs : List Char} {ss : List Symbol}
      (mark : Mark c t) (rest : Written cs ss) : Written (c :: cs) (.token t :: ss)
  | number {w i f cs : List Char} {x : Float} {ss : List Symbol}
      (numeral : Numeral w i f) (value : Decimal.read w = some x) (ends : Ends f cs)
      (apart : Apart cs) (rest : Written cs ss) : Written (w ++ cs) (.token (.number x) :: ss)
  | placeholder {w cs : List Char} {s : Symbol} {ss : List Symbol}
      (held : Placeholder w s) (quiet : Quiet cs) (apart : Apart cs) (rest : Written cs ss) :
      Written (w ++ cs) (s :: ss)

section References

variable {c : Char} {w cs : List Char}

def Symbol.name? : Symbol → Option String
  | .reference name => some name
  | _ => none

theorem splitBrace_name {name : List Char} (closed : '}' ∉ name) (cs : List Char) :
    splitBrace (name ++ '}' :: cs) = some (name, cs) := by
  have before : ∀ c ∈ name, (c != '}') = true := by
    intro c member
    simp only [bne_iff_ne]
    rintro rfl
    exact closed member
  unfold splitBrace
  rw [List.dropWhile_append_of_pos before, List.takeWhile_append_of_pos before]
  simp

theorem referencesIn_cons (plain : c ≠ '%') (cs : List Char) :
    referencesIn (c :: cs) = referencesIn cs := by
  rw [referencesIn]
  rintro after rfl
  exact absurd rfl plain

theorem referencesIn_append (plain : '%' ∉ w) (cs : List Char) :
    referencesIn (w ++ cs) = referencesIn cs := by
  induction w with
  | nil => rfl
  | cons c w ih =>
      rw [List.mem_cons, not_or] at plain
      rw [List.cons_append, referencesIn_cons (Ne.symm plain.1), ih plain.2]

theorem referencesIn_token {token : Char} (name : token ≠ '{') (plain : token ≠ '%')
    (cs : List Char) : referencesIn ('%' :: token :: cs) = referencesIn cs := by
  rw [referencesIn, referencesIn_cons plain]
  rintro after - same
  cases same
  exact name rfl

theorem referencesIn_reference {name : List Char} (named : name ≠ []) (closed : '}' ∉ name)
    (cs : List Char) :
    referencesIn ('%' :: '{' :: name ++ ['}'] ++ cs) = name :: referencesIn cs := by
  have shape : '%' :: '{' :: name ++ ['}'] ++ cs = '%' :: '{' :: (name ++ '}' :: cs) := by simp
  have brace := splitBrace_name closed cs
  rw [shape, referencesIn]
  split <;> simp_all

theorem Numeral.plain {i f : List Char} (numeral : Numeral w i f) : '%' ∉ w := by
  intro member
  exact absurd (numeral.numeric '%' member) (by decide)

theorem Mark.plain {t : Token} (mark : Mark c t) : c ≠ '%' := by
  cases mark <;> decide

theorem plain_of_blank (blank : c ∈ [' ', '\t', '\n', '\r', '\x0c']) : c ≠ '%' := by
  rintro rfl
  exact absurd blank (by decide)

theorem Written.references {ss : List Symbol} (written : Written cs ss) :
    (referencesIn cs).map String.ofList = ss.filterMap Symbol.name? := by
  induction written with
  | done => simp [referencesIn]
  | blank between rest ih => rw [referencesIn_cons (plain_of_blank between), ih]
  | mark mark rest ih =>
      rw [referencesIn_cons mark.plain, ih]
      rfl
  | number numeral value ends apart rest ih =>
      rw [referencesIn_append numeral.plain, ih]
      rfl
  | placeholder held quiet apart rest ih =>
      cases held with
      | reference named closed =>
          rw [referencesIn_reference named closed, List.map_cons, ih]
          rfl
      | pageNumber =>
          rw [List.cons_append, List.singleton_append, referencesIn_token (by decide) (by decide), ih]
          rfl
      | pageCount =>
          rw [List.cons_append, List.singleton_append, referencesIn_token (by decide) (by decide), ih]
          rfl

theorem Written.mem_references {text name : String} {ss : List Symbol}
    (written : Written text.toList ss) :
    name ∈ Formula.references text ↔ .reference name ∈ ss := by
  rw [Formula.references, written.references, List.mem_filterMap]
  constructor
  · rintro ⟨s, member, found⟩
    cases s <;> cases found
    exact member
  · exact fun member => ⟨_, member, rfl⟩

end References

section Filling

variable {values : String → Option String} {page total : List Char} {c : Char} {w f cs : List Char}

/-- The text with names replaced, then page numbers, then page counts. -/
def filled (values : String → Option String) (page total cs : List Char) : List Char :=
  replaceToken 'P' total (replaceToken 'p' page (substituteIn values cs))

/-- What keeps plain characters one by one keeps plain text. -/
theorem keeps_plain {g : List Char → List Char}
    (step : ∀ {c}, c ≠ '%' → ∀ cs, g (c :: cs) = c :: g cs) (plain : '%' ∉ w) (cs : List Char) :
    g (w ++ cs) = w ++ g cs := by
  induction w with
  | nil => rfl
  | cons c w ih =>
      rw [List.mem_cons, not_or] at plain
      rw [List.cons_append, step (Ne.symm plain.1), ih plain.2, List.cons_append]

theorem replaceToken_cons {token : Char} {value : List Char} (plain : c ≠ '%') (cs : List Char) :
    replaceToken token value (c :: cs) = c :: replaceToken token value cs := by
  cases cs with
  | nil => rfl
  | cons d rest => rw [replaceToken, if_neg fun h => plain h.1]

theorem replaceToken_append {token : Char} {value : List Char} (plain : '%' ∉ w) (cs : List Char) :
    replaceToken token value (w ++ cs) = w ++ replaceToken token value cs :=
  keeps_plain replaceToken_cons plain cs

theorem replaceToken_hit (token : Char) (value cs : List Char) :
    replaceToken token value ('%' :: token :: cs) = value ++ replaceToken token value cs := by
  rw [replaceToken, if_pos ⟨rfl, rfl⟩]

theorem replaceToken_other {token other : Char} {value : List Char} (different : other ≠ token)
    (plain : other ≠ '%') (cs : List Char) :
    replaceToken token value ('%' :: other :: cs) = '%' :: other :: replaceToken token value cs := by
  rw [replaceToken, if_neg fun h => different h.2, replaceToken_cons plain]

theorem substituteIn_cons (plain : c ≠ '%') (cs : List Char) :
    substituteIn values (c :: cs) = c :: substituteIn values cs := by
  rw [substituteIn]
  rintro after rfl
  exact absurd rfl plain

theorem substituteIn_token (token : Char) (name : token ≠ '{') (cs : List Char) (plain : token ≠ '%') :
    substituteIn values ('%' :: token :: cs) = '%' :: token :: substituteIn values cs := by
  rw [substituteIn, substituteIn_cons plain]
  rintro after - same
  cases same
  exact name rfl

theorem filled_nil : filled values page total [] = [] := by
  simp [filled, substituteIn, replaceToken]

theorem filled_cons (plain : c ≠ '%') (cs : List Char) :
    filled values page total (c :: cs) = c :: filled values page total cs := by
  rw [filled, substituteIn_cons plain, replaceToken_cons plain, replaceToken_cons plain]
  rfl

theorem filled_append (plain : '%' ∉ w) (cs : List Char) :
    filled values page total (w ++ cs) = w ++ filled values page total cs :=
  keeps_plain filled_cons plain cs

theorem filled_reference {name : List Char} {text : String} (named : name ≠ [])
    (closed : '}' ∉ name) (known : values (.ofList name) = some text) (plain : '%' ∉ text.toList)
    (cs : List Char) :
    filled values page total ('%' :: '{' :: name ++ ['}'] ++ cs) =
      text.toList ++ filled values page total cs := by
  have shape : '%' :: '{' :: name ++ ['}'] ++ cs = '%' :: '{' :: (name ++ '}' :: cs) := by simp
  rw [shape, filled, substituteIn_reference named (splitBrace_name closed cs), replacement, known,
    replaceToken_append plain, replaceToken_append plain]
  rfl

theorem filled_pageNumber (plain : '%' ∉ page) (cs : List Char) :
    filled values page total (['%', 'p'] ++ cs) = page ++ filled values page total cs := by
  rw [filled, List.cons_append, List.singleton_append, substituteIn_token 'p' (by decide) _ (by decide),
    replaceToken_hit, replaceToken_append plain]
  rfl

theorem filled_pageCount (cs : List Char) :
    filled values page total (['%', 'P'] ++ cs) = total ++ filled values page total cs := by
  rw [filled, List.cons_append, List.singleton_append, substituteIn_token 'P' (by decide) _ (by decide),
    replaceToken_other (by decide) (by decide), replaceToken_hit]
  rfl

theorem Apart.head?_filled (apart : Apart cs) :
    (filled values page total cs).head? = cs.head? := by
  cases cs with
  | nil => rw [filled_nil]
  | cons c rest =>
      have plain : c ≠ '%' := fun same => apart (congrArg some same)
      rw [filled_cons plain]
      rfl

theorem Quiet.filled (quiet : Quiet cs) (apart : Apart cs) : Quiet (filled values page total cs) := by
  rwa [Quiet, apart.head?_filled]

theorem Ends.filled (ends : Ends f cs) (apart : Apart cs) :
    Ends f (filled values page total cs) := by
  rwa [Ends, apart.head?_filled]

end Filling

section Cutting

def Cuts (cs : List Char) (ts : List Token) : Prop :=
  ∀ fuel acc offset, cs.length ≤ fuel →
    ∃ more, tokensFrom fuel acc offset cs = .ok (acc.reverse ++ more) ∧ more.map Prod.fst = ts

variable {cs w i f : List Char} {ts : List Token} {c : Char} {t : Token} {x : Float}

theorem cuts_nil : Cuts [] [] := fun _ _ _ _ => ⟨[], by rw [tokensFrom_nil, List.append_nil], rfl⟩

theorem Cuts.blank (blank : isAsciiBlank c = true) (rest : Cuts cs ts) : Cuts (c :: cs) ts := by
  intro fuel acc offset enough
  rw [List.length_cons] at enough
  obtain ⟨fuel, rfl⟩ : ∃ k, fuel = k + 1 := ⟨fuel - 1, by omega⟩
  rw [tokensFrom_blank blank]
  exact rest _ _ _ (by omega)

theorem Cuts.mark (mark : Mark c t) (rest : Cuts cs ts) : Cuts (c :: cs) (t :: ts) := by
  intro fuel acc offset enough
  rw [List.length_cons] at enough
  obtain ⟨fuel, rfl⟩ : ∃ k, fuel = k + 1 := ⟨fuel - 1, by omega⟩
  obtain ⟨more, done, same⟩ := rest fuel ((t, offset) :: acc) (offset + 1) (by omega)
  rw [tokensFrom_mark mark, done]
  exact ⟨(t, offset) :: more, by simp, by rw [List.map_cons, same]⟩

theorem Cuts.number (numeral : Numeral w i f) (value : Decimal.read w = some x)
    (ends : Ends f cs) (rest : Cuts cs ts) : Cuts (w ++ cs) (.number x :: ts) := by
  intro fuel acc offset enough
  have some := List.length_pos_iff.mpr numeral.ne_nil
  rw [List.length_append] at enough
  obtain ⟨fuel, rfl⟩ : ∃ k, fuel = k + 1 := ⟨fuel - 1, by omega⟩
  obtain ⟨more, done, same⟩ := rest fuel ((.number x, offset) :: acc) (offset + w.length) (by omega)
  rw [tokensFrom_number numeral value ends, done]
  exact ⟨(.number x, offset) :: more, by simp, by rw [List.map_cons, same]⟩

inductive Shown : List Char → List Token → Prop
  | unsigned {w i f : List Char} {x : Float} (numeral : Numeral w i f)
      (value : Decimal.read w = some x) : Shown w [.number x]
  | negative {w i f : List Char} {x : Float} (numeral : Numeral w i f)
      (value : Decimal.read w = some x) : Shown ('-' :: w) [.minus, .number x]

theorem Shown.plain (shown : Shown w ts) : '%' ∉ w := by
  cases shown with
  | unsigned numeral value => exact numeral.plain
  | negative numeral value => simp [numeral.plain]

theorem Shown.cuts {us : List Token} (shown : Shown w ts) (quiet : Quiet cs) (rest : Cuts cs us) :
    Cuts (w ++ cs) (ts ++ us) := by
  cases shown with
  | unsigned numeral value => exact .number numeral value (quiet.ends _) rest
  | negative numeral value => exact .mark .minus (.number numeral value (quiet.ends _) rest)

end Cutting

section Tokens

variable {x : String → Float} {page total : Nat}

def settled (x : Float) : Float := if x == 0 then 0 else x

/-- The one token that a symbol counts as, where names have the values `x`. -/
def Symbol.leaf (x : String → Float) (page total : Nat) : Symbol → Token
  | .token t => t
  | .reference name => .number (settled (x name))
  | .pageNumber => .number (Float.ofNat page)
  | .pageCount => .number (Float.ofNat total)

def Symbol.spelled (x : String → Float) (page total : Nat) : Symbol → List Token
  | .reference name =>
    if x name < 0 then [.minus, .number (-x name)] else [.number (settled (x name))]
  | s => [s.leaf x page total]

theorem Written.cuts {values : String → Option String} {cs : List Char} {ss : List Symbol}
    (written : Written cs ss)
    (shown : ∀ name, .reference name ∈ ss → ∃ text, values name = some text ∧
      Shown text.toList (Symbol.spelled x page total (.reference name)))
    (number : Shown (toString page).toList [.number (Float.ofNat page)])
    (count : Shown (toString total).toList [.number (Float.ofNat total)]) :
    Cuts (filled values (toString page).toList (toString total).toList cs)
      (ss.flatMap (Symbol.spelled x page total)) := by
  induction written with
  | done =>
      rw [filled_nil]
      exact cuts_nil
  | blank between rest ih =>
      rw [filled_cons (plain_of_blank between)]
      exact (ih shown).blank (isAsciiBlank_iff.mpr between)
  | mark mark rest ih =>
      rw [filled_cons mark.plain]
      exact (ih fun name member => shown name (List.mem_cons_of_mem _ member)).mark mark
  | number numeral value ends apart rest ih =>
      rw [filled_append numeral.plain]
      have later := ih fun name member => shown name (List.mem_cons_of_mem _ member)
      exact later.number numeral value (ends.filled apart)
  | placeholder held quiet apart rest ih =>
      have later := ih fun name member => shown name (List.mem_cons_of_mem _ member)
      have behind : Quiet (filled values (toString page).toList (toString total).toList _) :=
        quiet.filled apart
      cases held with
      | reference named closed =>
          obtain ⟨text, known, tokens⟩ := shown _ List.mem_cons_self
          rw [filled_reference named closed known tokens.plain]
          exact tokens.cuts behind later
      | pageNumber =>
          rw [filled_pageNumber number.plain]
          exact number.cuts behind later
      | pageCount =>
          rw [filled_pageCount]
          exact count.cuts behind later

end Tokens

end SlideDeck.Formula
