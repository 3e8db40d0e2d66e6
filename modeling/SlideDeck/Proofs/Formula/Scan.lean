import Mathlib
import SlideDeck.Proofs.Text.Cut
import SlideDeck.Proofs.Formula.Segment

/-!
References found by byte offsets, in rounds: each round looks for the next braces that open, cuts the name
out of them and goes on behind them. A round fails if it cuts anywhere but between two characters, and the
rounds end because each one leaves less of the text. What they list and what they put in is what is listed
and put in character by character.
-/

namespace SlideDeck.Formula

open String (utf8Len)
open Text (before? from? between? find?)

/-- What a round comes to: a state from which to go on, or the result of all rounds. -/
inductive Round (σ ρ : Type) where
  | more (state : σ)
  | done (result : ρ)

section Rounds

variable {σ ρ : Type} {left : σ → Nat} {round : σ → Option (Round σ ρ)} {meets : σ → ρ → Prop}
  {s : σ} {r : ρ}

/-- Rounds up to the last one. There is no result if a round has none, nor if it leaves as much as there was. -/
def loop (left : σ → Nat) (round : σ → Option (Round σ ρ)) (s : σ) : Option ρ :=
  match round s with
  | none => none
  | some (.done result) => some result
  | some (.more next) => if left next < left s then loop left round next else none
termination_by left s

def Advances (left : σ → Nat) (round : σ → Option (Round σ ρ)) (s : σ) : Prop :=
  ∃ result, round s = some result ∧ ∀ next, result = .more next → left next < left s

/-- From where `r` is the result to come to, a round ends with it, or leaves less and the same result to
come to. -/
def Approaches (left : σ → Nat) (round : σ → Option (Round σ ρ)) (meets : σ → ρ → Prop) : Prop :=
  ∀ s r, meets s r → round s = some (.done r) ∨
    ∃ next, round s = some (.more next) ∧ left next < left s ∧ meets next r

theorem Approaches.advances (approaches : Approaches left round meets) (start : meets s r) :
    Advances left round s := by
  rcases approaches s r start with done | ⟨next, more, less, -⟩
  · exact ⟨_, done, fun _ impossible => by cases impossible⟩
  · refine ⟨_, more, fun _ same => ?_⟩
    cases same
    exact less

theorem Approaches.loop (approaches : Approaches left round meets) (start : meets s r) :
    Formula.loop left round s = some r := by
  -- By induction on what is left: a round that is not the last one leaves less, and the same to come to.
  induction bound : left s using Nat.strongRecOn generalizing s with
  | _ n ih =>
      rw [Formula.loop]
      rcases approaches s r start with done | ⟨next, more, less, onward⟩
      · rw [done]
      · rw [more]
        simp only [if_pos less]
        exact ih _ (bound ▸ less) onward rfl

end Rounds

structure Listing where
  names : List String
  rest : List Char

def Listing.round (s : Listing) : Option (Round Listing (List String)) :=
  match find? ['%', '{'] s.rest with
  | none => some (.done s.names)
  | some opening => do
    let after ← from? (opening + 2) s.rest
    match find? ['}'] after with
    | none => some (.done s.names)
    | some closing =>
      if 0 < closing then do
        let name ← before? closing after
        let rest ← from? (closing + 1) after
        some (.more ⟨s.names ++ [String.ofList name], rest⟩)
      else do
        let rest ← from? 1 after
        some (.more ⟨s.names, rest⟩)

structure Filling where
  out : List Char
  rest : List Char

/-- A name between braces is replaced, and what stands before it is copied. A reference without a value is
copied from where its braces open to where they close. -/
def Filling.round (values : String → Option String) (s : Filling) : Option (Round Filling String) :=
  match find? ['%', '{'] s.rest with
  | none => some (.done (String.ofList (s.out ++ s.rest)))
  | some opening => do
    let after ← from? (opening + 2) s.rest
    match find? ['}'] after with
    | none => some (.done (String.ofList (s.out ++ s.rest)))
    | some closing =>
      if 0 < closing then do
        let name ← before? closing after
        let literal ← before? opening s.rest
        let put ← match values (String.ofList name) with
          | some value => some value.toList
          | none => between? opening (opening + closing + 3) s.rest
        let rest ← from? (closing + 1) after
        some (.more ⟨s.out ++ literal ++ put, rest⟩)
      else do
        let literal ← before? (opening + 3) s.rest
        let rest ← from? 1 after
        some (.more ⟨s.out ++ literal, rest⟩)

/-- Nowhere do braces open. -/
def Plain (cs : List Char) : Prop := ¬ ['%', '{'] <:+: cs

inductive Meets : List Char → Prop
  | nothing {cs : List Char} (plain : Plain cs) : Meets cs
  | unclosed {before after : List Char} (plain : Plain before) (never : splitBrace after = none) :
      Meets (before ++ '%' :: '{' :: after)
  | empty {before rest : List Char} (plain : Plain before) : Meets (before ++ '%' :: '{' :: '}' :: rest)
  | reference {before name rest : List Char} (plain : Plain before) (named : name ≠ [])
      (closed : '}' ∉ name) : Meets (before ++ '%' :: '{' :: (name ++ '}' :: rest))

section Openings

variable {c : Char} {cs before after name rest : List Char}

theorem plain_nil : Plain [] := by simp [Plain]

theorem Plain.cons (plain : Plain cs) (other : c = '%' → cs.head? ≠ some '{') : Plain (c :: cs) := by
  rw [Plain, List.infix_cons_iff, List.cons_prefix_cons]
  rintro (⟨rfl, opens⟩ | inside)
  · obtain ⟨after, rfl⟩ := opens
    exact other rfl rfl
  · exact plain inside

theorem Plain.openings (plain : Plain cs) (fine : List Char → Prop) : Segments.Openings fine cs := by
  rintro before after rfl
  exact absurd ⟨before, after, by simp⟩ plain

theorem meets (cs : List Char) : Meets cs := by
  induction cs with
  | nil => exact .nothing plain_nil
  | cons c cs ih =>
      by_cases opens : c = '%' ∧ cs.head? = some '{'
      · obtain ⟨rfl, first⟩ := opens
        obtain ⟨after, rfl⟩ := List.head?_eq_some_iff.mp first
        cases brace : splitBrace after with
        | none => exact .unclosed plain_nil brace
        | some sides =>
            obtain ⟨name, rest⟩ := sides
            obtain ⟨closed, rfl⟩ := Segments.splitBrace_eq_some brace
            cases name with
            | nil => exact .empty plain_nil
            | cons d name => exact .reference plain_nil (by simp) closed
      · have behind {before tail : List Char} (plain : Plain before)
            (shape : cs = before ++ '%' :: tail) : Plain (c :: before) := by
          refine plain.cons fun same first => opens ⟨same, ?_⟩
          obtain ⟨rest, rfl⟩ := List.head?_eq_some_iff.mp first
          rw [shape]
          rfl
        cases ih with
        | nothing plain => exact .nothing (plain.cons fun same first => opens ⟨same, first⟩)
        | unclosed plain never => exact .unclosed (behind plain rfl) never
        | empty plain => exact .empty (behind plain rfl)
        | reference plain named closed => exact .reference (behind plain rfl) named closed

theorem ascii_opening : ∀ d ∈ ['%', '{'], d.val ≤ 127 := by
  rintro _ (_ | ⟨_, _ | ⟨_, ⟨⟩⟩⟩) <;> decide

theorem ascii_closing : ∀ d ∈ ['}'], d.val ≤ 127 := by
  rintro _ (_ | ⟨_, ⟨⟩⟩)
  decide

theorem find_opening (plain : Plain before) (after : List Char) :
    find? ['%', '{'] (before ++ '%' :: '{' :: after) = some (utf8Len before) := by
  refine Text.find_append ascii_opening (by simp) ?_
  rintro x y rfl nonempty opens
  match y with
  | [] => exact nonempty rfl
  | [c] => simp at opens
  | c :: d :: y =>
      simp only [List.cons_append, List.cons_prefix_cons] at opens
      obtain ⟨rfl, rfl, -⟩ := opens
      exact plain ⟨x, y, by simp⟩

theorem find_closing (closed : '}' ∉ name) (rest : List Char) :
    find? ['}'] (name ++ '}' :: rest) = some (utf8Len name) := by
  refine Text.find_append ascii_closing (by simp) ?_
  rintro x y rfl nonempty closes
  obtain ⟨c, y, rfl⟩ := List.exists_cons_of_ne_nil nonempty
  obtain ⟨rfl, -⟩ := List.cons_prefix_cons.mp closes
  exact closed (by simp)

theorem find_plain (plain : Plain cs) : find? ['%', '{'] cs = none :=
  Text.find_eq_none ascii_opening (by simp) plain

theorem find_unclosed (never : splitBrace after = none) : find? ['}'] after = none := by
  refine Text.find_eq_none ascii_closing (by simp) ?_
  rintro ⟨x, y, rfl⟩
  exact Segments.splitBrace_eq_none never (by simp)

theorem from_opening (before after : List Char) :
    from? (utf8Len before + 2) (before ++ '%' :: '{' :: after) = some after := by
  rw [List.append_cons, List.append_cons]
  apply Text.from_append
  simp only [String.utf8Len_append]
  rfl

theorem from_closing (name rest : List Char) :
    from? (utf8Len name + 1) (name ++ '}' :: rest) = some rest := by
  rw [List.append_cons]
  apply Text.from_append
  rw [String.utf8Len_append]
  rfl

theorem utf8Len_pos (named : name ≠ []) : 0 < utf8Len name := by
  rw [Nat.pos_iff_ne_zero, ne_eq, String.utf8Len_eq_zero]
  exact named

end Openings

section Rounds

variable {cs before after name rest : List Char} {names : List String} {out : List Char}
  {values : String → Option String}

theorem Listing.round_nothing (plain : Plain cs) : round ⟨names, cs⟩ = some (.done names) := by
  rw [round, find_plain plain]

theorem Listing.round_unclosed (plain : Plain before) (never : splitBrace after = none) :
    round ⟨names, before ++ '%' :: '{' :: after⟩ = some (.done names) := by
  simp only [round, find_opening plain, from_opening, find_unclosed never, Option.bind_eq_bind, Option.bind_some]

theorem Listing.round_empty (plain : Plain before) :
    round ⟨names, before ++ '%' :: '{' :: '}' :: rest⟩ = some (.more ⟨names, rest⟩) := by
  have closing : find? ['}'] ('}' :: rest) = some 0 := Text.find_here ascii_closing rest
  have behind : from? 1 ('}' :: rest) = some rest := from_closing [] rest
  simp only [round, find_opening plain, from_opening, closing, behind, Option.bind_eq_bind, Option.bind_some,
    Nat.lt_irrefl, if_false]

theorem Listing.round_reference (plain : Plain before) (named : name ≠ []) (closed : '}' ∉ name) :
    round ⟨names, before ++ '%' :: '{' :: (name ++ '}' :: rest)⟩ =
      some (.more ⟨names ++ [String.ofList name], rest⟩) := by
  have cut : before? (utf8Len name) (name ++ '}' :: rest) = some name := Text.before_append rfl
  simp only [round, find_opening plain, from_opening, find_closing closed, from_closing, cut,
    Option.bind_eq_bind, Option.bind_some, if_pos (utf8Len_pos named)]

theorem Filling.round_nothing (plain : Plain cs) :
    round values ⟨out, cs⟩ = some (.done (String.ofList (out ++ cs))) := by
  rw [round, find_plain plain]

theorem Filling.round_unclosed (plain : Plain before) (never : splitBrace after = none) :
    round values ⟨out, before ++ '%' :: '{' :: after⟩ =
      some (.done (String.ofList (out ++ (before ++ '%' :: '{' :: after)))) := by
  simp only [round, find_opening plain, from_opening, find_unclosed never, Option.bind_eq_bind, Option.bind_some]

theorem Filling.round_empty (plain : Plain before) :
    round values ⟨out, before ++ '%' :: '{' :: '}' :: rest⟩ =
      some (.more ⟨out ++ (before ++ ['%', '{', '}']), rest⟩) := by
  have closing : find? ['}'] ('}' :: rest) = some 0 := Text.find_here ascii_closing rest
  have behind : from? 1 ('}' :: rest) = some rest := from_closing [] rest
  have literal : before? (utf8Len before + 3) (before ++ '%' :: '{' :: '}' :: rest) =
      some (before ++ ['%', '{', '}']) := by
    rw [List.append_cons, List.append_cons, List.append_cons]
    rw [Text.before_append (by simp only [String.utf8Len_append]; rfl)]
    simp
  simp only [round, find_opening plain, from_opening, closing, behind, literal, Option.bind_eq_bind,
    Option.bind_some, Nat.lt_irrefl, if_false]

theorem utf8Len_written (name : List Char) : utf8Len (Segments.written name) = utf8Len name + 3 := by
  have opening : utf8Len ['%', '{'] = 2 := rfl
  have closing : utf8Len ['}'] = 1 := rfl
  have parts : Segments.written name = ['%', '{'] ++ (name ++ ['}']) := rfl
  rw [parts, String.utf8Len_append, String.utf8Len_append, opening, closing]
  omega

theorem between_braces (before name rest : List Char) :
    between? (utf8Len before) (utf8Len before + utf8Len name + 3) (before ++ '%' :: '{' :: (name ++ '}' :: rest)) =
      some (Segments.written name) := by
  rw [← Segments.written_append]
  apply Text.between_append rfl
  rw [String.utf8Len_append, utf8Len_written, Nat.add_assoc]

theorem Filling.round_reference (plain : Plain before) (named : name ≠ []) (closed : '}' ∉ name) :
    round values ⟨out, before ++ '%' :: '{' :: (name ++ '}' :: rest)⟩ =
      some (.more ⟨out ++ before ++ replacement values name, rest⟩) := by
  have cut : before? (utf8Len name) (name ++ '}' :: rest) = some name := Text.before_append rfl
  have literal : before? (utf8Len before) (before ++ '%' :: '{' :: (name ++ '}' :: rest)) = some before :=
    Text.before_append rfl
  simp only [round, find_opening plain, from_opening, find_closing closed, from_closing, cut, literal,
    between_braces, Option.bind_eq_bind, Option.bind_some, if_pos (utf8Len_pos named)]
  rw [replacement]
  cases values (String.ofList name) <;> rfl

end Rounds

section Loops

variable {after : List Char}

theorem referencesIn_unclosed (never : splitBrace after = none) : referencesIn ('%' :: '{' :: after) = [] := by
  rw [referencesIn]
  split <;> simp_all

theorem referencesIn_empty (rest : List Char) : referencesIn ('%' :: '{' :: '}' :: rest) = referencesIn rest := by
  have brace := Segments.splitBrace_empty rest
  rw [referencesIn]
  split <;> simp_all

theorem utf8Len_behind (before mark rest : List Char) (nonempty : mark ≠ []) :
    utf8Len rest < utf8Len (before ++ (mark ++ rest)) := by
  have := utf8Len_pos nonempty
  simp only [String.utf8Len_append]
  omega

theorem Listing.approaches :
    Approaches (utf8Len ·.rest) round fun s r => r = s.names ++ (referencesIn s.rest).map String.ofList := by
  rintro ⟨names, cs⟩ _ rfl
  cases meets cs with
  | nothing plain =>
      left
      rw [round_nothing plain, Segments.referencesIn_tail (plain.openings _), List.map_nil, List.append_nil]
  | @unclosed before after plain never =>
      left
      rw [round_unclosed plain never, Segments.referencesIn_literal (plain.openings _) (by simp),
        referencesIn_unclosed never, List.map_nil, List.append_nil]
  | @empty before rest plain =>
      right
      refine ⟨_, round_empty plain, utf8Len_behind before ['%', '{', '}'] rest (by simp), ?_⟩
      rw [Segments.referencesIn_literal (plain.openings _) (by simp), referencesIn_empty]
  | @reference before name rest plain named closed =>
      right
      refine ⟨_, round_reference plain named closed, ?_, ?_⟩
      · rw [← Segments.written_append]
        exact utf8Len_behind before _ rest (by simp [Segments.written])
      · rw [Segments.referencesIn_literal (plain.openings _) (by simp), ← Segments.written_append,
          Segments.written, referencesIn_reference named closed]
        simp

theorem Filling.approaches (values : String → Option String) :
    Approaches (utf8Len ·.rest) (round values) fun s r =>
      r = String.ofList (s.out ++ substituteIn values s.rest) := by
  rintro ⟨out, cs⟩ _ rfl
  cases meets cs with
  | nothing plain =>
      left
      rw [round_nothing plain, Segments.substituteIn_tail (plain.openings _)]
  | @unclosed before after plain never =>
      left
      rw [round_unclosed plain never, Segments.substituteIn_literal (plain.openings _) (by simp),
        substituteIn_unclosed never]
  | @empty before rest plain =>
      right
      refine ⟨_, round_empty plain, utf8Len_behind before ['%', '{', '}'] rest (by simp), ?_⟩
      rw [Segments.substituteIn_literal (plain.openings _) (by simp),
        substituteIn_empty (Segments.splitBrace_empty rest)]
      simp
  | @reference before name rest plain named closed =>
      right
      refine ⟨_, round_reference plain named closed, ?_, ?_⟩
      · rw [← Segments.written_append]
        exact utf8Len_behind before _ rest (by simp [Segments.written])
      · rw [Segments.substituteIn_literal (plain.openings _) (by simp),
          substituteIn_reference named (splitBrace_name closed rest)]
        simp

theorem loop_listing (text : String) :
    loop (utf8Len ·.rest) Listing.round ⟨[], text.toList⟩ = some (references text) :=
  Listing.approaches.loop rfl

theorem loop_filling (values : String → Option String) (text : String) :
    loop (utf8Len ·.rest) (Filling.round values) ⟨[], text.toList⟩ = some (substitute values text) :=
  (Filling.approaches values).loop rfl

end Loops

end SlideDeck.Formula
