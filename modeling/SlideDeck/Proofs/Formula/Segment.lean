import Mathlib
import SlideDeck.Proofs.Formula.Template

/-!
A formula text has one reading as literal text and references. Listing the references and putting values in
their place both follow it.
-/

namespace SlideDeck.Formula

/-- A text cut at its references: each name with the literal text before it, and what is left behind the
last one. -/
structure Segments where
  holes : List (List Char × List Char)
  tail : List Char

namespace Segments

def fill (shown : List Char → List Char) (s : Segments) : List Char :=
  (s.holes.flatMap fun hole => hole.1 ++ shown hole.2) ++ s.tail

def written (name : List Char) : List Char := '%' :: '{' :: name ++ ['}']

def names (s : Segments) : List String := s.holes.map fun hole => String.ofList hole.2

def Openings (fine : List Char → Prop) (cs : List Char) : Prop :=
  ∀ before after, cs = before ++ '%' :: '{' :: after → fine after

def ClosedAtOnce (after : List Char) : Prop := after.head? = some '}'

/-- Braces that open before `after` name nothing: they are closed at once, or never. -/
def Nameless (after : List Char) : Prop := ClosedAtOnce after ∨ '}' ∉ after

/-- The reading of a text from the left: braces closed at once are passed over, the first other ones that
are closed are a reference, and braces that are never closed end the search. -/
structure Reads (s : Segments) (cs : List Char) : Prop where
  whole : s.fill written = cs
  named : ∀ hole ∈ s.holes, hole.2 ≠ [] ∧ '}' ∉ hole.2
  skipped : ∀ hole ∈ s.holes, Openings ClosedAtOnce hole.1
  stopped : Openings Nameless s.tail

variable {c : Char} {cs before after name literal tail : List Char} {fine : List Char → Prop}
  {holes : List (List Char × List Char)} {s : Segments}

theorem fill_cons (shown : List Char → List Char) :
    fill shown ⟨(literal, name) :: holes, tail⟩ = literal ++ (shown name ++ fill shown ⟨holes, tail⟩) := by
  simp [fill]

section Openings

theorem openings_nil : Openings fine [] := by
  intro before after shape
  simp at shape

theorem Openings.suffix (before : List Char) (openings : Openings fine (before ++ cs)) :
    Openings fine cs := by
  rintro front after rfl
  exact openings (before ++ front) after (by rw [List.append_assoc])

theorem Openings.cons (openings : Openings fine cs) (here : ∀ after, c = '%' → cs = '{' :: after → fine after) :
    Openings fine (c :: cs) := by
  intro before after shape
  match before with
  | [] =>
      obtain ⟨rfl, rfl⟩ := List.cons.inj shape
      exact here after rfl rfl
  | _ :: before => exact openings before after (List.cons.inj shape).2

theorem Openings.empty (openings : Openings fine cs) (here : fine ('}' :: cs)) :
    Openings fine ('%' :: '{' :: '}' :: cs) := by
  have inside : Openings fine ('{' :: '}' :: cs) :=
    (openings.cons (c := '}') (by simp)).cons (by simp)
  refine inside.cons fun after _ shape => ?_
  obtain ⟨-, rfl⟩ := List.cons.inj shape
  exact here

/-- What takes literal text character by character, and passes over empty braces, takes literal text
whole. -/
theorem Openings.foldr {β : Type} (g : List Char → β) (keep : Char → β → β)
    (empty : ∀ cs, g ('%' :: '{' :: '}' :: cs) = keep '%' (keep '{' (keep '}' (g cs))))
    (other : ∀ c cs, (∀ after, c = '%' → cs = '{' :: after → False) → g (c :: cs) = keep c (g cs))
    (skipped : Openings ClosedAtOnce literal) (apart : cs.head? ≠ some '{') :
    g (literal ++ cs) = literal.foldr keep (g cs) := by
  induction bound : literal.length using Nat.strongRecOn generalizing literal with
  | _ n ih =>
      match literal, bound with
      | [], _ => rfl
      | c :: rest, bound =>
          rw [List.length_cons] at bound
          by_cases opens : c = '%' ∧ rest.head? = some '{'
          · obtain ⟨rfl, first⟩ := opens
            obtain ⟨after, rfl⟩ := List.head?_eq_some_iff.mp first
            obtain ⟨behind, rfl⟩ := List.head?_eq_some_iff.mp (skipped [] after rfl)
            have shorter : behind.length < n := by simp at bound; omega
            have later : Openings ClosedAtOnce behind := skipped.suffix ['%', '{', '}']
            rw [List.cons_append, List.cons_append, List.cons_append, empty, ih _ shorter later rfl]
            rfl
          · rw [List.cons_append, other, ih rest.length (by omega) (skipped.suffix [c]) rfl]
            · rfl
            · rintro after rfl shape
              have first : (rest ++ cs).head? = some '{' := by rw [shape]; rfl
              cases rest with
              | nil => exact apart first
              | cons d rest => exact opens ⟨rfl, first⟩

end Openings

section Scanning

variable {values : String → Option String} {rest : List Char}

theorem splitBrace_empty (cs : List Char) : splitBrace ('}' :: cs) = some ([], cs) := rfl

theorem splitBrace_eq_none (brace : splitBrace cs = none) : '}' ∉ cs := by
  unfold splitBrace at brace
  split at brace
  · rename_i none
    rw [List.dropWhile_eq_nil_iff] at none
    intro member
    simpa using none '}' member
  · cases brace

/-- The first brace that closes ends the name. -/
theorem splitBrace_eq_some (brace : splitBrace cs = some (name, rest)) :
    '}' ∉ name ∧ cs = name ++ '}' :: rest := by
  unfold splitBrace at brace
  split at brace
  · cases brace
  · rename_i c rest closing
    cases brace
    have stop := List.head_dropWhile_not (p := (· != '}')) (l := cs) (by simp [closing])
    simp only [closing, List.head_cons, bne_eq_false_iff_eq] at stop
    subst stop
    refine ⟨fun member => ?_, ?_⟩
    · simpa using List.mem_takeWhile_imp member
    · rw [← closing, List.takeWhile_append_dropWhile]

theorem referencesIn_literal (skipped : Openings ClosedAtOnce literal) (apart : cs.head? ≠ some '{') :
    referencesIn (literal ++ cs) = referencesIn cs := by
  have empty (cs : List Char) : referencesIn ('%' :: '{' :: '}' :: cs) = referencesIn cs := by
    have brace := splitBrace_empty cs
    rw [referencesIn]
    split <;> simp_all
  have other (c : Char) (cs : List Char) (plain : ∀ after, c = '%' → cs = '{' :: after → False) :
      referencesIn (c :: cs) = referencesIn cs := by
    rw [referencesIn]
    exact plain
  rw [skipped.foldr referencesIn (fun _ names => names) empty other apart]
  exact List.foldr_fixed _

theorem substituteIn_literal (skipped : Openings ClosedAtOnce literal) (apart : cs.head? ≠ some '{') :
    substituteIn values (literal ++ cs) = literal ++ substituteIn values cs := by
  have empty (cs : List Char) :
      substituteIn values ('%' :: '{' :: '}' :: cs) = '%' :: '{' :: '}' :: substituteIn values cs :=
    substituteIn_empty (splitBrace_empty cs)
  have other (c : Char) (cs : List Char) (plain : ∀ after, c = '%' → cs = '{' :: after → False) :
      substituteIn values (c :: cs) = c :: substituteIn values cs := by
    rw [substituteIn]
    exact plain
  rw [skipped.foldr (substituteIn values) List.cons empty other apart]
  exact List.foldr_cons_eq_append'

theorem not_reference_of_stopped
    (stopped : Openings Nameless ('%' :: '{' :: after))
    (named : name ≠ []) (brace : splitBrace after = some (name, rest)) : False := by
  obtain ⟨closed, rfl⟩ := splitBrace_eq_some brace
  obtain ⟨c, name, rfl⟩ := List.exists_cons_of_ne_nil named
  rcases stopped [] _ rfl with atOnce | never
  · obtain rfl := Option.some.inj atOnce
    exact closed List.mem_cons_self
  · exact never (by simp)

theorem splitBrace_eq_some_nil (brace : splitBrace cs = some ([], rest)) : cs = '}' :: rest :=
  (splitBrace_eq_some brace).2

theorem referencesIn_tail
    (stopped : Openings Nameless tail) :
    referencesIn tail = [] := by
  fun_induction referencesIn tail with
  | case1 => rfl
  | case2 => rfl
  | case3 after rest brace _ ih =>
      obtain rfl := splitBrace_eq_some_nil brace
      exact ih (stopped.suffix ['%', '{', '}'])
  | case4 after name rest named brace _ ih => exact (not_reference_of_stopped stopped named brace).elim
  | case5 c rest other ih => exact ih (stopped.suffix [c])

theorem substituteIn_tail
    (stopped : Openings Nameless tail) :
    substituteIn values tail = tail := by
  fun_induction substituteIn values tail with
  | case1 => rfl
  | case2 => rfl
  | case3 after rest brace _ ih =>
      obtain rfl := splitBrace_eq_some_nil brace
      rw [ih (stopped.suffix ['%', '{', '}'])]
  | case4 after name rest named brace _ value found ih =>
      exact (not_reference_of_stopped stopped named brace).elim
  | case5 after name rest named brace _ found ih =>
      exact (not_reference_of_stopped stopped named brace).elim
  | case6 c rest other ih => rw [ih (stopped.suffix [c])]

end Scanning

section Reading

theorem written_append (name cs : List Char) :
    written name ++ cs = '%' :: '{' :: (name ++ '}' :: cs) := by
  simp [written]

theorem Reads.behind (reads : Reads ⟨(literal, name) :: holes, tail⟩ cs) :
    Reads ⟨holes, tail⟩ (fill written ⟨holes, tail⟩) where
  whole := rfl
  named := fun hole member => reads.named hole (List.mem_cons_of_mem _ member)
  skipped := fun hole member => reads.skipped hole (List.mem_cons_of_mem _ member)
  stopped := reads.stopped

theorem Reads.references (reads : Reads s cs) : referencesIn cs = s.holes.map Prod.snd := by
  obtain ⟨holes, tail⟩ := s
  induction holes generalizing cs with
  | nil => rw [← reads.whole]; exact referencesIn_tail reads.stopped
  | cons hole holes ih =>
      obtain ⟨literal, name⟩ := hole
      obtain ⟨named, closed⟩ := reads.named _ List.mem_cons_self
      rw [← reads.whole, fill_cons,
        referencesIn_literal (reads.skipped _ List.mem_cons_self) (by simp [written]),
        written, referencesIn_reference named closed, ih reads.behind]
      rfl

theorem Reads.substitute {values : String → Option String} (reads : Reads s cs) :
    substituteIn values cs = s.fill (replacement values) := by
  obtain ⟨holes, tail⟩ := s
  induction holes generalizing cs with
  | nil => rw [← reads.whole]; exact substituteIn_tail reads.stopped
  | cons hole holes ih =>
      obtain ⟨literal, name⟩ := hole
      obtain ⟨named, closed⟩ := reads.named _ List.mem_cons_self
      rw [← reads.whole, fill_cons, fill_cons,
        substituteIn_literal (reads.skipped _ List.mem_cons_self) (by simp [written]),
        written_append, substituteIn_reference named (splitBrace_name closed _), ih reads.behind]

theorem stopped_or_reference (cs : List Char) :
    Openings Nameless cs ∨
      ∃ literal name rest, cs = literal ++ (written name ++ rest) ∧ Openings ClosedAtOnce literal ∧
        name ≠ [] ∧ '}' ∉ name := by
  fun_induction referencesIn cs with
  | case1 => exact .inl openings_nil
  | case2 after brace =>
      have never := splitBrace_eq_none brace
      refine .inl fun before behind shape => .inr fun member => never ?_
      have inside : '}' ∈ '%' :: '{' :: after := by rw [shape]; simp [member]
      simpa using inside
  | case3 after rest brace _ ih =>
      obtain rfl := splitBrace_eq_some_nil brace
      rcases ih with stopped | ⟨literal, name, behind, rfl, skipped, named, closed⟩
      · exact .inl (stopped.empty (.inl rfl))
      · exact .inr ⟨'%' :: '{' :: '}' :: literal, name, behind, rfl, skipped.empty rfl, named, closed⟩
  | case4 after name rest named brace _ ih =>
      obtain ⟨closed, rfl⟩ := splitBrace_eq_some brace
      exact .inr ⟨[], name, rest, (written_append name rest).symm, openings_nil, named, closed⟩
  | case5 c rest other ih =>
      rcases ih with stopped | ⟨literal, name, behind, rfl, skipped, named, closed⟩
      · exact .inl (stopped.cons fun after percent shape => (other after percent shape).elim)
      · refine .inr ⟨c :: literal, name, behind, rfl, skipped.cons ?_, named, closed⟩
        rintro after percent rfl
        exact (other _ percent rfl).elim

theorem exists_reads (cs : List Char) : ∃ s, Reads s cs := by
  induction bound : cs.length using Nat.strongRecOn generalizing cs with
  | _ n ih =>
      rcases stopped_or_reference cs with stopped | ⟨literal, name, rest, rfl, skipped, named, closed⟩
      · exact ⟨⟨[], cs⟩, rfl, by simp, by simp, stopped⟩
      · have shorter : rest.length < n := by
          rw [← bound, List.length_append, List.length_append, written]
          simp
          omega
        obtain ⟨s, reads⟩ := ih _ shorter rest rfl
        refine ⟨⟨(literal, name) :: s.holes, s.tail⟩, ?_, ?_, ?_, reads.stopped⟩
        · rw [fill_cons, reads.whole]
        · exact List.forall_mem_cons.mpr ⟨⟨named, closed⟩, reads.named⟩
        · exact List.forall_mem_cons.mpr ⟨skipped, reads.skipped⟩

/-- Literal text before a reference cannot go on into it. -/
theorem eq_nil_of_skipped {more rest : List Char} (skipped : Openings ClosedAtOnce (before ++ more))
    (named : name ≠ []) (closed : '}' ∉ name) (apart : cs.head? ≠ some '{')
    (shape : more ++ cs = written name ++ rest) : more = [] := by
  rw [written_append] at shape
  match more with
  | [] => rfl
  | [c] =>
      obtain ⟨-, rfl⟩ := List.cons.inj shape
      exact absurd rfl apart
  | c :: d :: more =>
      obtain ⟨rfl, inner⟩ := List.cons.inj shape
      obtain ⟨rfl, inside⟩ := List.cons.inj inner
      obtain ⟨more, rfl⟩ := List.head?_eq_some_iff.mp (skipped before more rfl)
      obtain ⟨c, name, rfl⟩ := List.exists_cons_of_ne_nil named
      obtain ⟨rfl, -⟩ := List.cons.inj inside
      exact absurd List.mem_cons_self closed

theorem reference_unique {literal' name' rest rest' : List Char}
    (skipped : Openings ClosedAtOnce literal) (skipped' : Openings ClosedAtOnce literal')
    (named : name ≠ [] ∧ '}' ∉ name) (named' : name' ≠ [] ∧ '}' ∉ name')
    (same : literal ++ (written name ++ rest) = literal' ++ (written name' ++ rest')) :
    literal = literal' ∧ name = name' ∧ rest = rest' := by
  have literals : literal = literal' := by
    rcases List.append_eq_append_iff.mp same with ⟨more, rfl, shape⟩ | ⟨more, rfl, shape⟩
    · rw [eq_nil_of_skipped skipped' named.1 named.2 (by simp [written]) shape.symm, List.append_nil]
    · rw [eq_nil_of_skipped skipped named'.1 named'.2 (by simp [written]) shape.symm, List.append_nil]
  rw [literals, List.append_cancel_left_eq, written_append, written_append] at same
  have braces := splitBrace_name named.2 rest
  rw [(List.cons.inj (List.cons.inj same).2).2, splitBrace_name named'.2 rest'] at braces
  obtain ⟨rfl, rfl⟩ := Prod.mk.inj (Option.some.inj braces)
  exact ⟨literals, rfl, rfl⟩

theorem not_stopped_of_reference (named : name ≠ [] ∧ '}' ∉ name) :
    ¬ Openings Nameless (literal ++ (written name ++ cs)) := by
  intro stopped
  have here := stopped.suffix literal
  rw [written_append] at here
  exact not_reference_of_stopped here named.1 (splitBrace_name named.2 cs)

theorem Reads.unique {s' : Segments} (reads : Reads s cs) (reads' : Reads s' cs) : s' = s := by
  obtain ⟨holes, tail⟩ := s
  obtain ⟨holes', tail'⟩ := s'
  have same := reads'.whole.trans reads.whole.symm
  induction holes generalizing holes' cs with
  | nil =>
      cases holes' with
      | nil =>
          obtain rfl : tail' = tail := same
          rfl
      | cons hole' holes' =>
          have stopped : Openings _ tail := reads.stopped
          rw [fill_cons] at same
          rw [show tail = fill written ⟨[], tail⟩ from rfl, ← same] at stopped
          exact absurd stopped (not_stopped_of_reference (reads'.named _ List.mem_cons_self))
  | cons hole holes ih =>
      cases holes' with
      | nil =>
          have stopped : Openings _ tail' := reads'.stopped
          rw [fill_cons] at same
          rw [show tail' = fill written ⟨[], tail'⟩ from rfl, same] at stopped
          exact absurd stopped (not_stopped_of_reference (reads.named _ List.mem_cons_self))
      | cons hole' holes' =>
          rw [fill_cons, fill_cons] at same
          obtain ⟨literals, names, rests⟩ := reference_unique
            (reads'.skipped _ List.mem_cons_self) (reads.skipped _ List.mem_cons_self)
            (reads'.named _ List.mem_cons_self) (reads.named _ List.mem_cons_self) same
          have behind := reads'.behind
          rw [rests] at behind
          cases ih reads.behind holes' behind rests
          rw [Prod.ext literals names]

end Reading

/-- Every text has exactly one reading, and by it the references are listed, in order and with repeats,
the distinct ones are those without later repeats, and substitution puts a text in place of each reference
that has one and leaves all else. -/
theorem text_has_one_reading (text : String) :
    ∃ s : Segments, (Reads s text.toList ∧ ∀ s', Reads s' text.toList → s' = s) ∧
      references text = s.names ∧ uniqueReferences text = s.names.eraseDups ∧
      (∀ values, (substitute values text).toList = s.fill (replacement values)) ∧
      substitute (fun _ => none) text = text := by
  obtain ⟨s, reads⟩ := exists_reads text.toList
  have listed : references text = s.names := by
    rw [references, reads.references, List.map_map]
    rfl
  have filled (values : String → Option String) :
      (substitute values text).toList = s.fill (replacement values) := by
    rw [substitute, String.toList_ofList, reads.substitute]
  refine ⟨s, ⟨reads, fun s' => reads.unique⟩, listed, ?_, filled, ?_⟩
  · rw [uniqueReferences, distinct_eq_eraseDups, listed]
  · rw [← String.toList_inj, filled, ← reads.whole]
    rfl

/-- What is put in is not read again, even where it is a reference itself. -/
example : substitute (fun n => if n = "a" then some "%{b}" else some "2") "%{a}%{} + %{b}" =
    "%{b}%{} + 2" := by decide +kernel

end Segments

end SlideDeck.Formula
