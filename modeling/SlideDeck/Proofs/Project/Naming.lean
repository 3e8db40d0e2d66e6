import Mathlib
import SlideDeck.Project.Name

/-!
Which names are identifiers, and what the list of naming problems holds.
-/

namespace SlideDeck

def single (allowed : Char → Prop) : Language Char := {w | ∃ c, w = [c] ∧ allowed c}

def Letter (c : Char) : Prop := 'a' ≤ c ∧ c ≤ 'z' ∨ 'A' ≤ c ∧ c ≤ 'Z'

/-- The language of `[a-zA-Z_][a-zA-Z0-9_]*`. -/
def identifiers : Language Char :=
  single (fun c => Letter c ∨ c = '_') *
    KStar.kstar (single fun c => Letter c ∨ '0' ≤ c ∧ c ≤ '9' ∨ c = '_')

def Identifier (name : String) : Prop := name.toList ∈ identifiers

section Characters

variable {c : Char}

theorem isAlpha_iff : c.isAlpha = true ↔ Letter c := by
  simp only [Char.isAlpha, Char.isUpper, Char.isLower, Letter, Bool.or_eq_true, Bool.and_eq_true,
    decide_eq_true_eq, Char.le_def]
  exact or_comm

theorem isNameStart_iff : isNameStart c = true ↔ Letter c ∨ c = '_' := by
  simp [isNameStart, isAlpha_iff]

theorem isNameChar_iff : isNameChar c = true ↔ Letter c ∨ '0' ≤ c ∧ c ≤ '9' ∨ c = '_' := by
  simp [isNameChar, Char.isAlphanum, isAlpha_iff, Char.isDigit, Char.le_def, or_assoc]

theorem not_brace_of_isNameChar (named : isNameChar c = true) : c ≠ '}' := by
  rintro rfl
  revert named
  decide

theorem isNameChar_of_isNameStart (start : isNameStart c = true) : isNameChar c = true := by
  rw [isNameStart_iff] at start
  rw [isNameChar_iff]
  exact start.imp_right Or.inr

end Characters

theorem mem_kstar_single {allowed : Char → Prop} {w : List Char} :
    w ∈ KStar.kstar (single allowed) ↔ ∀ c ∈ w, allowed c := by
  rw [Language.mem_kstar]
  constructor
  · rintro ⟨parts, rfl, each⟩ c member
    obtain ⟨part, inside, here⟩ := List.mem_flatten.mp member
    obtain ⟨d, rfl, allowed⟩ := each part inside
    rwa [List.mem_singleton.mp here]
  · intro all
    refine ⟨w.map fun c => [c], by simp [← List.flatMap_def], fun part inside => ?_⟩
    obtain ⟨c, member, rfl⟩ := List.mem_map.mp inside
    exact ⟨c, rfl, all c member⟩

theorem isIdentifier_iff {name : String} : isIdentifier name = true ↔ Identifier name := by
  unfold isIdentifier Identifier identifiers
  rw [Language.mem_mul]
  constructor
  · intro named
    split at named
    · cases named
    · rename_i c rest shape
      rw [Bool.and_eq_true, List.all_eq_true] at named
      rw [shape]
      refine ⟨[c], ⟨c, rfl, isNameStart_iff.mp named.1⟩, rest, mem_kstar_single.mpr ?_, rfl⟩
      exact fun d member => isNameChar_iff.mp (named.2 d member)
  · rintro ⟨_, ⟨c, rfl, start⟩, rest, others, shape⟩
    rw [← shape, List.singleton_append]
    simp only [Bool.and_eq_true, List.all_eq_true]
    exact ⟨isNameStart_iff.mpr start, fun d member => isNameChar_iff.mpr (mem_kstar_single.mp others d member)⟩

instance (name : String) : Decidable (Identifier name) := decidable_of_iff _ isIdentifier_iff

theorem Identifier.enclosed {name : String} (named : Identifier name) :
    name.toList ≠ [] ∧ '}' ∉ name.toList := by
  have spelled := isIdentifier_iff.mpr named
  unfold isIdentifier at spelled
  split at spelled
  · cases spelled
  · rename_i c rest shape
    rw [Bool.and_eq_true, List.all_eq_true] at spelled
    rw [shape]
    refine ⟨List.cons_ne_nil c rest, fun brace => ?_⟩
    rcases List.mem_cons.mp brace with here | later
    · exact not_brace_of_isNameChar (isNameChar_of_isNameStart spelled.1) here.symm
    · exact not_brace_of_isNameChar (spelled.2 _ later) rfl

section Problems

/-- What is wrong with a name that stands behind these. -/
theorem nameProblems_eq (seen : List String) (name : String) :
    nameProblems seen name =
      (if Identifier name then [] else [.invalid name]) ++
        (if name ∈ seen then [.duplicate name] else []) := by
  simp only [nameProblems, isIdentifier_iff, List.contains_iff_mem]

theorem nameProblems_congr {seen seen' : List String} (same : ∀ n, n ∈ seen ↔ n ∈ seen') (name : String) :
    nameProblems seen name = nameProblems seen' name := by
  rw [nameProblems_eq, nameProblems_eq]
  simp only [same]

theorem problemsAfter_eq (before seen names : List String) (same : ∀ n, n ∈ seen ↔ n ∈ before) :
    problemsAfter seen names = (names.zipIdx before.length).flatMap fun e =>
      nameProblems ((before ++ names).take e.2) e.1 := by
  induction names generalizing before seen with
  | nil => rfl
  | cons name rest ih =>
      have later : ∀ n, n ∈ name :: seen ↔ n ∈ before ++ [name] := by
        intro n
        simp [same, or_comm]
      rw [problemsAfter, ih (before ++ [name]) _ later, List.zipIdx_cons, List.flatMap_cons,
        List.take_left, nameProblems_congr same, List.length_append, List.length_singleton,
        List.append_assoc, List.singleton_append]

theorem Project.problems_eq (p : Project) :
    p.problems = p.values.zipIdx.flatMap fun e =>
      nameProblems ((p.values.take e.2).map (·.name)) e.1.name := by
  have listed := problemsAfter_eq [] [] (p.values.map (·.name)) fun n => Iff.rfl
  rw [problems, listed, List.nil_append, List.length_nil, List.zipIdx_map, List.flatMap_map]
  simp only [Prod.map, id, List.map_take]

theorem problemsAfter_eq_nil_iff (seen names : List String) :
    problemsAfter seen names = [] ↔
      (∀ n ∈ names, Identifier n) ∧ names.Nodup ∧ ∀ n ∈ names, n ∉ seen := by
  induction names generalizing seen with
  | nil => simp [problemsAfter]
  | cons name rest ih =>
      have here : nameProblems seen name = [] ↔ Identifier name ∧ name ∉ seen := by
        rw [nameProblems_eq]
        simp
      have fresh : (∀ n ∈ rest, n ∉ name :: seen) ↔ name ∉ rest ∧ ∀ n ∈ rest, n ∉ seen := by
        simp only [List.mem_cons, not_or, forall_and]
        exact and_congr_left fun _ => ⟨fun differs again => differs name again rfl,
          fun absent n member same => absent (same ▸ member)⟩
      rw [problemsAfter, List.append_eq_nil_iff, here, ih, fresh, List.forall_mem_cons, List.nodup_cons,
        List.forall_mem_cons]
      tauto

/-- Nothing is wrong with the names of a project exactly if they are identifiers and distinct. -/
theorem Project.problems_eq_nil_iff (p : Project) :
    p.problems = [] ↔ (∀ v ∈ p.values, Identifier v.name) ∧ (p.values.map (·.name)).Nodup := by
  rw [problems, problemsAfter_eq_nil_iff]
  simp

theorem Project.problem?_eq_none_iff (p : Project) :
    p.problem? = none ↔ (∀ v ∈ p.values, Identifier v.name) ∧ (p.values.map (·.name)).Nodup := by
  rw [problem?, List.head?_eq_none_iff, problems_eq_nil_iff]

end Problems

end SlideDeck
