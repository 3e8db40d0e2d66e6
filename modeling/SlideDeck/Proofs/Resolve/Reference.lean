import Mathlib
import SlideDeck.Proofs.Project.Naming
import SlideDeck.Proofs.Resolve.Circularity
import SlideDeck.Proofs.Resolve.Substitution

/-!
A reference that stands alone in a formula text. In a project without naming problems every value can be
referenced by its name, and the text that references it has the value, or the very error, that the value
itself resolves to.
-/

namespace SlideDeck

def Formula.referenceTo (name : String) : String := "%\x7b" ++ name ++ "\x7d"

namespace Resolver

open Formula (Phrase Symbol Written referenceTo)

variable {r : Resolver} {page : Nat} {name : String} {v : NamedValue}

theorem toList_referenceTo (name : String) :
    (referenceTo name).toList = '%' :: '{' :: name.toList ++ ['}'] := by
  have opening : "%\x7b".toList = ['%', '{'] := rfl
  have closing : "\x7d".toList = ['}'] := rfl
  rw [referenceTo, String.toList_append, String.toList_append, opening, closing]
  rfl

theorem uniqueReferences_referenceTo (named : Identifier name) :
    Formula.uniqueReferences (referenceTo name) = [name] := by
  have read := Formula.referencesIn_reference named.enclosed.1 named.enclosed.2 []
  rw [List.append_nil, ← toList_referenceTo, Formula.referencesIn] at read
  rw [Formula.uniqueReferences, Formula.references, read, List.map_singleton, String.ofList_toList]
  rfl

/-- The error of a value comes up unchanged from the text that references it: either the cycle search finds
the chain that the value's own search finds, or the value is resolved and has failed. -/
theorem evaluate_referenceTo_error (named : Identifier name) (found : r.project.lookup name = some v)
    {e : Formula.Error} (failed : r.resolve v page = .error e) :
    r.evaluate (referenceTo name) page = .error e := by
  have kind := kind_of_error failed
  rw [evaluate_eq, evaluateText, uniqueReferences_referenceTo named, texts, found]
  simp only [if_pos kind]
  cases cycle : (r.formulas page).cycleFrom name with
  | none => simp only [failed]
  | some chain =>
      rw [← (Project.lookup_name found).2] at cycle
      rw [resolve_eq, resolveStep, kind] at failed
      simp only [cycle] at failed
      cases failed
      rfl

theorem evaluate_referenceTo_number (named : Identifier name) (found : r.project.lookup name = some v)
    {y : Float} (number : r.resolve v page = .number y) :
    r.evaluate (referenceTo name) page = .ok (Formula.settled y) := by
  have written : Written (referenceTo name).toList [.reference name] := by
    have quiet : Formula.Quiet [] := by simp [Formula.Quiet]
    have apart : Formula.Apart [] := by simp [Formula.Apart]
    have alone := written_reference named.enclosed.1 named.enclosed.2 quiet apart .done
    rwa [List.append_nil, ← toList_referenceTo] at alone
  have numbers : r.Numbers page (fun _ => y) (Formula.references (referenceTo name)) := by
    intro n reference
    obtain rfl : n = name := by simpa using written.mem_references.mp reference
    exact ⟨v, found, number⟩
  have finite : (Formula.settled y).isFinite = true := by
    unfold Formula.settled
    split
    · rfl
    · exact isFinite_of_resolve number
  have leaf : Phrase .expr 256 [.number (Formula.settled y)] (Formula.settled y) :=
    .term (.factor (.unsigned .number))
  exact (evaluate_iff_spelled written numbers).mpr ⟨leaf.spell rfl, finite⟩

theorem resolve_ne_text (kind : v.kind ≠ .string) (s : String) : r.resolve v page ≠ .text s := by
  rw [resolve_eq, resolveStep]
  split
  · simp
  · contradiction
  · split
    · simp
    · split <;> simp

/-- The naming problems are, value by value in id order, a name that is no identifier and then a name that
an earlier value has; so there are none exactly if the names are identifiers and distinct. Then every value
is found under its name and referenced by it, and a text that is this reference alone evaluates to the
number that the value resolves to, negative zero read as zero, or to its error. -/
theorem valid_reachable (p : Project) :
    let r := Resolver.ofProject p
    p.problems = (p.values.zipIdx.flatMap fun e =>
      (if Identifier e.1.name then [] else [.invalid e.1.name]) ++
        (if e.1.name ∈ (p.values.take e.2).map (·.name) then [.duplicate e.1.name] else [])) ∧
    (p.problem? = none ↔ (∀ v ∈ p.values, Identifier v.name) ∧ (p.values.map (·.name)).Nodup) ∧
    (p.problem? = none → ∀ v ∈ p.values,
      p.lookup v.name = some v ∧ Formula.uniqueReferences (referenceTo v.name) = [v.name] ∧
      (v.kind ≠ .string → ∀ page,
        (∃ y, r.resolve v page = .number y ∧
          r.evaluate (referenceTo v.name) page = .ok (Formula.settled y)) ∨
        ∃ e, r.resolve v page = .error e ∧ r.evaluate (referenceTo v.name) page = .error e)) := by
  intro r
  refine ⟨?_, p.problem?_eq_none_iff, fun valid v member => ?_⟩
  · simp only [p.problems_eq, nameProblems_eq]
  · obtain ⟨identifiers, distinct⟩ := p.problem?_eq_none_iff.mp valid
    have named := identifiers v member
    have found := Project.lookup_of_nodup distinct member
    refine ⟨found, uniqueReferences_referenceTo named, fun kind page => ?_⟩
    cases outcome : r.resolve v page with
    | number y => exact Or.inl ⟨y, rfl, evaluate_referenceTo_number named found outcome⟩
    | text s => exact absurd outcome (resolve_ne_text kind s)
    | error e => exact Or.inr ⟨e, rfl, evaluate_referenceTo_error named found outcome⟩

/-- A negative number, a formula over it, and two formulas that read each other. -/
theorem valid_reachable_of_mutual :
    let debt := NamedValue.formula "debt" "-%{rate} * 2"
    let left := NamedValue.formula "left" "%{right}"
    let p := Project.ofValues [debt, left,
      { id := "rate", name := "rate", kind := .number, initial := .text "2.5" },
      .formula "right" "%{left}"]
    let r := Resolver.ofProject p
    p.problem? = none ∧ debt ∈ p.values ∧ left ∈ p.values ∧
      r.evaluate (referenceTo "debt") 0 = .ok (-5) ∧
      ∃ e, r.evaluate (referenceTo "left") 0 = .error e ∧
        e.message = "circular reference: left -> right -> left" := by
  intro debt left p r
  have valid : p.problem? = none := by decide +kernel
  have first : debt ∈ p.values := by rw [Project.values_ofValues]; simp
  have second : left ∈ p.values := by rw [Project.values_ofValues]; simp
  have amount : (r.resolve debt 0).asNumber = some (-5) := by decide +kernel
  have reason : (r.resolve left 0).error?.map Formula.Error.message =
      some "circular reference: left -> right -> left" := by decide +kernel
  have laws := (valid_reachable p).2.2 valid
  refine ⟨valid, first, second, ?_, ?_⟩
  · rcases (laws debt first).2.2 (by decide) 0 with ⟨y, number, value⟩ | ⟨e, failed, -⟩
    · rw [number] at amount
      obtain rfl : y = -5 := Option.some.inj amount
      exact value
    · rw [failed] at amount
      cases amount
  · rcases (laws left second).2.2 (by decide) 0 with ⟨y, number, -⟩ | ⟨e, failed, value⟩
    · rw [number] at reason
      cases reason
    · rw [failed] at reason
      exact ⟨e, value, Option.some.inj reason⟩

end Resolver

end SlideDeck
