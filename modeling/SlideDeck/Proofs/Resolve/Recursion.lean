import Mathlib
import SlideDeck.Proofs.Formula.Cycle
import SlideDeck.Proofs.Formula.Dependency
import SlideDeck.Proofs.Formula.Reference
import SlideDeck.Resolve.Resolver

/-!
The recursion of the evaluator as an equation without fuel. Going from a formula to one it reads
leaves fewer names to reach, as long as no cycle can be reached; so the fuel never runs out.
-/

namespace SlideDeck

def NamedValue.formula (name text : String) : NamedValue :=
  { id := name, name, kind := .formula, initial := .text text }

def Project.ofValues (values : List NamedValue) : Project :=
  { assets := values.map fun v => (v.id, .value v) }

theorem Project.values_ofValues (values : List NamedValue) : (ofValues values).values = values := by
  unfold ofValues Project.values
  rw [List.filterMap_map]
  exact List.filterMap_some

theorem Project.lookup_name {p : Project} {name : String} {v : NamedValue}
    (found : p.lookup name = some v) : v ∈ p.values ∧ v.name = name :=
  ⟨List.mem_of_find?_eq_some found, by simpa using List.find?_some found⟩

namespace Resolver

open Relation (ReflTransGen TransGen)
open Formula (ReachesCycle ClosedChain)

/-- Some formula value named `a` references `b` in its text on a page. -/
def Reads (r : Resolver) (page : Nat) (a b : String) : Prop :=
  ∃ v ∈ r.project.values, v.kind = .formula ∧ v.name = a ∧
    b ∈ Formula.references (r.raw v page).toText

variable {r : Resolver} {page : Nat}

theorem dependencies_reads (r : Resolver) (page : Nat) :
    (r.dependencies page).Reads = r.Reads page := by
  funext a b
  apply propext
  rw [Formula.Dependencies.Reads, dependencies, Formula.Dependencies.mem_successors_foldl_add]
  simp only [formulaTexts, List.mem_map, List.mem_filter, decide_eq_true_eq,
    Formula.mem_uniqueReferences, Reads]
  constructor
  · rintro (nothing | ⟨_, ⟨v, ⟨member, kind⟩, rfl⟩, name, reference⟩)
    · simp [Formula.Dependencies.empty, Formula.Dependencies.successors] at nothing
    · exact ⟨v, member, kind, name, reference⟩
  · rintro ⟨v, member, kind, name, reference⟩
    exact Or.inr ⟨_, ⟨v, ⟨member, kind⟩, rfl⟩, name, reference⟩

theorem cycleFrom_eq_none_iff {name : String} :
    (r.formulas page).cycleFrom name = none ↔ ¬ ReachesCycle (r.Reads page) name := by
  rw [← dependencies_reads]
  exact Formula.Dependencies.findCycle_eq_none_iff

theorem cycleFrom_sound {name : String} {chain : List String}
    (found : (r.formulas page).cycleFrom name = some chain) :
    ClosedChain (r.Reads page) chain ∧
      ∃ c, chain.head? = some c ∧ ReflTransGen (r.Reads page) name c := by
  rw [← dependencies_reads]
  exact Formula.Dependencies.findCycle_sound found

theorem reads_of_reference {v : NamedValue} {name : String} (member : v ∈ r.project.values)
    (kind : v.kind = .formula)
    (reference : name ∈ Formula.uniqueReferences (r.raw v page).toText) :
    r.Reads page v.name name :=
  ⟨v, member, kind, rfl, Formula.mem_uniqueReferences.mp reference⟩

section Rank

open Classical in
noncomputable def reachable (r : Resolver) (page : Nat) (name : String) : Finset String :=
  {n ∈ (r.project.values.map (·.name)).toFinset | ReflTransGen (r.Reads page) name n}

theorem mem_reachable {name n : String} :
    n ∈ r.reachable page name ↔
      (∃ v ∈ r.project.values, v.name = n) ∧ ReflTransGen (r.Reads page) name n := by
  simp [reachable]

noncomputable def rank (r : Resolver) (page : Nat) (name : String) : Nat :=
  (r.reachable page name).card

theorem rank_le (r : Resolver) (page : Nat) (name : String) :
    r.rank page name ≤ r.project.values.length := by
  classical
  calc
    r.rank page name ≤ (r.project.values.map (·.name)).toFinset.card := by
      apply Finset.card_le_card
      intro n member
      simpa using (mem_reachable.mp member).1
    _ ≤ (r.project.values.map (·.name)).length := List.toFinset_card_le _
    _ = r.project.values.length := List.length_map _

theorem rank_pos {v : NamedValue} (member : v ∈ r.project.values) : 0 < r.rank page v.name :=
  Finset.card_pos.mpr ⟨v.name, mem_reachable.mpr ⟨⟨v, member, rfl⟩, .refl⟩⟩

/-- Where no cycle can be reached a name is not reachable from what it reads. -/
theorem rank_lt {a b : String} (step : r.Reads page a b) (safe : ¬ ReachesCycle (r.Reads page) a) :
    r.rank page b < r.rank page a := by
  apply Finset.card_lt_card
  refine ⟨?_, fun within => ?_⟩
  · intro n member
    obtain ⟨value, path⟩ := mem_reachable.mp member
    exact mem_reachable.mpr ⟨value, path.head step⟩
  · have value : ∃ v ∈ r.project.values, v.name = a := by
      obtain ⟨v, member, -, name, -⟩ := step
      exact ⟨v, member, name⟩
    have back := (mem_reachable.mp (within (mem_reachable.mpr ⟨value, .refl⟩))).2
    exact safe ⟨a, .refl, TransGen.head' step back⟩

end Rank

section Steps

/-- One level of resolving, where `σ` gives the values that a formula reads. -/
def resolveStep (r : Resolver) (page : Nat) (σ : NamedValue → Resolved) (v : NamedValue) : Resolved :=
  let raw := r.raw v page
  match v.kind with
  | .number => .number raw.toNumber
  | .string => .text raw.toText
  | .formula =>
    match (r.formulas page).cycleFrom v.name with
    | some chain => .error (.circularReference chain)
    | none =>
      match r.evaluateText (r.formulas page) page σ raw.toText with
      | .ok x => .number x
      | .error e => .error e

def Needs (r : Resolver) (page : Nat) (text : String) (w : NamedValue) : Prop :=
  ∃ name ∈ Formula.uniqueReferences text, r.project.lookup name = some w ∧
    (w.kind = .formula → (r.formulas page).cycleFrom name = none)

theorem Needs.mem {text : String} {w : NamedValue} (needed : r.Needs page text w) :
    w ∈ r.project.values := by
  obtain ⟨name, -, found, -⟩ := needed
  exact (Project.lookup_name found).1

theorem Needs.referenced {text : String} {w : NamedValue} (needed : r.Needs page text w) :
    w.name ∈ Formula.references text := by
  obtain ⟨name, reference, found, -⟩ := needed
  rw [(Project.lookup_name found).2]
  exact Formula.mem_uniqueReferences.mp reference

theorem Needs.safe {text : String} {w : NamedValue} (needed : r.Needs page text w)
    (kind : w.kind = .formula) : ¬ ReachesCycle (r.Reads page) w.name := by
  obtain ⟨name, -, found, safe⟩ := needed
  rw [(Project.lookup_name found).2]
  exact cycleFrom_eq_none_iff.mp (safe kind)

theorem Needs.reads {v w : NamedValue} (member : v ∈ r.project.values) (kind : v.kind = .formula)
    (needed : r.Needs page (r.raw v page).toText w) : r.Reads page v.name w.name := by
  obtain ⟨name, reference, found, -⟩ := needed
  rw [(Project.lookup_name found).2]
  exact reads_of_reference member kind reference

theorem texts_congr {σ τ : NamedValue → Resolved} {names : List String}
    (agree : ∀ name ∈ names, ∀ w, r.project.lookup name = some w →
      (w.kind = .formula → (r.formulas page).cycleFrom name = none) → σ w = τ w) :
    r.texts (r.formulas page) σ names = r.texts (r.formulas page) τ names := by
  induction names with
  | nil => rfl
  | cons name rest ih =>
      rw [texts, texts]
      cases found : r.project.lookup name with
      | none => rfl
      | some w =>
          simp only
          split
          · rfl
          · rename_i safe
            have here : σ w = τ w := by
              refine agree name List.mem_cons_self w found fun kind => ?_
              rwa [if_pos kind] at safe
            rw [here, ih fun n member => agree n (List.mem_cons_of_mem _ member)]

/-- Evaluation of a text depends on the values that it needs and on no others. -/
theorem evaluateText_congr {σ τ : NamedValue → Resolved} {text : String}
    (agree : ∀ w, r.Needs page text w → σ w = τ w) :
    r.evaluateText (r.formulas page) page σ text = r.evaluateText (r.formulas page) page τ text := by
  unfold evaluateText
  rw [texts_congr fun name reference w found safe => agree w ⟨name, reference, found, safe⟩]

theorem resolveStep_congr {σ τ : NamedValue → Resolved} {v : NamedValue}
    (agree : v.kind = .formula → ¬ ReachesCycle (r.Reads page) v.name →
      ∀ w, r.Needs page (r.raw v page).toText w → σ w = τ w) :
    r.resolveStep page σ v = r.resolveStep page τ v := by
  unfold resolveStep
  cases kind : v.kind with
  | number => rfl
  | string => rfl
  | formula =>
      simp only
      split
      · rfl
      · rename_i safe
        rw [evaluateText_congr (agree kind (cycleFrom_eq_none_iff.mp safe))]

end Steps

section Fuel

theorem resolveWith_succ (fuel : Nat) (v : NamedValue) :
    r.resolveWith (r.formulas page) page (fuel + 1) v =
      r.resolveStep page (r.resolveWith (r.formulas page) page fuel) v := rfl

/-- Fuel beyond the number of names that can be reached changes nothing. -/
theorem resolveWith_stable {v : NamedValue} {fuel more : Nat} (member : v ∈ r.project.values)
    (enough : r.rank page v.name ≤ fuel) (le : fuel ≤ more) :
    r.resolveWith (r.formulas page) page more v = r.resolveWith (r.formulas page) page fuel v := by
  induction fuel generalizing more v with
  | zero =>
      have positive : 0 < r.rank page v.name := rank_pos member
      omega
  | succ fuel ih =>
      obtain ⟨more, rfl⟩ : ∃ k, more = k + 1 := ⟨more - 1, by omega⟩
      rw [resolveWith_succ, resolveWith_succ]
      apply resolveStep_congr
      intro kind safe w needed
      have smaller := rank_lt (needed.reads member kind) safe
      exact ih needed.mem (by omega) (by omega)

theorem resolveWith_enough {fuel : Nat} (enough : r.fuel ≤ fuel) (v : NamedValue) :
    r.resolveWith (r.formulas page) page fuel v = r.resolve v page := by
  obtain ⟨fuel, rfl⟩ : ∃ k, fuel = k + 1 := ⟨fuel - 1, by unfold Resolver.fuel at enough; omega⟩
  have bound : r.project.values.length ≤ fuel := Nat.le_of_succ_le_succ enough
  rw [resolve, Resolver.fuel, resolveWith_succ, resolveWith_succ]
  apply resolveStep_congr
  intro _ _ w needed
  exact resolveWith_stable needed.mem (rank_le r page w.name) bound

/-- The effective values solve the equation of one level. -/
theorem resolve_eq (r : Resolver) (page : Nat) (v : NamedValue) :
    r.resolve v page = r.resolveStep page (r.resolve · page) v := by
  rw [← resolveWith_enough (Nat.le_succ r.fuel), resolveWith_succ]
  rfl

theorem evaluate_eq (r : Resolver) (page : Nat) (text : String) :
    r.evaluate text page = r.evaluateText (r.formulas page) page (r.resolve · page) text := rfl

theorem resolvePage_eq (r : Resolver) (page : Nat) :
    r.resolvePage page = r.project.values.map fun v => (v, r.resolve v page) := rfl

end Fuel

end Resolver

end SlideDeck
