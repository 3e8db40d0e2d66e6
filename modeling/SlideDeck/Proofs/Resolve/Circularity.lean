import Mathlib
import SlideDeck.Proofs.Resolve.Denotation

/-!
Circular references at the level of a project: a formula fails with one exactly where a cycle can be
reached from its name. Where none can, the errors passed up from below are of the other sorts.
-/

namespace SlideDeck.Resolver

open Relation (ReflTransGen TransGen)
open Formula (ReachesCycle ClosedChain)

variable {r : Resolver} {page : Nat}

theorem circular_of_meaning {σ : NamedValue → Resolved} {text : String} {chain : List String}
    (failed : r.meaning page σ text = .error (.circularReference chain)) :
    ∃ name ∈ Formula.uniqueReferences text, ∃ w, r.project.lookup name = some w ∧
      σ w = .error (.circularReference chain) := by
  unfold meaning at failed
  split at failed
  · rename_i first
    cases failed
    obtain ⟨name, reference, failure⟩ := List.exists_of_findSome?_eq_some first
    unfold Resolver.failure at failure
    split at failure
    · cases failure
    · rename_i w found
      refine ⟨name, reference, w, found, ?_⟩
      cases value : σ w with
      | error e =>
          rw [value, Resolved.error?] at failure
          rw [Option.some.inj failure]
      | number x => simp [value, Resolved.error?] at failure
      | text s => simp [value, Resolved.error?] at failure
  · unfold finiteValue at failed
    split at failed
    · cases failed
    · split at failed <;> cases failed

/-- No level below passes up a circular reference that the level above has not found itself. -/
theorem resolve_ne_circular {v : NamedValue} (member : v ∈ r.project.values)
    (safe : ¬ ReachesCycle (r.Reads page) v.name) (chain : List String) :
    r.resolve v page ≠ .error (.circularReference chain) := by
  induction bound : r.rank page v.name using Nat.strongRecOn generalizing v with
  | _ n ih =>
      intro circular
      rw [resolve_eq_denotes member fun _ => safe, denotes] at circular
      cases kind : v.kind with
      | number => simp [kind] at circular
      | string => simp [kind] at circular
      | formula =>
          simp only [kind] at circular
          cases outcome : r.meaning page (r.resolve · page) (r.raw v page).toText with
          | ok x => simp [outcome, Resolved.ofResult] at circular
          | error e =>
              rw [outcome, Resolved.ofResult] at circular
              cases circular
              obtain ⟨name, reference, w, found, below⟩ := circular_of_meaning outcome
              obtain ⟨inside, rfl⟩ := Project.lookup_name found
              have step := reads_of_reference member kind reference
              have onward : ¬ ReachesCycle (r.Reads page) w.name :=
                fun reached => safe (reached.of_reaches (.single step))
              exact ih _ (bound ▸ rank_lt step safe) inside onward rfl below

theorem resolve_of_reaches_cycle {v : NamedValue} (kind : v.kind = .formula)
    (reached : ReachesCycle (r.Reads page) v.name) :
    ∃ chain, (r.formulas page).cycleFrom v.name = some chain ∧
      r.resolve v page = .error (.circularReference chain) := by
  cases found : (r.formulas page).cycleFrom v.name with
  | none => exact absurd reached (cycleFrom_eq_none_iff.mp found)
  | some chain =>
      refine ⟨chain, rfl, ?_⟩
      rw [resolve_eq, resolveStep, kind]
      simp only [found]

theorem resolve_circular_iff {v : NamedValue} (member : v ∈ r.project.values)
    (kind : v.kind = .formula) :
    (∃ chain, r.resolve v page = .error (.circularReference chain)) ↔
      ReachesCycle (r.Reads page) v.name := by
  constructor
  · rintro ⟨chain, circular⟩
    by_contra safe
    exact resolve_ne_circular member safe chain circular
  · intro reached
    obtain ⟨chain, -, circular⟩ := resolve_of_reaches_cycle kind reached
    exact ⟨chain, circular⟩

theorem resolve_circular_sound {v : NamedValue} {chain : List String}
    (member : v ∈ r.project.values) (kind : v.kind = .formula)
    (circular : r.resolve v page = .error (.circularReference chain)) :
    ClosedChain (r.Reads page) chain ∧
      ∃ c, chain.head? = some c ∧ ReflTransGen (r.Reads page) v.name c := by
  have reached := (resolve_circular_iff member kind).mp ⟨chain, circular⟩
  obtain ⟨reported, found, same⟩ := resolve_of_reaches_cycle kind reached
  rw [circular] at same
  cases same
  exact cycleFrom_sound found

theorem kind_of_error {v : NamedValue} {e : Formula.Error} (failed : r.resolve v page = .error e) :
    v.kind = .formula := by
  rw [resolve_eq, resolveStep] at failed
  cases kind : v.kind with
  | number => simp [kind] at failed
  | string => simp [kind] at failed
  | formula => rfl

theorem mem_check {v : NamedValue} {e : Formula.Error} :
    (v, e) ∈ r.check page ↔ v ∈ r.project.values ∧ r.resolve v page = .error e := by
  unfold check
  rw [resolvePage_eq, List.mem_filterMap]
  constructor
  · rintro ⟨⟨w, value⟩, listed, kept⟩
    obtain ⟨w, member, same⟩ := List.mem_map.mp listed
    obtain ⟨rfl, rfl⟩ := Prod.mk.inj same
    cases outcome : r.resolve w page with
    | number x => simp [outcome] at kept
    | text s => simp [outcome] at kept
    | error found =>
        simp only [outcome, Option.some.injEq, Prod.mk.injEq] at kept
        obtain ⟨rfl, rfl⟩ := kept
        exact ⟨member, outcome⟩
  · rintro ⟨member, failed⟩
    exact ⟨(v, .error e), List.mem_map.mpr ⟨v, member, by rw [failed]⟩, rfl⟩

/-- A cycle among the names is one that some formula of the project lies on, so `check` lists it. -/
theorem hasCycle_iff_check :
    (r.dependencies page).hasCycle = true ↔
      ∃ v chain, (v, .circularReference chain) ∈ r.check page := by
  rw [Formula.Dependencies.hasCycle_iff, dependencies_reads]
  constructor
  · rintro ⟨c, cycle⟩
    obtain ⟨next, ⟨v, member, kind, rfl, -⟩, -⟩ := TransGen.head'_iff.mp cycle
    have reached : ReachesCycle (r.Reads page) v.name := ⟨v.name, .refl, cycle⟩
    obtain ⟨chain, -, circular⟩ := resolve_of_reaches_cycle kind reached
    exact ⟨v, chain, mem_check.mpr ⟨member, circular⟩⟩
  · rintro ⟨v, chain, listed⟩
    obtain ⟨member, circular⟩ := mem_check.mp listed
    obtain ⟨c, -, cycle⟩ := (resolve_circular_iff member (kind_of_error circular)).mp ⟨chain, circular⟩
    exact ⟨c, cycle⟩

/-- A formula fails with a circular reference exactly where a cycle can be reached from its name, and
the chain reported is such a cycle. -/
theorem circularity_exact (p : Project) (page : Nat) :
    let r := Resolver.ofProject p
    let d := r.dependencies page
    (∀ a b, d.Reads a b ↔ ∃ v ∈ p.values, v.kind = .formula ∧ v.name = a ∧
      b ∈ Formula.references (r.raw v page).toText) ∧
    (∀ e ∈ p.values, e.kind = .formula →
      ((∃ chain, r.resolve e page = .error (.circularReference chain)) ↔
        ReachesCycle d.Reads e.name) ∧
      (∀ chain, r.resolve e page = .error (.circularReference chain) →
        ClosedChain d.Reads chain ∧ ∃ c, chain.head? = some c ∧ ReflTransGen d.Reads e.name c) ∧
      (TransGen d.Reads e.name e.name →
        ∃ chain, r.resolve e page = .error (.circularReference chain))) ∧
    (d.hasCycle = true ↔ ∃ v chain, (v, .circularReference chain) ∈ r.check page) := by
  intro r d
  have reads : d.Reads = r.Reads page := dependencies_reads r page
  rw [reads]
  refine ⟨fun a b => Iff.rfl, fun e member kind => ⟨?_, ?_, ?_⟩, hasCycle_iff_check⟩
  · exact resolve_circular_iff member kind
  · intro chain circular
    exact resolve_circular_sound member kind circular
  · intro cycle
    exact (resolve_circular_iff member kind).mpr ⟨e.name, .refl, cycle⟩

/-- Two formulas that read each other, and one that reads them besides a name nobody carries. -/
theorem circularity_exact_of_mutual :
    let e := NamedValue.formula "sum" "%{nobody} + %{left}"
    let p := Project.ofValues [.formula "left" "%{right}", .formula "right" "%{left}", e]
    let r := Resolver.ofProject p
    e ∈ p.values ∧ e.kind = .formula ∧
      (∃ chain, r.resolve e 0 = .error (.circularReference chain)) ∧
      TransGen (r.dependencies 0).Reads "left" "left" ∧
      ∃ v chain, (v, .circularReference chain) ∈ r.check 0 := by
  intro e p r
  have member : e ∈ p.values := by
    rw [Project.values_ofValues]
    simp
  have down : (r.dependencies 0).Reads "sum" "left" := by decide +kernel
  have out : (r.dependencies 0).Reads "left" "right" := by decide +kernel
  have back : (r.dependencies 0).Reads "right" "left" := by decide +kernel
  have cycle : TransGen (r.dependencies 0).Reads "left" "left" := .tail (.single out) back
  have exact_here := circularity_exact p 0
  refine ⟨member, rfl, (exact_here.2.1 e member rfl).1.mpr ⟨"left", .single down, cycle⟩, cycle, ?_⟩
  exact exact_here.2.2.mp ((Formula.Dependencies.hasCycle_iff _).mpr ⟨"left", cycle⟩)

end SlideDeck.Resolver
