import Mathlib
import SlideDeck.Proofs.Resolve.Recursion

/-!
Resolving ends on every project. The evaluator goes from a formula to what it reads, and only where
no cycle can be reached; so no chain of calls goes on forever, and the equation of the evaluator has
the effective values as its one solution.
-/

namespace SlideDeck.Resolver

open Formula (ReachesCycle)

inductive Activation where
  | value (v : NamedValue)
  | text (t : String)

/-- `Enters a b`: work on `a` may call for work on `b`. -/
inductive Enters (r : Resolver) (page : Nat) : Activation → Activation → Prop
  | own {v : NamedValue} (kind : v.kind = .formula)
      (safe : (r.formulas page).cycleFrom v.name = none) :
      Enters r page (.value v) (.text (r.raw v page).toText)
  | reference {t : String} {w : NamedValue} (needed : r.Needs page t w) :
      Enters r page (.text t) (.value w)

variable {r : Resolver} {page : Nat}

theorem Enters.reads {v w : NamedValue} {a : Activation} (member : v ∈ r.project.values)
    (own : r.Enters page (.value v) a) (reference : r.Enters page a (.value w)) :
    r.Reads page v.name w.name ∧ ¬ ReachesCycle (r.Reads page) v.name := by
  cases own with
  | own kind safe =>
      cases reference with
      | reference needed => exact ⟨needed.reads member kind, cycleFrom_eq_none_iff.mp safe⟩

/-- Resolving a value depends on its own text, and only where that is entered. -/
theorem resolveStep_of_texts {v : NamedValue} {σ τ : NamedValue → Resolved}
    (agree : ∀ t, r.Enters page (.value v) (.text t) →
      r.evaluateText (r.formulas page) page σ t = r.evaluateText (r.formulas page) page τ t) :
    r.resolveStep page σ v = r.resolveStep page τ v := by
  unfold resolveStep
  cases kind : v.kind with
  | number => rfl
  | string => rfl
  | formula =>
      simp only
      split
      · rfl
      · rename_i safe
        rw [agree _ (.own kind safe)]

theorem acc_text {t : String}
    (values : ∀ w, r.Needs page t w → Acc (fun b a => r.Enters page a b) (.value w)) :
    Acc (fun b a => r.Enters page a b) (.text t) := by
  constructor
  intro a entered
  cases entered with
  | reference needed => exact values _ needed

theorem acc_value {v : NamedValue} (member : v ∈ r.project.values) :
    Acc (fun b a => r.Enters page a b) (.value v) := by
  induction bound : r.rank page v.name using Nat.strongRecOn generalizing v with
  | _ n ih =>
      constructor
      intro a entered
      cases entered with
      | own kind safe =>
          apply acc_text
          intro w needed
          have smaller := rank_lt (needed.reads member kind) (cycleFrom_eq_none_iff.mp safe)
          exact ih _ (bound ▸ smaller) needed.mem rfl

theorem enters_wellFounded (r : Resolver) (page : Nat) :
    WellFounded fun b a => r.Enters page a b := by
  have texts (t : String) : Acc (fun b a => r.Enters page a b) (.text t) :=
    acc_text fun w needed => acc_value needed.mem
  constructor
  rintro (v | t)
  · constructor
    intro a entered
    cases entered with
    | own kind safe => exact texts _
  · exact texts t

/-- The effective values are the one solution of the equation of one level. -/
theorem resolve_unique {σ : NamedValue → Resolved} :
    (∀ v, σ v = r.resolveStep page σ v) ↔ σ = fun v => r.resolve v page := by
  constructor
  · intro solves
    suffices same : ∀ a, ∀ v, a = Activation.value v → σ v = r.resolve v page by
      funext v
      exact same _ v rfl
    intro a
    induction a using (enters_wellFounded r page).transGen.induction with
    | _ a ih =>
        rintro v rfl
        rw [solves, resolve_eq]
        apply resolveStep_congr
        intro kind safe w needed
        have own : r.Enters page (.value v) (.text (r.raw v page).toText) :=
          .own kind (cycleFrom_eq_none_iff.mpr safe)
        exact ih _ (.tail (.single (.reference needed)) own) w rfl
  · rintro rfl v
    exact resolve_eq r page v

/-- On every project and page, no chain of calls of the evaluator or of the cycle search goes on
forever, the evaluator calls only from a name to a name it reads and only where no cycle can be
reached, and what is computed is the one solution of the recursion, whatever fuel it is given. -/
theorem resolution_terminates (p : Project) (page : Nat) :
    let r := Resolver.ofProject p
    let d := r.dependencies page
    WellFounded (fun b a => r.Enters page a b) ∧
    (∀ v ∈ p.values, ∀ a w, r.Enters page (.value v) a → r.Enters page a (.value w) →
      d.Reads v.name w.name ∧ ¬ ReachesCycle d.Reads v.name) ∧
    (∀ t w, r.Enters page (.text t) (.value w) → w ∈ p.values ∧
      w.name ∈ Formula.references t ∧ (w.kind = .formula → ¬ ReachesCycle d.Reads w.name)) ∧
    (∀ v σ τ, (∀ t, r.Enters page (.value v) (.text t) →
        r.evaluateText (r.formulas page) page σ t = r.evaluateText (r.formulas page) page τ t) →
      r.resolveStep page σ v = r.resolveStep page τ v) ∧
    (∀ t σ τ, (∀ w, r.Enters page (.text t) (.value w) → σ w = τ w) →
      r.evaluateText (r.formulas page) page σ t = r.evaluateText (r.formulas page) page τ t) ∧
    (∀ σ, (∀ v, σ v = r.resolveStep page σ v) ↔ σ = fun v => r.resolve v page) ∧
    (∀ fuel ≥ r.fuel, ∀ v, r.resolveWith (r.formulas page) page fuel v = r.resolve v page) ∧
    (∀ t, r.evaluate t page = r.evaluateText (r.formulas page) page (r.resolve · page) t) ∧
    r.resolvePage page = p.values.map (fun v => (v, r.resolve v page)) ∧
    WellFounded (fun b a => d.Descends a b) ∧
    (∀ search, (∀ path cleared name, search path cleared name = d.walkStep search path cleared name) ↔
      search = d.walk (d.nodes.length + 1)) ∧
    (∀ fuel > d.nodes.length, d.walk fuel = d.walk (d.nodes.length + 1)) := by
  intro r d
  have reads : d.Reads = r.Reads page := dependencies_reads r page
  rw [reads]
  refine ⟨enters_wellFounded r page, fun v member a w => Enters.reads member, ?_, ?_, ?_, ?_,
    fun fuel enough => resolveWith_enough enough, evaluate_eq r page, resolvePage_eq r page,
    d.descends_wellFounded, fun search => Formula.Dependencies.walk_unique,
    fun fuel enough => Formula.Dependencies.walk_enough enough⟩
  · rintro t w ⟨⟩
    rename_i needed
    exact ⟨needed.mem, needed.referenced, needed.safe⟩
  · exact fun v σ τ => resolveStep_of_texts
  · intro t σ τ agree
    exact evaluateText_congr fun w needed => agree w (.reference needed)
  · exact fun σ => resolve_unique

/-- A formula that reads a number, next to one that reads itself. -/
theorem resolution_terminates_beside_cycle :
    let e := NamedValue.formula "double" "%{price} * 2"
    let w := { id := "price", name := "price", kind := .number, initial := .text "7" }
    let p := Project.ofValues [e, .formula "loop" "%{loop}", w]
    let r := Resolver.ofProject p
    let text := Activation.text (r.raw e 0).toText
    e ∈ p.values ∧ r.Enters 0 (.value e) text ∧ r.Enters 0 text (.value w) ∧
      (r.dependencies 0).Reads "double" "price" ∧
      ¬ ReachesCycle (r.dependencies 0).Reads "double" ∧
      r.resolveWith (r.formulas 0) 0 1000 e = r.resolve e 0 := by
  intro e w p r text
  have member : e ∈ p.values := by
    rw [Project.values_ofValues]
    simp
  have own : r.Enters 0 (.value e) text := .own rfl (by decide +kernel)
  have needed : r.Needs 0 (r.raw e 0).toText w :=
    ⟨"price", by decide +kernel, by rfl, by simp [w]⟩
  have laws := resolution_terminates p 0
  have step := laws.2.1 e member text w own (.reference needed)
  have fuel := laws.2.2.2.2.2.2.1 1000 (by decide +kernel) e
  exact ⟨member, own, .reference needed, step.1, step.2, fuel⟩

end SlideDeck.Resolver
