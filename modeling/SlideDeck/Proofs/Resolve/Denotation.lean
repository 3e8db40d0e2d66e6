import Mathlib
import SlideDeck.Proofs.Decimal.Plain
import SlideDeck.Proofs.Resolve.Recursion

/-!
What formulas mean. Where no cycle can be reached, a formula has the error of the first name that it
cannot read, and else the value of its text with every name and page token replaced. Without cycles
these equations have the effective values of the page as their one solution.
-/

namespace SlideDeck

def Resolved.error? : Resolved → Option Formula.Error
  | .error e => some e
  | _ => none

def Resolved.ofResult : Except Formula.Error Float → Resolved
  | .ok x => .number x
  | .error e => .error e

namespace Resolver

open Relation (ReflTransGen TransGen)
open Formula (ReachesCycle)

def failure (r : Resolver) (σ : NamedValue → Resolved) (name : String) : Option Formula.Error :=
  match r.project.lookup name with
  | none => some (.unknownReference name)
  | some v => (σ v).error?

def shown (r : Resolver) (σ : NamedValue → Resolved) (name : String) : Option String :=
  (r.project.lookup name).map fun v => (σ v).display

/-- The text with the names replaced by what is shown for them, then the page tokens. -/
def expansion (r : Resolver) (page : Nat) (σ : NamedValue → Resolved) (text : String) : String :=
  Formula.substitutePages (page + 1) r.project.pageCount (Formula.substitute (r.shown σ) text)

def finiteValue (text : String) : Except Formula.Error Float :=
  match Formula.evaluate text.toList with
  | .error cause => .error (.notArithmetic text cause)
  | .ok x => if x.isFinite then .ok x else .error (.notFinite text)

/-- What a formula text means where values are `σ`. -/
def meaning (r : Resolver) (page : Nat) (σ : NamedValue → Resolved) (text : String) :
    Except Formula.Error Float :=
  match (Formula.uniqueReferences text).findSome? (r.failure σ) with
  | some e => .error e
  | none => finiteValue (r.expansion page σ text)

def denotes (r : Resolver) (page : Nat) (σ : NamedValue → Resolved) (v : NamedValue) : Resolved :=
  match v.kind with
  | .number => .number (r.raw v page).toNumber
  | .string => .text (r.raw v page).toText
  | .formula => .ofResult (r.meaning page σ (r.raw v page).toText)

variable {r : Resolver} {page : Nat} {σ τ : NamedValue → Resolved}

/-- A finite number is always shown as a plain decimal, so being finite is all that counts. -/
theorem evaluateExpanded_eq (text : String) : evaluateExpanded text = finiteValue text := by
  unfold evaluateExpanded finiteValue
  cases Formula.evaluate text.toList with
  | error cause => rfl
  | ok x =>
      by_cases finite : x.isFinite = true
      · simp [finite, Decimal.isPlain_format finite]
      · simp [finite]

theorem texts_eq {names : List String}
    (calm : ∀ name ∈ names, (r.formulas page).cycleFrom name = none) :
    r.texts (r.formulas page) σ names =
      match names.findSome? (r.failure σ) with
      | some e => .error e
      | none => .ok (names.map fun name => (name, (r.shown σ name).getD "")) := by
  induction names with
  | nil => rfl
  | cons name rest ih =>
      rw [texts, List.findSome?_cons, ih fun n member => calm n (List.mem_cons_of_mem _ member)]
      cases found : r.project.lookup name with
      | none => simp [failure, found]
      | some v =>
          simp only [calm name List.mem_cons_self, ite_self]
          cases value : σ v with
          | error e => simp [failure, found, value, Resolved.error?]
          | number x | text s =>
              cases rest.findSome? (r.failure σ) <;>
                simp [failure, shown, found, value, Resolved.error?, Except.map]

theorem shown_of_readable {names : List String} {name : String}
    (readable : names.findSome? (r.failure σ) = none) (member : name ∈ names) :
    ∃ text, r.shown σ name = some text := by
  have fine := List.findSome?_eq_none_iff.mp readable name member
  unfold failure at fine
  unfold shown
  cases found : r.project.lookup name with
  | none => simp [found] at fine
  | some v => exact ⟨_, rfl⟩

theorem lookup_map_self {names : List String} {name : String} (member : name ∈ names)
    (value : String → String) :
    (names.map fun n => (n, value n)).lookup name = some (value name) := by
  induction names with
  | nil => cases member
  | cons first rest ih =>
      rw [List.map_cons, List.lookup_cons]
      by_cases same : name = first
      · simp [same]
      · simpa [beq_false_of_ne same] using ih ((List.mem_cons.mp member).resolve_left same)

theorem expand_eq {text : String}
    (readable : (Formula.uniqueReferences text).findSome? (r.failure σ) = none) :
    r.expand ((Formula.uniqueReferences text).map fun name => (name, (r.shown σ name).getD ""))
      page text = r.expansion page σ text := by
  unfold expand expansion
  congr 1
  apply Formula.substitute_congr
  intro name reference
  have member := Formula.mem_uniqueReferences.mpr reference
  obtain ⟨shownText, known⟩ := shown_of_readable readable member
  rw [lookup_map_self member, known, Option.getD_some]

theorem evaluateText_eq {text : String}
    (calm : ∀ name ∈ Formula.uniqueReferences text, (r.formulas page).cycleFrom name = none) :
    r.evaluateText (r.formulas page) page σ text = r.meaning page σ text := by
  unfold evaluateText meaning
  rw [texts_eq calm]
  cases readable : (Formula.uniqueReferences text).findSome? (r.failure σ) with
  | some e => rfl
  | none => simp only [evaluateExpanded_eq, expand_eq readable]

theorem resolveStep_eq {v : NamedValue} (member : v ∈ r.project.values)
    (safe : v.kind = .formula → ¬ ReachesCycle (r.Reads page) v.name) :
    r.resolveStep page σ v = r.denotes page σ v := by
  unfold resolveStep denotes
  cases kind : v.kind with
  | number => rfl
  | string => rfl
  | formula =>
      have calm : ∀ name ∈ Formula.uniqueReferences (r.raw v page).toText,
          (r.formulas page).cycleFrom name = none := by
        intro name reference
        rw [cycleFrom_eq_none_iff]
        intro reached
        have step := reads_of_reference member kind reference
        exact safe kind (reached.of_reaches (.single step))
      simp only [cycleFrom_eq_none_iff.mpr (safe kind), evaluateText_eq calm]
      cases r.meaning page σ (r.raw v page).toText <;> rfl

theorem resolve_eq_denotes {v : NamedValue} (member : v ∈ r.project.values)
    (safe : v.kind = .formula → ¬ ReachesCycle (r.Reads page) v.name) :
    r.resolve v page = r.denotes page (r.resolve · page) v := by
  rw [resolve_eq, resolveStep_eq member safe]

theorem findSome?_congr {names : List String} {f g : String → Option Formula.Error}
    (agree : ∀ name ∈ names, f name = g name) : names.findSome? f = names.findSome? g := by
  induction names with
  | nil => rfl
  | cons name rest ih =>
      rw [List.findSome?_cons, List.findSome?_cons, agree name List.mem_cons_self,
        ih fun n member => agree n (List.mem_cons_of_mem _ member)]

theorem meaning_congr {text : String}
    (agree : ∀ name ∈ Formula.uniqueReferences text, ∀ w, r.project.lookup name = some w →
      σ w = τ w) :
    r.meaning page σ text = r.meaning page τ text := by
  have failures : ∀ name ∈ Formula.uniqueReferences text, r.failure σ name = r.failure τ name := by
    intro name reference
    unfold failure
    cases found : r.project.lookup name with
    | none => rfl
    | some w => simp only [agree name reference w found]
  have texts : r.expansion page σ text = r.expansion page τ text := by
    unfold expansion
    congr 1
    apply Formula.substitute_congr
    intro name reference
    unfold shown
    cases found : r.project.lookup name with
    | none => rfl
    | some w =>
        rw [Option.map_some, Option.map_some,
          agree name (Formula.mem_uniqueReferences.mpr reference) w found]
  unfold meaning
  rw [findSome?_congr failures, texts]

section Solution

theorem denotes_congr {v : NamedValue} (member : v ∈ r.project.values)
    (agree : v.kind = .formula → ∀ w ∈ r.project.values, r.Reads page v.name w.name → σ w = τ w) :
    r.denotes page σ v = r.denotes page τ v := by
  unfold denotes
  cases kind : v.kind with
  | number => rfl
  | string => rfl
  | formula =>
      simp only
      rw [meaning_congr]
      intro name reference w found
      obtain ⟨inside, rfl⟩ := Project.lookup_name found
      exact agree kind w inside (reads_of_reference member kind reference)

/-- The equations of an acyclic page determine every value, from what it reads upwards. -/
theorem eq_resolve_of_denotes (acyclic : ¬ ∃ c, TransGen (r.Reads page) c c)
    (solves : ∀ v ∈ r.project.values, σ v = r.denotes page σ v) {v : NamedValue}
    (member : v ∈ r.project.values) : σ v = r.resolve v page := by
  have safe (name : String) : ¬ ReachesCycle (r.Reads page) name :=
    fun ⟨c, _, cycle⟩ => acyclic ⟨c, cycle⟩
  induction bound : r.rank page v.name using Nat.strongRecOn generalizing v with
  | _ n ih =>
      rw [solves v member, resolve_eq_denotes member fun _ => safe v.name]
      apply denotes_congr member
      intro kind w inside step
      exact ih _ (bound ▸ rank_lt step (safe v.name)) inside rfl

theorem resolvePage_unique (acyclic : ¬ ∃ c, TransGen (r.Reads page) c c) :
    (∀ v ∈ r.project.values, σ v = r.denotes page σ v) ↔
      r.project.values.map (fun v => (v, σ v)) = r.resolvePage page := by
  have same : r.project.values.map (fun v => (v, σ v)) = r.resolvePage page ↔
      ∀ v ∈ r.project.values, σ v = r.resolve v page := by
    simp [resolvePage_eq]
  rw [same]
  constructor
  · intro solves v member
    exact eq_resolve_of_denotes acyclic solves member
  · intro equal v member
    rw [equal v member, resolve_eq_denotes member fun _ ⟨c, _, cycle⟩ => acyclic ⟨c, cycle⟩]
    apply denotes_congr member
    intro _ w inside _
    exact (equal w inside).symm

end Solution

end Resolver

theorem Project.lookup_of_nodup {p : Project} (distinct : (p.values.map (·.name)).Nodup)
    {v : NamedValue} (member : v ∈ p.values) : p.lookup v.name = some v := by
  cases found : p.lookup v.name with
  | none =>
      have nowhere := List.find?_eq_none.mp found v member
      simp at nowhere
  | some w =>
      obtain ⟨inside, name⟩ := Project.lookup_name found
      rw [List.inj_on_of_nodup_map distinct inside member name]

/-- Where value names are distinct, a formula that reaches no cycle has its meaning on the effective
values; on a page without cycles these are the one solution of the equations. -/
theorem Resolver.resolve_compositional (p : Project) (page : Nat)
    (distinct : (p.values.map (·.name)).Nodup) :
    let r := Resolver.ofProject p
    let d := r.dependencies page
    (∀ v ∈ p.values, p.lookup v.name = some v) ∧
    (∀ e ∈ p.values, e.kind = .formula → ¬ Formula.ReachesCycle d.Reads e.name →
      r.resolve e page =
        .ofResult (r.meaning page (r.resolve · page) (r.raw e page).toText)) ∧
    ((¬ ∃ c, Relation.TransGen d.Reads c c) → ∀ σ,
      (∀ v ∈ p.values, σ v = r.denotes page σ v) ↔
        p.values.map (fun v => (v, σ v)) = r.resolvePage page) := by
  intro r d
  have reads : d.Reads = r.Reads page := dependencies_reads r page
  rw [reads]
  refine ⟨fun v member => Project.lookup_of_nodup distinct member, ?_, ?_⟩
  · intro e member kind safe
    rw [resolve_eq_denotes member fun _ => safe, denotes, kind]
  · intro acyclic σ
    exact resolvePage_unique acyclic

/-- A formula over a number and a name nobody carries. -/
theorem Resolver.resolve_compositional_of_sum :
    let e := NamedValue.formula "sum" "%{price} + %{nobody}"
    let price := { id := "price", name := "price", kind := .number, initial := .text "7" }
    let p := Project.ofValues [e, price]
    let r := Resolver.ofProject p
    (p.values.map (·.name)).Nodup ∧ e ∈ p.values ∧
      ¬ Formula.ReachesCycle (r.dependencies 0).Reads e.name ∧
      r.resolve e 0 = .error (.unknownReference "nobody") ∧
      ∀ σ, (∀ v ∈ p.values, σ v = r.denotes 0 σ v) ↔
        p.values.map (fun v => (v, σ v)) = r.resolvePage 0 := by
  intro e price p r
  have distinct : (p.values.map (·.name)).Nodup := by decide
  have member : e ∈ p.values := by
    rw [Project.values_ofValues]
    simp
  have acyclic : ¬ ∃ c, Relation.TransGen (r.dependencies 0).Reads c c := by
    rw [← Formula.Dependencies.hasCycle_iff]
    decide +kernel
  have safe : ¬ Formula.ReachesCycle (r.dependencies 0).Reads e.name :=
    fun ⟨c, _, cycle⟩ => acyclic ⟨c, cycle⟩
  have laws := resolve_compositional p 0 distinct
  refine ⟨distinct, member, safe, ?_, laws.2.2 acyclic⟩
  have references : Formula.uniqueReferences (r.raw e 0).toText = ["price", "nobody"] := by
    decide +kernel
  have first : ["price", "nobody"].findSome? (r.failure (r.resolve · 0)) =
      some (.unknownReference "nobody") := rfl
  rw [laws.2.1 e member rfl safe, meaning, references, first]
  rfl

end SlideDeck
