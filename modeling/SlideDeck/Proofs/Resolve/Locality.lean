import Mathlib
import SlideDeck.Proofs.Formula.Locality
import SlideDeck.Proofs.Resolve.Denotation
import SlideDeck.Proofs.Resolve.Inheritance

/-!
Two projects side by side. What a formula resolves to, its error and the chain of a cycle included,
depends on the values whose names it can reach and on nothing else in the project.
-/

namespace SlideDeck

open Relation (ReflTransGen)

/-- Neither project carries a value named `name`, or both carry one of the same kind whose stored
value on the page is the same. -/
inductive Alike (r s : Resolver) (page : Nat) (name : String) : Prop
  | absent (first : r.project.lookup name = none) (second : s.project.lookup name = none) :
      Alike r s page name
  | present {v w : NamedValue} (first : r.project.lookup name = some v)
      (second : s.project.lookup name = some w) (kind : v.kind = w.kind)
      (raw : r.raw v page = s.raw w page) : Alike r s page name

namespace Resolver

section Agreement

variable {r s : Resolver}

structure Agree (r s : Resolver) : Prop where
  values : r.project.values = s.project.values
  pages : r.project.pages = s.project.pages
  overrides : r.overrides = s.overrides

theorem Agree.ofProject {p q : Project} (values : p.values = q.values) (pages : p.pages = q.pages) :
    Agree (ofProject p) (ofProject q) :=
  ⟨values, pages, congrArg OverrideIndex.ofPages pages⟩

theorem Agree.raw (agree : Agree r s) : r.raw = s.raw := by
  funext v page
  unfold Resolver.raw
  rw [agree.pages, agree.overrides]

theorem Agree.formulas (agree : Agree r s) (page : Nat) : r.formulas page = s.formulas page := by
  unfold Resolver.formulas dependencies formulaTexts
  rw [agree.values, agree.raw]

theorem Agree.texts (agree : Agree r s) (f : PageFormulas) (σ : NamedValue → Resolved)
    (names : List String) : r.texts f σ names = s.texts f σ names := by
  have lookup : r.project.lookup = s.project.lookup := by
    funext name
    unfold Project.lookup
    rw [agree.values]
  induction names with
  | nil => rfl
  | cons name rest ih => rw [Resolver.texts, Resolver.texts, lookup, ih]

theorem Agree.evaluateText (agree : Agree r s) (f : PageFormulas) (page : Nat) (σ : NamedValue → Resolved)
    (text : String) : r.evaluateText f page σ text = s.evaluateText f page σ text := by
  unfold Resolver.evaluateText expand Project.pageCount
  rw [agree.texts, agree.pages]

theorem Agree.resolveWith (agree : Agree r s) (f : PageFormulas) (page fuel : Nat) (v : NamedValue) :
    r.resolveWith f page fuel v = s.resolveWith f page fuel v := by
  induction fuel generalizing v with
  | zero => rfl
  | succ fuel ih => rw [Resolver.resolveWith, Resolver.resolveWith, agree.raw, funext ih, agree.evaluateText]

theorem Agree.resolve (agree : Agree r s) : r.resolve = s.resolve := by
  funext v page
  unfold Resolver.resolve fuel
  rw [agree.formulas, agree.values, agree.resolveWith]

end Agreement

section Texts

theorem lookup_filter_formula (text : NamedValue → String) {vs : List NamedValue}
    (distinct : (vs.map (·.name)).Nodup) (name : String) :
    ((vs.filter (·.kind = .formula)).map fun v => (v.name, text v)).lookup name =
      (vs.find? (·.name == name)).bind fun v => if v.kind = .formula then some (text v) else none := by
  induction vs with
  | nil => rfl
  | cons v rest ih =>
      obtain ⟨fresh, distinct⟩ := List.nodup_cons.mp distinct
      by_cases same : v.name = name
      · subst same
        have missing : rest.find? (·.name == v.name) = none := by
          rw [List.find?_eq_none]
          intro w member here
          exact fresh (List.mem_map.mpr ⟨w, member, by simpa using here⟩)
        by_cases kind : v.kind = .formula
        · simp [kind]
        · have later := ih distinct
          rw [missing] at later
          simpa [kind] using later
      · have differs : (name == v.name) = false := beq_false_of_ne (Ne.symm same)
        rw [List.find?_cons_of_neg (by simpa using same), ← ih distinct]
        by_cases kind : v.kind = .formula <;> simp [kind, List.lookup_cons, differs]

theorem lookup_formulaTexts {r : Resolver} (distinct : (r.project.values.map (·.name)).Nodup)
    (page : Nat) (name : String) :
    (r.formulaTexts page).lookup name =
      (r.project.lookup name).bind fun v =>
        if v.kind = .formula then some (r.raw v page).toText else none :=
  lookup_filter_formula _ distinct name

theorem nodup_formulaTexts {r : Resolver} (distinct : (r.project.values.map (·.name)).Nodup)
    (page : Nat) : ((r.formulaTexts page).map (·.1)).Nodup := by
  unfold formulaTexts
  rw [List.map_map]
  exact distinct.sublist (List.filter_sublist.map _)

end Texts

variable {r s : Resolver} {page : Nat} {start name : String}

/-- A name that both projects carry alike reads the same names in both. -/
theorem successors_of_alike (distinct : (r.project.values.map (·.name)).Nodup)
    (distinct' : (s.project.values.map (·.name)).Nodup) (alike : Alike r s page name) :
    (r.dependencies page).successors name = (s.dependencies page).successors name := by
  have texts : (r.formulaTexts page).lookup name = (s.formulaTexts page).lookup name := by
    rw [lookup_formulaTexts distinct, lookup_formulaTexts distinct']
    cases alike with
    | absent first second => rw [first, second]; rfl
    | present first second kind raw =>
        rw [first, second, Option.bind_some, Option.bind_some, kind, raw]
  unfold dependencies
  rw [Formula.Dependencies.successors_foldl_add (nodup_formulaTexts distinct page),
    Formula.Dependencies.successors_foldl_add (nodup_formulaTexts distinct' page), texts]

theorem texts_agree {σ τ : NamedValue → Resolved} {names : List String}
    (alike : ∀ name ∈ names, Alike r s page name)
    (cycles : ∀ name ∈ names, (r.formulas page).cycleFrom name = (s.formulas page).cycleFrom name)
    (same : ∀ name ∈ names, ∀ v w, r.project.lookup name = some v → s.project.lookup name = some w →
      v.kind = w.kind → r.raw v page = s.raw w page → σ v = τ w) :
    r.texts (r.formulas page) σ names = s.texts (s.formulas page) τ names := by
  induction names with
  | nil => rfl
  | cons name rest ih =>
      have later := ih (fun n member => alike n (List.mem_cons_of_mem _ member))
        (fun n member => cycles n (List.mem_cons_of_mem _ member))
        (fun n member => same n (List.mem_cons_of_mem _ member))
      rw [texts, texts]
      cases alike name List.mem_cons_self with
      | absent first second => simp only [first, second]
      | @present v w first second kind raw =>
          have value := same name List.mem_cons_self v w first second kind raw
          simp only [first, second, kind, cycles name List.mem_cons_self, value, later]

section Reachable

variable (distinct : (r.project.values.map (·.name)).Nodup)
  (distinct' : (s.project.values.map (·.name)).Nodup)
  (pages : r.project.pageCount = s.project.pageCount)
  (alike : ∀ n, ReflTransGen (r.Reads page) start n → Alike r s page n)

include distinct distinct' alike in
theorem cycleFrom_agree (reached : ReflTransGen (r.Reads page) start name) :
    (r.formulas page).cycleFrom name = (s.formulas page).cycleFrom name := by
  apply Formula.Dependencies.findCycle_agree
  intro n onward
  change ReflTransGen (r.dependencies page).Reads name n at onward
  rw [dependencies_reads] at onward
  exact successors_of_alike distinct distinct' (alike n (reached.trans onward))

include distinct distinct' pages alike in
/-- With the same fuel, resolving goes the same way from names that are carried alike. -/
theorem resolveWith_agree (reached : ReflTransGen (r.Reads page) start name) {v w : NamedValue}
    (first : r.project.lookup name = some v) (second : s.project.lookup name = some w)
    (kind : v.kind = w.kind) (raw : r.raw v page = s.raw w page) (fuel : Nat) :
    r.resolveWith (r.formulas page) page fuel v = s.resolveWith (s.formulas page) page fuel w := by
  obtain ⟨member, named⟩ := Project.lookup_name first
  obtain ⟨-, named'⟩ := Project.lookup_name second
  induction fuel generalizing name v w with
  | zero => rw [resolveWith, resolveWith, named, named']
  | succ fuel ih =>
      have below : ∀ text, v.kind = .formula → (r.raw v page).toText = text →
          r.evaluateText (r.formulas page) page (r.resolveWith (r.formulas page) page fuel) text =
            s.evaluateText (s.formulas page) page (s.resolveWith (s.formulas page) page fuel) text := by
        rintro text formula rfl
        have onward : ∀ n ∈ Formula.uniqueReferences (r.raw v page).toText,
            ReflTransGen (r.Reads page) start n := by
          intro n reference
          exact reached.tail (named ▸ reads_of_reference member formula reference)
        have texts :
            r.texts (r.formulas page) (r.resolveWith (r.formulas page) page fuel)
                (Formula.uniqueReferences (r.raw v page).toText) =
              s.texts (s.formulas page) (s.resolveWith (s.formulas page) page fuel)
                (Formula.uniqueReferences (r.raw v page).toText) := by
          apply texts_agree
          · exact fun n reference => alike n (onward n reference)
          · exact fun n reference => cycleFrom_agree distinct distinct' alike (onward n reference)
          · intro n reference v w first second kind raw
            exact ih (onward n reference) first second kind raw (Project.lookup_name first).1
              (Project.lookup_name first).2 (Project.lookup_name second).2
        unfold evaluateText expand
        rw [texts, pages]
      rw [resolveWith_succ, resolveWith_succ]
      unfold resolveStep
      rw [← kind, ← raw, named, named', cycleFrom_agree distinct distinct' alike reached]
      cases kindOf : v.kind with
      | number => rfl
      | string => rfl
      | formula => simp only [below _ kindOf rfl]

include distinct distinct' pages alike in
theorem resolve_agree (reached : ReflTransGen (r.Reads page) start name) {v w : NamedValue}
    (first : r.project.lookup name = some v) (second : s.project.lookup name = some w)
    (kind : v.kind = w.kind) (raw : r.raw v page = s.raw w page) :
    r.resolve v page = s.resolve w page := by
  let more := r.fuel + s.fuel
  rw [← resolveWith_enough (Nat.le_add_right r.fuel s.fuel),
    ← resolveWith_enough (Nat.le_add_left s.fuel r.fuel)]
  exact resolveWith_agree distinct distinct' pages alike reached first second kind raw more

end Reachable

/-- A value on a page depends only on what its name can reach there: on the values of those names,
their kinds and stored values, and for a project that was changed elsewhere on their overrides up to
that page. -/
theorem resolve_local (p q : Project) (page : Nat) (distinct : (p.values.map (·.name)).Nodup)
    (distinct' : (q.values.map (·.name)).Nodup) (pages : p.pageCount = q.pageCount) :
    let r := ofProject p
    let s := ofProject q
    let d := r.dependencies page
    (∀ e ∈ p.values, ∀ e' ∈ q.values, e.name = e'.name →
      (∀ n, ReflTransGen d.Reads e.name n → Alike r s page n) →
      r.resolve e page = s.resolve e' page) ∧
    (∀ e ∈ p.values, (∀ n, ReflTransGen d.Reads e.name n → p.lookup n = q.lookup n ∧
        ∀ v, p.lookup n = some v → ∀ k ≤ page, p.override? k v.id = q.override? k v.id) →
      r.resolve e page = s.resolve e page) := by
  intro r s d
  have reads : d.Reads = r.Reads page := dependencies_reads r page
  rw [reads]
  have general : ∀ e ∈ p.values, ∀ e' ∈ q.values, e.name = e'.name →
      (∀ n, ReflTransGen (r.Reads page) e.name n → Alike r s page n) →
      r.resolve e page = s.resolve e' page := by
    intro e member e' member' name alike
    have first : p.lookup e.name = some e := Project.lookup_of_nodup distinct member
    have second : q.lookup e.name = some e' := name ▸ Project.lookup_of_nodup distinct' member'
    cases alike e.name .refl with
    | absent missing _ => exact absurd (first.symm.trans missing) (by simp)
    | @present v w found found' kind raw =>
        obtain rfl : e = v := Option.some.inj (first.symm.trans found)
        obtain rfl : e' = w := Option.some.inj (second.symm.trans found')
        exact resolve_agree distinct distinct' pages alike .refl first second kind raw
  refine ⟨general, fun e member untouched => ?_⟩
  have found : q.lookup e.name = some e := by
    rw [← (untouched e.name .refl).1, Project.lookup_of_nodup distinct member]
  refine general e member e (Project.lookup_name found).1 rfl fun n reached => ?_
  obtain ⟨same, overrides⟩ := untouched n reached
  cases first : p.lookup n with
  | none => exact .absent first (same.symm.trans first)
  | some v =>
      refine .present first (same.symm.trans first) rfl ?_
      exact (raw_congr fun k upTo => (overrides v first k upTo).symm).symm

/-- A formula over a number, in one project beside a formula that reads itself and in another one
beside a text with overrides. -/
theorem resolve_local_beside_cycle :
    let e := NamedValue.formula "sum" "%{price} + 1"
    let price : NamedValue := { id := "price", name := "price", kind := .number, initial := .text "7" }
    let title : NamedValue := { id := "title", name := "title", kind := .string, initial := .text "" }
    let p : Project :=
      { Project.ofValues [e, price, .formula "loop" "%{loop}"] with pages := [{}, {}] }
    let q : Project := { Project.ofValues [title, price, e] with
      pages := [{ overrides := [("title", some (.text "x"))] }, {}] }
    (p.values.map (·.name)).Nodup ∧ (q.values.map (·.name)).Nodup ∧ p.pageCount = q.pageCount ∧
      e ∈ p.values ∧ (ofProject p).resolve e 1 = (ofProject q).resolve e 1 := by
  intro e price title p q
  have distinct : (p.values.map (·.name)).Nodup := by decide
  have distinct' : (q.values.map (·.name)).Nodup := by decide
  have member : e ∈ p.values := List.mem_cons_self
  refine ⟨distinct, distinct', rfl, member, (resolve_local p q 1 distinct distinct' rfl).2 e member ?_⟩
  have reach : ∀ n, ReflTransGen ((ofProject p).dependencies 1).Reads e.name n →
      n = "sum" ∨ n = "price" := by
    intro n reached
    induction reached with
    | refl => exact Or.inl rfl
    | @tail b c _ step ih =>
        rcases ih with rfl | rfl
        · have only : ((ofProject p).dependencies 1).successors "sum" = ["price"] := by decide +kernel
          rw [Formula.Dependencies.Reads, only] at step
          exact Or.inr (List.mem_singleton.mp step)
        · have none : ((ofProject p).dependencies 1).successors "price" = [] := by decide +kernel
          rw [Formula.Dependencies.Reads, none] at step
          cases step
  intro n reached
  rcases reach n reached with rfl | rfl
  · refine ⟨rfl, ?_⟩
    rintro v ⟨⟩ k upTo
    interval_cases k <;> rfl
  · refine ⟨rfl, ?_⟩
    rintro v ⟨⟩ k upTo
    interval_cases k <;> rfl

end Resolver

end SlideDeck
