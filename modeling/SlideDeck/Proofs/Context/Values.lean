import Mathlib
import SlideDeck.Context.Basic
import SlideDeck.Proofs.Resolve.Denotation

/-!
The values that a script sees, next to those that formulas read. Where several values carry a name,
formulas read the first of them and scripts see the last.
-/

namespace SlideDeck

def Project.lastNamed (p : Project) (name : String) : Option NamedValue :=
  p.values.reverse.find? (·.name == name)

theorem Project.lastNamed_eq_lookup {p : Project} {name : String}
    (single : ∀ v ∈ p.values, v.name = name → p.lookup name = some v) :
    p.lastNamed name = p.lookup name := by
  cases last : p.lastNamed name with
  | some v =>
      have member : v ∈ p.values := List.mem_reverse.mp (List.mem_of_find?_eq_some last)
      exact (single v member (by simpa using List.find?_some last)).symm
  | none =>
      symm
      rw [Project.lookup, List.find?_eq_none]
      intro v member
      exact List.find?_eq_none.mp last v (List.mem_reverse.mpr member)

namespace Context

section Values

variable {c : Context} {n : String}

theorem keeps_foldl {α β : Type} (part : Context → β) {f : Context → α → Context}
    (keeps : ∀ c x, part (f c x) = part c) (xs : List α) (c : Context) :
    part (xs.foldl f c) = part c :=
  List.foldlRecOn (motive := fun d => part d = part c) xs f rfl fun d kept x _ => (keeps d x).trans kept

theorem lookup_bind (c : Context) (param : String) (value : Json) (other : String) :
    (c.bind param value).params.lookup other =
      if other = param then some value else c.params.lookup other :=
  Json.lookup_insert param value c.params other

theorem values_bind (c : Context) (param : String) (value : Json) :
    (c.bind param value).values = c.values := rfl

theorem values_addBinding (declared : List ScriptParam) (c : Context) (param source : String) :
    (c.addBinding declared param source).values = c.values := by
  unfold addBinding
  split
  · rfl
  · split <;> rfl

theorem values_addMissing (c : Context) (param : String) (value : Json) :
    (c.addMissing param value).values = c.values := by
  unfold addMissing
  split <;> rfl

theorem lookup_addValue (c : Context) (v : NamedValue) (shown : Resolved) (n : String) :
    (c.addValue v shown).values.lookup n =
      if isBindable n ∧ v.name = n then some shown.toJson else c.values.lookup n := by
  unfold addValue
  by_cases same : v.name = n
  · subst same
    cases isBindable v.name
    · simp [warn]
    · simp [Json.lookup_insert]
  · have other : ¬ (isBindable n = true ∧ v.name = n) := fun both => same both.2
    rw [if_neg other]
    split
    · rw [Json.lookup_insert, if_neg (Ne.symm same)]
    · rfl

theorem lookup_foldl_addValue (σ : NamedValue → Resolved) (vs : List NamedValue) :
    ((vs.map fun v => (v, σ v)).foldl (fun c v => c.addValue v.1 v.2) c).values.lookup n =
      (if isBindable n then (vs.reverse.find? (·.name == n)).map fun v => (σ v).toJson else none).or
        (c.values.lookup n) := by
  induction vs generalizing c with
  | nil => cases isBindable n <;> rfl
  | cons v rest ih =>
      rw [List.map_cons, List.foldl_cons, ih, lookup_addValue, List.reverse_cons, List.find?_append]
      cases isBindable n
      · simp
      · cases rest.reverse.find? (·.name == n) with
        | some w => rfl
        | none => by_cases same : v.name = n <;> simp [same]

theorem lookup_addMissing (c : Context) (param : String) (value : Json) (other : String) :
    (c.addMissing param value).params.lookup other =
      (c.params.lookup other).or (if other = param then some value else none) := by
  unfold addMissing
  by_cases same : other = param
  · subst same
    cases found : c.params.lookup other <;> simp [found, lookup_bind]
  · rw [if_neg same, Option.or_none]
    split
    · rfl
    · rw [lookup_bind, if_neg same]

end Values

section Bindings

def declared (inst : ScriptInstance) (p : Project) : List ScriptParam :=
  ((p.script? inst.scriptId).map (·.parameters)).getD []

/-- A value as a parameter takes it: fitted to the declared type, if it is declared. -/
def fitted (params : List ScriptParam) (param : String) (j : Json) : Json :=
  match params.find? (·.name == param) with
  | some p => coerce p.type j
  | none => j

variable {c : Context} {params : List ScriptParam} {param n : String} {j : Json}

theorem lookup_addBinding_other {other : String} (differs : param ≠ other) (source : String) :
    (c.addBinding params other source).params.lookup param = c.params.lookup param := by
  unfold addBinding
  split
  · rfl
  · split <;> rw [lookup_bind, if_neg differs]

theorem lookup_addBinding_self (bindable : isBindable n = true) (found : c.values.lookup n = some j) :
    (c.addBinding params param n).params.lookup param = some (fitted params param j) := by
  have free : contextNames.contains n = false := by
    simp only [isBindable, Bool.and_eq_true, Bool.not_eq_true'] at bindable
    exact bindable.2
  simp only [contextNames, List.contains_cons, List.contains_nil, Bool.or_false,
    Bool.or_eq_false_iff, beq_eq_false_iff_ne] at free
  have named : BindingSource.classify n c.values = .namedValue n := by
    simp [BindingSource.classify, free.1, free.2.1, found]
  have value : (BindingSource.classify n c.values).value? c.pageCurrent c.pageTotal c.values =
      some j := by
    rw [named]
    exact found
  unfold addBinding fitted
  rw [value]
  cases params.find? (·.name == param) with
  | none => rw [lookup_bind, if_pos rfl]
  | some p => rw [lookup_bind, if_pos rfl]

/-- What a parameter is bound to is what it has in the end, where no other source is given for it. -/
theorem lookup_foldl_addBinding {bindings : List (String × String)} (bindable : isBindable n = true)
    (only : ∀ s, (param, s) ∈ bindings → s = n) (found : c.values.lookup n = some j)
    (bound : (param, n) ∈ bindings ∨ c.params.lookup param = some (fitted params param j)) :
    (bindings.foldl (fun c b => c.addBinding params b.1 b.2) c).params.lookup param =
      some (fitted params param j) := by
  induction bindings generalizing c with
  | nil => exact bound.resolve_left List.not_mem_nil
  | cons b rest ih =>
      obtain ⟨other, source⟩ := b
      rw [List.foldl_cons]
      apply ih (fun s member => only s (List.mem_cons_of_mem _ member))
      · rw [values_addBinding, found]
      · by_cases same : param = other
        · subst same
          obtain rfl := only source List.mem_cons_self
          exact Or.inr (lookup_addBinding_self bindable found)
        · rw [lookup_addBinding_other same]
          refine bound.imp_left fun member => (List.mem_cons.mp member).resolve_left ?_
          exact fun first => same (congrArg Prod.fst first)

end Bindings

section Build

def ofValues (p : Project) (page : Nat) : Context :=
  let c := ofPage (page + 1) p.pageCount
  let c := if p.pageCount ≤ page then c.warn (outOfRange page p.pageCount) else c
  ((Resolver.ofProject p).resolvePage page).foldl (fun c v => c.addValue v.1 v.2) c

def withParams (inst : ScriptInstance) (p : Project) (c : Context) : Context :=
  let c := if (p.script? inst.scriptId).isNone then c.warn (unknownScript inst.id inst.scriptId) else c
  let c := (declared inst p).foldl (fun c p => match p.default with
    | some v => c.bind p.name v
    | none => c) c
  inst.params.foldl (fun c p => c.bind p.1 p.2) c

def withBindings (inst : ScriptInstance) (p : Project) (c : Context) : Context :=
  inst.bindings.foldl (fun c b => c.addBinding (declared inst p) b.1 b.2) c

def counters (c : Context) : List (String × Json) :=
  [("page_current", .int c.pageCurrent), ("page_total", .int c.pageTotal)]

def withInjected (inst : ScriptInstance) (c : Context) : Context :=
  let c := if inst.injectPage then
      (c.addMissing "page_current" (.int c.pageCurrent)).addMissing "page_total" (.int c.pageTotal)
    else c
  if inst.injectValues then { c with globals := c.values } else c

variable (inst : ScriptInstance) (p : Project) (page : Nat)

theorem build_eq : build inst p page =
    withInjected inst (withBindings inst p (withParams inst p (ofValues p page))) := rfl

theorem values_withParams (c : Context) : (withParams inst p c).values = c.values := by
  have fixed (c : Context) :
      (inst.params.foldl (fun c (x : String × Json) => c.bind x.1 x.2) c).values = c.values :=
    keeps_foldl (·.values) (fun c (x : String × Json) => values_bind c x.1 x.2) _ c
  unfold withParams
  rw [fixed, keeps_foldl (·.values)]
  · split <;> rfl
  · intro c param
    split <;> rfl

theorem values_withBindings (c : Context) : (withBindings inst p c).values = c.values :=
  keeps_foldl (·.values) (fun c (b : String × String) => values_addBinding _ c b.1 b.2) _ c

theorem values_withInjected (c : Context) : (withInjected inst c).values = c.values := by
  unfold withInjected
  split <;> split <;> simp only [values_addMissing]

theorem values_build : (build inst p page).values = (ofValues p page).values := by
  rw [build_eq, values_withInjected, values_withBindings, values_withParams]

theorem globals_build (injected : inst.injectValues = true) :
    (build inst p page).globals = (build inst p page).values := by
  rw [build_eq, withInjected, if_pos injected]

theorem lookup_withInjected (c : Context) (n : String) : (withInjected inst c).params.lookup n =
    (c.params.lookup n).or (if inst.injectPage then c.counters.lookup n else none) := by
  have injected : (withInjected inst c).params = (if inst.injectPage then
      (c.addMissing "page_current" (.int c.pageCurrent)).addMissing "page_total" (.int c.pageTotal)
    else c).params := by
    unfold withInjected
    split <;> split <;> rfl
  rw [injected]
  cases inst.injectPage with
  | false => exact (Option.or_none).symm
  | true =>
      simp only [if_true, lookup_addMissing, counters, List.lookup_cons, Option.or_assoc]
      congr 1
      by_cases current : n = "page_current"
      · simp [current]
      · rw [if_neg current, beq_false_of_ne current, Option.none_or]
        by_cases total : n = "page_total"
        · rw [if_pos total, total]
          rfl
        · rw [if_neg total, beq_false_of_ne total]
          rfl

theorem lookup_values_build (n : String) :
    (build inst p page).values.lookup n = if isBindable n then
      (p.lastNamed n).map fun v => ((Resolver.ofProject p).resolve v page).toJson else none := by
  have none_yet : (let c := ofPage (page + 1) p.pageCount
      if p.pageCount ≤ page then c.warn (outOfRange page p.pageCount) else c).values = [] := by
    dsimp only
    split <;> rfl
  rw [values_build, ofValues, Resolver.resolvePage_eq, lookup_foldl_addValue, none_yet,
    List.lookup_nil, Option.or_none]
  rfl

theorem lookup_params_build {n param : String} {j : Json} (bindable : isBindable n = true)
    (found : (build inst p page).values.lookup n = some j) (bound : (param, n) ∈ inst.bindings)
    (only : ∀ s, (param, s) ∈ inst.bindings → s = n) :
    (build inst p page).params.lookup param = some (fitted (declared inst p) param j) := by
  have kept : (withParams inst p (ofValues p page)).values.lookup n = some j := by
    rwa [values_withParams, ← values_build inst p page]
  rw [build_eq, lookup_withInjected, withBindings,
    lookup_foldl_addBinding bindable only kept (.inl bound), Option.some_or]

/-- Scripts see the last value of a name. Where only one value carries it, that is the value formulas
read under the name, and so do a parameter bound to it and the variable injected for it. -/
theorem values_last_named (n : String) (bindable : isBindable n = true) :
    let r := Resolver.ofProject p
    let c := build inst p page
    c.values.lookup n = (p.lastNamed n).map (fun v => (r.resolve v page).toJson) ∧
    ((∀ v ∈ p.values, v.name = n → p.lookup n = some v) →
      c.values.lookup n = (p.lookup n).map fun v => (r.resolve v page).toJson) ∧
    (inst.injectValues = true → c.globals.lookup n = c.values.lookup n) ∧
    (∀ param j, (param, n) ∈ inst.bindings → (∀ s, (param, s) ∈ inst.bindings → s = n) →
      c.values.lookup n = some j →
      c.params.lookup param = some (fitted (declared inst p) param j)) := by
  have last := (lookup_values_build inst p page n).trans (if_pos bindable)
  refine ⟨last, fun single => ?_, fun injected => ?_, ?_⟩
  · rw [last, Project.lastNamed_eq_lookup single]
  · rw [globals_build inst p page injected]
  · intro param j bound only found
    exact lookup_params_build inst p page bindable found bound only

/-- Two values of one name, and an instance that binds a parameter to another one and injects them. -/
theorem values_last_named_of_pair :
    let text (id name shown : String) : NamedValue :=
      { id, name, kind := .string, initial := .text shown }
    let p := Project.ofValues [text "a" "n" "first", text "b" "n" "second", text "c" "m" "only"]
    let inst : ScriptInstance :=
      { id := "i", scriptId := "s", bindings := [("q", "m")], injectValues := true }
    let c := build inst p 0
    isBindable "n" = true ∧ isBindable "m" = true ∧
      c.values.lookup "n" = some (.string "second") ∧ c.values.lookup "m" = some (.string "only") ∧
      c.globals.lookup "m" = some (.string "only") ∧ c.params.lookup "q" = some (.string "only") := by
  intro text p inst c
  have twice := values_last_named inst p 0 "n" (by decide +kernel)
  have once := values_last_named inst p 0 "m" (by decide +kernel)
  have single : ∀ v ∈ p.values, v.name = "m" → p.lookup "m" = some v := by
    simp [p, text, Project.values_ofValues, Project.lookup]
  have found : c.values.lookup "m" = some (.string "only") := once.2.1 single
  have bound : (("q", "m") : String × String) ∈ inst.bindings := List.mem_cons_self
  refine ⟨by decide +kernel, by decide +kernel, twice.1, found, (once.2.2.1 rfl).trans found, ?_⟩
  exact once.2.2.2 "q" _ bound (by simp [inst]) found

/-- Scripts and formulas do not always see the same value under one name. -/
theorem values_differ_from_lookup :
    ¬ ∀ (inst : ScriptInstance) (p : Project) (page : Nat) (n : String), isBindable n = true →
      (∃ v ∈ p.values, v.name = n) →
      (build inst p page).values.lookup n =
        (p.lookup n).map fun v => ((Resolver.ofProject p).resolve v page).toJson := by
  let text (id shown : String) : NamedValue :=
    { id, name := "n", kind := .string, initial := .text shown }
  let p := Project.ofValues [text "a" "first", text "b" "second"]
  intro agree
  have here := agree { id := "i", scriptId := "s" } p 0 "n" (by decide +kernel)
    ⟨text "a" "first", by simp [p, Project.values_ofValues], rfl⟩
  rw [lookup_values_build, if_pos (by decide +kernel)] at here
  have differs : some (Json.string "second") = some (Json.string "first") := here
  simp at differs

end Build

end Context

end SlideDeck
