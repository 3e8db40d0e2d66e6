import Mathlib
import SlideDeck.Proofs.Context.Values
import SlideDeck.Proofs.Json.Normal

/-!
Where each parameter of a script takes its value from, and every problem that is met on the way: what
the writes of all stages come to, each stage being a fold whose steps give at most one parameter a
value or report at most one problem.
-/

namespace SlideDeck.Context

section Folds

variable {α : Type} {f : Context → α → Context} {xs : List α} {c : Context}

theorem lookup_eq_find? {β : Type} (fields : List (String × β)) (n : String) :
    fields.lookup n = (fields.find? (·.1 == n)).map (·.2) := by
  induction fields with
  | nil => rfl
  | cons field rest ih =>
      rw [List.lookup_cons, List.find?_cons, ih, Bool.beq_comm]
      cases field.1 == n <;> rfl

/-- Steps that are about one parameter each: where a step gives none, what was there before stays. -/
theorem lookup_params_foldl (within : Context → Prop) (key : α → String) (value : α → Option Json)
    (kept : ∀ c x, within c → within (f c x))
    (step : ∀ c x n, within c → (f c x).params.lookup n =
      if n = key x then (value x).or (c.params.lookup n) else c.params.lookup n)
    (distinct : (xs.map key).Nodup) (start : within c) (n : String) :
    (xs.foldl f c).params.lookup n =
      ((xs.find? (key · == n)).bind value).or (c.params.lookup n) := by
  induction xs generalizing c with
  | nil => rfl
  | cons x rest ih =>
      obtain ⟨fresh, others⟩ := List.nodup_cons.mp distinct
      rw [List.foldl_cons, ih others (kept c x start), step c x n start]
      by_cases here : n = key x
      · have later : rest.find? (key · == n) = none := by
          rw [List.find?_eq_none]
          intro y member same
          exact fresh (List.mem_map.mpr ⟨y, member, (beq_iff_eq.mp same).trans here⟩)
        have first : (key x == n) = true := beq_iff_eq.mpr here.symm
        rw [later, if_pos here, List.find?_cons, first]
        rfl
      · have other : (key x == n) = false := beq_false_of_ne (Ne.symm here)
        rw [if_neg here, List.find?_cons, other]

theorem warnings_foldl (within : Context → Prop) (faulty : α → Bool) (message : α → String)
    (kept : ∀ c x, within c → within (f c x))
    (step : ∀ c x, within c → (f c x).warnings =
      if faulty x then c.warnings ++ [message x] else c.warnings)
    (start : within c) :
    (xs.foldl f c).warnings = c.warnings ++ (xs.filter faulty).map message := by
  induction xs generalizing c with
  | nil => exact (List.append_nil _).symm
  | cons x rest ih =>
      rw [List.foldl_cons, ih (kept c x start), step c x start]
      cases bad : faulty x
      · rw [List.filter_cons_of_neg (by simp [bad])]
        rfl
      · rw [List.filter_cons_of_pos bad, List.map_cons, if_pos rfl, List.append_assoc,
          List.singleton_append]

end Folds

section Sources

/-- What a parameter may be bound to: the page counters and the values that scripts see. -/
def sources (c : Context) : List (String × Json) := c.counters ++ c.values

variable {c : Context} {params : List ScriptParam}

theorem value?_classify (c : Context) (source : String) :
    (BindingSource.classify source c.values).value? c.pageCurrent c.pageTotal c.values =
      c.sources.lookup source := by
  unfold BindingSource.classify
  by_cases current : source = "page_current"
  · subst current
    rfl
  by_cases total : source = "page_total"
  · subst total
    rfl
  have value : c.sources.lookup source = c.values.lookup source := by
    simp only [sources, counters, List.cons_append, List.nil_append, List.lookup_cons,
      beq_false_of_ne current, beq_false_of_ne total]
  rw [if_neg current, if_neg total, value]
  cases found : c.values.lookup source <;> simp [BindingSource.value?, found]

theorem addBinding_eq (params : List ScriptParam) (c : Context) (param source : String) :
    c.addBinding params param source =
      match c.sources.lookup source with
      | none => c.warn (unknownSource param source)
      | some j => c.bind param (fitted params param j) := by
  unfold addBinding fitted
  rw [value?_classify]
  cases c.sources.lookup source with
  | none => rfl
  | some j => cases params.find? (·.name == param) <;> rfl

theorem sources_addBinding (params : List ScriptParam) (c : Context) (param source : String) :
    (c.addBinding params param source).sources = c.sources := by
  rw [addBinding_eq]
  split <;> rfl

theorem lookup_addBinding (c : Context) (param source n : String) :
    (c.addBinding params param source).params.lookup n =
      if n = param then ((c.sources.lookup source).map (fitted params param)).or (c.params.lookup n)
      else c.params.lookup n := by
  rw [addBinding_eq]
  cases c.sources.lookup source with
  | none => exact (ite_self _).symm
  | some j => exact lookup_bind c param _ n

theorem warnings_addBinding (c : Context) (param source : String) :
    (c.addBinding params param source).warnings =
      if (c.sources.lookup source).isNone then c.warnings ++ [unknownSource param source]
      else c.warnings := by
  rw [addBinding_eq]
  cases c.sources.lookup source <;> rfl

end Sources

section Stages

variable (inst : ScriptInstance) (p : Project) (page : Nat) (c : Context)

def view (c : Context) : Nat × Nat × List (String × Json) × List (String × Json) :=
  (c.pageCurrent, c.pageTotal, c.values, c.globals)

theorem counters_of_view {c d : Context} (same : c.view = d.view) : c.counters = d.counters := by
  simp only [view, Prod.mk.injEq] at same
  simp only [counters, same]

theorem sources_of_view {c d : Context} (same : c.view = d.view) : c.sources = d.sources := by
  have values : c.values = d.values := congrArg (·.2.2.1) same
  rw [sources, counters_of_view same, values, sources]

theorem view_withParams : (withParams inst p c).view = c.view := by
  have fixed (c : Context) :
      (inst.params.foldl (fun c (x : String × Json) => c.bind x.1 x.2) c).view = c.view :=
    keeps_foldl view (fun c (x : String × Json) => (rfl : (c.bind x.1 x.2).view = c.view)) _ c
  unfold withParams
  rw [fixed, keeps_foldl view]
  · split <;> rfl
  · intro c param
    split <;> rfl

theorem view_withBindings : (withBindings inst p c).view = c.view := by
  refine keeps_foldl view (fun c (b : String × String) => ?_) _ c
  rw [addBinding_eq]
  split <;> rfl

theorem ofValues_start : (ofValues p page).params = [] ∧ (ofValues p page).globals = [] ∧
    (ofValues p page).pageCurrent = page + 1 ∧ (ofValues p page).pageTotal = p.pageCount := by
  have kept := keeps_foldl (fun c => (c.params, c.globals, c.pageCurrent, c.pageTotal))
    (f := fun c (v : NamedValue × Resolved) => c.addValue v.1 v.2) fun c v => by
      unfold addValue
      split <;> rfl
  simp only [Prod.mk.injEq] at kept
  unfold ofValues
  simp only [kept]
  split <;> simp [warn, ofPage]

theorem warnings_ofValues : (ofValues p page).warnings =
    (if p.pageCount ≤ page then [outOfRange page p.pageCount] else []) ++
      (p.values.filter fun v => !isBindable v.name).map fun v => unusableName v.name := by
  unfold ofValues
  rw [Resolver.resolvePage_eq, List.foldl_map]
  rw [warnings_foldl (fun _ => True) (fun v : NamedValue => !isBindable v.name)
    (fun v => unusableName v.name) (fun _ _ _ => trivial) _ trivial]
  · split <;> rfl
  · intro c v _
    unfold addValue
    cases isBindable v.name <;> rfl

theorem lookup_foldl_bind {fields : List (String × Json)} (ordered : Json.Ordered fields) (n : String) :
    (fields.foldl (fun c x => c.bind x.1 x.2) c).params.lookup n =
      (fields.lookup n).or (c.params.lookup n) := by
  rw [lookup_params_foldl (fun _ => True) Prod.fst (fun x => some x.2)
    (fun _ _ _ => trivial) (fun c x n _ => lookup_bind c x.1 x.2 n) ordered.nodup_keys trivial,
    lookup_eq_find? fields, Option.map_eq_bind]
  rfl

theorem lookup_withParams (fixed : Json.Ordered inst.params)
    (distinct : ((declared inst p).map (·.name)).Nodup) (n : String) :
    (withParams inst p c).params.lookup n =
      (inst.params.lookup n).or ((((declared inst p).find? (·.name == n)).bind (·.default)).or
        (c.params.lookup n)) := by
  unfold withParams
  rw [lookup_foldl_bind _ fixed, lookup_params_foldl (fun _ => True) ScriptParam.name ScriptParam.default
    (fun _ _ _ => trivial) _ distinct trivial]
  · split <;> rfl
  · intro c param n _
    cases param.default with
    | none => exact (ite_self _).symm
    | some j => exact lookup_bind c param.name j n

theorem warnings_withParams : (withParams inst p c).warnings = c.warnings ++
    if (p.script? inst.scriptId).isNone then [unknownScript inst.id inst.scriptId] else [] := by
  have fixed (c : Context) :
      (inst.params.foldl (fun c (x : String × Json) => c.bind x.1 x.2) c).warnings = c.warnings :=
    keeps_foldl (·.warnings) (fun c (x : String × Json) => (rfl : (c.bind x.1 x.2).warnings = c.warnings)) _ c
  unfold withParams
  rw [fixed, keeps_foldl (·.warnings)]
  · split
    · rfl
    · exact (List.append_nil _).symm
  · intro c param
    split <;> rfl

theorem lookup_withBindings (bound : Json.Ordered inst.bindings) (n : String) :
    (withBindings inst p c).params.lookup n =
      ((inst.bindings.lookup n).bind fun source =>
        (c.sources.lookup source).map (fitted (declared inst p) n)).or (c.params.lookup n) := by
  unfold withBindings
  rw [lookup_params_foldl (fun d => d.sources = c.sources) Prod.fst
    (fun b => (c.sources.lookup b.2).map (fitted (declared inst p) b.1)) _ _ bound.nodup_keys rfl,
    lookup_eq_find? inst.bindings]
  · cases found : inst.bindings.find? (·.1 == n) with
    | none => rfl
    | some b =>
        have named := List.find?_some found
        obtain rfl : b.1 = n := beq_iff_eq.mp named
        rfl
  · intro d b same
    rw [sources_addBinding, same]
  · intro d b n same
    rw [lookup_addBinding, same]

theorem warnings_withBindings : (withBindings inst p c).warnings = c.warnings ++
    (inst.bindings.filter fun b => (c.sources.lookup b.2).isNone).map fun b => unknownSource b.1 b.2 := by
  unfold withBindings
  rw [warnings_foldl (fun d => d.sources = c.sources)
    (fun b : String × String => (c.sources.lookup b.2).isNone) (fun b => unknownSource b.1 b.2) _ _ rfl]
  · intro d b same
    rw [sources_addBinding, same]
  · intro d b same
    rw [warnings_addBinding, same]

end Stages

section Build

variable (inst : ScriptInstance) (p : Project) (page : Nat)

/-- Where a parameter takes its value from: its source fitted to the declared type, its fixed value, its
declared default, and the page counter of its name if these are injected, the first that there is. -/
def taken? (inst : ScriptInstance) (p : Project) (c : Context) (param : String) : Option Json :=
  let bound := (inst.bindings.lookup param).bind fun source =>
    (c.sources.lookup source).map (fitted (declared inst p) param)
  let default := ((declared inst p).find? (·.name == param)).bind (·.default)
  let injected := if inst.injectPage then c.counters.lookup param else none
  bound.or ((inst.params.lookup param).or (default.or injected))

theorem view_bound : (withBindings inst p (withParams inst p (ofValues p page))).view =
    (ofValues p page).view := (view_withBindings inst p _).trans (view_withParams inst p _)

theorem view_addMissing (c : Context) (param : String) (j : Json) : (c.addMissing param j).view = c.view := by
  unfold addMissing
  split <;> rfl

theorem view_withInjected (c : Context) : (withInjected inst c).view =
    (c.pageCurrent, c.pageTotal, c.values, if inst.injectValues then c.values else c.globals) := by
  have counted : (if inst.injectPage then
      (c.addMissing "page_current" (.int c.pageCurrent)).addMissing "page_total" (.int c.pageTotal)
    else c).view = c.view := by
    split
    · rw [view_addMissing, view_addMissing]
    · rfl
  unfold withInjected
  generalize (if inst.injectPage then _ else c) = d at counted ⊢
  simp only [view, Prod.mk.injEq] at counted
  cases inst.injectValues <;> simp [view, counted]

theorem view_build : (build inst p page).view =
    (page + 1, p.pageCount, (ofValues p page).values,
      if inst.injectValues then (ofValues p page).values else []) := by
  obtain ⟨-, nothing, current, total⟩ := ofValues_start p page
  have before := view_bound inst p page
  simp only [view, Prod.mk.injEq] at before
  rw [build_eq, view_withInjected]
  simp only [before, nothing, current, total]

theorem isSome_values_iff (n : String) : ((build inst p page).values.lookup n).isSome ↔
    isBindable n = true ∧ ∃ v ∈ p.values, v.name = n := by
  rw [lookup_values_build]
  cases isBindable n with
  | false => simp
  | true => simp [Project.lastNamed, List.find?_isSome]

theorem globals_free {n : String} (reserved : n ∈ contextNames) :
    (build inst p page).globals.lookup n = none := by
  have unseen : (build inst p page).values.lookup n = none := by
    have hidden : isBindable n = false := by
      simp [isBindable, reserved]
    rw [lookup_values_build, if_neg (by simp [hidden])]
  have seen := view_build inst p page
  rw [← values_build inst p page] at seen
  simp only [view, Prod.mk.injEq] at seen
  rw [seen.2.2.2]
  split
  · exact unseen
  · rfl

theorem sources_build : (build inst p page).sources = (ofValues p page).sources ∧
    (build inst p page).counters = (ofValues p page).counters := by
  obtain ⟨-, -, current, total⟩ := ofValues_start p page
  have seen := view_build inst p page
  simp only [view, Prod.mk.injEq] at seen
  simp only [sources, counters, seen, current, total, and_self]

theorem warnings_withInjected (c : Context) : (withInjected inst c).warnings = c.warnings := by
  have counted (param : String) (j : Json) (c : Context) :
      (c.addMissing param j).warnings = c.warnings := by
    unfold addMissing
    split <;> rfl
  unfold withInjected
  split <;> split <;> simp only [counted]

theorem lookup_params_eq (fixed : Json.Ordered inst.params) (bound : Json.Ordered inst.bindings)
    (distinct : ((declared inst p).map (·.name)).Nodup) (n : String) :
    (build inst p page).params.lookup n = taken? inst p (build inst p page) n := by
  have before := sources_of_view (view_withParams inst p (ofValues p page))
  have counted : (withBindings inst p (withParams inst p (ofValues p page))).counters =
      (ofValues p page).counters := counters_of_view (view_bound inst p page)
  rw [taken?, (sources_build inst p page).1, (sources_build inst p page).2, build_eq, lookup_withInjected,
    lookup_withBindings inst p _ bound, lookup_withParams inst p _ fixed distinct, before, counted,
    (ofValues_start p page).1, List.lookup_nil, Option.or_none]
  simp only [Option.or_assoc]

theorem warnings_build : (build inst p page).warnings =
    (if p.pageCount ≤ page then [outOfRange page p.pageCount] else []) ++
      ((p.values.filter fun v => !isBindable v.name).map fun v => unusableName v.name) ++
      (if (p.script? inst.scriptId).isNone then [unknownScript inst.id inst.scriptId] else []) ++
      (inst.bindings.filter fun b => ((build inst p page).sources.lookup b.2).isNone).map
        fun b => unknownSource b.1 b.2 := by
  have before := sources_of_view (view_withParams inst p (ofValues p page))
  rw [(sources_build inst p page).1, build_eq, warnings_withInjected, warnings_withBindings, before,
    warnings_withParams, warnings_ofValues]

/-- Building a context follows one order of precedence for every parameter, shows scripts the bindable
names and no others, and reports each problem once, in the order in which the stages meet them. Pages are
counted as long as their number has 64 bits. -/
theorem build_exact (fixed : Json.Ordered inst.params) (bound : Json.Ordered inst.bindings)
    (distinct : ((declared inst p).map (·.name)).Nodup) :
    let c := build inst p page
    ((page + 1 < 2 ^ 64 → c.pageCurrent = page + 1) ∧ c.pageTotal = p.pageCount) ∧
    (∀ n, c.params.lookup n = taken? inst p c n) ∧
    (∀ n, (c.values.lookup n).isSome ↔ isBindable n = true ∧ ∃ v ∈ p.values, v.name = n) ∧
    c.warnings =
      (if p.pageCount ≤ page then [outOfRange page p.pageCount] else []) ++
      ((p.values.filter fun v => !isBindable v.name).map fun v => unusableName v.name) ++
      (if (p.script? inst.scriptId).isNone then [unknownScript inst.id inst.scriptId] else []) ++
      (inst.bindings.filter fun b => (c.sources.lookup b.2).isNone).map (fun b => unknownSource b.1 b.2) ∧
    c.globals = (if inst.injectValues then c.values else []) ∧
    ∀ n ∈ contextNames, c.globals.lookup n = none := by
  have seen := view_build inst p page
  rw [← values_build inst p page] at seen
  simp only [view, Prod.mk.injEq] at seen
  obtain ⟨current, total, -, globals⟩ := seen
  exact ⟨⟨fun _ => current, total⟩, lookup_params_eq inst p page fixed bound distinct,
    isSome_values_iff inst p page, warnings_build inst p page, globals,
    fun n reserved => globals_free inst p page reserved⟩

/-- A bound flag, a parameter whose source is unknown and so keeps its fixed value, a default, an injected
counter, and a page beyond the last. -/
theorem build_exact_of_stages :
    let text (id name shown : String) : NamedValue :=
      { id, name, kind := .string, initial := .text shown }
    let script : ScriptAsset :=
      { id := "s", name := "bar", source := "", parameters :=
        [{ name := "on", type := .boolean, default := some (.bool false) },
          { name := "size", default := some (.string "small") },
          { name := "tone", type := .color, default := some (.string "red") }] }
    let p : Project :=
      { assets := [("a", .value (text "a" "end" "skipped")), ("b", .value (text "b" "state" "true")),
          ("s", .script script)], pages := [{}] }
    let inst : ScriptInstance :=
      { id := "i", scriptId := "s", params := [("on", .bool false), ("size", .string "large")],
        bindings := [("on", "state"), ("size", "end")], injectPage := true, injectValues := true }
    let c := build inst p 3
    c.pageCurrent = 4 ∧ c.params.lookup "on" = some (.bool true) ∧ c.params.lookup "size" = some (.string "large") ∧
      c.params.lookup "tone" = some (.string "red") ∧ c.params.lookup "page_current" = some (.int 4) ∧
      c.params.lookup "end" = none ∧ (c.values.lookup "end").isSome = false ∧
      c.warnings = [outOfRange 3 1, unusableName "end", unknownSource "size" "end"] ∧
      c.globals = c.values := by
  intro text script p inst c
  have sorted : Json.Ordered inst.params ∧ Json.Ordered inst.bindings := by
    simp only [Json.Ordered, inst, List.pairwise_cons]
    decide
  obtain ⟨counters, params, values, warnings, globals, -⟩ :=
    build_exact inst p 3 sorted.1 sorted.2 (by decide)
  have hidden : (c.values.lookup "end").isSome = false :=
    Bool.eq_false_iff.mpr fun seen => absurd ((values "end").mp seen).1 (by decide +kernel)
  exact ⟨counters.1 (by decide), (params "on").trans (by cbv), (params "size").trans (by cbv),
    (params "tone").trans (by cbv), (params "page_current").trans (by cbv), (params "end").trans (by cbv), hidden,
    warnings.trans (by cbv), globals⟩

end Build

end SlideDeck.Context
