import SlideDeck.Resolve.Trace

/-!
Tracing changes no result: what is traced comes to the same values and errors, and of every formula that
fails on a page an event tells.
-/

namespace SlideDeck.Resolver

variable {r : Resolver} {f : PageFormulas} {page : Nat} {trace : NamedValue → Traced Resolved}
  {resolve : NamedValue → Resolved}

theorem traceTexts_fst (same : ∀ v, (trace v).1 = resolve v) (names : List String) :
    (r.traceTexts f trace names).1 = r.texts f resolve names := by
  induction names with
  | nil => rfl
  | cons name rest ih =>
      unfold traceTexts texts
      cases r.project.lookup name with
      | none => rfl
      | some v =>
          dsimp only
          cases (if v.kind = .formula then f.cycleFrom name else none) with
          | some chain => rfl
          | none =>
              dsimp only
              rw [← same v, ← ih]
              obtain ⟨result, events⟩ := trace v
              cases result <;> rfl

theorem traceText_fst (same : ∀ v, (trace v).1 = resolve v) (text : String) :
    (r.traceText f page trace text).1 = r.evaluateText f page resolve text := by
  unfold traceText evaluateText
  rw [← traceTexts_fst same]
  obtain ⟨values, events⟩ := r.traceTexts f trace (Formula.uniqueReferences text)
  cases values with
  | error e => rfl
  | ok values =>
      dsimp only
      cases evaluateExpanded (r.expand values page text) <;> rfl

theorem traceWith_fst (fuel : Nat) (v : NamedValue) :
    (r.traceWith f page fuel v).1 = r.resolveWith f page fuel v := by
  induction fuel generalizing v with
  | zero => rfl
  | succ fuel ih =>
      unfold traceWith resolveWith
      cases v.kind with
      | number => rfl
      | string => rfl
      | formula =>
          dsimp only
          cases f.cycleFrom v.name with
          | some chain => rfl
          | none =>
              dsimp only
              rw [← traceText_fst ih]
              obtain ⟨result, events⟩ := r.traceText f page (r.traceWith f page fuel) (r.raw v page).toText
              cases result <;> rfl

/-- Whatever fails, with fuel left, is a formula, and its event is there. -/
theorem failed_mem_traceWith {fuel : Nat} {v : NamedValue} {e : Formula.Error}
    (fails : r.resolveWith f page (fuel + 1) v = .error e) :
    failed v.name page e ∈ (r.traceWith f page (fuel + 1) v).2 := by
  rw [← traceWith_fst] at fails
  unfold traceWith at fails ⊢
  dsimp only at fails ⊢
  cases kind : v.kind with
  | number => simp only [kind, reduceCtorEq] at fails
  | string => simp only [kind, reduceCtorEq] at fails
  | formula =>
      simp only [kind] at fails ⊢
      cases cyclic : f.cycleFrom v.name with
      | some chain =>
          simp only [cyclic] at fails ⊢
          cases fails
          exact List.mem_singleton_self _
      | none =>
          simp only [cyclic] at fails ⊢
          generalize r.traceText f page (r.traceWith f page fuel) (r.raw v page).toText = traced at fails ⊢
          obtain ⟨result, events⟩ := traced
          cases result with
          | ok x => cases fails
          | error e' =>
              cases fails
              exact List.mem_append_right events (List.mem_singleton_self _)

theorem traced_evaluate (r : Resolver) (text : String) (page : Nat) :
    (r.traceText (r.formulas page) page (r.traceWith (r.formulas page) page r.fuel) text).1 =
      r.evaluate text page :=
  traceText_fst (traceWith_fst r.fuel) text

/-- Of every formula that fails on a page the events of the page tell, with the reason. -/
theorem failed_mem_pageEvents {v : NamedValue} {e : Formula.Error} (fails : (v, e) ∈ r.check page) :
    failed v.name page e ∈ r.pageEvents page := by
  obtain ⟨⟨w, resolved⟩, member, shown⟩ := List.mem_filterMap.mp fails
  obtain ⟨u, inside, same⟩ := List.mem_map.mp member
  obtain ⟨rfl, rfl⟩ := Prod.mk.inj same
  cases failure : r.resolveWith (r.formulas page) page r.fuel u with
  | error e' =>
      rw [failure] at shown
      cases shown
      exact List.mem_flatMap.mpr ⟨v, inside, failed_mem_traceWith failure⟩
  | number x =>
      rw [failure] at shown
      cases shown
  | text s =>
      rw [failure] at shown
      cases shown

end SlideDeck.Resolver
