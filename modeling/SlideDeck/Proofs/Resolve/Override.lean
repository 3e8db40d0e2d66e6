import Mathlib
import SlideDeck.Resolve.Override

/-!
What the override index answers: which pages it has for a value, and the greatest of them before a
page.
-/

namespace SlideDeck

def Project.override? (p : Project) (page : Nat) (id : String) : Option Literal :=
  p.pages[page]?.bind (·.override? id)

theorem lookup_eraseKey {α : Type} (key : String) (fields : List (String × α)) (other : String) :
    (eraseKey key fields).lookup other = if other = key then none else fields.lookup other := by
  induction fields with
  | nil => simp [eraseKey]
  | cons field rest ih =>
      obtain ⟨k, v⟩ := field
      rw [eraseKey] at ih ⊢
      by_cases erased : k = key
      · subst erased
        rw [List.filter_cons_of_neg (by simp), ih]
        by_cases same : other = k <;> simp [List.lookup_cons, same, beq_false_of_ne]
      · by_cases first : other = k
        · simp [first, erased]
        · simp [List.lookup_cons, ih, erased, first, beq_false_of_ne]

namespace OverrideIndex

variable {i : OverrideIndex} {id : String} {page : Nat}

theorem has_iff : i.has id page = true ↔ page ∈ i.pagesOf id := List.contains_iff_mem

theorem pagesOf_record (i : OverrideIndex) (id other : String) (page : Nat) :
    (i.record id page).pagesOf other = if other = id then (i.pagesOf id).insert page else i.pagesOf other := by
  rw [pagesOf, record, Json.lookup_insert]
  split <;> rfl

theorem has_record {other : String} {q : Nat} :
    (i.record id page).has other q = true ↔ i.has other q = true ∨ (other, q) = (id, page) := by
  rw [has_iff, has_iff, pagesOf_record]
  split
  · rename_i same
    subst same
    rw [List.mem_insert_iff, or_comm, Prod.mk.injEq]
    simp
  · rename_i differs
    simp [differs]

/-- Ids whose last page is forgotten are dropped, which shows in no answer. -/
theorem pagesOf_forget (i : OverrideIndex) (id other : String) (page : Nat) :
    (i.forget id page).pagesOf other =
      if other = id then (i.pagesOf id).filter (· != page) else i.pagesOf other := by
  rw [forget]
  split
  · rename_i absent
    by_cases same : other = id
    · subst same
      simp [pagesOf, absent]
    · rw [if_neg same]
  · rename_i pages found
    have here : i.pagesOf id = pages := by rw [pagesOf, found, Option.getD_some]
    rw [here, pagesOf]
    by_cases emptied : (pages.filter (· != page)).isEmpty = true
    · simp only [emptied, if_true]
      rw [lookup_eraseKey, List.isEmpty_iff.mp emptied]
      split <;> rfl
    · simp only [emptied, Bool.false_eq_true, if_false]
      rw [Json.lookup_insert]
      split <;> rfl

theorem has_forget {other : String} {q : Nat} :
    (i.forget id page).has other q = true ↔ i.has other q = true ∧ (other, q) ≠ (id, page) := by
  rw [has_iff, has_iff, pagesOf_forget]
  split
  · rename_i same
    subst same
    simp
  · rename_i differs
    simp [differs]

theorem has_foldl_record {marks : List (String × Nat)} :
    (marks.foldl (fun i m => i.record m.1 m.2) i).has id page = true ↔
      i.has id page = true ∨ (id, page) ∈ marks := by
  induction marks generalizing i with
  | nil => simp
  | cons m rest ih => rw [List.foldl_cons, ih, has_record, List.mem_cons, or_assoc]

theorem isSome_override_mem {p : Page} (carried : (p.override? id).isSome = true) :
    id ∈ p.overrides.map (·.1) := by
  unfold Page.override? at carried
  cases found : p.overrides.lookup id with
  | none => simp [found] at carried
  | some l =>
      obtain ⟨front, back, shape, -⟩ := List.lookup_eq_some_iff.mp found
      simp [shape]

theorem mem_marksFrom {pages : List Page} {start : Nat} :
    (id, page) ∈ marksFrom start pages ↔
      ∃ k, page = start + k ∧ (pages[k]?.bind (·.override? id)).isSome = true := by
  induction pages generalizing start with
  | nil => simp [marksFrom]
  | cons p rest ih =>
      rw [marksFrom, List.mem_append, ih]
      constructor
      · rintro (here | ⟨k, rfl, carried⟩)
        · obtain ⟨other, kept, same⟩ := List.mem_map.mp here
          obtain ⟨rfl, rfl⟩ := Prod.mk.inj same
          exact ⟨0, rfl, (List.mem_filter.mp kept).2⟩
        · exact ⟨k + 1, by omega, carried⟩
      · rintro ⟨k, rfl, carried⟩
        cases k with
        | zero =>
            have known : (p.override? id).isSome = true := carried
            have kept : id ∈ (p.overrides.map (·.1)).filter fun id => (p.override? id).isSome :=
              List.mem_filter.mpr ⟨isSome_override_mem known, known⟩
            exact Or.inl (List.mem_map.mpr ⟨id, kept, rfl⟩)
        | succ k => exact Or.inr ⟨k, by omega, carried⟩

theorem has_ofPages {p : Project} :
    (ofPages p.pages).has id page = true ↔ (p.override? page id).isSome = true := by
  unfold ofPages
  rw [has_foldl_record, mem_marksFrom]
  simp [empty, has, pagesOf, Project.override?]

section LastBefore

theorem mem_pagesBefore {q : Nat} :
    q ∈ (i.pagesOf id).filter (· < page) ↔ q < page ∧ i.has id q = true := by
  rw [List.mem_filter, decide_eq_true_eq, has_iff, and_comm]

theorem lastBefore_eq_some_iff {q : Nat} :
    i.lastBefore id page = some q ↔
      (q < page ∧ i.has id q = true) ∧ ∀ k < page, i.has id k = true → k ≤ q := by
  rw [lastBefore, List.max?_eq_some_iff, mem_pagesBefore]
  simp only [mem_pagesBefore, and_imp]

theorem lastBefore_eq_none_iff :
    i.lastBefore id page = none ↔ ∀ k < page, i.has id k = false := by
  rw [lastBefore, List.max?_eq_none_iff, List.eq_nil_iff_forall_not_mem]
  simp only [mem_pagesBefore, not_and, Bool.not_eq_true]

end LastBefore

end OverrideIndex

end SlideDeck
