import Mathlib
import SlideDeck.Proofs.Resolve.Override

/-!
An override index that is told of every change answers as one built anew. What it has is decided, for each
value and page apart, by the last thing it was told.
-/

namespace SlideDeck

namespace OverrideIndex

inductive Update where
  | record (id : String) (page : Nat)
  | forget (id : String) (page : Nat)

namespace Update

def apply (i : OverrideIndex) : Update → OverrideIndex
  | record id page => i.record id page
  | forget id page => i.forget id page

def target : Update → String × Nat
  | record id page => (id, page)
  | forget id page => (id, page)

def isRecord : Update → Bool
  | record _ _ => true
  | forget _ _ => false

def lastAbout (id : String) (page : Nat) (updates : List Update) : Option Update :=
  updates.reverse.find? fun u => u.target = (id, page)

end Update

def updated (i : OverrideIndex) (updates : List Update) : OverrideIndex := updates.foldl Update.apply i

section Updates

variable {i : OverrideIndex} {id : String} {page : Nat}

theorem has_apply (i : OverrideIndex) (u : Update) (id : String) (page : Nat) :
    (u.apply i).has id page = if u.target = (id, page) then u.isRecord else i.has id page := by
  rw [Bool.eq_iff_iff]
  cases u with
  | record other q =>
      rw [Update.apply, has_record]
      by_cases here : (other, q) = (id, page)
      · simp [Update.target, Update.isRecord, here]
      · simp [Update.target, here, Ne.symm here]
  | forget other q =>
      rw [Update.apply, has_forget]
      by_cases here : (other, q) = (id, page)
      · simp [Update.target, Update.isRecord, here]
      · simp [Update.target, here, Ne.symm here]

theorem has_updated (i : OverrideIndex) (updates : List Update) (id : String) (page : Nat) :
    (i.updated updates).has id page =
      ((Update.lastAbout id page updates).map Update.isRecord).getD (i.has id page) := by
  induction updates generalizing i with
  | nil => rfl
  | cons u rest ih =>
      rw [updated, List.foldl_cons, ← updated, ih, has_apply, Update.lastAbout, Update.lastAbout,
        List.reverse_cons, List.find?_append]
      cases List.find? (fun u => decide (u.target = (id, page))) rest.reverse with
      | some last => rfl
      | none => by_cases here : u.target = (id, page) <;> simp [here]

theorem mem_of_lastAbout {updates : List Update} {u : Update}
    (last : Update.lastAbout id page updates = some u) : u ∈ updates ∧ u.target = (id, page) := by
  refine ⟨List.mem_reverse.mp (List.mem_of_find?_eq_some last), ?_⟩
  simpa using List.find?_some last

/-- The index has an override exactly if the last update about it was a record, or if it had it from the
start and was never told to forget it. -/
theorem has_updated_iff {updates : List Update} :
    (i.updated updates).has id page = true ↔
      Update.lastAbout id page updates = some (.record id page) ∨
        i.has id page = true ∧ .forget id page ∉ updates := by
  rw [has_updated]
  cases last : Update.lastAbout id page updates with
  | none =>
      have never : .forget id page ∉ updates := by
        intro told
        have silent := List.find?_eq_none.mp last _ (List.mem_reverse.mpr told)
        simp [Update.target] at silent
      simp [never]
  | some u =>
      obtain ⟨told, about⟩ := mem_of_lastAbout last
      cases u with
      | record other q =>
          obtain ⟨rfl, rfl⟩ := Prod.mk.inj about
          simp [Update.isRecord]
      | forget other q =>
          obtain ⟨rfl, rfl⟩ := Prod.mk.inj about
          simp [Update.isRecord, told]

theorem lastBefore_congr {j : OverrideIndex} (same : ∀ q, i.has id q = j.has id q) (page : Nat) :
    i.lastBefore id page = j.lastBefore id page := by
  apply Option.ext
  intro q
  rw [lastBefore_eq_some_iff, lastBefore_eq_some_iff]
  simp only [same]

end Updates

end OverrideIndex

/-- A change of the override of a value on a page. -/
inductive OverrideEdit where
  | set (id : String) (page : Nat) (l : Literal)
  | blank (id : String) (page : Nat)
  | clear (id : String) (page : Nat)

namespace OverrideEdit

open OverrideIndex (Update)

def id : OverrideEdit → String
  | set id _ _ => id
  | blank id _ => id
  | clear id _ => id

def page : OverrideEdit → Nat
  | set _ page _ => page
  | blank _ page => page
  | clear _ page => page

def value : OverrideEdit → Option Literal
  | set _ _ l => some l
  | blank _ _ => none
  | clear _ _ => none

def change : OverrideEdit → Page → Page
  | set id _ l => (·.setOverride id (some l))
  | blank id _ => (·.setOverride id none)
  | clear id _ => (·.clearOverride id)

def apply (p : Project) (e : OverrideEdit) : Project := p.modifyPage e.page e.change

def update : OverrideEdit → Update
  | set id page _ => .record id page
  | blank id page => .forget id page
  | clear id page => .forget id page

end OverrideEdit

def Project.edited (p : Project) (edits : List OverrideEdit) : Project := edits.foldl OverrideEdit.apply p

section Edits

variable {p : Project}

theorem Page.override?_setOverride (pg : Page) (l : Option Literal) (id other : String) :
    (pg.setOverride id l).override? other = if other = id then l else pg.override? other := by
  rw [Page.override?, Page.setOverride, Json.lookup_insert]
  split <;> rfl

theorem Page.override?_clearOverride (pg : Page) (id other : String) :
    (pg.clearOverride id).override? other = if other = id then none else pg.override? other := by
  rw [Page.override?, Page.clearOverride, lookup_eraseKey]
  split <;> rfl

theorem OverrideEdit.override?_change (e : OverrideEdit) (pg : Page) (other : String) :
    (e.change pg).override? other = if other = e.id then e.value else pg.override? other := by
  cases e with
  | set id page l => exact pg.override?_setOverride (some l) id other
  | blank id page => exact pg.override?_setOverride none id other
  | clear id page => exact pg.override?_clearOverride id other

theorem OverrideEdit.override?_apply (e : OverrideEdit) (inside : e.page < p.pageCount) (id : String)
    (page : Nat) :
    (e.apply p).override? page id = if (e.id, e.page) = (id, page) then e.value else p.override? page id := by
  rw [Project.override?, OverrideEdit.apply, Project.modifyPage, List.getElem?_modify]
  by_cases here : e.page = page
  · subst here
    obtain ⟨pg, found⟩ : ∃ pg, p.pages[e.page]? = some pg := ⟨_, List.getElem?_eq_getElem inside⟩
    by_cases same : id = e.id
    · simp [found, e.override?_change, same]
    · simp [found, e.override?_change, same, Ne.symm same, Project.override?]
  · simp [here, Project.override?]

theorem OverrideEdit.pageCount_apply (e : OverrideEdit) : (e.apply p).pageCount = p.pageCount := by
  simp [OverrideEdit.apply, Project.modifyPage, Project.pageCount]

theorem OverrideEdit.target_update (e : OverrideEdit) : e.update.target = (e.id, e.page) := by
  cases e <;> rfl

theorem OverrideEdit.isRecord_update (e : OverrideEdit) : e.update.isRecord = e.value.isSome := by
  cases e <;> rfl

/-- An index that has exactly the overrides of a project. -/
def OverrideIndex.Mirrors (i : OverrideIndex) (p : Project) : Prop :=
  ∀ id page, i.has id page = (p.override? page id).isSome

theorem mirrors_ofPages (p : Project) : (OverrideIndex.ofPages p.pages).Mirrors p := by
  intro id page
  rw [Bool.eq_iff_iff, OverrideIndex.has_ofPages]

theorem OverrideIndex.Mirrors.apply {i : OverrideIndex} (mirrors : i.Mirrors p) (e : OverrideEdit)
    (inside : e.page < p.pageCount) : (e.update.apply i).Mirrors (e.apply p) := by
  intro id page
  rw [has_apply, e.override?_apply inside, e.target_update, e.isRecord_update, mirrors]
  exact (apply_ite Option.isSome _ _ _).symm

/-- An index that is told of every edit goes on having exactly the overrides of the project. -/
theorem OverrideIndex.Mirrors.edited {i : OverrideIndex} (mirrors : i.Mirrors p) {edits : List OverrideEdit}
    (inside : ∀ e ∈ edits, e.page < p.pageCount) :
    (i.updated (edits.map OverrideEdit.update)).Mirrors (p.edited edits) := by
  induction edits generalizing i p with
  | nil => exact mirrors
  | cons e rest ih =>
      have here := inside e List.mem_cons_self
      apply ih (mirrors.apply e here)
      intro later member
      rw [e.pageCount_apply]
      exact inside later (List.mem_cons_of_mem _ member)

/-- An index built from a project and told of every edit answers as the one built from the edited project.
From any start, what it has is decided by the last update about it, and the page it gives is the greatest
one before that it has. -/
theorem updated_eq_rebuilt (p : Project) (edits : List OverrideEdit)
    (inside : ∀ e ∈ edits, e.page < p.pageCount) :
    let told := (OverrideIndex.ofPages p.pages).updated (edits.map OverrideEdit.update)
    let rebuilt := OverrideIndex.ofPages (p.edited edits).pages
    (∀ id page, told.has id page = rebuilt.has id page ∧
      told.lastBefore id page = rebuilt.lastBefore id page) ∧
    ∀ (start : OverrideIndex) (updates : List OverrideIndex.Update) (id : String),
      let i := start.updated updates
      (∀ page, i.has id page = true ↔
        OverrideIndex.Update.lastAbout id page updates = some (.record id page) ∨
          start.has id page = true ∧ .forget id page ∉ updates) ∧
      (∀ page q, i.lastBefore id page = some q ↔
        (q < page ∧ i.has id q = true) ∧ ∀ k < page, i.has id k = true → k ≤ q) ∧
      (∀ page, i.lastBefore id page = none ↔ ∀ k < page, i.has id k = false) := by
  intro told rebuilt
  have mirrors : told.Mirrors (p.edited edits) := (mirrors_ofPages p).edited inside
  have same (id : String) (page : Nat) : told.has id page = rebuilt.has id page := by
    rw [mirrors, mirrors_ofPages]
  refine ⟨fun id page => ⟨same id page, OverrideIndex.lastBefore_congr (same id) page⟩, ?_⟩
  intro start updates id i
  exact ⟨fun page => OverrideIndex.has_updated_iff, fun page q => OverrideIndex.lastBefore_eq_some_iff,
    fun page => OverrideIndex.lastBefore_eq_none_iff⟩

/-- A value set twice on one page, blanked on another, cleared and set again on a third. -/
theorem updated_eq_rebuilt_of_edits :
    let front : Page := { overrides := [("v", some (.text "one")), ("w", some (.text "other"))] }
    let p : Project := { pages := [front, { overrides := [("v", none)] }, {}] }
    let edits : List OverrideEdit := [.set "v" 2 (.text "two"), .clear "v" 0, .set "v" 1 (.text "first"),
      .blank "v" 2, .clear "w" 1, .set "v" 1 (.text "second"), .set "v" 0 (.text "back")]
    let rebuilt := OverrideIndex.ofPages (p.edited edits).pages
    (∀ e ∈ edits, e.page < p.pageCount) ∧ rebuilt.has "v" 2 = false ∧ rebuilt.lastBefore "v" 9 = some 1 ∧
      rebuilt.lastBefore "w" 9 = some 0 := by
  intro front p edits rebuilt
  have inside : ∀ e ∈ edits, e.page < p.pageCount := by decide
  have same := (updated_eq_rebuilt p edits inside).1
  exact ⟨inside, (same "v" 2).1.symm.trans (by decide +kernel), (same "v" 9).2.symm.trans (by decide +kernel),
    (same "w" 9).2.symm.trans (by decide +kernel)⟩

end Edits

end SlideDeck
