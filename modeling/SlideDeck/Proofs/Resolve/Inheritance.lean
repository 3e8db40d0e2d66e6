import Mathlib
import SlideDeck.Proofs.Resolve.Override
import SlideDeck.Proofs.Resolve.Recursion

/-!
The stored value in effect on a page: the index gives what a walk back over the pages finds.
-/

namespace SlideDeck

/-- The override on the nearest page before `page`, going back page by page. -/
def Project.scanBack (p : Project) (id : String) : Nat → Option Literal
  | 0 => none
  | page + 1 => (p.override? page id).or (p.scanBack id page)

def Project.inherited (p : Project) (e : NamedValue) (page : Nat) : Option Literal :=
  if e.transition = .inherit then p.scanBack e.id page else none

/-- `InEffect p e page l`: by the rules, `l` is the stored value of `e` on the page. -/
inductive InEffect (p : Project) (e : NamedValue) (page : Nat) : Literal → Prop
  | own {l : Literal} (carried : p.override? page e.id = some l) : InEffect p e page l
  | inherited {q : Nat} {l : Literal} (absent : p.override? page e.id = none)
      (inherits : e.transition = .inherit) (before : q < page)
      (carried : p.override? q e.id = some l)
      (nearest : ∀ k, q < k → k < page → p.override? k e.id = none) : InEffect p e page l
  | initial (absent : p.override? page e.id = none)
      (nothing : e.transition = .inherit → ∀ k < page, p.override? k e.id = none) :
      InEffect p e page e.initial

section Scan

variable {p : Project} {id : String} {page : Nat}

theorem scanBack_eq_none (nothing : ∀ k < page, p.override? k id = none) :
    p.scanBack id page = none := by
  induction page with
  | zero => rfl
  | succ page ih =>
      rw [Project.scanBack, nothing page (Nat.lt_succ_self page),
        ih fun k below => nothing k (Nat.lt_succ_of_lt below)]
      rfl

theorem scanBack_eq_override {q : Nat} (before : q < page)
    (nearest : ∀ k, q < k → k < page → p.override? k id = none)
    (carried : (p.override? q id).isSome = true) : p.scanBack id page = p.override? q id := by
  obtain ⟨l, found⟩ := Option.isSome_iff_exists.mp carried
  induction page with
  | zero => omega
  | succ page ih =>
      rw [Project.scanBack]
      rcases Nat.lt_succ_iff_lt_or_eq.mp before with earlier | rfl
      · rw [nearest page earlier (Nat.lt_succ_self page), Option.none_or]
        exact ih earlier fun k above below => nearest k above (Nat.lt_succ_of_lt below)
      · rw [found, Option.some_or]

theorem scanBack_congr {p' : Project} (same : ∀ k < page, p'.override? k id = p.override? k id) :
    p'.scanBack id page = p.scanBack id page := by
  induction page with
  | zero => rfl
  | succ page ih =>
      rw [Project.scanBack, Project.scanBack, same page (Nat.lt_succ_self page),
        ih fun k below => same k (Nat.lt_succ_of_lt below)]

theorem override_beyond (past : p.pages.length ≤ page) : p.override? page id = none := by
  rw [Project.override?, List.getElem?_eq_none past]
  rfl

theorem scanBack_beyond (k : Nat) :
    p.scanBack id (p.pages.length + k) = p.scanBack id p.pages.length := by
  induction k with
  | zero => rfl
  | succ k ih =>
      rw [← Nat.add_assoc, Project.scanBack, override_beyond (Nat.le_add_right _ k), ih]
      rfl

theorem absent_of_lastBefore_eq_none
    (last : (OverrideIndex.ofPages p.pages).lastBefore id page = none) :
    ∀ k < page, p.override? k id = none := by
  intro k below
  have unmarked := OverrideIndex.lastBefore_eq_none_iff.mp last k below
  rwa [← Bool.not_eq_true, OverrideIndex.has_ofPages, Option.not_isSome_iff_eq_none] at unmarked

theorem nearest_of_lastBefore_eq_some {q : Nat}
    (last : (OverrideIndex.ofPages p.pages).lastBefore id page = some q) :
    (q < page ∧ (p.override? q id).isSome = true) ∧
      ∀ k, q < k → k < page → p.override? k id = none := by
  obtain ⟨⟨before, marked⟩, greatest⟩ := OverrideIndex.lastBefore_eq_some_iff.mp last
  refine ⟨⟨before, OverrideIndex.has_ofPages.mp marked⟩, fun k above below => ?_⟩
  by_contra carried
  have marked' := OverrideIndex.has_ofPages.mpr (Option.isSome_iff_ne_none.mpr carried)
  exact absurd (greatest k below marked') (Nat.not_le.mpr above)

/-- The index leads to the page that the walk back finds. -/
theorem lastBefore_bind_override :
    ((OverrideIndex.ofPages p.pages).lastBefore id page).bind (p.override? · id) =
      p.scanBack id page := by
  cases last : (OverrideIndex.ofPages p.pages).lastBefore id page with
  | none => exact (scanBack_eq_none (absent_of_lastBefore_eq_none last)).symm
  | some q =>
      obtain ⟨⟨before, carried⟩, nearest⟩ := nearest_of_lastBefore_eq_some last
      exact (scanBack_eq_override before nearest carried).symm

end Scan

namespace Resolver

variable {p : Project} {e : NamedValue} {page : Nat}

theorem raw_eq_scan (p : Project) (e : NamedValue) (page : Nat) :
    (ofProject p).raw e page =
      ((p.override? page e.id).or (p.inherited e page)).getD e.initial := by
  have index : (do
      let before ← (ofProject p).overrides.lastBefore e.id page
      (← p.pages[before]?).override? e.id) = p.scanBack e.id page := lastBefore_bind_override
  have own : (ofProject p).project.pages[page]?.bind (·.override? e.id) = p.override? page e.id := rfl
  unfold raw Project.inherited
  rw [own]
  cases p.override? page e.id with
  | some own => rfl
  | none =>
      by_cases inherits : e.transition = .inherit
      · simp only [if_pos inherits, Option.none_or]
        exact congrArg (·.getD e.initial) index
      · simp only [if_neg inherits, Option.none_or, Option.getD_none]

theorem raw_eq_of_inEffect {l : Literal} (rule : InEffect p e page l) :
    (ofProject p).raw e page = l := by
  rw [raw_eq_scan]
  cases rule with
  | own carried => rw [carried, Option.some_or, Option.getD_some]
  | @inherited q l absent inherits before carried nearest =>
      have found : p.scanBack e.id page = some l := by
        rw [scanBack_eq_override before nearest (by rw [carried]; rfl), carried]
      rw [absent, Option.none_or, Project.inherited, if_pos inherits, found, Option.getD_some]
  | initial absent nothing =>
      have missing : p.inherited e page = none := by
        unfold Project.inherited
        split
        · rename_i inherits
          exact scanBack_eq_none (nothing inherits)
        · rfl
      rw [absent, Option.none_or, missing, Option.getD_none]

theorem exists_inEffect (p : Project) (e : NamedValue) (page : Nat) :
    ∃ l, InEffect p e page l := by
  cases own : p.override? page e.id with
  | some l => exact ⟨l, .own own⟩
  | none =>
      by_cases inherits : e.transition = .inherit
      · cases last : (OverrideIndex.ofPages p.pages).lastBefore e.id page with
        | none =>
            exact ⟨e.initial, .initial own fun _ => absent_of_lastBefore_eq_none last⟩
        | some q =>
            obtain ⟨⟨before, carried⟩, nearest⟩ := nearest_of_lastBefore_eq_some last
            obtain ⟨l, found⟩ := Option.isSome_iff_exists.mp carried
            exact ⟨l, .inherited own inherits before found nearest⟩
      · exact ⟨e.initial, .initial own fun no => absurd no inherits⟩

/-- Only the overrides of this value on the pages up to this one count. -/
theorem raw_congr {p' : Project} (same : ∀ k ≤ page, p'.override? k e.id = p.override? k e.id) :
    (ofProject p').raw e page = (ofProject p).raw e page := by
  have inherited : p'.inherited e page = p.inherited e page := by
    rw [Project.inherited, Project.inherited, scanBack_congr fun k below => same k (Nat.le_of_lt below)]
  rw [raw_eq_scan, raw_eq_scan, same page (Nat.le_refl page), inherited]

theorem override_of_take_eq {p' : Project}
    (same : p'.pages.take (page + 1) = p.pages.take (page + 1)) {k : Nat} (upTo : k ≤ page)
    (id : String) : p'.override? k id = p.override? k id := by
  have here : p'.pages[k]? = p.pages[k]? := by
    rw [← List.getElem?_take_of_lt (Nat.lt_succ_of_le upTo), same,
      List.getElem?_take_of_lt (Nat.lt_succ_of_le upTo)]
  rw [Project.override?, Project.override?, here]

theorem raw_beyond (p : Project) (e : NamedValue) (k : Nat) :
    (ofProject p).raw e (p.pages.length + k) = (p.inherited e p.pages.length).getD e.initial := by
  rw [raw_eq_scan, override_beyond (Nat.le_add_right _ k), Option.none_or, Project.inherited,
    scanBack_beyond, Project.inherited]

/-- The indexed lookup gives what the walk back over the pages gives, and that is what the rules say.
Later pages do not matter, and past the last page a value stays what the walk from there gives. -/
theorem raw_refines_scan (p : Project) (e : NamedValue) (page : Nat) :
    let r := ofProject p
    r.raw e page = ((p.override? page e.id).or (p.inherited e page)).getD e.initial ∧
    (∀ l, r.raw e page = l ↔ InEffect p e page l) ∧
    (∀ p' : Project, p'.pages.take (page + 1) = p.pages.take (page + 1) →
      (ofProject p').raw e page = r.raw e page) ∧
    (∀ k, r.raw e (p.pages.length + k) = (p.inherited e p.pages.length).getD e.initial) := by
  refine ⟨raw_eq_scan p e page, fun l => ⟨?_, raw_eq_of_inEffect⟩, ?_, raw_beyond p e⟩
  · rintro rfl
    obtain ⟨l, rule⟩ := exists_inEffect p e page
    rwa [raw_eq_of_inEffect rule]
  · intro p' same
    exact raw_congr fun k upTo => override_of_take_eq same upTo e.id

/-- An override on the first page, a blank one on the second and another one on the third. -/
theorem raw_refines_scan_past_blank :
    let e : NamedValue :=
      { id := "v", name := "n", kind := .string, initial := .text "zero", transition := .inherit }
    let front : List Page :=
      [{ overrides := [("v", some (.text "one"))] }, { overrides := [("v", none)] }]
    let last : Page := { overrides := [("v", some (.text "two"))] }
    let p : Project := { assets := [("v", .value e)], pages := front ++ [last] }
    let p' : Project := { p with pages := front }
    p'.pages.take 2 = p.pages.take 2 ∧ InEffect p e 1 (.text "one") ∧
      (ofProject p).raw e 1 = .text "one" ∧ (ofProject p').raw e 1 = .text "one" ∧
      (ofProject p').raw e 7 = .text "one" := by
  intro e front last p p'
  have laws := raw_refines_scan p e 1
  have rule : InEffect p e 1 (.text "one") := by
    refine .inherited (q := 0) rfl rfl Nat.one_pos rfl fun k above below => ?_
    omega
  have here := (laws.2.1 _).mpr rule
  have shorter : p'.pages.take 2 = p.pages.take 2 := rfl
  exact ⟨shorter, rule, here, (laws.2.2.1 p' shorter).trans here, (raw_refines_scan p' e 1).2.2.2 5⟩

end Resolver

end SlideDeck
