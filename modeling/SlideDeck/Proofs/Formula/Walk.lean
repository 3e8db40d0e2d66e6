import Mathlib
import SlideDeck.Formula.Dependency

/-!
The depth first walk as a recursion without fuel: each call extends a path that repeats no name, so
the walk ends, and its equation has one solution.
-/

namespace SlideDeck.Formula.Dependencies

def Reads (d : Dependencies) (a b : String) : Prop := b ∈ d.successors a

instance (d : Dependencies) (a b : String) : Decidable (d.Reads a b) :=
  inferInstanceAs (Decidable (b ∈ d.successors a))

theorem Reads.contains {d : Dependencies} {a b : String} (step : d.Reads a b) :
    ∃ node ∈ d.nodes, node.1 = a := by
  unfold Reads successors at step
  cases found : d.nodes.lookup a with
  | none => simp [found] at step
  | some out =>
      obtain ⟨front, back, split, -⟩ := List.lookup_eq_some_iff.mp found
      exact ⟨(a, out), by simp [split], rfl⟩

variable {d : Dependencies}

/-- How many nodes a walk below `path` may still enter. -/
def unvisited (d : Dependencies) (path : List String) : Nat :=
  (d.nodes.filter fun node => !path.contains node.1).length

theorem unvisited_le (d : Dependencies) (path : List String) :
    d.unvisited path ≤ d.nodes.length :=
  List.length_filter_le _ _

/-- Entering a node that reads something leaves fewer nodes to enter. -/
theorem unvisited_append_lt {path : List String} {name next : String}
    (fresh : name ∉ path) (step : d.Reads name next) :
    d.unvisited (path ++ [name]) < d.unvisited path := by
  obtain ⟨node, member, rfl⟩ := step.contains
  have narrower : (d.nodes.filter fun n => !(path ++ [node.1]).contains n.1) =
      (d.nodes.filter fun n => !path.contains n.1).filter fun n => n.1 != node.1 := by
    rw [List.filter_filter]
    apply List.filter_congr
    intro n _
    by_cases same : n.1 = node.1 <;> simp [same]
  unfold unvisited
  rw [narrower]
  apply List.length_filter_lt_length_iff_exists.mpr
  exact ⟨node, List.mem_filter.mpr ⟨member, by simpa using fresh⟩, by simp⟩

def walkStep (d : Dependencies) (inner : List String → List String → String → Walk)
    (path cleared : List String) (name : String) : Walk :=
  if path.contains name then .error (closing path name)
  else if cleared.contains name then .ok cleared
  else
    match (d.successors name).foldlM (fun cleared next => inner (path ++ [name]) cleared next)
        cleared with
    | .error chain => .error chain
    | .ok cleared => .ok (name :: cleared)

theorem walk_succ (fuel : Nat) (path cleared : List String) (name : String) :
    d.walk (fuel + 1) path cleared name = d.walkStep (d.walk fuel) path cleared name := rfl

/-- A call at `name` below `path` may call at each name that `name` reads, below the longer path. -/
inductive Descends (d : Dependencies) : List String × String → List String × String → Prop
  | next {path : List String} {name next : String} (fresh : name ∉ path)
      (step : d.Reads name next) : Descends d (path, name) (path ++ [name], next)

theorem descends_wellFounded (d : Dependencies) :
    WellFounded fun callee caller => d.Descends caller callee := by
  refine Subrelation.wf ?_ (measure fun call => d.unvisited call.1).wf
  intro callee caller call
  cases call with
  | next fresh step => exact unvisited_append_lt fresh step

theorem foldlM_congr {step step' : List String → String → Walk} {names : List String}
    (agree : ∀ name ∈ names, ∀ cleared, step cleared name = step' cleared name)
    (cleared : List String) : names.foldlM step cleared = names.foldlM step' cleared := by
  induction names generalizing cleared with
  | nil => rfl
  | cons name rest ih =>
      rw [List.foldlM_cons, List.foldlM_cons, agree name List.mem_cons_self]
      congr 1
      funext cleared'
      exact ih (fun n member => agree n (List.mem_cons_of_mem _ member)) cleared'

theorem walkStep_congr {inner inner' : List String → List String → String → Walk}
    {path cleared : List String} {name : String}
    (agree : ∀ next, d.Descends (path, name) (path ++ [name], next) →
      ∀ cleared, inner (path ++ [name]) cleared next = inner' (path ++ [name]) cleared next) :
    d.walkStep inner path cleared name = d.walkStep inner' path cleared name := by
  unfold walkStep
  split
  · rfl
  · rename_i fresh
    have fresh' : name ∉ path := by simpa using fresh
    rw [foldlM_congr fun next step cleared => agree next (.next fresh' step) cleared]

/-- Fuel beyond the number of nodes that are still to be entered changes nothing. -/
theorem walk_stable {fuel more : Nat} {path cleared : List String} {name : String}
    (enough : d.unvisited path < fuel) (le : fuel ≤ more) :
    d.walk more path cleared name = d.walk fuel path cleared name := by
  induction fuel generalizing more path cleared name with
  | zero => omega
  | succ fuel ih =>
      obtain ⟨more, rfl⟩ : ∃ k, more = k + 1 := ⟨more - 1, by omega⟩
      rw [walk_succ, walk_succ]
      apply walkStep_congr
      rintro next ⟨fresh, step⟩ cleared
      have smaller := unvisited_append_lt fresh step
      exact ih (by omega) (by omega)

theorem walk_enough {fuel : Nat} (enough : d.nodes.length < fuel) :
    d.walk fuel = d.walk (d.nodes.length + 1) := by
  funext path cleared name
  exact walk_stable (Nat.lt_succ_of_le (unvisited_le d path)) enough

theorem walk_eq (d : Dependencies) (path cleared : List String) (name : String) :
    d.walk (d.nodes.length + 1) path cleared name =
      d.walkStep (d.walk (d.nodes.length + 1)) path cleared name := by
  rw [← walk_succ, walk_enough (Nat.lt_succ_of_lt (Nat.lt_succ_self _))]

/-- The walk is the one solution of its equation. -/
theorem walk_unique {solution : List String → List String → String → Walk} :
    (∀ path cleared name, solution path cleared name = d.walkStep solution path cleared name) ↔
      solution = d.walk (d.nodes.length + 1) := by
  constructor
  · intro solves
    suffices same : ∀ call : List String × String, ∀ cleared,
        solution call.1 cleared call.2 = d.walk (d.nodes.length + 1) call.1 cleared call.2 by
      funext path cleared name
      exact same (path, name) cleared
    intro call
    induction call using (descends_wellFounded d).induction with
    | _ call ih =>
        intro cleared
        rw [solves, walk_eq]
        exact walkStep_congr fun next below => ih (call.1 ++ [call.2], next) below
  · rintro rfl
    exact walk_eq d

end SlideDeck.Formula.Dependencies
