import Mathlib
import SlideDeck.Proofs.Formula.Locality

/-!
The search that passes by cleared names, and does not begin where there is no cycle, finds what the plain
one finds, which remembers the current path only.
-/

namespace SlideDeck.Formula.Dependencies

open Relation (ReflTransGen TransGen)

variable {d : Dependencies}

/-- The first cycle met depth first from `name` below `path`. Only the names on the path are remembered;
all others are visited again. -/
def firstCycle (d : Dependencies) (path : List String) (name : String) : Option (List String) :=
  if _ : name ∈ path then some (closing path name)
  else (d.successors name).attach.findSome? fun next => d.firstCycle (path ++ [name]) next.1
termination_by d.unvisited path
decreasing_by exact unvisited_append_lt ‹name ∉ path› next.2

theorem firstCycle_of_mem {path : List String} {name : String} (again : name ∈ path) :
    d.firstCycle path name = some (closing path name) := by
  rw [firstCycle, dif_pos again]

theorem firstCycle_of_not_mem {path : List String} {name : String} (fresh : name ∉ path) :
    d.firstCycle path name = (d.successors name).findSome? (d.firstCycle (path ++ [name])) := by
  rw [firstCycle, dif_neg fresh]
  conv_rhs => rw [← List.attach_map_subtype_val (d.successors name), List.findSome?_map]
  rfl

/-- A name that the path to it has met before lies on a cycle. -/
theorem on_cycle_of_again {path : List String} {name : String} (again : name ∈ path)
    (linked : (path ++ [name]).IsChain d.Reads) : TransGen d.Reads name name := by
  obtain ⟨front, back, rfl, -⟩ := List.eq_append_cons_of_mem again
  rw [List.append_assoc] at linked
  have turn : (name :: (back ++ [name])).IsChain d.Reads := linked.right_of_append
  obtain ⟨next, rest, shape⟩ := List.exists_cons_of_ne_nil (l := back ++ [name]) (by simp)
  rw [shape] at turn
  have step : d.Reads name next := (List.isChain_cons_cons.mp turn).1
  have last : (next :: rest).getLast (by simp) = name := by
    simp only [← shape, List.getLast_concat]
  refine .head' step ?_
  conv_rhs => rw [← last]
  exact List.relationReflTransGen_of_exists_isChain_cons rest turn.tail rfl

/-- What is found below a path that leads to `name` is a cycle that `name` reaches: one that closes on the
path goes through `name`. -/
theorem reachesCycle_of_firstCycle {path : List String} {name : String} {chain : List String}
    (linked : (path ++ [name]).IsChain d.Reads) (found : d.firstCycle path name = some chain) :
    ReachesCycle d.Reads name := by
  induction bound : d.unvisited path using Nat.strongRecOn generalizing path name with
  | _ n ih =>
      by_cases again : name ∈ path
      · exact ⟨name, .refl, on_cycle_of_again again linked⟩
      · rw [firstCycle_of_not_mem again] at found
        obtain ⟨next, step, below⟩ := List.exists_of_findSome?_eq_some found
        have onward := ih _ (bound ▸ unvisited_append_lt again step) (linked_next linked step) below rfl
        exact onward.of_reaches (.single step)

def Walk.chain? : Walk → Option (List String)
  | .error chain => some chain
  | .ok _ => none

theorem chain?_foldlM {step : List String → String → Walk} {find : String → Option (List String)}
    (safe : List String → Prop) {names cleared : List String}
    (each : ∀ name ∈ names, ∀ before, safe before →
      (step before name).chain? = find name ∧ ∀ after, step before name = .ok after → safe after)
    (start : safe cleared) :
    Walk.chain? (names.foldlM step cleared) = names.findSome? find := by
  induction names generalizing cleared with
  | nil => rfl
  | cons name rest ih =>
      obtain ⟨reported, kept⟩ := each name List.mem_cons_self cleared start
      rw [List.foldlM_cons, List.findSome?_cons, ← reported]
      cases first : step cleared name with
      | error chain => rfl
      | ok after =>
          exact ih (fun n member => each n (List.mem_cons_of_mem _ member)) (kept after first)

/-- One walk reports what the plain search finds, whatever it passes by, as long as no cycle can be
reached from there. -/
theorem chain?_walk {fuel : Nat} {path cleared : List String} {name : String}
    (enough : d.unvisited path < fuel) (linked : (path ++ [name]).IsChain d.Reads)
    (clear : ∀ x ∈ cleared, ¬ ReachesCycle d.Reads x) :
    (d.walk fuel path cleared name).chain? = d.firstCycle path name := by
  induction fuel generalizing path cleared name with
  | zero => omega
  | succ fuel ih =>
      by_cases again : name ∈ path
      · rw [walk, if_pos (List.contains_iff_mem.mpr again), firstCycle_of_mem again]
        rfl
      · have fresh : ¬ path.contains name = true := by simpa using again
        rw [walk, if_neg fresh]
        split
        · rename_i known
          -- The plain search looks at a cleared name again and finds nothing there.
          have safe := clear name (List.contains_iff_mem.mp known)
          cases found : d.firstCycle path name with
          | none => rfl
          | some chain => exact absurd (reachesCycle_of_firstCycle linked found) safe
        · rw [firstCycle_of_not_mem again]
          have below : Walk.chain? ((d.successors name).foldlM
              (fun cleared next => d.walk fuel (path ++ [name]) cleared next) cleared) =
                (d.successors name).findSome? (d.firstCycle (path ++ [name])) := by
            refine chain?_foldlM (fun cleared => ∀ x ∈ cleared, ¬ ReachesCycle d.Reads x) ?_ clear
            intro next step before safe
            have smaller := Nat.lt_of_lt_of_le (unvisited_append_lt again step) (Nat.le_of_lt_succ enough)
            exact ⟨ih smaller (linked_next linked step) safe,
              fun after done => (walk_complete smaller safe done).1⟩
          rw [← below]
          cases (d.successors name).foldlM (fun cleared next => d.walk fuel (path ++ [name]) cleared next)
            cleared <;> rfl

theorem findFrom_eq_firstCycle (d : Dependencies) (name : String) :
    d.findFrom name = d.firstCycle [] name := by
  have enough : d.unvisited [] < d.nodes.length + 1 := Nat.lt_succ_of_le (unvisited_le d [])
  rw [← chain?_walk enough (List.isChain_singleton name) fun x none => absurd none List.not_mem_nil]
  unfold findFrom
  generalize d.walk _ [] [] name = outcome
  cases outcome <;> rfl

/-- The search finds the very chain that the plain one finds, whatever the order in which names are read;
and so it does with any verdict in place of its own that says truly whether there is a cycle. -/
theorem findCycle_pruned (d : Dependencies) (name : String) :
    d.findCycle name = d.firstCycle [] name ∧
      ∀ cyclic : Bool, (cyclic = true ↔ ∃ c, TransGen d.Reads c c) →
        d.findGiven cyclic name = d.firstCycle [] name := by
  have plain : d.findCycle name = d.firstCycle [] name := by
    rw [findCycle_eq_findFrom, findFrom_eq_firstCycle]
  refine ⟨plain, fun cyclic verdict => ?_⟩
  have same : cyclic = d.hasCycle := Bool.eq_iff_iff.mpr (verdict.trans (hasCycle_iff d).symm)
  rw [same]
  exact plain

/-- Two ways lead to a name that is cleared on the first, and then a cycle is met that `top` is not on. -/
theorem findCycle_pruned_of_diamond :
    let d : Dependencies := [("top", "%{low} %{right} %{left}"), ("left", "%{base}"), ("right", "%{low} %{base}"),
      ("low", "%{right}")].foldl (fun d f => d.add f.1 f.2) .empty
    (true = true ↔ ∃ c, TransGen d.Reads c c) ∧
      d.findCycle "top" = some ["right", "low", "right"] ∧
      d.firstCycle [] "top" = some ["right", "low", "right"] := by
  intro d
  have out : d.Reads "right" "low" := by decide +kernel
  have back : d.Reads "low" "right" := by decide +kernel
  have verdict : true = true ↔ ∃ c, TransGen d.Reads c c :=
    ⟨fun _ => ⟨"right", .tail (.single out) back⟩, fun _ => rfl⟩
  have walked : d.findGiven true "top" = some ["right", "low", "right"] := by decide +kernel
  have pruned := findCycle_pruned d "top"
  have plain := (pruned.2 true verdict).symm.trans walked
  exact ⟨verdict, pruned.1.trans plain, plain⟩

end SlideDeck.Formula.Dependencies
