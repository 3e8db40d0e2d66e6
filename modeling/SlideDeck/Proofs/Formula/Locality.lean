import Mathlib
import SlideDeck.Proofs.Formula.Cycle
import SlideDeck.Proofs.Formula.Dependency

/-!
The cycle search looks only at what can be reached: two graphs in which the reachable names read the
same names in the same order give the same cycle.
-/

namespace SlideDeck.Formula.Dependencies

open Relation (ReflTransGen)

section Successors

variable {d : Dependencies} {other : String}

theorem successors_foldl_addEdge {reader : String} {names : List String}
    (known : d.contains reader = true) :
    (names.foldl (fun d name => d.addEdge reader name) d).successors other =
      names.foldl (fun out name => extended reader name other out) (d.successors other) := by
  induction names generalizing d with
  | nil => rfl
  | cons name rest ih =>
      rw [List.foldl_cons, List.foldl_cons, ih (contains_addEdge reader name known),
        successors_addEdge name other known]

theorem successors_add (d : Dependencies) (name text other : String) :
    (d.add name text).successors other =
      (uniqueReferences text).foldl (fun out dep => extended name dep other out)
        (d.successors other) := by
  rw [add, successors_foldl_addEdge (contains_addNode_self d name), successors_addNode]

theorem successors_add_other {name : String} (differs : other ≠ name) (text : String) :
    (d.add name text).successors other = d.successors other := by
  rw [successors_add]
  generalize d.successors other = out
  induction uniqueReferences text with
  | nil => rfl
  | cons dep rest ih => rw [List.foldl_cons, extended, if_neg fun here => differs here.1, ih]

def readBy (name : String) (out : List String) (text : String) : List String :=
  (uniqueReferences text).foldl (fun out dep => extended name dep name out) out

theorem successors_foldl_add {formulas : List (String × String)}
    (distinct : (formulas.map (·.1)).Nodup) :
    (formulas.foldl (fun d f => d.add f.1 f.2) d).successors other =
      match formulas.lookup other with
      | some text => readBy other (d.successors other) text
      | none => d.successors other := by
  induction formulas generalizing d with
  | nil => rfl
  | cons f rest ih =>
      obtain ⟨name, text⟩ := f
      obtain ⟨fresh, distinct⟩ := List.nodup_cons.mp distinct
      rw [List.foldl_cons, ih distinct, List.lookup_cons]
      by_cases same : other = name
      · subst same
        have missing : rest.lookup other = none := by
          rw [List.lookup_eq_none_iff]
          intro f member
          have differs : other ≠ f.1 := fun here => fresh (List.mem_map.mpr ⟨f, member, here.symm⟩)
          simpa using differs
        rw [missing, beq_self_eq_true, successors_add]
        rfl
      · rw [beq_false_of_ne same, successors_add_other same]

end Successors

section Search

variable {d e : Dependencies} {start : String}

theorem walk_agree (agree : ∀ n, ReflTransGen d.Reads start n → d.successors n = e.successors n)
    {name : String} (reached : ReflTransGen d.Reads start name) (fuel : Nat)
    (path cleared : List String) : d.walk fuel path cleared name = e.walk fuel path cleared name := by
  induction fuel generalizing path cleared name with
  | zero => rfl
  | succ fuel ih =>
      have below : ∀ next ∈ d.successors name, ∀ cleared,
          d.walk fuel (path ++ [name]) cleared next = e.walk fuel (path ++ [name]) cleared next :=
        fun next step cleared => ih (reached.tail step) (path ++ [name]) cleared
      rw [walk, walk, ← agree name reached, foldlM_congr below]

theorem findFrom_agree (agree : ∀ n, ReflTransGen d.Reads start n → d.successors n = e.successors n) :
    d.findFrom start = e.findFrom start := by
  have fuel : d.walk (d.nodes.length + 1) [] [] start = e.walk (e.nodes.length + 1) [] [] start := by
    let more := d.nodes.length + e.nodes.length + 1
    have first : d.nodes.length < more := by omega
    have second : e.nodes.length < more := by omega
    rw [← walk_enough first, ← walk_enough second]
    exact walk_agree agree .refl more [] []
  rw [findFrom, findFrom, fuel]

/-- A cycle that a search meets is one that there is, so asking first whether there is any changes
nothing. -/
theorem findCycle_eq_findFrom (d : Dependencies) (name : String) :
    d.findCycle name = d.findFrom name := by
  unfold findCycle findGiven
  split
  · rfl
  · rename_i acyclic
    cases found : d.findFrom name with
    | none => rfl
    | some chain =>
        unfold findFrom at found
        split at found
        · rename_i failed
          obtain ⟨c, -, cycle⟩ := (walk_from_sound failed).1.on_cycle
          exact absurd ((hasCycle_iff d).mpr ⟨c, cycle⟩) acyclic
        · cases found

theorem findCycle_agree (agree : ∀ n, ReflTransGen d.Reads start n → d.successors n = e.successors n) :
    d.findCycle start = e.findCycle start := by
  rw [findCycle_eq_findFrom, findCycle_eq_findFrom, findFrom_agree agree]

end Search

end SlideDeck.Formula.Dependencies
