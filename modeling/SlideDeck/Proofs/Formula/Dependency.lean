import Mathlib
import SlideDeck.Formula.Dependency

/-!
What adding a formula does to the names that each name reads.
-/

namespace SlideDeck.Formula.Dependencies

theorem lookup_map_value (change : String → List String → List String)
    (nodes : List (String × List String)) (name : String) :
    (nodes.map fun node => (node.1, change node.1 node.2)).lookup name =
      (nodes.lookup name).map (change name) := by
  induction nodes with
  | nil => rfl
  | cons node rest ih =>
      rw [List.map_cons, List.lookup_cons, List.lookup_cons, ih]
      by_cases same : name = node.1
      · simp [← same]
      · simp [beq_false_of_ne same]

theorem contains_iff {d : Dependencies} {name : String} :
    d.contains name = true ↔ ∃ out, d.nodes.lookup name = some out := by
  rw [← Option.isSome_iff_exists, List.lookup_isSome_iff, contains, List.any_eq_true]
  simp only [beq_iff_eq, eq_comm (a := name)]

theorem contains_addNode_self (d : Dependencies) (name : String) :
    (d.addNode name).contains name = true := by
  unfold addNode
  split
  · assumption
  · simp [contains]

theorem contains_addNode {d : Dependencies} {other : String} (name : String)
    (known : d.contains other = true) : (d.addNode name).contains other = true := by
  unfold addNode
  split
  · exact known
  · simp only [contains, List.any_append, Bool.or_eq_true] at known ⊢
    exact Or.inl known

theorem successors_addNode (d : Dependencies) (name other : String) :
    (d.addNode name).successors other = d.successors other := by
  unfold addNode
  split
  · rfl
  · unfold successors
    rw [List.lookup_append]
    cases d.nodes.lookup other with
    | some out => rfl
    | none => by_cases same : other = name <;> simp [List.lookup, same, beq_false_of_ne]

def extended (reader name : String) (node : String) (out : List String) : List String :=
  if node = reader ∧ name ∉ out then name :: out else out

theorem nodes_addEdge (d : Dependencies) (reader name : String) :
    (d.addEdge reader name).nodes =
      (d.addNode name).nodes.map fun node => (node.1, extended reader name node.1 node.2) := by
  apply List.map_congr_left
  rintro ⟨node, out⟩ -
  simp only [extended, List.contains_iff_mem]
  split <;> rfl

theorem contains_addEdge {d : Dependencies} {other : String} (reader name : String)
    (known : d.contains other = true) : (d.addEdge reader name).contains other = true := by
  obtain ⟨out, found⟩ := contains_iff.mp (contains_addNode name known)
  apply contains_iff.mpr
  rw [nodes_addEdge, lookup_map_value, found]
  exact ⟨_, rfl⟩

/-- A new edge goes in front; an edge that is there stays where it is. -/
theorem successors_addEdge {d : Dependencies} {reader : String} (name other : String)
    (known : d.contains reader = true) :
    (d.addEdge reader name).successors other =
      extended reader name other (d.successors other) := by
  obtain ⟨out, found⟩ := contains_iff.mp (contains_addNode name known)
  rw [← successors_addNode d name other]
  unfold successors
  rw [nodes_addEdge, lookup_map_value]
  cases present : (d.addNode name).nodes.lookup other with
  | some out => rfl
  | none =>
      have differs : other ≠ reader := by
        rintro rfl
        simp [found] at present
      simp [extended, differs]

theorem mem_successors_addEdge {d : Dependencies} {reader : String} {name other target : String}
    (known : d.contains reader = true) :
    target ∈ (d.addEdge reader name).successors other ↔
      target ∈ d.successors other ∨ other = reader ∧ target = name := by
  rw [successors_addEdge name other known, extended]
  split
  · rename_i fresh
    rw [List.mem_cons]
    constructor
    · rintro (rfl | old)
      · exact Or.inr ⟨fresh.1, rfl⟩
      · exact Or.inl old
    · rintro (old | ⟨-, rfl⟩)
      · exact Or.inr old
      · exact Or.inl rfl
  · rename_i settled
    constructor
    · exact Or.inl
    · rintro (old | ⟨rfl, rfl⟩)
      · exact old
      · exact not_not.mp fun absent => settled ⟨rfl, absent⟩

theorem mem_successors_foldl {d : Dependencies} {reader : String} {names : List String}
    {other target : String} (known : d.contains reader = true) :
    target ∈ (names.foldl (fun d name => d.addEdge reader name) d).successors other ↔
      target ∈ d.successors other ∨ other = reader ∧ target ∈ names := by
  induction names generalizing d with
  | nil => simp
  | cons name rest ih =>
      rw [List.foldl_cons, ih (contains_addEdge reader name known), mem_successors_addEdge known,
        List.mem_cons]
      tauto

theorem mem_successors_add {d : Dependencies} {name text other target : String} :
    target ∈ (d.add name text).successors other ↔
      target ∈ d.successors other ∨ other = name ∧ target ∈ uniqueReferences text := by
  unfold add
  rw [mem_successors_foldl (contains_addNode_self d name), successors_addNode]

theorem mem_successors_foldl_add {d : Dependencies} {formulas : List (String × String)}
    {other target : String} :
    target ∈ (formulas.foldl (fun d f => d.add f.1 f.2) d).successors other ↔
      target ∈ d.successors other ∨
        ∃ f ∈ formulas, f.1 = other ∧ target ∈ uniqueReferences f.2 := by
  induction formulas generalizing d with
  | nil => simp
  | cons f rest ih =>
      rw [List.foldl_cons, ih, mem_successors_add]
      simp only [List.mem_cons, exists_eq_or_imp]
      tauto

end SlideDeck.Formula.Dependencies
