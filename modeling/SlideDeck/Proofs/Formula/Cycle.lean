import Mathlib
import SlideDeck.Proofs.Formula.Walk

/-!
The cycle search is sound and complete: what it reports is a cycle, and it reports one from exactly
those names from which a cycle can be reached.
-/

namespace SlideDeck.Formula

open Relation (ReflTransGen TransGen)

/-- A chain of names, each reading the next, that ends where it began and repeats nothing else. -/
structure ClosedChain (reads : String → String → Prop) (chain : List String) : Prop where
  long : 2 ≤ chain.length
  closed : chain.head? = chain.getLast?
  distinct : chain.dropLast.Nodup
  linked : chain.IsChain reads

/-- Some name that can be reached from `name` can be reached from itself. -/
def ReachesCycle (reads : String → String → Prop) (name : String) : Prop :=
  ∃ c, ReflTransGen reads name c ∧ TransGen reads c c

section Reachability

variable {reads : String → String → Prop}

theorem ReachesCycle.of_reaches {a b : String} (path : ReflTransGen reads a b)
    (reached : ReachesCycle reads b) : ReachesCycle reads a := by
  obtain ⟨c, onward, cycle⟩ := reached
  exact ⟨c, path.trans onward, cycle⟩

/-- A name on a cycle reads a name on that cycle, so a cycle is always reached by way of a name
that is read. -/
theorem ReachesCycle.next {a : String} (reached : ReachesCycle reads a) :
    ∃ b, reads a b ∧ ReachesCycle reads b := by
  obtain ⟨c, path, cycle⟩ := reached
  rcases path.cases_head with same | ⟨b, step, rest⟩
  · subst same
    obtain ⟨b, step, back⟩ := TransGen.head'_iff.mp cycle
    exact ⟨b, step, a, back, cycle⟩
  · exact ⟨b, step, c, rest, cycle⟩

theorem ClosedChain.on_cycle {chain : List String} (cycle : ClosedChain reads chain) :
    ∃ c, chain.head? = some c ∧ TransGen reads c c := by
  obtain ⟨long, closed, -, linked⟩ := cycle
  match chain, long, closed, linked with
  | c :: next :: rest, _, closed, linked =>
      have step : reads c next := (List.isChain_cons_cons.mp linked).1
      have last : (next :: rest).getLast (by simp) = c := by
        simpa [List.getLast?_eq_some_getLast, eq_comm] using closed
      have back : ReflTransGen reads next c := by
        rw [← last]
        exact List.relationReflTransGen_of_exists_isChain_cons rest linked.tail rfl
      exact ⟨c, rfl, TransGen.head' step back⟩

end Reachability

namespace Dependencies

section Walk

variable {d : Dependencies}

theorem closed_chain_closing {path : List String} {name : String} (again : name ∈ path)
    (distinct : path.Nodup) (linked : (path ++ [name]).IsChain d.Reads) :
    ClosedChain d.Reads (closing path name) ∧ (closing path name).head? = some name := by
  obtain ⟨front, back, rfl, before⟩ := List.eq_append_cons_of_mem again
  have shape : closing (front ++ name :: back) name = name :: back ++ [name] := by
    have skipped : ∀ x ∈ front, (x != name) = true := by
      intro x inside
      have differs : x ≠ name := fun same => before (same ▸ inside)
      simpa using differs
    simp [closing, List.dropWhile_append_of_pos skipped]
  rw [shape]
  refine ⟨⟨by simp, by rw [List.getLast?_concat]; rfl, ?_, ?_⟩, rfl⟩
  · rw [List.dropLast_concat]
    exact (List.sublist_append_right front _).nodup distinct
  · rw [List.append_assoc] at linked
    exact linked.right_of_append

theorem linked_next {path : List String} {name next : String} (linked : (path ++ [name]).IsChain d.Reads)
    (step : d.Reads name next) : (path ++ [name] ++ [next]).IsChain d.Reads :=
  linked.append (.singleton next) (by simpa using step)

theorem exists_error_of_foldlM {step : List String → String → Walk} {names cleared : List String}
    {chain : List String} (failed : names.foldlM step cleared = .error chain) :
    ∃ name ∈ names, ∃ cleared', step cleared' name = .error chain := by
  induction names generalizing cleared with
  | nil => cases failed
  | cons name rest ih =>
      rw [List.foldlM_cons] at failed
      cases first : step cleared name with
      | error found =>
          rw [first] at failed
          cases failed
          exact ⟨name, List.mem_cons_self, cleared, first⟩
      | ok cleared' =>
          rw [first] at failed
          obtain ⟨later, member, failure⟩ := ih failed
          exact ⟨later, List.mem_cons_of_mem _ member, failure⟩

theorem walk_sound {fuel : Nat} {start : String} {path cleared : List String} {name : String}
    {chain : List String} (distinct : path.Nodup) (linked : (path ++ [name]).IsChain d.Reads)
    (reached : ∀ x ∈ path ++ [name], ReflTransGen d.Reads start x)
    (found : d.walk fuel path cleared name = .error chain) :
    ClosedChain d.Reads chain ∧ ∃ c, chain.head? = some c ∧ ReflTransGen d.Reads start c := by
  induction fuel generalizing path cleared name with
  | zero => cases found
  | succ fuel ih =>
      rw [walk] at found
      split at found
      · rename_i again
        cases found
        have cycle := closed_chain_closing (List.contains_iff_mem.mp again) distinct linked
        exact ⟨cycle.1, name, cycle.2, reached name (by simp)⟩
      · rename_i fresh
        split at found
        · cases found
        · split at found
          · rename_i failed
            cases found
            obtain ⟨next, member, cleared', failure⟩ := exists_error_of_foldlM failed
            have distinct' : (path ++ [name]).Nodup := by
              have fresh' : name ∉ path := by simpa using fresh
              simpa [List.nodup_append] using ⟨distinct, fun x inside same => fresh' (same ▸ inside)⟩
            have reached' : ∀ x ∈ path ++ [name] ++ [next], ReflTransGen d.Reads start x := by
              intro x inside
              rcases List.mem_append.mp inside with inside | inside
              · exact reached x inside
              · obtain rfl := List.mem_singleton.mp inside
                exact (reached name (by simp)).tail member
            exact ih distinct' (linked_next linked member) reached' failure
          · cases found

theorem cleared_of_foldlM {step : List String → String → Walk} (safe : String → Prop)
    {names cleared cleared' : List String}
    (grows : ∀ name ∈ names, ∀ before after, (∀ x ∈ before, safe x) →
      step before name = .ok after → (∀ x ∈ after, safe x) ∧ before ⊆ after ∧ name ∈ after)
    (clear : ∀ x ∈ cleared, safe x) (done : names.foldlM step cleared = .ok cleared') :
    (∀ x ∈ cleared', safe x) ∧ cleared ⊆ cleared' ∧ names ⊆ cleared' := by
  induction names generalizing cleared with
  | nil =>
      cases done
      exact ⟨clear, List.Subset.refl _, List.nil_subset _⟩
  | cons name rest ih =>
      rw [List.foldlM_cons] at done
      cases first : step cleared name with
      | error found =>
          rw [first] at done
          cases done
      | ok between =>
          rw [first] at done
          have now := grows name List.mem_cons_self cleared between clear first
          have later := ih (fun n member => grows n (List.mem_cons_of_mem _ member)) now.1 done
          exact ⟨later.1, fun x inside => later.2.1 (now.2.1 inside),
            List.cons_subset.mpr ⟨later.2.1 now.2.2, later.2.2⟩⟩

/-- A walk that reports nothing has cleared its name, and clears only names from which no cycle can
be reached. -/
theorem walk_complete {fuel : Nat} {path cleared cleared' : List String} {name : String}
    (enough : d.unvisited path < fuel) (clear : ∀ x ∈ cleared, ¬ ReachesCycle d.Reads x)
    (done : d.walk fuel path cleared name = .ok cleared') :
    (∀ x ∈ cleared', ¬ ReachesCycle d.Reads x) ∧ cleared ⊆ cleared' ∧ name ∈ cleared' := by
  induction fuel generalizing path cleared cleared' name with
  | zero => omega
  | succ fuel ih =>
      rw [walk] at done
      split at done
      · cases done
      · rename_i fresh
        split at done
        · rename_i known
          cases done
          exact ⟨clear, List.Subset.refl _, List.contains_iff_mem.mp known⟩
        · split at done
          · cases done
          · rename_i below folded
            cases done
            have successors := cleared_of_foldlM (fun x => ¬ ReachesCycle d.Reads x)
              (fun next member before after safe stepped =>
                ih (Nat.lt_of_lt_of_le (unvisited_append_lt (by simpa using fresh) member)
                  (Nat.le_of_lt_succ enough)) safe stepped) clear folded
            refine ⟨?_, List.subset_cons_of_subset _ successors.2.1, List.mem_cons_self⟩
            intro x inside
            rcases List.mem_cons.mp inside with rfl | inside
            · intro reached
              obtain ⟨next, member, onward⟩ := reached.next
              exact successors.1 next (successors.2.2 member) onward
            · exact successors.1 x inside

end Walk

theorem walk_from_sound {d : Dependencies} {fuel : Nat} {cleared : List String} {name : String}
    {chain : List String} (found : d.walk fuel [] cleared name = .error chain) :
    ClosedChain d.Reads chain ∧ ∃ c, chain.head? = some c ∧ ReflTransGen d.Reads name c := by
  apply walk_sound List.nodup_nil (List.isChain_singleton name) _ found
  intro x inside
  rw [List.mem_singleton.mp inside]

theorem hasCycle_iff (d : Dependencies) :
    d.hasCycle = true ↔ ∃ c, TransGen d.Reads c c := by
  let names := d.nodes.map Prod.fst
  let step := fun cleared name => d.walk (d.nodes.length + 1) [] cleared name
  have folded : d.nodes.foldlM (fun cleared n => step cleared n.1) [] = names.foldlM step [] :=
    List.foldlM_map.symm
  unfold hasCycle
  split
  · rename_i failed
    obtain ⟨name, -, cleared, found⟩ := exists_error_of_foldlM (folded.symm.trans failed)
    obtain ⟨c, -, cycle⟩ := (walk_from_sound found).1.on_cycle
    exact ⟨fun _ => ⟨c, cycle⟩, fun _ => rfl⟩
  · rename_i done
    have cleared := cleared_of_foldlM (fun x => ¬ ReachesCycle d.Reads x)
      (fun name _ before after safe stepped =>
        walk_complete (Nat.lt_succ_of_le (unvisited_le d [])) safe stepped)
      (by simp) (folded.symm.trans done)
    refine ⟨fun no => absurd no (by simp), ?_⟩
    rintro ⟨c, cycle⟩
    obtain ⟨next, step, -⟩ := TransGen.head'_iff.mp cycle
    obtain ⟨node, member, rfl⟩ := Reads.contains step
    have known : node.1 ∈ names := List.mem_map.mpr ⟨node, member, rfl⟩
    exact absurd ⟨node.1, .refl, cycle⟩ (cleared.1 _ (cleared.2.2 known))

theorem findCycle_sound {d : Dependencies} {name : String} {chain : List String}
    (found : d.findCycle name = some chain) :
    ClosedChain d.Reads chain ∧ ∃ c, chain.head? = some c ∧ ReflTransGen d.Reads name c := by
  unfold findCycle findGiven findFrom at found
  split at found
  · split at found
    · rename_i failed
      cases found
      exact walk_from_sound failed
    · cases found
  · cases found

theorem findCycle_complete {d : Dependencies} {name : String} (reached : ReachesCycle d.Reads name) :
    ∃ chain, d.findCycle name = some chain := by
  obtain ⟨c, path, cycle⟩ := reached
  unfold findCycle findGiven findFrom
  rw [if_pos ((hasCycle_iff d).mpr ⟨c, cycle⟩)]
  split
  · exact ⟨_, rfl⟩
  · rename_i done
    have walked := walk_complete (Nat.lt_succ_of_le (unvisited_le d [])) (by simp) done
    exact absurd ⟨c, path, cycle⟩ (walked.1 name walked.2.2)

theorem findCycle_eq_none_iff {d : Dependencies} {name : String} :
    d.findCycle name = none ↔ ¬ ReachesCycle d.Reads name := by
  constructor
  · intro nothing reached
    obtain ⟨chain, found⟩ := findCycle_complete reached
    simp [nothing] at found
  · intro safe
    cases found : d.findCycle name with
    | none => rfl
    | some chain =>
        obtain ⟨cycle, c, first, path⟩ := findCycle_sound found
        obtain ⟨c', first', turn⟩ := cycle.on_cycle
        obtain rfl : c = c' := Option.some.inj (first.symm.trans first')
        exact absurd ⟨c, path, turn⟩ safe

end Dependencies

end SlideDeck.Formula
