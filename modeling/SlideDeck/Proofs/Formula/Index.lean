import Mathlib
import SlideDeck.Resolve.Resolver
import SlideDeck.Proofs.Formula.Cycle
import SlideDeck.Proofs.Formula.Dependency
import SlideDeck.Proofs.Formula.Reference

/-!
An index answers every request as one built anew from the formulas added so far, whatever it was asked
before and however it was copied: the verdict that it keeps is never out of date.
-/

namespace SlideDeck.Formula

open Relation (TransGen)

namespace Dependencies

variable {d : Dependencies}

def names (d : Dependencies) : List String := d.nodes.map Prod.fst

theorem mem_names {name : String} : name ∈ d.names ↔ d.contains name = true := by
  simp [names, contains]

theorem names_addNode (d : Dependencies) (name : String) :
    (d.addNode name).names = if name ∈ d.names then d.names else d.names ++ [name] := by
  simp only [mem_names, addNode]
  split
  · rfl
  · simp [names]

theorem names_addEdge (d : Dependencies) (reader name : String) :
    (d.addEdge reader name).names = (d.addNode name).names := by
  simp [names, nodes_addEdge]

theorem mem_names_addNode {name other : String} :
    other ∈ (d.addNode name).names ↔ other ∈ d.names ∨ other = name := by
  rw [names_addNode]
  split
  · rename_i known
    constructor
    · exact Or.inl
    · rintro (old | rfl)
      · exact old
      · exact known
  · rw [List.mem_append, List.mem_singleton]

theorem mem_names_foldl {reader : String} {read : List String} {other : String} :
    other ∈ (read.foldl (fun d name => d.addEdge reader name) d).names ↔ other ∈ d.names ∨ other ∈ read := by
  induction read generalizing d with
  | nil => simp
  | cons name rest ih => rw [List.foldl_cons, ih, names_addEdge, mem_names_addNode, List.mem_cons, or_assoc]

theorem mem_names_add {name text other : String} :
    other ∈ (d.add name text).names ↔ other ∈ d.names ∨ other = name ∨ other ∈ references text := by
  rw [add, mem_names_foldl, mem_names_addNode, mem_uniqueReferences, or_assoc]

structure Tidy (d : Dependencies) : Prop where
  names : d.names.Nodup
  successors : ∀ name, (d.successors name).Nodup

theorem tidy_empty : Tidy .empty := ⟨List.nodup_nil, fun _ => List.nodup_nil⟩

theorem Tidy.addNode (tidy : d.Tidy) (name : String) : (d.addNode name).Tidy where
  names := by
    rw [names_addNode]
    split
    · exact tidy.names
    · rename_i fresh
      exact List.nodup_append_comm.mp (List.nodup_cons.mpr ⟨fresh, tidy.names⟩)
  successors := by
    intro other
    rw [successors_addNode]
    exact tidy.successors other

theorem Tidy.addEdge {reader : String} (tidy : d.Tidy) (known : d.contains reader = true) (name : String) :
    (d.addEdge reader name).Tidy where
  names := by
    rw [names_addEdge]
    exact (tidy.addNode name).names
  successors := by
    intro other
    rw [successors_addEdge name other known, extended]
    split
    · rename_i fresh
      exact List.nodup_cons.mpr ⟨fresh.2, tidy.successors other⟩
    · exact tidy.successors other

theorem Tidy.foldl_addEdge {reader : String} {read : List String} (tidy : d.Tidy)
    (known : d.contains reader = true) : (read.foldl (fun d name => d.addEdge reader name) d).Tidy := by
  induction read generalizing d with
  | nil => exact tidy
  | cons name rest ih => exact ih (tidy.addEdge known name) (contains_addEdge reader name known)

theorem Tidy.add (tidy : d.Tidy) (name text : String) : (d.add name text).Tidy :=
  (tidy.addNode name).foldl_addEdge (contains_addNode_self d name)

end Dependencies

abbrev History := List (String × String)

namespace History

def References (h : History) (a b : String) : Prop := ∃ f ∈ h, f.1 = a ∧ b ∈ references f.2

def Mentions (h : History) (name : String) : Prop := ∃ f ∈ h, name = f.1 ∨ name ∈ references f.2

/-- What is answered where nothing is kept but the formulas: each time by an index built from them. -/
def serve (h : History) : Index.Request → Index.Answer × History
  | .add name text => (.done, h ++ [(name, text)])
  | request => (((Index.ofFormulas h).serve request).1, h)

end History

namespace Index

theorem ofFormulas_append (h : History) (name text : String) :
    ofFormulas (h ++ [(name, text)]) = (ofFormulas h).add name text := by
  rw [ofFormulas, List.foldl_append]
  rfl

section Building

variable (h : History)

theorem dependencies_ofFormulas :
    (ofFormulas h).dependencies = h.foldl (fun d f => d.add f.1 f.2) .empty := by
  induction h using List.reverseRecOn with
  | nil => rfl
  | append_singleton h f ih =>
      rw [ofFormulas_append, add, ih, List.foldl_append]
      rfl

theorem verdict_ofFormulas : (ofFormulas h).verdict = none := by
  induction h using List.reverseRecOn with
  | nil => rfl
  | append_singleton h f => rw [ofFormulas_append, add]

theorem tidy_ofFormulas : (ofFormulas h).dependencies.Tidy := by
  induction h using List.reverseRecOn with
  | nil => exact Dependencies.tidy_empty
  | append_singleton h f ih =>
      rw [ofFormulas_append]
      exact ih.add f.1 f.2

theorem mem_names_ofFormulas {name : String} : name ∈ (ofFormulas h).dependencies.names ↔ h.Mentions name := by
  induction h using List.reverseRecOn with
  | nil => simp [ofFormulas, empty, Dependencies.empty, Dependencies.names, History.Mentions]
  | append_singleton h f ih =>
      rw [ofFormulas_append, add, Dependencies.mem_names_add, ih]
      simp [History.Mentions, or_and_right, exists_or]

theorem reads_ofFormulas : (ofFormulas h).dependencies.Reads = h.References := by
  funext a b
  rw [Dependencies.Reads, dependencies_ofFormulas, Dependencies.mem_successors_foldl_add]
  simp [Dependencies.empty, Dependencies.successors, mem_uniqueReferences, History.References]

end Building

/-- What an index is once the formulas of `h` came, however it was asked in between: a verdict that it
keeps is about all of them. -/
structure Current (h : History) (i : Index) : Prop where
  dependencies : i.dependencies = (ofFormulas h).dependencies
  verdict : ∀ cyclic ∈ i.verdict, cyclic = i.dependencies.hasCycle

section Serving

variable {h : History} {i : Index}

theorem current_ofFormulas (h : History) : Current h (ofFormulas h) where
  dependencies := rfl
  verdict := by simp [verdict_ofFormulas]

/-- A verdict that is kept does not outlive a new formula. -/
theorem Current.add (current : Current h i) (name text : String) :
    Current (h ++ [(name, text)]) (i.add name text) where
  dependencies := by rw [ofFormulas_append, Index.add, Index.add, current.dependencies]
  verdict := by simp [Index.add]

theorem Current.hasCycle (current : Current h i) :
    i.hasCycle.1 = i.dependencies.hasCycle ∧ Current h i.hasCycle.2 := by
  unfold Index.hasCycle
  split
  · rename_i cyclic kept
    exact ⟨current.verdict cyclic kept, current⟩
  · exact ⟨rfl, current.dependencies, by simp⟩

theorem Current.findCycle (current : Current h i) (name : String) :
    (i.findCycle name).1 = i.dependencies.findCycle name ∧ Current h (i.findCycle name).2 := by
  have asked := current.hasCycle
  have same : i.hasCycle.2.dependencies = i.dependencies :=
    asked.2.dependencies.trans current.dependencies.symm
  constructor
  · calc
      (i.findCycle name).1 = i.hasCycle.2.dependencies.findGiven i.hasCycle.1 name := rfl
      _ = i.dependencies.findCycle name := by rw [same, asked.1, Dependencies.findCycle]
  · exact asked.2

theorem Current.serve (current : Current h i) (r : Request) :
    (i.serve r).1 = (h.serve r).1 ∧ Current (h.serve r).2 (i.serve r).2 := by
  have rebuilt := current_ofFormulas h
  cases r with
  | add name text => exact ⟨rfl, current.add name text⟩
  | hasCycle =>
      have same : i.hasCycle.1 = (ofFormulas h).hasCycle.1 := by
        rw [current.hasCycle.1, rebuilt.hasCycle.1, current.dependencies]
      exact ⟨congrArg Answer.verdict same, current.hasCycle.2⟩
  | findCycle name =>
      have same : (i.findCycle name).1 = ((ofFormulas h).findCycle name).1 := by
        rw [(current.findCycle name).1, (rebuilt.findCycle name).1, current.dependencies]
      exact ⟨congrArg Answer.chain same, (current.findCycle name).2⟩
  | dependencies name =>
      refine ⟨?_, current⟩
      simp only [Index.serve, History.serve, current.dependencies]
  | clone => exact ⟨rfl, current⟩

end Serving

structure Call where
  callee : Nat
  request : Request

def Request.copies {σ : Type} (served : σ) : Request → List σ
  | clone => [served]
  | _ => []

section Related

variable {σ τ : Type} {Related : σ → τ → Prop} {states : List σ} {states' : List τ}

theorem related_getElem? (related : List.Forall₂ Related states states') (k : Nat) :
    Option.Rel Related states[k]? states'[k]? := by
  induction related generalizing k with
  | nil => exact .none
  | cons first rest ih =>
      cases k with
      | zero => exact .some first
      | succ k => exact ih k

theorem related_set (related : List.Forall₂ Related states states') (k : Nat) {s : σ} {t : τ}
    (one : Related s t) : List.Forall₂ Related (states.set k s) (states'.set k t) := by
  induction related generalizing k with
  | nil => exact .nil
  | cons first rest ih =>
      cases k with
      | zero => exact .cons one rest
      | succ k => exact .cons first (ih k)

theorem related_copies {s : σ} {t : τ} (one : Related s t) (r : Request) :
    List.Forall₂ Related (r.copies s) (r.copies t) := by
  cases r with
  | clone => exact .cons one .nil
  | add | hasCycle | findCycle | dependencies => exact .nil

end Related

section Runs

variable {σ τ : Type} (serve : σ → Request → Answer × σ)

/-- The answer to a call, where there is an index to serve it, and all indices afterwards. A copy comes
last. -/
def call (states : List σ) (c : Call) : Option Answer × List σ :=
  match states[c.callee]? with
  | none => (none, states)
  | some state =>
    let (answer, served) := serve state c.request
    (some answer, states.set c.callee served ++ c.request.copies served)

def run : List σ → List Call → List (Option Answer) × List σ
  | states, [] => ([], states)
  | states, c :: rest =>
    let (answer, states) := call serve states c
    let (answers, states) := run states rest
    (answer :: answers, states)

variable {serve} {serve' : τ → Request → Answer × τ} {Related : σ → τ → Prop}

theorem call_related {states : List σ} {states' : List τ}
    (step : ∀ s t r, Related s t → (serve' t r).1 = (serve s r).1 ∧ Related (serve s r).2 (serve' t r).2)
    (related : List.Forall₂ Related states states') (c : Call) :
    (call serve' states' c).1 = (call serve states c).1 ∧
      List.Forall₂ Related (call serve states c).2 (call serve' states' c).2 := by
  have callee := related_getElem? related c.callee
  rw [call, call]
  generalize states[c.callee]? = found, states'[c.callee]? = found' at callee
  cases callee with
  | none => exact ⟨rfl, related⟩
  | @some s t one =>
      have stepped := step s t c.request one
      exact ⟨congrArg some stepped.1,
        List.rel_append (related_set related c.callee stepped.2) (related_copies stepped.2 c.request)⟩

/-- Servers that answer one request alike from related states answer every sequence of calls alike. -/
theorem run_related {states : List σ} {states' : List τ}
    (step : ∀ s t r, Related s t → (serve' t r).1 = (serve s r).1 ∧ Related (serve s r).2 (serve' t r).2)
    (related : List.Forall₂ Related states states') (calls : List Call) :
    (run serve' states' calls).1 = (run serve states calls).1 ∧
      List.Forall₂ Related (run serve states calls).2 (run serve' states' calls).2 := by
  induction calls generalizing states states' with
  | nil => exact ⟨rfl, related⟩
  | cons c rest ih =>
      have now := call_related step related c
      have later := ih now.2
      rw [run, run]
      exact ⟨congrArg₂ List.cons now.1 later.1, later.2⟩

end Runs

/-- An index says of the formulas of `h` what they say: the names they mention, what each of these reads,
and whether any of them comes back to itself. -/
structure Faithful (h : History) (i : Index) : Prop where
  nodes : i.dependencies.names.Nodup
  mentioned : ∀ name, name ∈ i.dependencies.names ↔ h.Mentions name
  distinct : ∀ name, (i.dependencies.successors name).Nodup
  references : ∀ name read, read ∈ i.dependencies.successors name ↔ h.References name read
  unknown : ∀ name, ¬ h.Mentions name → i.dependencies.successors name = []
  verdict : i.hasCycle.1 = true ↔ ∃ name, TransGen h.References name name

theorem Current.faithful {h : History} {i : Index} (current : Current h i) : Faithful h i where
  nodes := by
    rw [current.dependencies]
    exact (tidy_ofFormulas h).names
  mentioned := by
    intro name
    rw [current.dependencies]
    exact mem_names_ofFormulas h
  distinct := by
    intro name
    rw [current.dependencies]
    exact (tidy_ofFormulas h).successors name
  references := by
    intro name read
    rw [current.dependencies, ← reads_ofFormulas]
    rfl
  unknown := by
    intro name absent
    apply List.eq_nil_iff_forall_not_mem.mpr
    intro read member
    rw [current.dependencies] at member
    have references : h.References name read := by
      rw [← reads_ofFormulas]
      exact member
    obtain ⟨f, added, rfl, -⟩ := references
    exact absent ⟨f, added, .inl rfl⟩
  verdict := by
    rw [current.hasCycle.1, current.dependencies, Dependencies.hasCycle_iff, reads_ofFormulas]

/-- Whatever is added, asked and copied in whatever order, every answer is the one of an index built anew from
the formulas added to that index and to the one it was copied from before, and every index is faithful to
these formulas. -/
theorem answers_eq_rebuilt (calls : List Call) :
    let rebuilt := run History.serve [[]] calls
    let kept := run Index.serve [Index.empty] calls
    kept.1 = rebuilt.1 ∧ List.Forall₂ Faithful rebuilt.2 kept.2 := by
  intro rebuilt kept
  have start : List.Forall₂ Current [[]] [Index.empty] := .cons (current_ofFormulas []) .nil
  have same := run_related (fun h i r current => Current.serve current r) start calls
  exact ⟨same.1, same.2.imp fun h i current => current.faithful⟩

/-- A copy goes on without the cycle that is added to the index it was copied from. -/
example : (run Index.serve [Index.empty]
    [⟨0, .add "a" "%\x7bb\x7d"⟩, ⟨0, .hasCycle⟩, ⟨0, .clone⟩, ⟨0, .add "b" "%\x7ba\x7d"⟩, ⟨0, .hasCycle⟩,
      ⟨1, .hasCycle⟩]).1 =
    [some .done, some (.verdict false), some .done, some .done, some (.verdict true), some (.verdict false)] := by
  decide +kernel

end Index

end SlideDeck.Formula

namespace SlideDeck.Resolver

/-- Resolving asks the formulas of a page for their cycles as an index of them answers. -/
theorem cycleFrom_formulas (r : Resolver) (page : Nat) (name : String) :
    (r.formulas page).cycleFrom name = ((r.index page).findCycle name).1 := by
  have current := Formula.Index.current_ofFormulas (r.formulaTexts page)
  calc
    (r.formulas page).cycleFrom name = (r.dependencies page).findCycle name := rfl
    _ = (r.index page).dependencies.findCycle name := by
      rw [index, Formula.Index.dependencies_ofFormulas, dependencies]
    _ = ((r.index page).findCycle name).1 := (current.findCycle name).1.symm

end SlideDeck.Resolver
