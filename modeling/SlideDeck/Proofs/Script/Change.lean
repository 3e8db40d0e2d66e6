import Mathlib
import SlideDeck.Proofs.Script.Conversion
import SlideDeck.Script.Operation

/-!
What a running script can change. Whatever it does comes down to a sequence of a few changes: work on
the frames and counters, one store on the heap at a time, and lines written at the end of the console.
What each of them keeps is kept by every run.
-/

namespace SlideDeck.Script

inductive Heap.Change : Heap → Heap → Prop
  | addTable (h : Heap) {t : Table} (coherent : t.Coherent) (stored : t.Stored) : Change h (h.addTable t).2
  | setEntry (h : Heap) (a : Nat) {k : Key} (stored : k.Stored) (v : Value) :
    Change h (h.modifyTable a (·.set k v))
  | addCell (h : Heap) (v : Value) : Change h (h.addCell v).2
  | setCell (h : Heap) (c : Nat) (v : Value) : Change h (h.setCell c v)
  | addClosure (h : Heap) (c : Closure) : Change h (h.addClosure c).2

/-- Nothing differs but what a machine uses to do its work. -/
@[mk_iff]
structure Machine.SameStore (m m' : Machine) : Prop where
  heap : m'.heap = m.heap
  console : m'.console = m.console
  stringMethods : m'.stringMethods = m.stringMethods
  memoryLimit : m'.memoryLimit = m.memoryLimit
  now : m'.now = m.now
  steps : m.steps ≤ m'.steps

attribute [grind =] Machine.sameStore_iff

inductive Machine.Change : Machine → Machine → Prop
  | work {m m' : Machine} (same : m.SameStore m') : Change m m'
  | store (m : Machine) {h : Heap} (change : m.heap.Change h) : Change m { m with heap := h }
  | write (m : Machine) (w : ConsoleWriter) (texts : List String) :
    Change m { m with console := m.console.push (w.line texts) }

abbrev Heap.Reaches : Heap → Heap → Prop := Relation.ReflTransGen Heap.Change

abbrev Machine.Reaches : Machine → Machine → Prop := Relation.ReflTransGen Machine.Change

theorem Machine.Reaches.ofHeap (m : Machine) {h : Heap} (reaches : m.heap.Reaches h) :
    m.Reaches { m with heap := h } := by
  induction reaches with
  | refl => exact .refl
  | tail _ change ih => exact ih.tail (.store _ change)

/-! What is handed over as a table is put into the heap one table at a time, the inner ones first. -/

mutual

theorem reaches_ofJson : ∀ (j : Json) (h : Heap), h.Reaches (ofJson h j).2
  | .null, _ | .bool _, _ | .int _, _ | .float _, _ | .string _, _ => .refl
  | .array items, h => (reaches_ofItems items h {} 1).tail
      (.addTable _ (coherent_ofItems items Table.coherent_empty h 1)
        (stored_ofItems items (Table.stored_of_empty rfl) h 1))
  | .object fields, h => (reaches_ofFields fields h {}).tail
      (.addTable _ (coherent_ofFields fields Table.coherent_empty h)
        (stored_ofFields fields (Table.stored_of_empty rfl) h))

theorem reaches_ofItems : ∀ (items : List Json) (h : Heap) (t : Table) (position : Nat),
    h.Reaches (ofItems h t position items).2
  | [], _, _, _ => .refl
  | j :: rest, h, _, _ => (reaches_ofJson j h).trans (reaches_ofItems rest _ _ _)

theorem reaches_ofFields : ∀ (fields : List (String × Json)) (h : Heap) (t : Table),
    h.Reaches (ofFields h t fields).2
  | [], _, _ => .refl
  | (_, j) :: rest, h, _ => (reaches_ofJson j h).trans (reaches_ofFields rest _ _)

end

section Kept

variable {h h' : Heap} {m m' : Machine}

/-- In every table every key is found where it stands. -/
def Heap.Coherent (h : Heap) : Prop := ∀ (a : Nat) (t : Table), h.tables[a]? = some t → t.Coherent

def Heap.Stored (h : Heap) : Prop := ∀ (a : Nat) (t : Table), h.tables[a]? = some t → t.Stored

/-- What new tables have and stores keep holds of all tables after a change. -/
theorem Heap.Change.tables {P : Table → Prop} (change : h.Change h')
    (new : ∀ t : Table, t.Coherent → t.Stored → P t)
    (set : ∀ (t : Table) (k : Key) (v : Value), k.Stored → P t → P (t.set k v))
    (before : ∀ (a : Nat) (t : Table), h.tables[a]? = some t → P t) :
    ∀ (a : Nat) (t : Table), h'.tables[a]? = some t → P t := by
  intro a u found
  cases change with
  | addTable coherent stored =>
      simp only [Heap.addTable, Array.getElem?_push] at found
      split at found
      · obtain rfl := Option.some.inj found
        exact new _ coherent stored
      · exact before a u found
  | setEntry b stored v =>
      simp only [Heap.modifyTable, Array.getElem?_modify] at found
      split at found
      · obtain ⟨t, old, rfl⟩ := Option.map_eq_some_iff.mp found
        exact set t _ v stored (before a t old)
      · exact before a u found
  | addCell => exact before a u found
  | setCell => exact before a u found
  | addClosure => exact before a u found

theorem Heap.Change.coherent (change : h.Change h') (coherent : h.Coherent) : h'.Coherent :=
  change.tables (fun _ new _ => new) (fun _ k v _ old => old.set k v) coherent

theorem Heap.Change.stored (change : h.Change h') (stored : h.Stored) : h'.Stored :=
  change.tables (fun _ _ new => new) (fun _ _ v key old => old.set key v) stored

theorem Heap.Reaches.coherent (reaches : h.Reaches h') (coherent : h.Coherent) : h'.Coherent := by
  induction reaches with
  | refl => exact coherent
  | tail _ change ih => exact change.coherent ih

theorem Heap.Reaches.stored (reaches : h.Reaches h') (stored : h.Stored) : h'.Stored := by
  induction reaches with
  | refl => exact stored
  | tail _ change ih => exact change.stored ih

theorem Heap.Stored.table (stored : h.Stored) (a : Nat) : (h.table a).Stored := by
  rw [Heap.table, Array.getD_eq_getD_getElem?]
  cases found : h.tables[a]? with
  | none => exact Table.stored_of_empty rfl
  | some t => exact stored a t found

/-- What a script cannot undo. -/
structure Machine.Continues (m m' : Machine) : Prop where
  written : ∃ lines : List String, m'.console = lines.foldl Console.push m.console
  coherent : m.heap.Coherent → m'.heap.Coherent
  stored : m.heap.Stored → m'.heap.Stored
  stringMethods : m'.stringMethods = m.stringMethods
  memoryLimit : m'.memoryLimit = m.memoryLimit
  now : m'.now = m.now
  steps : m.steps ≤ m'.steps

theorem Machine.Change.continues (change : m.Change m') : m.Continues m' := by
  cases change with
  | work same =>
      exact ⟨⟨[], same.console⟩, same.heap ▸ id, same.heap ▸ id, same.stringMethods, same.memoryLimit, same.now,
        same.steps⟩
  | store change => exact ⟨⟨[], rfl⟩, change.coherent, change.stored, rfl, rfl, rfl, le_rfl⟩
  | write w texts => exact ⟨⟨[w.line texts], rfl⟩, id, id, rfl, rfl, rfl, le_rfl⟩

theorem Machine.Continues.trans {m'' : Machine} (first : m.Continues m') (second : m'.Continues m'') :
    m.Continues m'' := by
  obtain ⟨lines, before⟩ := first.written
  obtain ⟨more, behind⟩ := second.written
  exact ⟨⟨lines ++ more, by rw [behind, before, List.foldl_append]⟩,
    second.coherent ∘ first.coherent, second.stored ∘ first.stored,
    second.stringMethods.trans first.stringMethods, second.memoryLimit.trans first.memoryLimit,
    second.now.trans first.now, first.steps.trans second.steps⟩

theorem Machine.Reaches.continues (reaches : m.Reaches m') : m.Continues m' := by
  induction reaches with
  | refl => exact ⟨⟨[], rfl⟩, id, id, rfl, rfl, rfl, le_rfl⟩
  | tail _ change ih => exact ih.trans change.continues

end Kept

namespace Exec

variable {α β : Type}

def after (x : Exec α) (m : Machine) : Machine :=
  match x m with
  | .ok _ m' => m'
  | .error _ m' => m'

theorem after_bind (x : Exec α) (f : α → Exec β) (m : Machine) :
    (x >>= f).after m = match x m with
      | .ok a m' => (f a).after m'
      | .error _ m' => m' := by
  simp only [after, bind, EStateM.bind]
  cases x m <;> rfl

end Exec

end SlideDeck.Script
