import SlideDeck.Proofs.Script.Lines.Basic
import SlideDeck.Proofs.Script.Change

/-!
Which lines a machine mentions: those of the code that it holds, and those of the errors of the host among
its values. What scripts do with their operands brings in no other.
-/

namespace SlideDeck.Script

open Located (Within)

variable {L : Nat → Prop}

section Kinds

instance : Located Closure := ⟨fun L c => Within L c.code⟩

instance : Located Slot := ⟨fun L s => match s with
  | .plain v => Within L v
  | .shared _ => True⟩

instance : Located Frame := ⟨fun L f => Within L f.code ∧ Within L f.slots ∧ Within L f.stack ∧ Within L f.extra⟩

instance : Located Level := ⟨fun L l => match l with
  | .script f _ => Within L f
  | .host _ => True⟩

instance : Located Key := ⟨fun L k => Within L k.toValue⟩

instance : Located Table := ⟨fun L t => Within L t.slots⟩

instance : Located Heap := ⟨fun L h => Within L h.tables ∧ Within L h.closures ∧ Within L h.cells⟩

instance : Located Machine :=
  ⟨fun L m => Within L m.current ∧ Within L m.below ∧ Within L m.opened ∧ Within L m.heap⟩

instance : Located Failure := ⟨fun L e => match e with
  | .raised v => Within L v
  | .outOfMemory | .unfinished => True⟩

@[grind .] theorem within_shared {c : Nat} : Within L (Slot.shared c) := trivial

@[grind =] theorem within_frame {f : Frame} :
    Within L f ↔ Within L f.code ∧ Within L f.slots ∧ Within L f.stack ∧ Within L f.extra := Iff.rfl

@[grind =] theorem within_key {k : Key} : Within L k ↔ Within L k.toValue := Iff.rfl

@[grind =] theorem within_machine {m : Machine} :
    Within L m ↔ Within L m.current ∧ Within L m.below ∧ Within L m.opened ∧ Within L m.heap := Iff.rfl

@[grind =] theorem within_raised {v : Value} : Within L (Failure.raised v) ↔ Within L v := Iff.rfl

@[grind .] theorem within_outOfMemory : Within L Failure.outOfMemory := trivial

end Kinds

section Tables

variable {t : Table} {k : Key} {v : Value}

@[simp, grind .] theorem within_empty : Within L ({} : Table) := within_array_nil

@[grind .] theorem within_sized (items keys : Nat) : Within L (Table.sized items keys) :=
  within_array_nil

theorem within_toValue (within : Within L v) (key : Key.ofValue v = .ok k) : Within L k := by
  unfold Key.ofValue at key
  split at key <;> grind [Key.toValue]

@[grind ←] theorem within_get (within : Within L t) (k : Key) : Within L (t.get k) := by
  unfold Table.get
  split
  · trivial
  · split
    · trivial
    · rename_i slot found
      exact (within_getElem? within slot found).2

@[grind ←] theorem within_set (within : Within L t) (key : Within L k) (value : Within L v) :
    Within L (t.set k v) := by
  unfold Table.set
  split
  · rename_i place _
    have replaced : ∀ e : Key × Value, Within L e → Within L (e.1, v) := fun e old => ⟨old.1, value⟩
    exact within_modify within replaced
  · split
    · exact within
    · change Within L ((t.makeRoom k).slots.push (k, v))
      rw [Table.slots_makeRoom]
      exact within_push.mpr ⟨within, key, value⟩

@[grind ←] theorem within_setNat (within : Within L t) (value : Within L v) (n : Nat) : Within L (t.setNat n v) :=
  within_set within trivial value

@[grind ←] theorem within_setString (within : Within L t) (value : Within L v) (s : String) :
    Within L (t.setString s v) :=
  within_set within trivial value

@[grind ←] theorem within_ofList {vs : List Value} (within : Within L vs) : Within L (Table.ofList vs) := by
  have kept : ∀ s : Table × Nat, Within L s.1 → ∀ v ∈ vs, Within L (s.1.setNat s.2 v) := fun s before v member =>
    within_setNat before (within v member) s.2
  exact List.foldlRecOn (motive := fun s : Table × Nat => Within L s.1) vs _ (within_sized _ _) kept

theorem within_denseAfter (within : Within L t) (fuel n : Nat) : Within L (t.denseAfter fuel n) := by
  induction fuel generalizing n with
  | zero => exact within_none
  | succ fuel ih =>
      unfold Table.denseAfter
      split
      · exact ih _
      · exact within_some.mpr ⟨trivial, within_get within _⟩

theorem within_looseFrom (within : Within L t) (fuel i : Nat) : Within L (t.looseFrom fuel i) := by
  induction fuel generalizing i with
  | zero => exact within_none
  | succ fuel ih =>
      unfold Table.looseFrom
      split
      · exact within_none
      · rename_i k v found
        split
        · exact ih _
        · exact within_some.mpr (within_getElem? within _ found)

theorem within_after (within : Within L t) (n : Nat) : Within L (t.after n) := by
  unfold Table.after
  split
  · rename_i e found
    exact found ▸ within_denseAfter within _ n
  · exact within_looseFrom within _ 0

@[grind ←] theorem within_next (within : Within L t) (last : Option Key) : Within L (t.next last) := by
  have loose := within_looseFrom within
  have behind := within_after within
  unfold Table.next
  grind

end Tables

section Heaps

variable {h : Heap} {v : Value} {a : Nat}

@[grind ←] theorem within_heap_table (within : Within L h) (a : Nat) : Within L (h.table a) :=
  within_getD within.1 within_empty

@[grind ←] theorem within_heap_cell (within : Within L h) (a : Nat) : Within L (h.cell a) :=
  within_getD within.2.2 trivial

@[grind ←] theorem within_addTable {t : Table} (within : Within L h) (new : Within L t) :
    Within L (h.addTable t) :=
  ⟨trivial, within_push.mpr ⟨within.1, new⟩, within.2⟩

@[grind ←] theorem within_modifyTable {change : Table → Table} (within : Within L h)
    (keeps : ∀ t, Within L t → Within L (change t)) (a : Nat) : Within L (h.modifyTable a change) :=
  ⟨within_modify within.1 keeps, within.2⟩

@[grind ←] theorem within_addCell (within : Within L h) (new : Within L v) : Within L (h.addCell v) :=
  ⟨trivial, within.1, within.2.1, within_push.mpr ⟨within.2.2, new⟩⟩

@[grind ←] theorem within_setCell (within : Within L h) (new : Within L v) (a : Nat) : Within L (h.setCell a v) :=
  ⟨within.1, within.2.1, within_modify within.2.2 fun _ _ => new⟩

@[grind ←] theorem within_addClosure {c : Closure} (within : Within L h) (new : Within L c) :
    Within L (h.addClosure c) :=
  ⟨trivial, within.1, within_push.mpr ⟨within.2.1, new⟩, within.2.2⟩

theorem within_ofNumber (j : Json) : Within L (ofNumber j) := by
  unfold ofNumber
  grind

mutual

theorem within_ofJson : ∀ (j : Json) (h : Heap), Within L h → Within L (ofJson h j)
  | .null, _, within | .bool _, _, within | .string _, _, within => ⟨trivial, within⟩
  | .int n, _, within => ⟨within_ofNumber (.int n), within⟩
  | .float x, _, within => ⟨within_ofNumber (.float x), within⟩
  | .array items, h, within => by
      have read := within_ofItems items h {} 1 within within_empty
      exact ⟨trivial, (within_addTable read.2 read.1).2⟩
  | .object fields, h, within => by
      have read := within_ofFields fields h {} within within_empty
      exact ⟨trivial, (within_addTable read.2 read.1).2⟩

theorem within_ofItems : ∀ (items : List Json) (h : Heap) (t : Table) (position : Nat),
    Within L h → Within L t → Within L (ofItems h t position items)
  | [], _, _, _, heap, table => ⟨table, heap⟩
  | j :: rest, h, t, position, heap, table => by
      have read := within_ofJson j h heap
      exact within_ofItems rest _ _ _ read.2 (within_setNat table read.1 position)

theorem within_ofFields : ∀ (fields : List (String × Json)) (h : Heap) (t : Table),
    Within L h → Within L t → Within L (ofFields h t fields)
  | [], _, _, heap, table => ⟨table, heap⟩
  | (k, j) :: rest, h, t, heap, table => by
      have read := within_ofJson j h heap
      exact within_ofFields rest _ _ read.2 (within_setString table read.1 k)

end

end Heaps

section Traces

variable {f : Frame} {l : Level} {m : Machine}

theorem within_line? (within : Within L f) : ∀ n, f.line? = some n → L n :=
  fun _ found => within.1.2 _ (Array.mem_of_getElem? found)

theorem within_levels (within : Within L m) : Within L m.levels := by
  intro l member
  have inside := (List.takeWhile_prefix _).subset member
  rcases List.mem_append.mp inside with host | script
  · obtain ⟨h, -, rfl⟩ := List.mem_map.mp host
    trivial
  · rcases List.mem_cons.mp script with rfl | waiting
    · exact within.1
    · exact within.2.1 l waiting

theorem within_activation_of_level (within : Within L l) (m : Machine) (caller : Option Level) :
    Within L (m.activation l caller) := by
  cases l with
  | script f wanted => exact fun _ => within_line? within
  | host h => cases h <;> exact within_activation nofun

/-- In the trace of a machine the script functions are at lines of the machine. -/
theorem within_trace (within : Within L m) (above : List Host) : Within L (m.trace above) := by
  intro a member
  obtain ⟨⟨l, caller⟩, here, rfl⟩ := List.mem_map.mp member
  refine within_activation_of_level ?_ m caller
  rcases List.mem_append.mp (List.of_mem_zip here).1 with host | running
  · obtain ⟨h, -, rfl⟩ := List.mem_map.mp host
    trivial
  · exact within_levels within l running

end Traces

section Everywhere

end Everywhere

end SlideDeck.Script
