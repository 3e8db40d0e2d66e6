import Mathlib
import SlideDeck.Script.Table

/-!
Tables as lists of entries: what a store does to a later read and to the entries, whatever it does to
the places that are kept for list positions.
-/

namespace SlideDeck.Script

namespace Key

/-- A key as a table stores it: no float that is an integer, and no NaN. -/
def Stored (k : Key) : Prop := Key.ofValue k.toValue = .ok k

@[grind .] theorem stored_int (n : Int64) : (Key.int n).Stored := rfl

@[grind .] theorem stored_string (s : ByteArray) : (Key.string s).Stored := rfl

theorem stored_ofValue {v : Value} {k : Key} (key : Key.ofValue v = .ok k) : k.Stored := by
  cases v with
  | nil => cases key
  | float x =>
      simp only [Key.ofValue] at key
      split at key
      · cases key
        rfl
      · rename_i inexact
        split at key
        · cases key
        · rename_i number
          cases key
          simp only [Stored, toValue, Float.ofBits_toBits, Key.ofValue, inexact, number]
          rfl
  | _ =>
      cases key
      rfl

end Key

namespace Table

/-- The index says of every key where it stands. -/
def Coherent (t : Table) : Prop := ∀ (k : Key) (i : Nat), t.index[k]? = some i ↔ ∃ v, t.slots[i]? = some (k, v)

/-- Its keys are as tables store them. -/
def Stored (t : Table) : Prop := ∀ e ∈ t.slots, e.1.Stored

variable {t : Table} {k k' : Key} {v : Value} {i : Nat}

theorem coherent_of_empty (slots : t.slots = #[]) (index : t.index = {}) : t.Coherent := by
  intro k i
  simp [slots, index]

theorem coherent_empty : ({} : Table).Coherent := coherent_of_empty rfl rfl

@[simp] theorem slots_makeRoom (t : Table) (k : Key) : (t.makeRoom k).slots = t.slots := by
  unfold makeRoom rearrange
  split
  · rfl
  · split <;> rfl

@[simp] theorem index_makeRoom (t : Table) (k : Key) : (t.makeRoom k).index = t.index := by
  unfold makeRoom rearrange
  split
  · rfl
  · split <;> rfl

@[simp] theorem strict_makeRoom (t : Table) (k : Key) : (t.makeRoom k).strict = t.strict := by
  unfold makeRoom
  split
  · rfl
  · split <;> rfl

@[simp] theorem strict_set (t : Table) (k : Key) (v : Value) : (t.set k v).strict = t.strict := by
  unfold set
  split
  · rfl
  · split
    · rfl
    · simp

section Stores

theorem set_known (known : t.index[k]? = some i) :
    t.set k v = { t with slots := t.slots.modify i fun e => (e.1, v) } := by
  simp only [set, known]

theorem set_nil (fresh : t.index[k]? = none) : t.set k .nil = t := by
  simp only [set, fresh, Value.isNil, if_true]

theorem set_fresh (fresh : t.index[k]? = none) (present : v.isNil = false) :
    (t.set k v).slots = t.slots.push (k, v) ∧ (t.set k v).index = t.index.insert k t.slots.size := by
  simp [set, fresh, present]

theorem Coherent.lt_size (coherent : t.Coherent) (known : t.index[k]? = some i) : i < t.slots.size := by
  obtain ⟨v, slot⟩ := (coherent k i).mp known
  exact (Array.getElem?_eq_some_iff.mp slot).1

theorem Coherent.set_known (coherent : t.Coherent) (known : t.index[k]? = some i) :
    (t.set k v).Coherent := by
  intro k' j
  rw [Table.set_known known]
  simp only [Array.getElem?_modify]
  rw [coherent k' j]
  split
  · rename_i same
    subst same
    constructor
    · rintro ⟨w, slot⟩
      exact ⟨v, by simp [slot]⟩
    · rintro ⟨w, slot⟩
      obtain ⟨e, old, shape⟩ := Option.map_eq_some_iff.mp slot
      exact ⟨e.2, by rw [old]; cases shape; rfl⟩
  · rfl

theorem Coherent.set_fresh (coherent : t.Coherent) (fresh : t.index[k]? = none)
    (present : v.isNil = false) : (t.set k v).Coherent := by
  obtain ⟨slots, index⟩ := Table.set_fresh fresh present
  intro k' j
  rw [slots, index, Std.HashMap.getElem?_insert, Array.getElem?_push]
  by_cases here : j = t.slots.size
  · subst here
    have outside : t.index[k']? ≠ some t.slots.size := fun known =>
      absurd (coherent.lt_size known) (Nat.lt_irrefl _)
    by_cases same : k = k'
    · simp [same]
    · simp [same, outside]
  · by_cases same : k = k'
    · subst same
      have absent := coherent k j
      rw [fresh] at absent
      simp only [beq_self_eq_true, if_true, if_neg here, ← absent, Option.some.injEq, reduceCtorEq,
        iff_false]
      exact Ne.symm here
    · simp [same, here, coherent k' j]

theorem Coherent.set (coherent : t.Coherent) (k : Key) (v : Value) : (t.set k v).Coherent := by
  cases known : t.index[k]? with
  | some i => exact coherent.set_known known
  | none =>
      cases present : v.isNil
      · exact coherent.set_fresh known present
      · cases v <;> cases present
        rwa [set_nil known]

theorem stored_of_empty (slots : t.slots = #[]) : t.Stored := by simp [Stored, slots]

theorem Stored.set (stored : t.Stored) (key : k.Stored) (v : Value) : (t.set k v).Stored := by
  intro e member
  cases known : t.index[k]? with
  | some i =>
      rw [set_known known] at member
      obtain ⟨j, found⟩ := Array.mem_iff_getElem?.mp member
      rw [Array.getElem?_modify] at found
      split at found
      · obtain ⟨old, slot, rfl⟩ := Option.map_eq_some_iff.mp found
        exact stored old (Array.mem_of_getElem? slot)
      · exact stored e (Array.mem_of_getElem? found)
  | none =>
      cases present : v.isNil
      · rw [(set_fresh known present).1, Array.mem_push] at member
        rcases member with old | rfl
        · exact stored e old
        · exact key
      · cases v <;> cases present
        rw [set_nil known] at member
        exact stored e member

theorem Stored.entries (stored : t.Stored) : ∀ k ∈ t.entries.map (·.1), k.Stored := by
  intro k member
  obtain ⟨e, inside, rfl⟩ := List.mem_map.mp member
  exact stored e (Array.mem_toList_iff.mp (List.mem_filter.mp inside).1)

end Stores

section Read

theorem get_of_slot (coherent : t.Coherent) (slot : t.slots[i]? = some (k, v)) : t.get k = v := by
  have known := (coherent k i).mpr ⟨v, slot⟩
  simp only [get, known, slot]

theorem get_absent (absent : t.index[k]? = none) : t.get k = .nil := by
  simp only [get, absent]

theorem Coherent.slot (coherent : t.Coherent) (known : t.index[k]? = some i) :
    t.slots[i]? = some (k, t.get k) := by
  obtain ⟨v, slot⟩ := (coherent k i).mp known
  rw [get_of_slot coherent slot, slot]

theorem Coherent.get_of_mem_entries (coherent : t.Coherent) {e : Key × Value} (member : e ∈ t.entries) :
    t.get e.1 = e.2 := by
  obtain ⟨inside, -⟩ := List.mem_filter.mp member
  obtain ⟨i, slot⟩ := List.getElem?_of_mem inside
  rw [Array.getElem?_toList] at slot
  exact get_of_slot coherent slot

theorem get_set_self (coherent : t.Coherent) (k : Key) (v : Value) : (t.set k v).get k = v := by
  cases known : t.index[k]? with
  | some i =>
      have slot := coherent.slot known
      apply get_of_slot (coherent.set k v) (i := i)
      rw [set_known known, Array.getElem?_modify, if_pos rfl, slot]
      rfl
  | none =>
      cases present : v.isNil
      · apply get_of_slot (coherent.set k v) (i := t.slots.size)
        rw [(set_fresh known present).1, Array.getElem?_push, if_pos rfl]
      · cases v <;> cases present
        rw [set_nil known, get_absent known]

theorem get_set_other (coherent : t.Coherent) (differs : k' ≠ k) (v : Value) :
    (t.set k v).get k' = t.get k' := by
  cases known : t.index[k]? with
  | some i =>
      cases other : t.index[k']? with
      | none =>
          rw [get_absent other, set_known known]
          exact get_absent other
      | some j =>
          have slot := coherent.slot other
          apply get_of_slot (coherent.set k v) (i := j)
          have apart : i ≠ j := by
            rintro rfl
            have clash := coherent.slot known
            rw [slot] at clash
            exact differs (congrArg Prod.fst (Option.some.inj clash))
          rw [set_known known, Array.getElem?_modify, if_neg apart, slot]
  | none =>
      cases present : v.isNil
      · obtain ⟨slots, index⟩ := set_fresh known present
        have same : (t.set k v).index[k']? = t.index[k']? := by
          rw [index, Std.HashMap.getElem?_insert]
          simp [Ne.symm differs]
        cases other : t.index[k']? with
        | none => rw [get_absent other, get_absent (same.trans other)]
        | some j =>
            have slot := coherent.slot other
            apply get_of_slot (coherent.set k v) (i := j)
            rw [slots, Array.getElem?_push, if_neg (coherent.lt_size other).ne, slot]
      · cases v <;> cases present
        rw [set_nil known]

/-- What is stored under a key is read under it, and nothing changes under the others. -/
theorem get_set (coherent : t.Coherent) (k : Key) (v : Value) (k' : Key) :
    (t.set k v).get k' = if k' = k then v else t.get k' := by
  by_cases same : k' = k
  · subst same
    rw [if_pos rfl, get_set_self coherent]
  · rw [if_neg same, get_set_other coherent same]

end Read

section Build

def setAll (t : Table) (entries : List (Key × Value)) : Table :=
  entries.foldl (fun t e => t.set e.1 e.2) t

theorem setAll_append (t : Table) (xs ys : List (Key × Value)) :
    t.setAll (xs ++ ys) = (t.setAll xs).setAll ys := List.foldl_append

theorem Coherent.setAll (coherent : t.Coherent) (entries : List (Key × Value)) :
    (t.setAll entries).Coherent := by
  induction entries generalizing t with
  | nil => exact coherent
  | cons e rest ih => exact ih (coherent.set e.1 e.2)

theorem coherent_ofList (vs : List Value) : (ofList vs).Coherent :=
  List.foldlRecOn (motive := fun s : Table × Nat => s.1.Coherent) vs _ (coherent_of_empty rfl rfl)
    fun _ coherent v _ => coherent.set _ v

theorem stored_ofList (vs : List Value) : (ofList vs).Stored :=
  List.foldlRecOn (motive := fun s : Table × Nat => s.1.Stored) vs _ (stored_of_empty rfl)
    fun s stored v _ => stored.set (Key.stored_int (Int64.ofNat s.2)) v

theorem entries_set_fresh (fresh : t.index[k]? = none) (v : Value) :
    (t.set k v).entries = t.entries ++ [(k, v)].filter fun e => !e.2.isNil := by
  cases present : v.isNil
  · simp [entries, (set_fresh fresh present).1, present]
  · cases v <;> cases present
    rw [set_nil fresh]
    simp [Value.isNil]

theorem index_set_other (differs : k' ≠ k) (fresh : t.index[k]? = none) (v : Value) :
    (t.set k v).index[k']? = t.index[k']? := by
  cases present : v.isNil
  · rw [(set_fresh fresh present).2, Std.HashMap.getElem?_insert]
    simp [Ne.symm differs]
  · cases v <;> cases present
    rw [set_nil fresh]

theorem entries_setAll {entries : List (Key × Value)} (distinct : (entries.map (·.1)).Nodup)
    (fresh : ∀ k ∈ entries.map (·.1), t.index[k]? = none) :
    (t.setAll entries).entries = t.entries ++ entries.filter fun e => !e.2.isNil := by
  induction entries generalizing t with
  | nil => simp [setAll]
  | cons e rest ih =>
      obtain ⟨k, v⟩ := e
      rw [List.map_cons, List.nodup_cons] at distinct
      have here : t.index[k]? = none := fresh k List.mem_cons_self
      have later : ∀ k' ∈ rest.map (·.1), (t.set k v).index[k']? = none := fun k' member => by
        have differs : k' ≠ k := fun same => distinct.1 (same ▸ member)
        rw [index_set_other differs here]
        exact fresh k' (List.mem_cons_of_mem _ member)
      calc
        (t.setAll ((k, v) :: rest)).entries = ((t.set k v).setAll rest).entries := rfl
        _ = (t.set k v).entries ++ rest.filter fun e => !e.2.isNil := ih distinct.2 later
        _ = t.entries ++ ((k, v) :: rest).filter fun e => !e.2.isNil := by
          rw [entries_set_fresh here, List.append_assoc, ← List.filter_append, List.singleton_append]

theorem get_setAll_other (coherent : t.Coherent) {entries : List (Key × Value)}
    (other : k ∉ entries.map (·.1)) : (t.setAll entries).get k = t.get k := by
  induction entries generalizing t with
  | nil => rfl
  | cons e rest ih =>
      rw [List.map_cons, List.mem_cons, not_or] at other
      exact (ih (coherent.set e.1 e.2) other.2).trans (get_set_other coherent other.1 e.2)

theorem get_setAll_last (coherent : t.Coherent) (before : List (Key × Value)) (v : Value)
    {after : List (Key × Value)} (last : k ∉ after.map (·.1)) :
    (t.setAll (before ++ (k, v) :: after)).get k = v := by
  rw [setAll_append]
  have kept := coherent.setAll before
  exact (get_setAll_other (kept.set k v) last).trans (get_set_self kept k v)

end Build

end Table

end SlideDeck.Script
