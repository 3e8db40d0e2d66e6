import Mathlib
import SlideDeck.Proofs.Script.Change

/-!
Which values of scripts turn into JSON: those whose tables are nested at most 128 deep and which, as far
as they can be followed, hold only what JSON can hold. A table turns into an array exactly if its keys
are the positions from one on.
-/

namespace SlideDeck.Script

section Success

variable {ε α β : Type} {x : Except ε α} {f : α → Except ε β} {xs : List α} {ys : List β}

def Succeeds (x : Except ε α) : Prop := ∃ a, x = .ok a

theorem succeeds_ok (a : α) : Succeeds (.ok a : Except ε α) := ⟨a, rfl⟩

theorem not_succeeds_error (e : ε) : ¬ Succeeds (.error e : Except ε α) := nofun

theorem succeeds_map {g : α → β} : Succeeds (x.map g) ↔ Succeeds x := by
  cases x with
  | error e => exact ⟨nofun, nofun⟩
  | ok a => exact ⟨fun _ => ⟨a, rfl⟩, fun _ => ⟨g a, rfl⟩⟩

theorem bind_eq_ok_iff {b : β} : (x >>= f) = .ok b ↔ ∃ a, x = .ok a ∧ f a = .ok b := by
  cases x with
  | error e => exact ⟨nofun, nofun⟩
  | ok a =>
      constructor
      · exact fun later => ⟨a, rfl, later⟩
      · rintro ⟨_, ⟨⟩, later⟩
        exact later

theorem mapM_eq_ok_iff : xs.mapM f = .ok ys ↔ List.Forall₂ (fun x y => f x = .ok y) xs ys := by
  induction xs generalizing ys with
  | nil =>
      rw [List.forall₂_nil_left_iff]
      exact ⟨fun done => (Except.ok.inj done).symm, fun done => done ▸ rfl⟩
  | cons x rest ih =>
      simp only [List.mapM_cons, bind_eq_ok_iff, ih, List.forall₂_cons_left_iff]
      constructor
      · rintro ⟨y, here, zs, later, done⟩
        exact ⟨y, zs, here, later, (Except.ok.inj done).symm⟩
      · rintro ⟨y, zs, here, later, rfl⟩
        exact ⟨y, here, zs, later, rfl⟩

theorem exists_forall₂_iff {related : α → β → Prop} :
    (∃ ys, List.Forall₂ related xs ys) ↔ ∀ x ∈ xs, ∃ y, related x y := by
  induction xs with
  | nil => exact ⟨fun _ _ member => absurd member List.not_mem_nil, fun _ => ⟨[], .nil⟩⟩
  | cons x rest ih =>
      rw [List.forall_mem_cons, ← ih]
      constructor
      · rintro ⟨_, _ | ⟨here, later⟩⟩
        exact ⟨⟨_, here⟩, _, later⟩
      · rintro ⟨⟨y, here⟩, ys, later⟩
        exact ⟨y :: ys, .cons here later⟩

end Success

section Shape

def IsText (bytes : ByteArray) : Prop := ∃ s : String, bytes = s.toUTF8

theorem succeeds_decodeText (bytes : ByteArray) : Succeeds (decodeText bytes) ↔ IsText bytes := by
  constructor
  · rintro ⟨s, decoded⟩
    unfold decodeText at decoded
    split at decoded
    · rename_i t read
      exact ⟨t, (toUTF8_of_decode read).symm⟩
    · cases decoded
  · rintro ⟨s, rfl⟩
    exact ⟨s, decodeText_toUTF8 s⟩

def Key.IsName : Key → Prop
  | .int _ | .float _ => True
  | .string bytes => IsText bytes
  | _ => False

theorem succeeds_keyText (k : Key) : Succeeds (keyText k) ↔ k.IsName := by
  cases k with
  | int n => exact ⟨fun _ => trivial, fun _ => succeeds_ok _⟩
  | float bits => exact ⟨fun _ => trivial, fun _ => succeeds_ok _⟩
  | string bytes => exact succeeds_decodeText bytes
  | _ => exact ⟨nofun, nofun⟩

structure ListKeys (entries : List (Key × Value)) (n : Nat) : Prop where
  some : 1 ≤ n
  small : n < 2 ^ 63
  keys : ∀ k, k ∈ entries.map (·.1) ↔ ∃ i, 1 ≤ i ∧ i ≤ n ∧ k = positionKey i

variable {entries : List (Key × Value)} {n : Nat}

theorem nodup_listKeys (small : n < 2 ^ 63) : (positionKeys n).Nodup := by
  refine List.Nodup.map_on ?_ List.nodup_range'
  intro i hi j hj same
  rw [List.mem_range'_1] at hi hj
  exact positionKey_injective (by omega) (by omega) same

theorem listLength?_eq_some_iff (distinct : (entries.map (·.1)).Nodup) :
    listLength? entries = some n ↔ ListKeys entries n := by
  rw [listLength?_eq_some distinct]
  constructor
  · rintro ⟨rfl, nonempty, bounded⟩
    have few : entries.length ≤ 2 ^ 63 - 1 := by
      refine Bounded.length_le (fun e member => ?_) distinct
      obtain ⟨i, position, -⟩ := bounded e member
      have small := (position?_eq_some_iff.mp position).2.1
      exact ⟨i, position, by omega⟩
    have all : (entries.map (·.1)).Perm (positionKeys entries.length) :=
      (bounded.subperm distinct).perm_of_length_le (by rw [List.length_map, length_positionKeys])
    exact ⟨nonempty, by omega, fun k => all.mem_iff.trans mem_positionKeys⟩
  · intro list
    have all : (entries.map (·.1)).Perm (positionKeys n) :=
      (List.perm_ext_iff_of_nodup distinct (nodup_listKeys list.small)).mpr
        fun k => (list.keys k).trans mem_positionKeys.symm
    have count : entries.length = n := by
      rw [← List.length_map (f := (·.1)), all.length_eq, length_positionKeys]
    refine ⟨count, list.some, fun e member => ?_⟩
    obtain ⟨i, low, high, key⟩ := (list.keys e.1).mp (List.mem_map_of_mem member)
    have small := list.small
    exact ⟨i, position?_eq_some_iff.mpr ⟨low, by omega, key⟩, high⟩

theorem listLength?_eq_none (distinct : (entries.map (·.1)).Nodup)
    (unlisted : ∀ n, ¬ ListKeys entries n) : listLength? entries = none :=
  Option.eq_none_iff_forall_ne_some.mpr fun n counted =>
    unlisted n ((listLength?_eq_some_iff distinct).mp counted)

end Shape

section Keys

variable {t : Table} {h : Heap}

theorem Table.Coherent.nodup_keys (coherent : t.Coherent) : (t.entries.map (·.1)).Nodup := by
  have slots : (t.slots.toList.map (·.1)).Nodup := by
    rw [List.nodup_iff_pairwise_ne, List.pairwise_map, List.pairwise_iff_getElem]
    intro i j hi hj before same
    have first := (coherent t.slots.toList[i].1 i).mpr ⟨t.slots.toList[i].2, by simp⟩
    have second := (coherent t.slots.toList[j].1 j).mpr ⟨t.slots.toList[j].2, by simp⟩
    rw [same] at first
    exact before.ne (Option.some.inj (first.symm.trans second))
  exact slots.sublist (List.filter_sublist.map _)

theorem Heap.Coherent.table (coherent : h.Coherent) (a : Nat) : (h.table a).Coherent := by
  cases found : h.tables[a]? with
  | none =>
      have beyond : h.table a = {} := by simp [Heap.table, Array.getD_eq_getD_getElem?, found]
      rw [beyond]
      exact Table.coherent_empty
  | some t =>
      have here : h.table a = t := by simp [Heap.table, Array.getD_eq_getD_getElem?, found]
      rw [here]
      exact coherent a t found

theorem Heap.coherent_ofTables {tables : List Table} (all : ∀ t ∈ tables, t.Coherent) :
    ({ tables := tables.toArray } : Heap).Coherent := fun a t found =>
  all t (List.mem_of_getElem? (i := a) (by simpa using found))

theorem Table.Coherent.getNat_iff (coherent : t.Coherent) {n : Nat} (list : ListKeys t.entries n)
    (holds : Value → Prop) :
    (∀ i ∈ List.range n, holds (t.getNat (i + 1))) ↔ ∀ e ∈ t.entries, holds e.2 := by
  constructor
  · intro all e member
    obtain ⟨i, low, high, key⟩ := (list.keys e.1).mp (List.mem_map_of_mem member)
    have read : t.getNat i = e.2 := by rw [← coherent.get_of_mem_entries member, key]; rfl
    have here := all (i - 1) (List.mem_range.mpr (by omega))
    rwa [Nat.sub_add_cancel low, read] at here
  · intro all i inside
    have bound := List.mem_range.mp inside
    have known : positionKey (i + 1) ∈ t.entries.map (·.1) :=
      (list.keys _).mpr ⟨i + 1, by omega, by omega, rfl⟩
    obtain ⟨e, member, key⟩ := List.mem_map.mp known
    have read : t.getNat (i + 1) = e.2 := by rw [← coherent.get_of_mem_entries member, key]; rfl
    rw [read]
    exact all e member

end Keys

namespace Heap

def Holds (h : Heap) (v w : Value) : Prop := ∃ a k, v = .table a ∧ (k, w) ∈ (h.table a).entries

/-- So many tables, each in the one before, of which the value is the first. -/
inductive Nested (h : Heap) : Value → Nat → Prop
  | single (a : Nat) : Nested h (.table a) 1
  | inside {a n : Nat} {k : Key} {w : Value} (entry : (k, w) ∈ (h.table a).entries) (rest : Nested h w n) :
      Nested h (.table a) (n + 1)

/-- What JSON can hold: of a table only its keys matter. -/
def Presentable (h : Heap) : Value → Prop
  | .nil | .bool _ | .int _ => True
  | .float x => x.isFinite = true
  | .string bytes => IsText bytes
  | .table a => (∃ n, ListKeys (h.table a).entries n) ∨ ∀ e ∈ (h.table a).entries, e.1.IsName
  | .function _ | .foreign _ _ | .fault _ => False

/-- Nested no deeper than `levels`, and presentable as far as it can be followed. -/
structure Encodable (h : Heap) (levels : Nat) (v : Value) : Prop where
  shallow : ∀ n, h.Nested v n → n ≤ levels
  presentable : ∀ w, Relation.ReflTransGen h.Holds v w → h.Presentable w

variable {h : Heap} {levels : Nat} {v : Value}

theorem encodable_flat (flat : ∀ a, v ≠ .table a) : h.Encodable levels v ↔ h.Presentable v := by
  constructor
  · exact fun encodable => encodable.presentable v .refl
  · intro fits
    refine ⟨fun n nested => ?_, fun w reach => ?_⟩
    · cases nested with
      | single a => exact absurd rfl (flat a)
      | inside => exact absurd rfl (flat _)
    · cases reach.cases_head with
      | inl same => exact same ▸ fits
      | inr step =>
          obtain ⟨-, ⟨a, -, table, -⟩, -⟩ := step
          exact absurd table (flat a)

theorem not_encodable_table (a : Nat) : ¬ h.Encodable 0 (.table a) :=
  fun encodable => absurd (encodable.shallow 1 (.single a)) (by decide)

theorem encodable_table {a : Nat} : h.Encodable (levels + 1) (.table a) ↔
    h.Presentable (.table a) ∧ ∀ e ∈ (h.table a).entries, h.Encodable levels e.2 := by
  constructor
  · intro encodable
    refine ⟨encodable.presentable _ .refl, fun e member => ⟨fun n nested => ?_, fun w reach => ?_⟩⟩
    · exact Nat.le_of_succ_le_succ (encodable.shallow (n + 1) (.inside member nested))
    · exact encodable.presentable w (.head ⟨a, e.1, rfl, member⟩ reach)
  · rintro ⟨keys, inner⟩
    refine ⟨fun n nested => ?_, fun w reach => ?_⟩
    · cases nested with
      | single => omega
      | inside entry rest => exact Nat.succ_le_succ ((inner _ entry).shallow _ rest)
    · cases reach.cases_head with
      | inl same => exact same ▸ keys
      | inr step =>
          obtain ⟨u, ⟨b, k, table, entry⟩, later⟩ := step
          cases table
          exact (inner _ entry).presentable w later

/-- Around a cycle there is no end to the nesting. -/
theorem nested_of_cycle {a : Nat} (cycle : Relation.TransGen h.Holds (.table a) (.table a)) (n : Nat) :
    ∃ m, n ≤ m ∧ h.Nested (.table a) m := by
  have step {v w : Value} {m : Nat} (way : Relation.TransGen h.Holds v w) (nested : h.Nested w m) :
      ∃ k, m < k ∧ h.Nested v k := by
    induction way using Relation.TransGen.head_induction_on with
    | single holds =>
        obtain ⟨b, k, rfl, entry⟩ := holds
        exact ⟨_, Nat.lt_succ_self _, .inside entry nested⟩
    | head holds _ ih =>
        obtain ⟨b, k, rfl, entry⟩ := holds
        obtain ⟨j, more, deeper⟩ := ih
        exact ⟨j + 1, by omega, .inside entry deeper⟩
  induction n with
  | zero => exact ⟨1, by omega, .single a⟩
  | succ n ih =>
      obtain ⟨m, most, nested⟩ := ih
      obtain ⟨k, more, deeper⟩ := step cycle nested
      exact ⟨k, by omega, deeper⟩

theorem nested_of_reach {v w : Value} (reach : Relation.ReflTransGen h.Holds v w) {n : Nat}
    (nested : h.Nested w n) : ∃ m, n ≤ m ∧ h.Nested v m := by
  induction reach using Relation.ReflTransGen.head_induction_on with
  | refl => exact ⟨n, le_rfl, nested⟩
  | head holds _ ih =>
      obtain ⟨a, k, rfl, entry⟩ := holds
      obtain ⟨m, most, deeper⟩ := ih
      exact ⟨m + 1, by omega, .inside entry deeper⟩

theorem not_encodable_of_cycle {a : Nat} (reach : Relation.ReflTransGen h.Holds v (.table a))
    (cycle : Relation.TransGen h.Holds (.table a) (.table a)) : ¬ h.Encodable levels v := by
  intro encodable
  obtain ⟨n, most, nested⟩ := nested_of_cycle cycle (levels + 1)
  obtain ⟨m, more, whole⟩ := nested_of_reach reach nested
  have bound := encodable.shallow m whole
  omega

end Heap

section Exact

variable {h : Heap} {levels : Nat} {v : Value}

theorem succeeds_flat (flat : ∀ a, v ≠ .table a) :
    Succeeds (toJsonWithin h levels v) ↔ h.Presentable v := by
  cases v with
  | table a => exact absurd rfl (flat a)
  | nil | bool b | int n =>
      simp only [toJsonWithin]
      exact ⟨fun _ => trivial, fun _ => succeeds_ok _⟩
  | float x =>
      simp only [toJsonWithin, Heap.Presentable]
      split
      · rename_i finite
        exact ⟨fun _ => finite, fun _ => succeeds_ok _⟩
      · rename_i infinite
        exact ⟨fun found => absurd found (not_succeeds_error _), fun finite => absurd finite infinite⟩
  | string bytes =>
      simp only [toJsonWithin]
      exact succeeds_map.trans (succeeds_decodeText bytes)
  | function f | fault f =>
      simp only [toJsonWithin]
      exact ⟨nofun, nofun⟩
  | foreign kind n => cases kind <;> (simp only [toJsonWithin]; exact ⟨nofun, nofun⟩)

theorem toJsonWithin_flat {more : Nat} {r : Except ConversionProblem Json}
    (result : toJsonWithin h levels v = r) (flat : ∀ a, v ≠ .table a) : toJsonWithin h more v = r := by
  cases v with
  | table a => exact absurd rfl (flat a)
  | foreign kind n => cases kind <;> simpa only [toJsonWithin] using result
  | _ => simpa only [toJsonWithin] using result

theorem toJsonWithin_list {a n : Nat} {j : Json} (counted : listLength? (h.table a).entries = some n) :
    toJsonWithin h (levels + 1) (.table a) = .ok j ↔ ∃ items,
      List.Forall₂ (fun i item => toJsonWithin h levels ((h.table a).getNat (i + 1)) = .ok item)
        (List.range n) items ∧ j = .array items := by
  simp only [toJsonWithin, counted, bind_eq_ok_iff, mapM_eq_ok_iff]
  refine exists_congr fun items => and_congr_right fun _ => ?_
  exact ⟨fun same => (Except.ok.inj same).symm, fun same => same ▸ rfl⟩

theorem toJsonWithin_fields {a : Nat} {j : Json} (uncounted : listLength? (h.table a).entries = none) :
    toJsonWithin h (levels + 1) (.table a) = .ok j ↔ ∃ fields : List (String × Json),
      List.Forall₂ (fun e f => keyText e.1 = .ok f.1 ∧ toJsonWithin h levels e.2 = .ok f.2)
        (h.table a).entries fields ∧ j = .object (Json.sorted fields) := by
  have field (e : Key × Value) (f : String × Json) : (do
      let key ← keyText e.1
      return (key, ← toJsonWithin h levels e.2)) = Except.ok f ↔
      keyText e.1 = .ok f.1 ∧ toJsonWithin h levels e.2 = .ok f.2 := by
    simp only [bind_eq_ok_iff]
    constructor
    · rintro ⟨key, named, j, converted, same⟩
      obtain rfl := Except.ok.inj same
      exact ⟨named, converted⟩
    · rintro ⟨named, converted⟩
      exact ⟨f.1, named, f.2, converted, rfl⟩
  simp only [toJsonWithin, uncounted, bind_eq_ok_iff, mapM_eq_ok_iff, field]
  refine exists_congr fun fields => and_congr_right fun _ => ?_
  exact ⟨fun same => (Except.ok.inj same).symm, fun same => same ▸ rfl⟩

/-- A table turns into JSON if its keys allow it and each of its values does with a level less. -/
theorem succeeds_table (coherent : h.Coherent) (a : Nat) :
    Succeeds (toJsonWithin h (levels + 1) (.table a)) ↔
      h.Presentable (.table a) ∧ ∀ e ∈ (h.table a).entries, Succeeds (toJsonWithin h levels e.2) := by
  have listed (n : Nat) := listLength?_eq_some_iff (coherent.table a).nodup_keys (n := n)
  cases counted : listLength? (h.table a).entries with
  | some n =>
      have list := (listed n).mp counted
      have items := (coherent.table a).getNat_iff list fun v => Succeeds (toJsonWithin h levels v)
      rw [← items, and_iff_right (show h.Presentable (.table a) from Or.inl ⟨n, list⟩)]
      unfold Succeeds
      rw [← exists_forall₂_iff]
      simp only [toJsonWithin_list counted, exists_comm (α := Json), exists_and_left, exists_eq, and_true]
  | none =>
      have unlisted : ¬ ∃ n, ListKeys (h.table a).entries n := fun ⟨n, list⟩ =>
        absurd ((listed n).mpr list) (by simp [counted])
      have member (e : Key × Value) : e.1.IsName ∧ Succeeds (toJsonWithin h levels e.2) ↔
          ∃ f : String × Json, keyText e.1 = .ok f.1 ∧ toJsonWithin h levels e.2 = .ok f.2 := by
        rw [← succeeds_keyText]
        constructor
        · rintro ⟨⟨key, named⟩, j, converted⟩
          exact ⟨(key, j), named, converted⟩
        · rintro ⟨f, named, converted⟩
          exact ⟨⟨f.1, named⟩, f.2, converted⟩
      rw [Heap.Presentable, or_iff_right unlisted, ← forall₂_and, forall₂_congr fun e _ => member e,
        ← exists_forall₂_iff]
      unfold Succeeds
      simp only [toJsonWithin_fields counted, exists_comm (α := Json), exists_and_left, exists_eq, and_true]

theorem succeeds_iff_flat (flat : ∀ a, v ≠ .table a) :
    Succeeds (toJsonWithin h levels v) ↔ h.Encodable levels v :=
  (succeeds_flat flat).trans (Heap.encodable_flat flat).symm

theorem succeeds_iff (coherent : h.Coherent) :
    Succeeds (toJsonWithin h levels v) ↔ h.Encodable levels v := by
  induction levels generalizing v with
  | zero =>
      cases v with
      | table a => exact ⟨nofun, fun encodable => absurd encodable (Heap.not_encodable_table a)⟩
      | _ => exact succeeds_iff_flat fun a => nofun
  | succ levels ih =>
      cases v with
      | table a =>
          rw [succeeds_table coherent, Heap.encodable_table]
          exact and_congr_right fun _ => forall₂_congr fun e _ => ih
      | _ => exact succeeds_iff_flat fun a => nofun

/-- More levels change nothing about what is accepted already. -/
theorem toJsonWithin_mono {more : Nat} {j : Json} (converted : toJsonWithin h levels v = .ok j)
    (most : levels ≤ more) : toJsonWithin h more v = .ok j := by
  induction levels generalizing v j more with
  | zero =>
      cases v with
      | table a => cases converted
      | _ => exact toJsonWithin_flat converted fun a => nofun
  | succ levels ih =>
      obtain ⟨more, rfl⟩ := Nat.exists_eq_add_of_le' (show 1 ≤ more by omega)
      cases v with
      | table a =>
          cases counted : listLength? (h.table a).entries with
          | some n =>
              rw [toJsonWithin_list counted] at converted ⊢
              obtain ⟨items, each, rfl⟩ := converted
              exact ⟨items, each.imp fun i item result => ih result (by omega), rfl⟩
          | none =>
              rw [toJsonWithin_fields counted] at converted ⊢
              obtain ⟨fields, each, rfl⟩ := converted
              exact ⟨fields, each.imp fun e f result => ⟨result.1, ih result.2 (by omega)⟩, rfl⟩
      | _ => exact toJsonWithin_flat converted fun a => nofun

theorem maxTableNesting_eq : maxTableNesting = 127 + 1 := rfl

theorem toJson_list (coherent : h.Coherent) {a n : Nat} {j : Json} (list : ListKeys (h.table a).entries n)
    (converted : toJson h (.table a) = .ok j) : ∃ items, j = .array items ∧ items.length = n ∧
      ∀ i item, items[i]? = some item → toJson h ((h.table a).getNat (i + 1)) = .ok item := by
  have counted := (listLength?_eq_some_iff (coherent.table a).nodup_keys).mpr list
  rw [toJson, maxTableNesting_eq, toJsonWithin_list counted] at converted
  obtain ⟨items, each, rfl⟩ := converted
  have length : items.length = n := by rw [← each.length_eq, List.length_range]
  refine ⟨items, rfl, length, fun i item here => ?_⟩
  obtain ⟨inside, rfl⟩ := List.getElem?_eq_some_iff.mp here
  have result := each.get (i := i) (by rw [List.length_range]; omega) inside
  simp only [List.get_eq_getElem, List.getElem_range] at result
  exact toJsonWithin_mono result (by decide)

theorem toJson_unlisted (coherent : h.Coherent) {a : Nat} {j : Json}
    (unlisted : ∀ n, ¬ ListKeys (h.table a).entries n) (converted : toJson h (.table a) = .ok j) :
    ∃ fields, j = .object fields := by
  have uncounted := listLength?_eq_none (coherent.table a).nodup_keys unlisted
  rw [toJson, maxTableNesting_eq, toJsonWithin_fields uncounted] at converted
  obtain ⟨fields, -, rfl⟩ := converted
  exact ⟨_, rfl⟩

/-- A value turns into JSON exactly if its tables are nested at most 128 deep and it holds, however far it
is followed, only what JSON can hold; so never if a table in it contains itself. A table turns into an
array of what its positions hold if its keys are exactly `1 .. n`, and into an object if they are not. -/
theorem toJson_exact (coherent : h.Coherent) (v : Value) :
    ((∃ j, toJson h v = .ok j) ↔
      (∀ n, h.Nested v n → n ≤ 128) ∧
        ∀ w, Relation.ReflTransGen h.Holds v w → h.Presentable w) ∧
    (∀ a, Relation.ReflTransGen h.Holds v (.table a) → Relation.TransGen h.Holds (.table a) (.table a) →
      ∀ j, toJson h v ≠ .ok j) ∧
    ∀ a j, toJson h (.table a) = .ok j →
      (∀ n, ListKeys (h.table a).entries n → ∃ items, j = .array items ∧ items.length = n ∧
        ∀ i item, items[i]? = some item → toJson h ((h.table a).getNat (i + 1)) = .ok item) ∧
      ((∀ n, ¬ ListKeys (h.table a).entries n) → ∃ fields, j = .object fields) := by
  have decided : Succeeds (toJson h v) ↔ h.Encodable 128 v := succeeds_iff coherent
  refine ⟨?_, fun a reach cycle j converted => ?_,
    fun a j converted => ⟨fun n list => ?_, fun unlisted => ?_⟩⟩
  · exact decided.trans ⟨fun encodable => ⟨encodable.1, encodable.2⟩, fun both => ⟨both.1, both.2⟩⟩
  · exact Heap.not_encodable_of_cycle reach cycle (decided.mp ⟨j, converted⟩)
  · exact toJson_list coherent list converted
  · exact toJson_unlisted coherent unlisted converted

def sharedTables : List Table :=
  [({} : Table).setString "x" (.int 1), (({} : Table).setNat 1 (.table 0)).setNat 2 (.table 0),
    ({} : Table).setNat 1 (.table 2)]

def sharedHeap : Heap := { tables := sharedTables.toArray }

theorem coherent_sharedHeap : sharedHeap.Coherent := Heap.coherent_ofTables <| by
  simp only [sharedTables, List.forall_mem_cons]
  exact ⟨Table.coherent_empty.set _ _, (Table.coherent_empty.set _ _).set _ _,
    Table.coherent_empty.set _ _, nofun⟩

/-- The list becomes an array, and the table in itself is refused. -/
theorem toJson_exact_of_shared :
    ListKeys (sharedHeap.table 1).entries 2 ∧
      (∃ items, toJson sharedHeap (.table 1) = .ok (.array items) ∧ items.length = 2) ∧
      ∀ j, toJson sharedHeap (.table 2) ≠ .ok j := by
  have keys : (sharedHeap.table 1).entries.map (·.1) = positionKeys 2 := by cbv
  have positions : ListKeys (sharedHeap.table 1).entries 2 :=
    ⟨by decide, by decide, fun k => keys ▸ mem_positionKeys⟩
  have entries : (sharedHeap.table 2).entries = [(positionKey 1, .table 2)] := by cbv
  have inside : (positionKey 1, .table 2) ∈ (sharedHeap.table 2).entries :=
    entries ▸ List.mem_singleton_self _
  have converted : toJson sharedHeap (.table 1) =
      .ok (.array [.object [("x", .int 1)], .object [("x", .int 1)]]) := by cbv
  obtain ⟨-, refused, -⟩ := toJson_exact coherent_sharedHeap (.table 2)
  obtain ⟨-, -, shaped⟩ := toJson_exact coherent_sharedHeap (.table 1)
  refine ⟨positions, ?_, refused 2 .refl (.single ⟨2, _, rfl, inside⟩)⟩
  obtain ⟨items, same, length, -⟩ := (shaped 1 _ converted).1 2 positions
  exact ⟨items, same ▸ converted, length⟩

end Exact

end SlideDeck.Script
