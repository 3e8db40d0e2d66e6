import Mathlib
import SlideDeck.Proofs.Json.Normal
import SlideDeck.Proofs.Script.Table
import SlideDeck.Script.Conversion

/-!
JSON taken over into tables and back again is its normal form, if it is not nested too deeply.
-/

namespace SlideDeck.Script

open Json (Held Ordered ThroughoutFields ThroughoutItems WellFormed normalFields)

section Text

theorem decode_toUTF8 (s : String) : Text.Utf8.decode s.toUTF8 = .ok s := by
  have read : String.fromUTF8? s.toUTF8 = some s := dif_pos s.isValidUTF8
  simp only [Text.Utf8.decode, read]

theorem toUTF8_of_decode {bytes : ByteArray} {s : String} (decoded : Text.Utf8.decode bytes = .ok s) :
    s.toUTF8 = bytes := by
  simp only [Text.Utf8.decode, String.fromUTF8?] at decoded
  split at decoded
  · rename_i read
    cases decoded
    split at read
    · cases read
      rfl
    · cases read
  · cases decoded

theorem decodeText_toUTF8 (s : String) : decodeText s.toUTF8 = .ok s := by
  simp only [decodeText, decode_toUTF8]

theorem toInt_ofNat {n : Nat} (small : n < 2 ^ 63) : (Int64.ofNat n).toInt = n :=
  Int64.toInt_ofNat_of_lt small

theorem keyText_position {n : Nat} (small : n < 2 ^ 63) :
    keyText (.int (Int64.ofNat n)) = .ok (toString n) := by
  simp only [keyText, intText, toInt_ofNat small]
  rfl

end Text

section Lists

theorem mapM_bounded {α β ε : Type} {f : α → Except ε β} (fits : α → Prop) [DecidablePred fits]
    (g : α → β) (problem : ε) {xs : List α}
    (each : ∀ a ∈ xs, f a = if fits a then .ok (g a) else .error problem) :
    xs.mapM f = if ∀ a ∈ xs, fits a then .ok (xs.map g) else .error problem := by
  induction xs with
  | nil => rfl
  | cons a rest ih =>
      rw [List.mapM_cons, each a List.mem_cons_self, ih fun b member => each b (List.mem_cons_of_mem a member)]
      by_cases here : fits a
      · by_cases later : ∀ b ∈ rest, fits b
        · rw [if_pos here, if_pos later, if_pos (List.forall_mem_cons.mpr ⟨here, later⟩)]
          rfl
        · rw [if_pos here, if_neg later, if_neg fun all => later (List.forall_mem_cons.mp all).2]
          rfl
      · rw [if_neg here, if_neg fun all => here (List.forall_mem_cons.mp all).1]
        rfl

theorem head_add_length_lt {p bound : Nat} {rest : List Nat} (increasing : (p :: rest).Pairwise (· < ·))
    (high : ∀ q ∈ p :: rest, q < bound) : p + rest.length < bound := by
  induction rest generalizing p with
  | nil => simpa using high
  | cons q rest ih =>
      obtain ⟨first, others⟩ := List.pairwise_cons.mp increasing
      have next := ih others fun r member => high r (List.mem_cons_of_mem p member)
      have step := first q List.mem_cons_self
      rw [List.length_cons]
      omega

/-- As many increasing numbers as a range has are that range. -/
theorem eq_range'_of_increasing {s : Nat} {ps : List Nat} (increasing : ps.Pairwise (· < ·))
    (low : ∀ p ∈ ps, s ≤ p) (high : ∀ p ∈ ps, p < s + ps.length) : ps = List.range' s ps.length := by
  induction ps generalizing s with
  | nil => rfl
  | cons p rest ih =>
      obtain ⟨first, others⟩ := List.pairwise_cons.mp increasing
      have bound := head_add_length_lt increasing high
      have least := low p List.mem_cons_self
      rw [List.length_cons] at bound
      obtain rfl : p = s := by omega
      rw [List.length_cons, List.range'_succ]
      congr 1
      refine ih others (fun q member => first q member) fun q member => ?_
      have top := high q (List.mem_cons_of_mem p member)
      rw [List.length_cons] at top
      omega

end Lists

def Heap.Extends (h H : Heap) : Prop := ∀ (a : Nat) (t : Table), h.tables[a]? = some t → H.tables[a]? = some t

section Extends

variable {h h' H : Heap}

theorem Heap.Extends.refl (h : Heap) : h.Extends h := fun _ _ found => found

theorem Heap.Extends.trans (first : h.Extends h') (second : h'.Extends H) : h.Extends H :=
  fun a t found => second a t (first a t found)

theorem Heap.extends_addTable (h : Heap) (t : Table) : h.Extends (h.addTable t).2 := by
  intro a u found
  have inside := (Array.getElem?_eq_some_iff.mp found).1
  simp only [Heap.addTable, Array.getElem?_push, if_neg inside.ne, found]

theorem Heap.Extends.table (extends_ : h.Extends H) {a : Nat} {t : Table} (found : h.tables[a]? = some t) :
    H.table a = t := by
  simp [Heap.table, extends_ a t found]

end Extends

section Cells

/-- A value of a script next to the JSON value that it was made from, under its name or position. -/
abbrev Cell (ι : Type) := ι × Value × Json

def within (levels : Nat) (j : Json) : Except ConversionProblem Json :=
  if j.depth ≤ levels then .ok j.normal else .error .tooDeep

/-- In `h` and wherever `h` is continued, the value turns into the normal form of `j`. -/
def Stands (h : Heap) (v : Value) (j : Json) : Prop :=
  v.isNil = j.isNull ∧ ∀ H, h.Extends H → ∀ levels, toJsonWithin H levels v = within levels j

variable {ι : Type} {h h' : Heap} {cells : List (Cell ι)} {levels : Nat}

theorem Stands.mono {v : Value} {j : Json} (stands : Stands h v j) (extends_ : h.Extends h') :
    Stands h' v j :=
  ⟨stands.1, fun H more => stands.2 H (extends_.trans more)⟩

def used (cells : List (Cell ι)) : List (Cell ι) := cells.filter fun c => !c.2.2.isNull

def entriesOf (key : ι → Key) (cells : List (Cell ι)) : List (Key × Value) :=
  cells.map fun c => (key c.1, c.2.1)

def membersOf (cells : List (Cell ι)) : List (ι × Json) := cells.map fun c => (c.1, c.2.2.normal)

theorem entries_ofCells {key : ι → Key} (stand : ∀ c ∈ cells, Stands h c.2.1 c.2.2)
    (distinct : (cells.map fun c => key c.1).Nodup) :
    ((({} : Table).setAll (entriesOf key cells)).entries) = entriesOf key (used cells) := by
  have keys : (entriesOf key cells).map (·.1) = cells.map fun c => key c.1 := by
    rw [entriesOf, List.map_map]
    rfl
  rw [Table.entries_setAll (keys ▸ distinct) fun k _ => Std.HashMap.getElem?_empty]
  have nothing : ({} : Table).entries = [] := rfl
  rw [nothing, List.nil_append, entriesOf, List.filter_map, entriesOf, used]
  congr 1
  apply List.filter_congr
  intro c member
  simp only [Function.comp_apply, (stand c member).1]

theorem forall_used_iff :
    (∀ c ∈ used cells, c.2.2.depth ≤ levels) ↔ ∀ c ∈ cells, c.2.2.depth ≤ levels := by
  constructor
  · intro all c member
    by_cases null : c.2.2.isNull = true
    · cases shape : c.2.2 <;> rw [shape] at null <;> cases null
      exact Nat.zero_le _
    · exact all c (List.mem_filter.mpr ⟨member, by simpa using null⟩)
  · intro all c member
    exact all c (List.mem_filter.mp member).1

theorem mem_of_mem_used {c : Cell ι} (member : c ∈ used cells) : c ∈ cells :=
  (List.mem_filter.mp member).1

theorem mapM_fields (levels : Nat) (key : ι → Key) (text : ι → String) (stand : ∀ c ∈ cells, Stands h c.2.1 c.2.2)
    (named : ∀ c ∈ cells, keyText (key c.1) = .ok (text c.1)) :
    ((entriesOf key cells).mapM fun e => do
      let k ← keyText e.1
      return (k, ← toJsonWithin h levels e.2)) =
      if ∀ c ∈ cells, c.2.2.depth ≤ levels then
        .ok ((membersOf cells).map fun m => (text m.1, m.2))
      else .error ConversionProblem.tooDeep := by
  rw [entriesOf, List.mapM_map, mapM_bounded (fun c : Cell ι => c.2.2.depth ≤ levels)
    (fun c => (text c.1, c.2.2.normal)) ConversionProblem.tooDeep, membersOf, List.map_map]
  · rfl
  · intro c member
    simp only [Function.comp_apply, named c member, (stand c member).2 h (.refl h) levels, within]
    split <;> rfl

end Cells

section Arrays

variable {h : Heap} {cells : List (Cell Nat)} {levels : Nat}

def positionKey (n : Nat) : Key := .int (Int64.ofNat n)

theorem positionKey_injective {i j : Nat} (hi : i < 2 ^ 63) (hj : j < 2 ^ 63)
    (same : positionKey i = positionKey j) : i = j := by
  have equal : (Int64.ofNat i).toInt = (Int64.ofNat j).toInt := congrArg Int64.toInt (Key.int.inj same)
  rw [toInt_ofNat hi, toInt_ofNat hj] at equal
  exact_mod_cast equal

theorem position?_eq_some_iff {k : Key} {n : Nat} :
    Table.position? k = some n ↔ 1 ≤ n ∧ n < 2 ^ 63 ∧ k = positionKey n := by
  constructor
  · intro found
    cases k with
    | int i =>
        simp only [Table.position?, Option.ite_none_right_eq_some, Option.some.injEq] at found
        obtain ⟨positive, rfl⟩ := found
        rw [Int64.lt_iff_toInt_lt, Int64.toInt_zero] at positive
        have below := i.toInt_lt
        have exact : (i.toNatClampNeg : Int) = i.toInt := Int.toNat_of_nonneg positive.le
        refine ⟨by omega, by omega, congrArg Key.int ?_⟩
        rw [← Int64.toInt_inj, toInt_ofNat (by omega), exact]
    | _ => cases found
  · rintro ⟨low, small, rfl⟩
    have place := toInt_ofNat small
    have positive : (0 : Int64) < Int64.ofNat n := by
      rw [Int64.lt_iff_toInt_lt, place, Int64.toInt_zero]
      omega
    rw [positionKey, Table.position?, if_pos positive, Int64.toNatClampNeg, place, Int.toNat_natCast]

variable {entries : List (Key × Value)} {n : Nat}

def positionKeys (n : Nat) : List Key := (List.range' 1 n).map positionKey

theorem mem_positionKeys {k : Key} : k ∈ positionKeys n ↔ ∃ i, 1 ≤ i ∧ i ≤ n ∧ k = positionKey i := by
  simp only [positionKeys, List.mem_map, List.mem_range'_1]
  constructor
  · rintro ⟨i, range, rfl⟩
    exact ⟨i, range.1, by omega, rfl⟩
  · rintro ⟨i, low, high, rfl⟩
    exact ⟨i, ⟨low, by omega⟩, rfl⟩

theorem length_positionKeys (n : Nat) : (positionKeys n).length = n := by
  rw [positionKeys, List.length_map, List.length_range']

def Bounded (entries : List (Key × Value)) (n : Nat) : Prop :=
  ∀ e ∈ entries, ∃ i, Table.position? e.1 = some i ∧ i ≤ n

/-- Distinct keys are at most as many as the positions that they are among. -/
theorem Bounded.subperm (bounded : Bounded entries n) (distinct : (entries.map (·.1)).Nodup) :
    (entries.map (·.1)).Subperm (positionKeys n) := by
  refine distinct.subperm fun k member => ?_
  obtain ⟨e, here, rfl⟩ := List.mem_map.mp member
  obtain ⟨i, position, high⟩ := bounded e here
  obtain ⟨low, -, key⟩ := position?_eq_some_iff.mp position
  exact mem_positionKeys.mpr ⟨i, low, high, key⟩

theorem Bounded.length_le (bounded : Bounded entries n) (distinct : (entries.map (·.1)).Nodup) :
    entries.length ≤ n := by
  have most := (bounded.subperm distinct).length_le
  rwa [List.length_map, length_positionKeys] at most

section Survey

variable (entries) (s : KeySurvey)

theorem count_survey : (entries.foldl KeySurvey.add s).count = s.count + entries.length := by
  induction entries generalizing s with
  | nil => rfl
  | cons e rest ih =>
      have here : (s.add e).count = s.count + 1 := by unfold KeySurvey.add; split <;> rfl
      rw [List.foldl_cons, ih, here, List.length_cons]
      omega

theorem allPositive_survey : (entries.foldl KeySurvey.add s).allPositive = true ↔
    s.allPositive = true ∧ ∀ e ∈ entries, ∃ i, Table.position? e.1 = some i := by
  induction entries generalizing s with
  | nil => simp
  | cons e rest ih =>
      have here : (s.add e).allPositive = true ↔ s.allPositive = true ∧ ∃ i, Table.position? e.1 = some i := by
        unfold KeySurvey.add
        split <;> simp [*]
      rw [List.foldl_cons, ih, here, List.forall_mem_cons, and_assoc]

theorem greatest_survey_le (n : Nat) : (entries.foldl KeySurvey.add s).greatest ≤ n ↔
    s.greatest ≤ n ∧ ∀ e ∈ entries, ∀ i, Table.position? e.1 = some i → i ≤ n := by
  induction entries generalizing s with
  | nil => simp
  | cons e rest ih =>
      have here : (s.add e).greatest ≤ n ↔ s.greatest ≤ n ∧ ∀ i, Table.position? e.1 = some i → i ≤ n := by
        unfold KeySurvey.add
        split <;> simp [*]
      rw [List.foldl_cons, ih, here, List.forall_mem_cons, and_assoc]

end Survey

/-- If distinct positive keys have their number as the greatest, none is beyond it; and if none is, the
greatest cannot be less, as there would be too many. -/
theorem listLength?_eq_some (distinct : (entries.map (·.1)).Nodup) :
    listLength? entries = some n ↔ entries.length = n ∧ 0 < n ∧ Bounded entries n := by
  have count := count_survey entries {}
  have positive := allPositive_survey entries {}
  have greatest := greatest_survey_le entries {}
  rw [Nat.zero_add] at count
  unfold listLength?
  dsimp only
  rw [count]
  simp only [Bool.and_eq_true, decide_eq_true_eq, positive, true_and, Option.ite_none_right_eq_some,
    Option.some.injEq]
  constructor
  · rintro ⟨⟨⟨all, nonempty⟩, most⟩, rfl⟩
    refine ⟨rfl, nonempty, fun e member => ?_⟩
    obtain ⟨i, position⟩ := all e member
    exact ⟨i, position, ((greatest entries.length).mp most.le).2 e member i position⟩
  · rintro ⟨rfl, nonempty, bounded⟩
    have within (n : Nat) (most : (entries.foldl KeySurvey.add {}).greatest ≤ n) : Bounded entries n := by
      intro e member
      obtain ⟨i, position, -⟩ := bounded e member
      exact ⟨i, position, ((greatest n).mp most).2 e member i position⟩
    refine ⟨⟨⟨fun e member => (bounded e member).imp fun i => And.left, nonempty⟩, le_antisymm ?_ ?_⟩, rfl⟩
    · refine (greatest entries.length).mpr ⟨Nat.zero_le _, fun e member i position => ?_⟩
      obtain ⟨j, position', high⟩ := bounded e member
      rw [position] at position'
      exact Option.some.inj position' ▸ high
    · exact (within _ le_rfl).length_le distinct

theorem nodup_positionKeys (increasing : (cells.map (·.1)).Pairwise (· < ·))
    (range : ∀ c ∈ cells, c.1 < 2 ^ 63) : (cells.map fun c => positionKey c.1).Nodup := by
  rw [List.nodup_iff_pairwise_ne, List.pairwise_map]
  rw [List.pairwise_map] at increasing
  exact increasing.imp_of_mem fun {c d} inside inside' less same =>
    less.ne (positionKey_injective (range c inside) (range d inside') same)

theorem listLength?_positions (increasing : (cells.map (·.1)).Pairwise (· < ·))
    (range : ∀ c ∈ cells, 1 ≤ c.1 ∧ c.1 < 2 ^ 63) :
    listLength? (entriesOf positionKey cells) =
      if cells ≠ [] ∧ cells.map (·.1) = List.range' 1 cells.length then some cells.length else none := by
  have distinct : ((entriesOf positionKey cells).map (·.1)).Nodup := by
    rw [entriesOf, List.map_map]
    exact nodup_positionKeys increasing fun c member => (range c member).2
  have count : (entriesOf positionKey cells).length = cells.length := List.length_map _
  split
  · rename_i list
    refine (listLength?_eq_some distinct).mpr ⟨count, List.length_pos_iff.mpr list.1, fun e member => ?_⟩
    obtain ⟨c, inside, rfl⟩ := List.mem_map.mp member
    have placed : c.1 ∈ List.range' 1 cells.length := list.2 ▸ List.mem_map_of_mem inside
    rw [List.mem_range'_1] at placed
    exact ⟨c.1, position?_eq_some_iff.mpr ⟨(range c inside).1, (range c inside).2, rfl⟩, by omega⟩
  · rename_i unlisted
    refine Option.eq_none_iff_forall_ne_some.mpr fun n counted => unlisted ?_
    obtain ⟨length, some, bounded⟩ := (listLength?_eq_some distinct).mp counted
    refine ⟨List.length_pos_iff.mp (by omega), ?_⟩
    rw [← List.length_map (·.1)]
    apply eq_range'_of_increasing increasing
    · intro p member
      obtain ⟨c, inside, rfl⟩ := List.mem_map.mp member
      exact (range c inside).1
    · intro p member
      obtain ⟨c, inside, rfl⟩ := List.mem_map.mp member
      obtain ⟨i, position, high⟩ := bounded _ (List.mem_map_of_mem inside)
      rw [position?_eq_some_iff.mpr ⟨(range c inside).1, (range c inside).2, rfl⟩] at position
      rw [List.length_map, Option.some.inj position]
      omega

theorem items_eq {t : Table} (coherent : t.Coherent) (entries : t.entries = entriesOf positionKey cells)
    (range' : cells.map (·.1) = List.range' 1 cells.length) :
    (List.range cells.length).map (fun i => t.getNat (i + 1)) = cells.map (·.2.1) := by
  have read : ∀ c ∈ cells, t.get (positionKey c.1) = c.2.1 := fun c member =>
    coherent.get_of_mem_entries (e := (positionKey c.1, c.2.1)) <| by
      rw [entries]
      exact List.mem_map_of_mem member
  calc
    (List.range cells.length).map (fun i => t.getNat (i + 1)) =
        (List.range' 1 cells.length).map fun n => t.get (positionKey n) := by
      rw [List.range'_eq_map_range, List.map_map]
      refine List.map_congr_left fun i _ => ?_
      simp only [Function.comp_apply, Nat.add_comm 1 i]
      rfl
    _ = cells.map (fun c => t.get (positionKey c.1)) := by rw [← range', List.map_map]; rfl
    _ = cells.map (·.2.1) := List.map_congr_left read

theorem toJsonWithin_array {t : Table} {a : Nat} (table : h.table a = t) (coherent : t.Coherent)
    (entries : t.entries = entriesOf positionKey cells) (stand : ∀ c ∈ cells, Stands h c.2.1 c.2.2)
    (increasing : (cells.map (·.1)).Pairwise (· < ·)) (range : ∀ c ∈ cells, 1 ≤ c.1 ∧ c.1 < 2 ^ 63) :
    toJsonWithin h (levels + 1) (.table a) =
      if ∀ c ∈ cells, c.2.2.depth ≤ levels then .ok (Json.ofNumbered (membersOf cells))
      else .error .tooDeep := by
  have members : (membersOf cells).map (·.1) = cells.map (·.1) := by
    rw [membersOf, List.map_map]
    rfl
  have count : (membersOf cells).length = cells.length := List.length_map _
  have nonempty : membersOf cells ≠ [] ↔ cells ≠ [] := by rw [membersOf, Ne, List.map_eq_nil_iff]
  simp only [toJsonWithin, table, entries, listLength?_positions increasing range, Json.ofNumbered,
    members, count, nonempty]
  by_cases list : cells ≠ [] ∧ cells.map (·.1) = List.range' 1 cells.length
  · rw [if_pos list, if_pos list]
    have convert : (List.range cells.length).mapM (fun i => toJsonWithin h levels (t.getNat (i + 1))) =
        cells.mapM fun c => toJsonWithin h levels c.2.1 := by
      calc
        _ = ((List.range cells.length).map fun i => t.getNat (i + 1)).mapM (toJsonWithin h levels) :=
          List.mapM_map.symm
        _ = (cells.map (·.2.1)).mapM (toJsonWithin h levels) := by rw [items_eq coherent entries list.2]
        _ = _ := List.mapM_map
    have each := mapM_bounded (f := fun c : Cell Nat => toJsonWithin h levels c.2.1)
      (fun c => c.2.2.depth ≤ levels) (fun c => c.2.2.normal) ConversionProblem.tooDeep
      fun c (member : c ∈ cells) => (stand c member).2 h (.refl h) levels
    dsimp only
    rw [convert, each, membersOf, List.map_map]
    split <;> rfl
  · rw [if_neg list, if_neg list]
    have fields := mapM_fields (h := h) levels positionKey toString stand
      fun c member => keyText_position (range c member).2
    dsimp only
    rw [fields]
    split <;> rfl

end Arrays

section Objects

variable {h : Heap} {cells : List (Cell String)} {levels : Nat}

def nameKey (s : String) : Key := .string s.toUTF8

theorem nameKey_injective {a b : String} (same : nameKey a = nameKey b) : a = b :=
  String.toByteArray_inj.mp (Key.string.inj same)

theorem keyText_nameKey (s : String) : keyText (nameKey s) = .ok s := decodeText_toUTF8 s

theorem listLength?_names (cells : List (Cell String)) : listLength? (entriesOf nameKey cells) = none := by
  cases cells with
  | nil => rfl
  | cons c rest =>
      have first : ¬ ((entriesOf nameKey (c :: rest)).foldl KeySurvey.add {}).allPositive = true := by
        rw [allPositive_survey]
        rintro ⟨-, all⟩
        obtain ⟨i, position⟩ := all (nameKey c.1, c.2.1) List.mem_cons_self
        cases position
      simp only [listLength?, Bool.eq_false_iff.mpr first, Bool.false_and, Bool.false_eq_true, if_false]

theorem toJsonWithin_object {t : Table} {a : Nat} (table : h.table a = t)
    (entries : t.entries = entriesOf nameKey cells) (stand : ∀ c ∈ cells, Stands h c.2.1 c.2.2)
    (ordered : Ordered (membersOf cells)) :
    toJsonWithin h (levels + 1) (.table a) =
      if ∀ c ∈ cells, c.2.2.depth ≤ levels then .ok (.object (membersOf cells)) else .error .tooDeep := by
  have fields := mapM_fields (h := h) levels nameKey id stand
    fun c _ => keyText_nameKey c.1
  have named : (membersOf cells).map (fun m => (id m.1, m.2)) = membersOf cells := List.map_id _
  simp only [toJsonWithin, table, entries, listLength?_names]
  rw [fields, named]
  split
  · show Except.ok (Json.object (Json.sorted (membersOf cells))) = _
    rw [Json.sorted_of_ordered ordered]
  · rfl

end Objects

section Members

variable {ι : Type}

theorem numbered_cells (cells : List (Cell Nat)) (position : Nat)
    (placed : cells.map (·.1) = List.range' position cells.length) :
    Json.numbered position (Json.normalItems (cells.map (·.2.2))) = membersOf (used cells) := by
  induction cells generalizing position with
  | nil => rfl
  | cons c rest ih =>
      rw [List.map_cons, List.length_cons, List.range'_succ, List.cons.injEq] at placed
      rw [List.map_cons, Json.normalItems, Json.numbered, ih _ placed.2, Json.isNull_normal]
      cases null : c.2.2.isNull
      · simp [membersOf, used, null, placed.1]
      · simp [membersOf, used, null]

theorem filter_normalFields (cells : List (Cell String)) :
    (Json.normalFields (cells.map fun c => (c.1, c.2.2))).filter (fun f => !f.2.isNull) =
      membersOf (used cells) := by
  rw [Json.normalFields_eq_map, List.map_map, List.filter_map, membersOf, used]
  congr 1
  refine List.filter_congr fun c _ => ?_
  simp only [Function.comp_apply, Json.isNull_normal]

theorem ordered_members {cells : List (Cell String)} (ordered : Ordered (cells.map fun c => (c.1, c.2.2))) :
    Ordered (membersOf (used cells)) := by
  unfold Json.Ordered at ordered ⊢
  rw [List.pairwise_map] at ordered
  rw [membersOf, List.pairwise_map]
  exact ordered.filter _

theorem nodup_nameKeys {cells : List (Cell String)} (ordered : Ordered (cells.map fun c => (c.1, c.2.2))) :
    (cells.map fun c => nameKey c.1).Nodup := by
  have names := ordered.nodup_keys.map fun a b => nameKey_injective (a := a) (b := b)
  rwa [List.map_map, List.map_map] at names

theorem stands_int {n : Int} (held : -(2 ^ 63) ≤ n ∧ n < 2 ^ 64) (h : Heap) :
    Stands h (ofNumber (.int n)) (.int n) := by
  simp only [ofNumber]
  split
  · rename_i small
    refine ⟨rfl, fun H _ levels => ?_⟩
    simp only [toJsonWithin, within, Json.depth, Json.normal, Nat.zero_le, if_true, if_pos small.2,
      Int64.toInt_ofInt_of_le small.1 small.2]
  · rename_i large
    have beyond : ¬ n < 2 ^ 63 := fun small => large ⟨held.1, small⟩
    refine ⟨rfl, fun H _ levels => ?_⟩
    simp only [toJsonWithin, within, Json.depth, Json.normal, Nat.zero_le, if_true, if_neg beyond,
      Decimal.isFinite_ofInt (not_lt.mp beyond) held.2]

theorem stands_float {x : Float} (finite : x.isFinite = true) (h : Heap) :
    Stands h (ofNumber (.float x)) (.float x) := by
  simp only [ofNumber]
  cases whole : Decimal.whole? x with
  | none =>
      refine ⟨rfl, fun H _ levels => ?_⟩
      simp only [toJsonWithin, within, Json.depth, Json.normal, Nat.zero_le, if_true, whole, finite]
  | some n =>
      dsimp only
      split
      · rename_i small
        refine ⟨rfl, fun H _ levels => ?_⟩
        simp only [toJsonWithin, within, Json.depth, Json.normal, Nat.zero_le, if_true, whole, if_pos small,
          Int64.toInt_ofInt_of_le (by omega : -2 ^ 63 ≤ n) (by omega)]
      · rename_i large
        refine ⟨rfl, fun H _ levels => ?_⟩
        simp only [toJsonWithin, within, Json.depth, Json.normal, Nat.zero_le, if_true, whole, if_neg large,
          finite]

theorem stands_table {h : Heap} {t : Table} {j : Json} (fits : Nat → Prop) [DecidablePred fits]
    (holds : j.isNull = false) (deep : j.depth ≠ 0)
    (nested : ∀ levels, j.depth ≤ levels + 1 ↔ fits levels)
    (turns : ∀ H, h.Extends H → H.table (h.addTable t).1 = t → ∀ levels,
      toJsonWithin H (levels + 1) (.table (h.addTable t).1) =
        if fits levels then .ok j.normal else .error .tooDeep) :
    Stands (h.addTable t).2 (.table (h.addTable t).1) j := by
  refine ⟨holds.symm, fun H more levels => ?_⟩
  cases levels with
  | zero =>
      rw [within, if_neg (by omega)]
      rfl
  | succ levels =>
      have placed : (h.addTable t).2.tables[(h.addTable t).1]? = some t := by simp [Heap.addTable]
      rw [turns H ((Heap.extends_addTable h t).trans more) (more.table placed) levels, within]
      exact if_congr (nested levels).symm rfl rfl

end Members

section Taken

mutual

theorem extends_ofJson : ∀ (j : Json) (h : Heap), h.Extends (ofJson h j).2
  | .null, h | .bool _, h | .int _, h | .float _, h | .string _, h => .refl h
  | .array items, h => (extends_ofItems items h {} 1).trans (Heap.extends_addTable _ _)
  | .object fields, h => (extends_ofFields fields h {}).trans (Heap.extends_addTable _ _)

theorem extends_ofItems : ∀ (items : List Json) (h : Heap) (t : Table) (position : Nat),
    h.Extends (ofItems h t position items).2
  | [], h, _, _ => .refl h
  | j :: rest, h, _, _ => (extends_ofJson j h).trans (extends_ofItems rest _ _ _)

theorem extends_ofFields : ∀ (fields : List (String × Json)) (h : Heap) (t : Table),
    h.Extends (ofFields h t fields).2
  | [], h, _ => .refl h
  | (_, j) :: rest, h, _ => (extends_ofJson j h).trans (extends_ofFields rest _ _)

end

theorem coherent_ofItems (items : List Json) {t : Table} (coherent : t.Coherent) (h : Heap)
    (position : Nat) : (ofItems h t position items).1.Coherent := by
  induction items generalizing h t position with
  | nil => exact coherent
  | cons j rest ih => exact ih (coherent.set _ _) _ _

theorem stored_ofItems (items : List Json) {t : Table} (stored : t.Stored) (h : Heap) (position : Nat) :
    (ofItems h t position items).1.Stored := by
  induction items generalizing h t position with
  | nil => exact stored
  | cons j rest ih => exact ih (stored.set (Key.stored_int (Int64.ofNat position)) _) _ _

theorem stored_ofFields (fields : List (String × Json)) {t : Table} (stored : t.Stored) (h : Heap) :
    (ofFields h t fields).1.Stored := by
  induction fields generalizing h t with
  | nil => exact stored
  | cons f rest ih => exact ih (stored.set (Key.stored_string f.1.toUTF8) _) _

theorem coherent_ofFields (fields : List (String × Json)) {t : Table} (coherent : t.Coherent) (h : Heap) :
    (ofFields h t fields).1.Coherent := by
  induction fields generalizing h t with
  | nil => exact coherent
  | cons f rest ih => exact ih (coherent.set _ _) _

mutual

/-- What a value was taken over as turns into its normal form, on every later heap. -/
theorem ofJson_stands : ∀ j : Json, WellFormed j → ∀ h : Heap, Stands (ofJson h j).2 (ofJson h j).1 j
  | .null, _, h | .bool _, _, h =>
      ⟨rfl, fun H _ levels => by simp [ofJson, toJsonWithin, within, Json.depth, Json.normal]⟩
  | .string s, _, h => by
      refine ⟨rfl, fun H _ levels => ?_⟩
      simp only [ofJson, Value.ofString, toJsonWithin, decodeText_toUTF8, within, Json.depth, Json.normal,
        Nat.zero_le, if_true]
      rfl
  | .int n, held, h => stands_int held h
  | .float x, held, h => stands_float held h
  | .array items, held, h => by
      obtain ⟨cells, positions, values, stand, table⟩ := ofItems_cells items held.2 h {} 1
      have length : cells.length = items.length := by rw [← values, List.length_map]
      have increasing : (cells.map (·.1)).Pairwise (· < ·) := positions ▸ List.pairwise_lt_range'
      have range : ∀ c ∈ cells, 1 ≤ c.1 ∧ c.1 < 2 ^ 63 := fun c member => by
        have placed : c.1 ∈ List.range' 1 items.length := positions ▸ List.mem_map_of_mem member
        rw [List.mem_range'_1] at placed
        have bound : items.length < 2 ^ 63 := held.1
        omega
      have coherent := coherent_ofItems items Table.coherent_empty h 1
      have entries : (ofItems h {} 1 items).1.entries = entriesOf positionKey (used cells) :=
        table ▸ entries_ofCells stand (nodup_positionKeys increasing fun c member => (range c member).2)
      have normal : (Json.array items).normal = Json.ofNumbered (membersOf (used cells)) := by
        rw [Json.normal, ← numbered_cells cells 1 (length ▸ positions), values]
      refine stands_table (fun levels => ∀ c ∈ used cells, c.2.2.depth ≤ levels) rfl (Nat.succ_ne_zero _)
        (fun levels => ?_) ?_
      · rw [forall_used_iff, Json.depth, Nat.add_le_add_iff_right, Json.depthItems_le_iff, ← values,
          List.forall_mem_map]
      · intro H later here levels
        rw [normal]
        exact toJsonWithin_array here coherent entries
          (fun c member => (stand c (mem_of_mem_used member)).mono later)
          (by
            rw [List.pairwise_map] at increasing ⊢
            exact increasing.filter _)
          fun c member => range c (mem_of_mem_used member)
  | .object fields, held, h => by
      obtain ⟨cells, members, stand, table⟩ := ofFields_cells fields held.2 h {}
      have ordered : Ordered (cells.map fun c => (c.1, c.2.2)) := members ▸ held.1
      have entries : (ofFields h {} fields).1.entries = entriesOf nameKey (used cells) :=
        table ▸ entries_ofCells stand (nodup_nameKeys ordered)
      have normal : (Json.object fields).normal = .object (membersOf (used cells)) := by
        rw [Json.normal, ← filter_normalFields, members]
      refine stands_table (fun levels => ∀ c ∈ used cells, c.2.2.depth ≤ levels) rfl (Nat.succ_ne_zero _)
        (fun levels => ?_) ?_
      · rw [forall_used_iff, Json.depth, Nat.add_le_add_iff_right, Json.depthFields_le_iff, ← members,
          List.forall_mem_map]
      · intro H later here levels
        rw [normal]
        exact toJsonWithin_object here entries
          (fun c member => (stand c (mem_of_mem_used member)).mono later) (ordered_members ordered)

theorem ofItems_cells : ∀ items : List Json, ThroughoutItems Held items → ∀ (h : Heap) (t : Table) (position : Nat),
    ∃ cells : List (Cell Nat), cells.map (·.1) = List.range' position items.length ∧
      cells.map (·.2.2) = items ∧ (∀ c ∈ cells, Stands (ofItems h t position items).2 c.2.1 c.2.2) ∧
      (ofItems h t position items).1 = t.setAll (entriesOf positionKey cells)
  | [], _, h, t, position => ⟨[], rfl, rfl, fun _ member => absurd member List.not_mem_nil, rfl⟩
  | j :: rest, held, h, t, position => by
      have stands := ofJson_stands j held.1 h
      obtain ⟨cells, positions, values, stand, table⟩ :=
        ofItems_cells rest held.2 (ofJson h j).2 (t.setNat position (ofJson h j).1) (position + 1)
      refine ⟨(position, (ofJson h j).1, j) :: cells, ?_, ?_, ?_, table⟩
      · rw [List.map_cons, positions, List.length_cons, List.range'_succ]
      · rw [List.map_cons, values]
      · exact List.forall_mem_cons.mpr ⟨stands.mono (extends_ofItems rest _ _ _), stand⟩

theorem ofFields_cells : ∀ fields : List (String × Json), ThroughoutFields Held fields → ∀ (h : Heap) (t : Table),
    ∃ cells : List (Cell String), cells.map (fun c => (c.1, c.2.2)) = fields ∧
      (∀ c ∈ cells, Stands (ofFields h t fields).2 c.2.1 c.2.2) ∧
      (ofFields h t fields).1 = t.setAll (entriesOf nameKey cells)
  | [], _, h, t => ⟨[], rfl, fun _ member => absurd member List.not_mem_nil, rfl⟩
  | (k, j) :: rest, held, h, t => by
      have stands := ofJson_stands j held.1 h
      obtain ⟨cells, members, stand, table⟩ :=
        ofFields_cells rest held.2 (ofJson h j).2 (t.setString k (ofJson h j).1)
      refine ⟨(k, (ofJson h j).1, j) :: cells, ?_, ?_, table⟩
      · rw [List.map_cons, members]
      · exact List.forall_mem_cons.mpr ⟨stands.mono (extends_ofFields rest _ _), stand⟩

end

/-- Taking a value over into tables and back succeeds exactly if it is nested at most 128 deep, and is
its normal form then; an object stays an object, and doing it again changes nothing. -/
theorem toJson_ofJson_eq_normal {j : Json} (held : j.WellFormed) (h : Heap) :
    toJson (ofJson h j).2 (ofJson h j).1 =
        (if j.depth ≤ 128 then .ok j.normal else .error .tooDeep) ∧
      (∀ fields, j = .object fields → ∃ members, j.normal = .object members) ∧
      j.normal.normal = j.normal := by
  refine ⟨(ofJson_stands j held h).2 _ (.refl _) maxTableNesting, ?_, Json.normal_normal held⟩
  rintro fields rfl
  exact ⟨_, rfl⟩

/-- A hole makes an array an object, numbered names make an object no array, and the greatest unsigned
integer becomes a float. -/
theorem toJson_ofJson_of_hole :
    toJson
        (ofJson {} (.object [("1", .array [.null, .int 7]), ("2", .null), ("3", .float 4),
          ("4", .array [.null]), ("5", .array [.string "a", .int (2 ^ 64 - 1), .null])])).2
        (ofJson {} (.object [("1", .array [.null, .int 7]), ("2", .null), ("3", .float 4),
          ("4", .array [.null]), ("5", .array [.string "a", .int (2 ^ 64 - 1), .null])])).1 =
      .ok (.object [("1", .object [("2", .int 7)]), ("3", .int 4), ("4", .object []),
        ("5", .array [.string "a", .float (Float.ofInt (2 ^ 64 - 1))])]) := by
  have whole : Decimal.whole? 4 = some 4 := by decide +kernel
  have held : Json.WellFormed (.object [("1", .array [.null, .int 7]), ("2", .null), ("3", .float 4),
      ("4", .array [.null]), ("5", .array [.string "a", .int (2 ^ 64 - 1), .null])]) := by
    simp only [Json.Throughout, ThroughoutFields, ThroughoutItems, Held, Json.Writable, Ordered]
    exact ⟨by decide, by decide, trivial, Decimal.isFinite_of_whole? whole, by decide, by decide⟩
  rw [(toJson_ofJson_eq_normal held {}).1, if_pos (by decide)]
  simp only [Json.normal, normalFields, whole]
  rfl

end Taken

end SlideDeck.Script
