import Mathlib
import SlideDeck.Json.Basic
import SlideDeck.Proofs.Decimal.Whole

/-!
The normal form of a JSON value: what is left of it after it was taken over into tables, in which null
stores nothing and an array is a table like any other. A normal form is its own normal form.
-/

namespace SlideDeck.Json

def isNull : Json → Bool
  | .null => true
  | _ => false

section Sorted

variable {α β : Type}

def Ordered (fields : List (String × α)) : Prop := fields.Pairwise fun a b => a.1 < b.1

theorem insert_last {key : String} (value : α) {fields : List (String × α)}
    (after : ∀ f ∈ fields, f.1 < key) : insert key value fields = fields ++ [(key, value)] := by
  induction fields with
  | nil => rfl
  | cons f rest ih =>
      have first := after f List.mem_cons_self
      rw [insert, if_neg (String.lt_asymm first), if_neg (ne_of_gt first),
        ih fun g member => after g (List.mem_cons_of_mem _ member), List.cons_append]

theorem sorted_of_ordered {fields : List (String × α)} (ordered : Ordered fields) :
    sorted fields = fields := by
  have grow : ∀ rest acc : List (String × α), Ordered (acc ++ rest) →
      rest.foldl (fun acc f => insert f.1 f.2 acc) acc = acc ++ rest := by
    intro rest
    induction rest with
    | nil => simp
    | cons f rest ih =>
        intro acc ordered
        have last : ∀ g ∈ acc, g.1 < f.1 := fun g member =>
          (List.pairwise_append.mp ordered).2.2 g member f List.mem_cons_self
        rw [List.foldl_cons, insert_last f.2 last, ih _ (by simpa using ordered), List.append_assoc,
          List.singleton_append]
  exact grow fields [] ordered

theorem mem_insert {key : String} {value : α} {fields : List (String × α)} {f : String × α}
    (member : f ∈ insert key value fields) : f = (key, value) ∨ f ∈ fields := by
  induction fields with
  | nil => exact Or.inl (List.mem_singleton.mp member)
  | cons g rest ih =>
      unfold insert at member
      split at member
      · exact List.mem_cons.mp member
      · split at member
        · exact (List.mem_cons.mp member).imp_right (List.mem_cons_of_mem g)
        · rcases List.mem_cons.mp member with here | later
          · exact Or.inr (here ▸ List.mem_cons_self)
          · exact (ih later).imp_right (List.mem_cons_of_mem g)

theorem mem_of_mem_sorted {fields : List (String × α)} {f : String × α} (member : f ∈ sorted fields) :
    f ∈ fields := by
  have inside : ∀ g ∈ sorted fields, g ∈ fields := by
    refine List.foldlRecOn (motive := fun acc => ∀ g ∈ acc, g ∈ fields) fields _ (List.forall_mem_nil _) ?_
    intro acc inside h here g member
    rcases mem_insert member with rfl | there
    · exact here
    · exact inside g there
  exact inside f member

theorem ordered_insert {fields : List (String × α)} (ordered : Ordered fields) (key : String)
    (value : α) : Ordered (insert key value fields) := by
  induction fields with
  | nil => exact List.pairwise_singleton _ _
  | cons f rest ih =>
      obtain ⟨first, others⟩ := List.pairwise_cons.mp ordered
      unfold insert
      split
      · rename_i before
        refine List.pairwise_cons.mpr ⟨fun g member => ?_, ordered⟩
        rcases List.mem_cons.mp member with rfl | later
        · exact before
        · exact String.lt_trans before (first g later)
      · rename_i notBefore
        split
        · rename_i same
          subst same
          exact List.pairwise_cons.mpr ⟨first, others⟩
        · rename_i differs
          have behind : f.1 < key := lt_of_le_of_ne (not_lt.mp notBefore) (Ne.symm differs)
          refine List.pairwise_cons.mpr ⟨fun g member => ?_, ih others⟩
          rcases mem_insert member with rfl | later
          · exact behind
          · exact first g later

theorem ordered_sorted (fields : List (String × α)) : Ordered (sorted fields) :=
  List.foldlRecOn fields _ List.Pairwise.nil fun _ ordered f _ => ordered_insert ordered f.1 f.2

theorem Ordered.nodup_keys {fields : List (String × α)} (ordered : Ordered fields) :
    (fields.map (·.1)).Nodup := by
  rw [List.nodup_iff_pairwise_ne, List.pairwise_map]
  exact ordered.imp fun less => ne_of_lt less

variable {fields : List (String × α)}

theorem mem_keys_insert {key k : String} {value : α} :
    k ∈ (insert key value fields).map (·.1) ↔ k = key ∨ k ∈ fields.map (·.1) := by
  induction fields with
  | nil => simp [insert]
  | cons f rest ih =>
      unfold insert
      split
      · simp
      · split
        · rename_i same
          simp [same]
        · rw [List.map_cons, List.mem_cons, ih, List.map_cons, List.mem_cons]
          exact or_left_comm

theorem mem_keys_sorted {k : String} : k ∈ (sorted fields).map (·.1) ↔ k ∈ fields.map (·.1) := by
  have grow : ∀ rest acc : List (String × α),
      k ∈ (rest.foldl (fun acc f => insert f.1 f.2 acc) acc).map (·.1) ↔
        k ∈ acc.map (·.1) ∨ k ∈ rest.map (·.1) := by
    intro rest
    induction rest with
    | nil => simp
    | cons f rest ih =>
        intro acc
        rw [List.foldl_cons, ih, mem_keys_insert, List.map_cons, List.mem_cons, or_comm (a := k = f.1),
          or_assoc]
  exact (grow fields []).trans (or_iff_right List.not_mem_nil)

theorem keys_sorted : ((sorted fields).map (·.1)).Perm (fields.map (·.1)).dedup :=
  (List.perm_ext_iff_of_nodup (ordered_sorted fields).nodup_keys (List.nodup_dedup _)).mpr
    fun _ => mem_keys_sorted.trans List.mem_dedup.symm

/-- Fields are lost exactly if two have one name. -/
theorem length_sorted (fields : List (String × α)) : (sorted fields).length ≤ fields.length ∧
    ((sorted fields).length = fields.length ↔ (fields.map (·.1)).Nodup) := by
  have count : (sorted fields).length = (fields.map (·.1)).dedup.length := by
    rw [← keys_sorted.length_eq, List.length_map]
  have shorter := List.dedup_sublist (fields.map (·.1))
  have all : (fields.map (·.1)).length = fields.length := List.length_map _
  rw [count, ← all]
  exact ⟨shorter.length_le, fun same => List.dedup_eq_self.mp (shorter.eq_of_length same),
    fun distinct => by rw [distinct.dedup]⟩

end Sorted

/-! Properties of a value and of everything inside it. -/

mutual

/-- `p` is true of the value and of all values inside it. -/
def Throughout (p : Json → Prop) : Json → Prop
  | .array items => p (.array items) ∧ ThroughoutItems p items
  | .object fields => p (.object fields) ∧ ThroughoutFields p fields
  | scalar => p scalar

def ThroughoutItems (p : Json → Prop) : List Json → Prop
  | [] => True
  | j :: rest => Throughout p j ∧ ThroughoutItems p rest

def ThroughoutFields (p : Json → Prop) : List (String × Json) → Prop
  | [] => True
  | f :: rest => Throughout p f.2 ∧ ThroughoutFields p rest

end

mutual

def decidableThroughout (p : Json → Prop) [DecidablePred p] : ∀ j : Json, Decidable (Throughout p j)
  | .null => inferInstanceAs (Decidable (p .null))
  | .bool b => inferInstanceAs (Decidable (p (.bool b)))
  | .int n => inferInstanceAs (Decidable (p (.int n)))
  | .float x => inferInstanceAs (Decidable (p (.float x)))
  | .string s => inferInstanceAs (Decidable (p (.string s)))
  | .array items =>
      haveI := decidableThroughoutItems p items
      inferInstanceAs (Decidable (p (.array items) ∧ ThroughoutItems p items))
  | .object fields =>
      haveI := decidableThroughoutFields p fields
      inferInstanceAs (Decidable (p (.object fields) ∧ ThroughoutFields p fields))

def decidableThroughoutItems (p : Json → Prop) [DecidablePred p] :
    ∀ items : List Json, Decidable (ThroughoutItems p items)
  | [] => isTrue trivial
  | j :: rest =>
      haveI := decidableThroughout p j
      haveI := decidableThroughoutItems p rest
      inferInstanceAs (Decidable (Throughout p j ∧ ThroughoutItems p rest))

def decidableThroughoutFields (p : Json → Prop) [DecidablePred p] :
    ∀ fields : List (String × Json), Decidable (ThroughoutFields p fields)
  | [] => isTrue trivial
  | f :: rest =>
      haveI := decidableThroughout p f.2
      haveI := decidableThroughoutFields p rest
      inferInstanceAs (Decidable (Throughout p f.2 ∧ ThroughoutFields p rest))

end

instance (p : Json → Prop) [DecidablePred p] (j : Json) : Decidable (Throughout p j) := decidableThroughout p j

theorem throughoutItems_iff {p : Json → Prop} {items : List Json} :
    ThroughoutItems p items ↔ ∀ j ∈ items, Throughout p j := by
  induction items with
  | nil => simp [ThroughoutItems]
  | cons j rest ih => simp [ThroughoutItems, ih]

theorem throughoutFields_iff {p : Json → Prop} {fields : List (String × Json)} :
    ThroughoutFields p fields ↔ ∀ f ∈ fields, Throughout p f.2 := by
  induction fields with
  | nil => simp [ThroughoutFields]
  | cons f rest ih => simp [ThroughoutFields, ih]

section Throughout

variable {p q r : Json → Prop}

mutual

theorem throughout_both (both : ∀ j, p j → q j → r j) :
    ∀ j : Json, Throughout p j → Throughout q j → Throughout r j
  | .null, first, second | .bool _, first, second | .int _, first, second | .float _, first, second
  | .string _, first, second => both _ first second
  | .array items, first, second =>
      ⟨both _ first.1 second.1, throughoutItems_both both items first.2 second.2⟩
  | .object fields, first, second =>
      ⟨both _ first.1 second.1, throughoutFields_both both fields first.2 second.2⟩

theorem throughoutItems_both (both : ∀ j, p j → q j → r j) : ∀ items : List Json,
    ThroughoutItems p items → ThroughoutItems q items → ThroughoutItems r items
  | [], _, _ => trivial
  | j :: rest, first, second =>
      ⟨throughout_both both j first.1 second.1, throughoutItems_both both rest first.2 second.2⟩

theorem throughoutFields_both (both : ∀ j, p j → q j → r j) : ∀ fields : List (String × Json),
    ThroughoutFields p fields → ThroughoutFields q fields → ThroughoutFields r fields
  | [], _, _ => trivial
  | f :: rest, first, second =>
      ⟨throughout_both both f.2 first.1 second.1, throughoutFields_both both rest first.2 second.2⟩

end

theorem Throughout.imp (weaker : ∀ j, p j → q j) {j : Json} (all : Throughout p j) : Throughout q j :=
  throughout_both (fun j here _ => weaker j here) j all all

end Throughout

/-- Integers are signed or unsigned ones of 64 bits, floats are finite, and the fields of objects are
sorted. -/
def Writable : Json → Prop
  | .int n => -(2 ^ 63) ≤ n ∧ n < 2 ^ 64
  | .float x => x.isFinite = true
  | .object fields => Ordered fields
  | _ => True

def Held : Json → Prop
  | .array items => items.length < 2 ^ 63
  | other => Writable other

abbrev WellFormed (j : Json) : Prop := Throughout Held j

mutual

def depth : Json → Nat
  | .array items => depthItems items + 1
  | .object fields => depthFields fields + 1
  | _ => 0

def depthItems : List Json → Nat
  | [] => 0
  | j :: rest => max (depth j) (depthItems rest)

def depthFields : List (String × Json) → Nat
  | [] => 0
  | f :: rest => max (depth f.2) (depthFields rest)

end

theorem depthItems_le_iff {items : List Json} {n : Nat} :
    depthItems items ≤ n ↔ ∀ j ∈ items, j.depth ≤ n := by
  induction items with
  | nil => simp [depthItems]
  | cons j rest ih => simp [depthItems, ih]

theorem depthFields_le_iff {fields : List (String × Json)} {n : Nat} :
    depthFields fields ≤ n ↔ ∀ f ∈ fields, f.2.depth ≤ n := by
  induction fields with
  | nil => simp [depthFields]
  | cons f rest ih => simp [depthFields, ih]

def numbered (position : Nat) : List Json → List (Nat × Json)
  | [] => []
  | j :: rest =>
    if j.isNull then numbered (position + 1) rest else (position, j) :: numbered (position + 1) rest

/-- An array if the positions are `1 .. n` for some `n ≥ 1`, else an object. -/
def ofNumbered (used : List (Nat × Json)) : Json :=
  if used ≠ [] ∧ used.map (·.1) = List.range' 1 used.length then .array (used.map (·.2))
  else .object (sorted (used.map fun e => (toString e.1, e.2)))

mutual

def normal : Json → Json
  | .int n => if n < 2 ^ 63 then .int n else .float (Float.ofInt n)
  | .float x =>
    match Decimal.whole? x with
    | some n => if n.natAbs < 2 ^ 53 then .int n else .float x
    | none => .float x
  | .array items => ofNumbered (numbered 1 (normalItems items))
  | .object fields => .object ((normalFields fields).filter fun f => !f.2.isNull)
  | other => other

def normalItems : List Json → List Json
  | [] => []
  | j :: rest => normal j :: normalItems rest

def normalFields : List (String × Json) → List (String × Json)
  | [] => []
  | f :: rest => (f.1, normal f.2) :: normalFields rest

end

mutual

/-- Integers are signed ones of 64 bits, integral floats are beyond the exact integers, arrays are not
empty, and null stands alone. -/
def IsNormal : Json → Prop
  | .int n => n < 2 ^ 63
  | .float x => ∀ n, Decimal.whole? x = some n → 2 ^ 53 ≤ n.natAbs
  | .array items => items ≠ [] ∧ AllNormal items
  | .object fields => AllNormalFields fields
  | _ => True

def AllNormal : List Json → Prop
  | [] => True
  | j :: rest => (j.isNull = false ∧ IsNormal j) ∧ AllNormal rest

def AllNormalFields : List (String × Json) → Prop
  | [] => True
  | f :: rest => (f.2.isNull = false ∧ IsNormal f.2) ∧ AllNormalFields rest

end

theorem allNormal_iff {items : List Json} :
    AllNormal items ↔ ∀ j ∈ items, j.isNull = false ∧ IsNormal j := by
  induction items with
  | nil => simp [AllNormal]
  | cons j rest ih => simp [AllNormal, ih]

theorem allNormalFields_iff {fields : List (String × Json)} :
    AllNormalFields fields ↔ ∀ f ∈ fields, f.2.isNull = false ∧ IsNormal f.2 := by
  induction fields with
  | nil => simp [AllNormalFields]
  | cons f rest ih => simp [AllNormalFields, ih]

theorem normalFields_eq_map (fields : List (String × Json)) :
    normalFields fields = fields.map fun f => (f.1, normal f.2) := by
  induction fields with
  | nil => rfl
  | cons f rest ih => rw [normalFields, ih, List.map_cons]

theorem isNull_normal (j : Json) : (normal j).isNull = j.isNull := by
  cases j with
  | int n =>
      unfold normal
      split <;> rfl
  | float x =>
      unfold normal
      split
      · split <;> rfl
      · rfl
  | array items =>
      unfold normal ofNumbered
      split <;> rfl
  | _ => rfl

section Numbered

theorem numbered_eq_filter (position : Nat) (items : List Json) :
    numbered position items =
      ((items.zipIdx position).map fun e => (e.2, e.1)).filter fun e => !e.2.isNull := by
  induction items generalizing position with
  | nil => rfl
  | cons j rest ih =>
      rw [numbered, ih, List.zipIdx_cons, List.map_cons, List.filter_cons]
      cases j.isNull <;> rfl

theorem mem_of_mem_numbered {position : Nat} {items : List Json} {e : Nat × Json}
    (member : e ∈ numbered position items) : e.2 ∈ items ∧ e.2.isNull = false := by
  rw [numbered_eq_filter, List.mem_filter, List.mem_map] at member
  obtain ⟨⟨⟨j, n⟩, inside, rfl⟩, present⟩ := member
  exact ⟨List.fst_mem_of_mem_zipIdx inside, by simpa using present⟩

theorem numbered_of_present {items : List Json} (present : ∀ j ∈ items, j.isNull = false)
    (position : Nat) :
    (numbered position items).map (·.1) = List.range' position items.length ∧
      (numbered position items).map (·.2) = items := by
  induction items generalizing position with
  | nil => exact ⟨rfl, rfl⟩
  | cons j rest ih =>
      have here := present j List.mem_cons_self
      obtain ⟨positions, values⟩ := ih (fun i member => present i (List.mem_cons_of_mem j member))
        (position + 1)
      constructor
      · simp [numbered, here, positions, List.range'_succ]
      · simp [numbered, here, values]

theorem ofNumbered_of_present {items : List Json} (present : ∀ j ∈ items, j.isNull = false)
    (nonempty : items ≠ []) : ofNumbered (numbered 1 items) = .array items := by
  obtain ⟨positions, values⟩ := numbered_of_present present 1
  have length : (numbered 1 items).length = items.length := by
    rw [← List.length_map (·.2), values]
  have used : numbered 1 items ≠ [] := fun none => nonempty (by rw [← values, none, List.map_nil])
  rw [ofNumbered, if_pos ⟨used, by rw [positions, length]⟩, values]

theorem isNormal_ofNumbered {used : List (Nat × Json)}
    (normal : ∀ e ∈ used, e.2.isNull = false ∧ IsNormal e.2) : IsNormal (ofNumbered used) := by
  unfold ofNumbered
  split
  · rename_i list
    refine ⟨by simpa using list.1, allNormal_iff.mpr fun j member => ?_⟩
    obtain ⟨e, inside, rfl⟩ := List.mem_map.mp member
    exact normal e inside
  · refine allNormalFields_iff.mpr fun f member => ?_
    obtain ⟨e, inside, rfl⟩ := List.mem_map.mp (mem_of_mem_sorted member)
    exact normal e inside

end Numbered

mutual

theorem isNormal_normal : ∀ j : Json, WellFormed j → IsNormal (normal j)
  | .null, _ | .bool _, _ | .string _, _ => trivial
  | .int n, held => by
      unfold normal
      split
      · assumption
      · intro m whole
        exact Decimal.large_of_whole?_ofInt (by omega) held.2 whole
  | .float x, _ => by
      unfold normal
      split
      · rename_i n whole
        split
        · unfold IsNormal
          omega
        · intro m same
          rw [whole, Option.some.injEq] at same
          omega
      · rename_i fraction
        intro n whole
        rw [fraction] at whole
        cases whole
  | .array items, held => by
      apply isNormal_ofNumbered
      intro e member
      obtain ⟨inside, present⟩ := mem_of_mem_numbered member
      exact ⟨present, isNormal_of_mem_normalItems items held.2 e.2 inside⟩
  | .object fields, held => by
      refine allNormalFields_iff.mpr fun f member => ?_
      obtain ⟨inside, present⟩ := List.mem_filter.mp member
      exact ⟨by simpa using present, isNormal_of_mem_normalFields fields held.2 f inside⟩

theorem isNormal_of_mem_normalItems : ∀ items : List Json, ThroughoutItems Held items →
    ∀ j ∈ normalItems items, IsNormal j
  | [], _, _, member => absurd member List.not_mem_nil
  | j :: rest, held, i, member => by
      rcases List.mem_cons.mp member with rfl | later
      · exact isNormal_normal j held.1
      · exact isNormal_of_mem_normalItems rest held.2 i later

theorem isNormal_of_mem_normalFields : ∀ fields : List (String × Json), ThroughoutFields Held fields →
    ∀ f ∈ normalFields fields, IsNormal f.2
  | [], _, _, member => absurd member List.not_mem_nil
  | (k, j) :: rest, held, f, member => by
      rcases List.mem_cons.mp member with rfl | later
      · exact isNormal_normal j held.1
      · exact isNormal_of_mem_normalFields rest held.2 f later

end

mutual

theorem normal_of_isNormal : ∀ j : Json, IsNormal j → normal j = j
  | .null, _ | .bool _, _ | .string _, _ => rfl
  | .int n, small => by
      unfold IsNormal at small
      rw [normal, if_pos small]
  | .float x, large => by
      unfold normal
      split
      · rename_i n whole
        rw [if_neg (not_lt.mpr (large n whole))]
      · rfl
  | .array items, ⟨nonempty, all⟩ => by
      rw [normal, normalItems_of_allNormal items all]
      exact ofNumbered_of_present (fun j member => (allNormal_iff.mp all j member).1) nonempty
  | .object fields, all => by
      have kept : fields.filter (fun f => !f.2.isNull) = fields :=
        List.filter_eq_self.mpr fun f member => by simp [(allNormalFields_iff.mp all f member).1]
      rw [normal, normalFields_of_allNormal fields all, kept]

theorem normalItems_of_allNormal : ∀ items : List Json, AllNormal items → normalItems items = items
  | [], _ => rfl
  | j :: rest, all => by
      rw [normalItems, normal_of_isNormal j all.1.2, normalItems_of_allNormal rest all.2]

theorem normalFields_of_allNormal : ∀ fields : List (String × Json), AllNormalFields fields →
    normalFields fields = fields
  | [], _ => rfl
  | (k, j) :: rest, all => by
      rw [normalFields, normal_of_isNormal j all.1.2, normalFields_of_allNormal rest all.2]

end

theorem normal_normal {j : Json} (held : WellFormed j) : normal (normal j) = normal j :=
  normal_of_isNormal _ (isNormal_normal j held)

end SlideDeck.Json
