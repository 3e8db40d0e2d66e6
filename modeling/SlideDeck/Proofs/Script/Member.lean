import Mathlib
import SlideDeck.Proofs.Formula.Number
import SlideDeck.Proofs.Script.Encoding

/-!
Which entries of a table become members of its JSON. Different numbers have different texts, so an entry
is lost exactly if a text that is a key is also the text of a number that is one.
-/

namespace SlideDeck.Script

open Decimal Formula

section Keys

def Key.IsNumber : Key → Prop
  | .int _ | .float _ => True
  | _ => False

structure Loose (y : Float) : Prop where
  inexact : exactInt? y = none
  number : y.isNaN = false

variable {y z : Float}

theorem Key.stored_float {bits : UInt64} (stored : (Key.float bits).Stored) :
    Loose (Float.ofBits bits) ∧ (Float.ofBits bits).toBits = bits := by
  simp only [Stored, toValue, ofValue] at stored
  split at stored
  · cases stored
  · rename_i inexact
    split at stored
    · cases stored
    · rename_i number
      exact ⟨⟨inexact, by simpa using number⟩, Key.float.inj (Except.ok.inj stored)⟩

theorem Loose.beyond (loose : Loose y) {n : Int} (whole : whole? y = some n) :
    n < -(2 ^ 63) ∨ 2 ^ 63 ≤ n := by
  have inexact := loose.inexact
  simp only [exactInt?, whole] at inexact
  split at inexact
  · cases inexact
  · omega

theorem Loose.cases (loose : Loose y) : (∃ negative, Binary.ofFloat y = .infinite negative) ∨
    y.isFinite = true ∧ ¬ (y == 0) = true := by
  cases bits : Binary.ofFloat y with
  | nan => exact absurd ((isNaN_of_nan bits).symm.trans loose.number) (by decide)
  | infinite negative => exact Or.inl ⟨negative, rfl⟩
  | zero negative =>
      have whole : whole? y = some 0 := by rw [whole?, bits, Binary.whole?]
      exact absurd (loose.beyond whole) (by decide)
  | finite negative x =>
      refine Or.inr ⟨(isFinite_iff y).mpr ?_, not_beq_zero bits⟩
      exact ⟨_, by rw [value?, bits, Binary.value?]⟩

theorem letter_of_infinite {negative : Bool} (bits : Binary.ofFloat y = .infinite negative) :
    'n' ∈ (display y).toList := by
  rw [display_infinite bits]
  cases negative <;> decide

theorem Loose.display_inj (one : Loose y) (other : Loose z) (same : display y = display z) : y = z := by
  rcases one.cases with ⟨negative, bits⟩ | ⟨finite, nonzero⟩
  · rcases other.cases with ⟨negative', bits'⟩ | ⟨finite, nonzero⟩
    · have texts := congrArg String.toList same
      rw [display_infinite bits, display_infinite bits'] at texts
      obtain rfl : negative = negative' := by
        cases negative <;> cases negative' <;> first | rfl | cases texts
      exact eq_of_infinite bits bits'
    · exact absurd (same ▸ letter_of_infinite bits) (shown_display finite nonzero).no_letter
  · rcases other.cases with ⟨negative', bits'⟩ | ⟨finite', nonzero'⟩
    · exact absurd (same ▸ letter_of_infinite bits') (shown_display finite nonzero).no_letter
    · have shown := shown_display finite' nonzero'
      rw [← same] at shown
      obtain ⟨sign, magnitude⟩ := signed_inj ((shown_display finite nonzero).unique shown)
      rw [decide_eq_decide] at sign
      by_cases negative : y < 0
      · rw [if_pos negative, if_pos (sign.mp negative)] at magnitude
        rw [← float_neg_neg y, magnitude, float_neg_neg]
      · rwa [if_neg negative, if_neg (negative ∘ sign.mpr)] at magnitude

theorem display_wordEnd : display wordEnd.packed = "9223372036854776000" := by
  rw [display, ofFloat_packed normal_wordEnd]
  cbv

theorem display_wordEnd_ne {n : Int} (high : n < 2 ^ 63) : display wordEnd.packed ≠ toString n := by
  intro same
  have text : (9223372036854776000 : Int).repr = "9223372036854776000" := by cbv
  rw [display_wordEnd, ← text, Int.toString_eq_repr] at same
  have value := Int.repr_injective same
  omega

/-- No float that is a key has the text of an integer of 64 bits. -/
theorem Loose.display_ne (loose : Loose y) {n : Int} (low : -(2 ^ 63) ≤ n) (high : n < 2 ^ 63) :
    display y ≠ toString n := by
  intro same
  have text := shown_int n
  rw [← same] at text
  rcases loose.cases with ⟨negative, bits⟩ | ⟨finite, nonzero⟩
  · exact text.no_letter (letter_of_infinite bits)
  · obtain ⟨sign, magnitude⟩ := signed_inj ((shown_display finite nonzero).unique text)
    rw [decide_eq_decide] at sign
    rcases Int.lt_trichotomy n 0 with below | rfl | above
    · rw [if_pos (sign.mpr below)] at magnitude
      obtain ⟨m, whole, small⟩ := whole_of_ofNat true (by omega) (by omega) magnitude
      have far := loose.beyond whole
      rw [if_pos rfl] at far
      omega
    · rw [if_neg fun less => absurd (sign.mp less) (by decide)] at magnitude
      exact nonzero (magnitude ▸ by rfl)
    · rw [if_neg fun less => absurd (sign.mp less) (by omega)] at magnitude
      obtain ⟨m, whole, small⟩ := whole_of_ofNat false (by omega) (by omega) magnitude
      have far := loose.beyond whole
      rw [if_neg Bool.false_ne_true] at far
      obtain ⟨-, top⟩ := small.resolve_left (by omega)
      rw [if_neg Bool.false_ne_true] at top
      exact display_wordEnd_ne high (top ▸ same)

theorem text_ne {n : Int64} {bits : UInt64} (stored : (Key.float bits).Stored) :
    keyText (.float bits) ≠ keyText (.int n) := fun same =>
  (Key.stored_float stored).1.display_ne n.le_toInt n.toInt_lt (Except.ok.inj same)

/-- Different numbers have different texts. -/
theorem Key.IsNumber.text_inj {k l : Key} (number : k.IsNumber) (number' : l.IsNumber)
    (stored : k.Stored) (stored' : l.Stored) (same : keyText k = keyText l) : k = l := by
  cases k with
  | int n =>
      cases l with
      | int m =>
          have texts : toString n.toInt = toString m.toInt := Except.ok.inj same
          rw [Int.toString_eq_repr, Int.toString_eq_repr] at texts
          exact congrArg Key.int (Int64.toInt_inj.mp (Int.repr_injective texts))
      | float bits => exact absurd same.symm (text_ne stored')
      | _ => exact number'.elim
  | float bits =>
      cases l with
      | int m => exact absurd same (text_ne stored)
      | float bits' =>
          obtain ⟨loose, whole⟩ := stored_float stored
          obtain ⟨loose', whole'⟩ := stored_float stored'
          rw [← whole, ← whole', loose.display_inj loose' (Except.ok.inj same)]
      | _ => exact number'.elim
  | _ => exact number.elim

theorem key_of_name {k : Key} {name : String} (named : keyText k = .ok name) :
    k = nameKey name ∨ k.IsNumber := by
  cases k with
  | string bytes =>
      refine Or.inl (congrArg Key.string ?_)
      simp only [keyText, decodeText] at named
      split at named
      · rename_i s read
        rw [← Except.ok.inj named, toUTF8_of_decode read]
      · cases named
  | int n => exact Or.inr trivial
  | float bits => exact Or.inr trivial
  | _ => cases named

/-- A text that is a key is also the text of a number that is one. -/
def Meet (keys : List Key) : Prop :=
  ∃ name, nameKey name ∈ keys ∧ ∃ k ∈ keys, k.IsNumber ∧ keyText k = .ok name

theorem eq_of_name {keys : List Key} (stored : ∀ k ∈ keys, k.Stored) (apart : ¬ Meet keys) {k l : Key}
    (one : k ∈ keys) (other : l ∈ keys) {name : String} (named : keyText k = .ok name)
    (named' : keyText l = .ok name) : k = l := by
  rcases key_of_name named with rfl | number
  · rcases key_of_name named' with rfl | number'
    · rfl
    · exact absurd ⟨name, one, l, other, number', named'⟩ apart
  · rcases key_of_name named' with rfl | number'
    · exact absurd ⟨name, other, k, one, number, named⟩ apart
    · exact number.text_inj number' (stored k one) (stored l other) (named.trans named'.symm)

def nameOf (k : Key) : String :=
  match keyText k with
  | .ok name => name
  | .error _ => ""

theorem nameOf_eq {k : Key} {name : String} (named : keyText k = .ok name) : nameOf k = name := by
  rw [nameOf, named]

theorem nodup_names_iff {keys : List Key} (stored : ∀ k ∈ keys, k.Stored) (distinct : keys.Nodup)
    (named : ∀ k ∈ keys, keyText k = .ok (nameOf k)) : (keys.map nameOf).Nodup ↔ ¬ Meet keys := by
  rw [List.nodup_map_iff_inj_on distinct]
  constructor
  · rintro injective ⟨name, member, k, inside, number, same⟩
    have shared : nameOf k = nameOf (nameKey name) :=
      (nameOf_eq same).trans (nameOf_eq (keyText_nameKey name)).symm
    obtain rfl := injective k inside _ member shared
    exact number
  · intro apart k one l other same
    exact eq_of_name stored apart one other (named k one) (same ▸ named l other)

end Keys

section Entries

variable {h : Heap} {a : Nat} {j : Json}

/-- What a table turns into by the text of each key and the JSON of each value. -/
def Converts (h : Heap) (e : Key × Value) (f : String × Json) : Prop :=
  keyText e.1 = .ok f.1 ∧ toJson h e.2 = .ok f.2

theorem toJson_fields {fields : List (String × Json)} {entries : List (Key × Value)}
    (each : List.Forall₂ (Converts h) entries fields) :
    (∀ e ∈ entries, ∃ f ∈ fields, Converts h e f) ∧ (∀ f ∈ fields, ∃ e ∈ entries, Converts h e f) ∧
      fields.map (·.1) = (entries.map (·.1)).map nameOf := by
  induction each with
  | nil => simp
  | cons here _ ih =>
      obtain ⟨forward, backward, names⟩ := ih
      refine ⟨?_, ?_, by rw [List.map_cons, names, ← nameOf_eq here.1]; rfl⟩
      · simp only [List.forall_mem_cons, List.exists_mem_cons_iff]
        exact ⟨Or.inl here, fun e member => Or.inr (forward e member)⟩
      · simp only [List.forall_mem_cons, List.exists_mem_cons_iff]
        exact ⟨Or.inl here, fun f member => Or.inr (backward f member)⟩

theorem toJson_items (coherent : h.Coherent) {n : Nat} (list : ListKeys (h.table a).entries n)
    (converted : toJson h (.table a) = .ok j) : ∃ items, j = .array items ∧
      items.length = (h.table a).entries.length ∧ ∀ e ∈ (h.table a).entries, ∃ i item,
        e.1 = positionKey (i + 1) ∧ items[i]? = some item ∧ toJson h e.2 = .ok item := by
  have tables := coherent.table a
  obtain ⟨items, rfl, length, each⟩ := toJson_list coherent list converted
  have counted := (listLength?_eq_some_iff tables.nodup_keys).mpr list
  refine ⟨items, rfl, ?_, fun e member => ?_⟩
  · rw [length, ((listLength?_eq_some tables.nodup_keys).mp counted).1]
  · obtain ⟨i, low, high, key⟩ := (list.keys e.1).mp (List.mem_map_of_mem member)
    obtain ⟨i, rfl⟩ := Nat.exists_eq_add_of_le' low
    have inside : i < items.length := by omega
    have read : (h.table a).getNat (i + 1) = e.2 := by
      rw [← tables.get_of_mem_entries member, key]
      rfl
    have here : items[i]? = some items[i] := List.getElem?_eq_getElem inside
    exact ⟨i, items[i], key, here, read ▸ each i _ here⟩

theorem toJson_members (coherent : h.Coherent) (stored : ∀ k ∈ (h.table a).entries.map (·.1), k.Stored)
    (unlisted : ∀ n, ¬ ListKeys (h.table a).entries n) (converted : toJson h (.table a) = .ok j) :
    ∃ fields, j = .object fields ∧ (fields.map (·.1)).Nodup ∧
      (∀ f ∈ fields, ∃ e ∈ (h.table a).entries, Converts h e f) ∧
      (∀ e ∈ (h.table a).entries, ∃ f ∈ fields, keyText e.1 = .ok f.1) ∧
      fields.length ≤ (h.table a).entries.length ∧
      (fields.length = (h.table a).entries.length ↔ ¬ Meet ((h.table a).entries.map (·.1))) := by
  have distinct := (coherent.table a).nodup_keys
  rw [toJson, maxTableNesting_eq,
    toJsonWithin_fields (listLength?_eq_none distinct unlisted)] at converted
  obtain ⟨fields, each, rfl⟩ := converted
  have converts : List.Forall₂ (Converts h) (h.table a).entries fields :=
    each.imp fun e f both => ⟨both.1, toJsonWithin_mono both.2 (by decide)⟩
  obtain ⟨forward, backward, names⟩ := toJson_fields converts
  have named : ∀ k ∈ (h.table a).entries.map (·.1), keyText k = .ok (nameOf k) := by
    rw [List.forall_mem_map]
    intro e member
    obtain ⟨f, -, named, -⟩ := forward e member
    rw [nameOf_eq named, named]
  obtain ⟨fewer, all⟩ := Json.length_sorted fields
  rw [← converts.length_eq, names, nodup_names_iff stored distinct named] at all
  rw [← converts.length_eq] at fewer
  refine ⟨Json.sorted fields, rfl, (Json.ordered_sorted fields).nodup_keys, ?_, ?_, fewer, all⟩
  · exact fun f member => backward f (Json.mem_of_mem_sorted member)
  · intro e member
    obtain ⟨f, inside, named, -⟩ := forward e member
    obtain ⟨g, kept, same⟩ := List.mem_map.mp
      (Json.mem_keys_sorted.mpr (List.mem_map_of_mem (f := (·.1)) inside))
    exact ⟨g, kept, same ▸ named⟩

/-- An array keeps every entry. An object has one member for each name, with the value of an entry of that
name; it has as many as the table has entries, and then the value of each, exactly if no text that is a
key is also the text of a number that is one. -/
theorem toJson_entries (coherent : h.Coherent)
    (stored : ∀ k ∈ (h.table a).entries.map (·.1), k.Stored) (converted : toJson h (.table a) = .ok j) :
    (∃ items, j = .array items ∧ items.length = (h.table a).entries.length ∧
      ∀ e ∈ (h.table a).entries, ∃ i item,
        e.1 = positionKey (i + 1) ∧ items[i]? = some item ∧ toJson h e.2 = .ok item) ∨
    ∃ fields, j = .object fields ∧ (fields.map (·.1)).Nodup ∧
      (∀ f ∈ fields, ∃ e ∈ (h.table a).entries, keyText e.1 = .ok f.1 ∧ toJson h e.2 = .ok f.2) ∧
      (∀ e ∈ (h.table a).entries, ∃ f ∈ fields, keyText e.1 = .ok f.1) ∧
      fields.length ≤ (h.table a).entries.length ∧
      (fields.length = (h.table a).entries.length ↔ ¬ Meet ((h.table a).entries.map (·.1))) ∧
      (¬ Meet ((h.table a).entries.map (·.1)) → ∀ e ∈ (h.table a).entries, ∃ f ∈ fields,
        keyText e.1 = .ok f.1 ∧ toJson h e.2 = .ok f.2) := by
  by_cases list : ∃ n, ListKeys (h.table a).entries n
  · obtain ⟨n, list⟩ := list
    exact Or.inl (toJson_items coherent list converted)
  · obtain ⟨fields, rfl, names, backward, forward, fewer, all⟩ :=
      toJson_members coherent stored (not_exists.mp list) converted
    refine Or.inr ⟨fields, rfl, names, backward, forward, fewer, all, fun apart e member => ?_⟩
    obtain ⟨f, inside, named⟩ := forward e member
    obtain ⟨g, member', named', value⟩ := backward f inside
    have key : e.1 = g.1 :=
      eq_of_name stored apart (List.mem_map_of_mem member) (List.mem_map_of_mem member') named named'
    have same : e = g :=
      List.inj_on_of_nodup_map (coherent.table a).nodup_keys member member' key
    exact ⟨f, inside, named, same ▸ value⟩

def mixedTables : List Table :=
  [(({} : Table).setNat 1 (.ofString "a")).setString "x" (.ofString "b"),
    (({} : Table).setNat 1 (.ofString "a")).setString "1" (.ofString "b")]

def mixedHeap : Heap := { tables := mixedTables.toArray }

theorem coherent_mixedHeap : mixedHeap.Coherent := Heap.coherent_ofTables <| by
  simp only [mixedTables, List.forall_mem_cons]
  exact ⟨(Table.coherent_empty.set _ _).set _ _, (Table.coherent_empty.set _ _).set _ _, nofun⟩

/-- Where nothing meets, both entries are kept. -/
theorem toJson_entries_of_mixed : ∃ fields, toJson mixedHeap (.table 0) = .ok (.object fields) ∧
    fields.length = (mixedHeap.table 0).entries.length ∧ (mixedHeap.table 0).entries.length = 2 := by
  have keys : (mixedHeap.table 0).entries.map (·.1) = [positionKey 1, nameKey "x"] := by cbv
  have converted : toJson mixedHeap (.table 0) = .ok (.object [("1", .string "a"), ("x", .string "b")]) := by
    cbv
  have stored : ∀ k ∈ (mixedHeap.table 0).entries.map (·.1), k.Stored := by
    rw [keys, List.forall_mem_cons, List.forall_mem_singleton]
    exact ⟨rfl, rfl⟩
  have apart : ¬ Meet ((mixedHeap.table 0).entries.map (·.1)) := by
    rw [keys]
    rintro ⟨name, text, k, inside, number, named⟩
    obtain rfl : name = "x" := by
      rcases List.mem_pair.mp text with same | same
      · cases same
      · exact nameKey_injective same
    rcases List.mem_pair.mp inside with rfl | rfl
    · exact absurd (Except.ok.inj named) (by decide)
    · exact number
  rcases toJson_entries coherent_mixedHeap stored converted with
    ⟨items, array, -⟩ | ⟨fields, object, -, -, -, -, all, -⟩
  · cases array
  · exact ⟨fields, object ▸ converted, all.mpr apart, by cbv⟩

/-- Where a text meets a number, one of two entries is lost. -/
theorem toJson_loses_entry : ∃ fields, toJson mixedHeap (.table 1) = .ok (.object fields) ∧
    fields.length = 1 ∧ (mixedHeap.table 1).entries.length = 2 :=
  ⟨[("1", .string "b")], by cbv, rfl, by cbv⟩

end Entries

end SlideDeck.Script
