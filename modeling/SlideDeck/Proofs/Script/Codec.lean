import Mathlib
import SlideDeck.Proofs.Json.Roundtrip
import SlideDeck.Proofs.Script.Conversion
import SlideDeck.Script.Library.Host

/-!
JSON text made from a value and read again. What the encoder answers is read back, up to the values of
floats, exactly if it is nested at most 127 deep: the encoder goes one level further than the reader.
-/

namespace SlideDeck.Script

open Json (Throughout Writable)

def Ensures {ε α : Type} (x : Except ε α) (holds : α → Prop) : Prop := ∀ a, x = .ok a → holds a

section Ensures

variable {ε α β : Type} {x : Except ε α} {f : α → Except ε β} {holds : α → Prop} {yields : β → Prop}

theorem ensures_ok {a : α} (held : holds a) : Ensures (.ok a : Except ε α) holds := by
  rintro _ ⟨⟩
  exact held

theorem ensures_error (e : ε) : Ensures (.error e : Except ε α) holds := by
  rintro _ ⟨⟩

theorem Ensures.bind (first : Ensures x holds) (second : ∀ a, holds a → Ensures (f a) yields) :
    Ensures (x >>= f) yields := by
  cases result : x with
  | error e => exact ensures_error e
  | ok a => exact second a (first a result)

theorem ensures_mapM {xs : List α} (each : ∀ a ∈ xs, Ensures (f a) yields) :
    Ensures (xs.mapM f) fun ys => ∀ b ∈ ys, yields b := by
  induction xs with
  | nil => exact ensures_ok fun b member => absurd member List.not_mem_nil
  | cons a xs ih =>
      rw [List.mapM_cons]
      refine (each a List.mem_cons_self).bind fun b held => ?_
      refine (ih fun c member => each c (List.mem_cons_of_mem a member)).bind fun bs all => ?_
      exact ensures_ok (List.forall_mem_cons.mpr ⟨held, all⟩)

end Ensures

section Converted

def WritableWithin (levels : Nat) (j : Json) : Prop := j.Throughout Writable ∧ j.depth ≤ levels

theorem ensures_scalar (h : Heap) (levels : Nat) {v : Value} (flat : ∀ a, v ≠ .table a) :
    Ensures (toJsonWithin h levels v) (WritableWithin levels) := by
  cases v with
  | table a => exact absurd rfl (flat a)
  | nil | bool b =>
      simp only [toJsonWithin]
      exact ensures_ok ⟨trivial, Nat.zero_le _⟩
  | int n =>
      simp only [toJsonWithin]
      have low := n.le_toInt
      have high := n.toInt_lt
      exact ensures_ok ⟨⟨by omega, by omega⟩, Nat.zero_le _⟩
  | float x =>
      simp only [toJsonWithin]
      split
      · rename_i finite
        exact ensures_ok ⟨finite, Nat.zero_le _⟩
      · exact ensures_error _
  | string s =>
      simp only [toJsonWithin]
      cases decodeText s with
      | error e => exact ensures_error e
      | ok t => exact ensures_ok ⟨trivial, Nat.zero_le _⟩
  | function f | fault f =>
      simp only [toJsonWithin]
      exact ensures_error _
  | foreign kind n =>
      cases kind <;> (simp only [toJsonWithin]; exact ensures_error _)

theorem writable_array {levels : Nat} {items : List Json} (all : ∀ j ∈ items, WritableWithin levels j) :
    WritableWithin (levels + 1) (.array items) := by
  refine ⟨⟨trivial, Json.throughoutItems_iff.mpr fun j member => (all j member).1⟩, ?_⟩
  exact Nat.succ_le_succ (Json.depthItems_le_iff.mpr fun j member => (all j member).2)

theorem writable_sorted {levels : Nat} {fields : List (String × Json)}
    (all : ∀ f ∈ fields, WritableWithin levels f.2) :
    WritableWithin (levels + 1) (.object (Json.sorted fields)) := by
  have inside : ∀ f ∈ Json.sorted fields, WritableWithin levels f.2 := fun f member =>
    all f (Json.mem_of_mem_sorted member)
  refine ⟨⟨Json.ordered_sorted fields, Json.throughoutFields_iff.mpr fun f member => (inside f member).1⟩, ?_⟩
  exact Nat.succ_le_succ (Json.depthFields_le_iff.mpr fun f member => (inside f member).2)

/-- What a value turns into can be written, and is nested no deeper than the levels allow. -/
theorem ensures_toJsonWithin (h : Heap) (levels : Nat) (v : Value) :
    Ensures (toJsonWithin h levels v) (WritableWithin levels) := by
  induction levels generalizing v with
  | zero =>
      cases v with
      | table a => exact ensures_error _
      | _ => exact ensures_scalar h 0 fun a => nofun
  | succ levels ih =>
      cases v with
      | table a =>
          simp only [toJsonWithin]
          split
          · exact (ensures_mapM fun i _ => ih _).bind fun items all => ensures_ok (writable_array all)
          · have field (e : Key × Value) : Ensures (do
                let key ← keyText e.1
                return (key, ← toJsonWithin h levels e.2)) fun f => WritableWithin levels f.2 := by
              cases keyText e.1 with
              | error problem => exact ensures_error problem
              | ok key => exact (ih e.2).bind fun j held => ensures_ok held
            exact (ensures_mapM fun e _ => field e).bind fun fields all => ensures_ok (writable_sorted all)
      | _ => exact ensures_scalar h (levels + 1) fun a => nofun

end Converted

/-- In `m` the result is `a` with heap `h`, unless the memory in use is then beyond a limit; nothing else
changes. -/
def Affords {α : Type} (x : Exec α) (m : Machine) (a : α) (h : Heap) : Prop := ∃ used,
  x m = .ok a { m with heap := h, memory := used } ∨
    m.memoryLimit ≠ 0 ∧ m.memoryLimit < used ∧
      x m = .error .outOfMemory { m with heap := h, memory := used }

section Codec

open Invocation

variable {α β : Type} {x : Exec α} {a : α} {c : Invocation} {m : Machine} {h : Heap} {j : Json}

theorem Affords.map (affords : Affords x m a h) (g : α → β) :
    Affords (do return g (← x)) m (g a) h := by
  obtain ⟨used, result | ⟨limited, beyond, result⟩⟩ := affords
  · refine ⟨used, Or.inl ?_⟩
    simp only [bind, EStateM.bind, result]
    rfl
  · refine ⟨used, Or.inr ⟨limited, beyond, ?_⟩⟩
    simp only [bind, EStateM.bind, result]

theorem Affords.ok (affords : Affords x m a h) (unlimited : m.memoryLimit = 0) :
    ∃ m', x m = .ok a m' ∧ m'.heap = h := by
  obtain ⟨used, result | ⟨limited, -⟩⟩ := affords
  · exact ⟨_, result, rfl⟩
  · exact absurd unlimited limited

theorem bind_apply {f : α → Exec β} {m' : Machine} (first : x m = .ok a m') : (x >>= f) m = f a m' := by
  show EStateM.bind x f m = _
  unfold EStateM.bind
  rw [first]

theorem affords_charge (bytes : Nat) (m : Machine) : Affords (Exec.charge bytes) m () m.heap := by
  have counted : (modify fun m => { m with memory := m.memory + bytes } : Exec Unit) m =
      .ok () { m with memory := m.memory + bytes } := rfl
  have looked (m : Machine) : (get : Exec Machine) m = .ok m m := rfl
  unfold Exec.charge Affords
  rw [bind_apply counted, bind_apply (looked _)]
  -- what is measured does not matter, and must not be computed
  generalize Machine.measure _ + bytes = used
  by_cases low : (decide (m.memoryLimit ≠ 0) && decide (m.memoryLimit < m.memory + bytes)) = true
  · have limited : m.memoryLimit ≠ 0 := of_decide_eq_true (Bool.and_eq_true_iff.mp low).1
    simp only [if_pos low]
    by_cases beyond : m.memoryLimit < used
    · simp only [if_pos beyond]
      exact ⟨used, Or.inr ⟨limited, beyond, rfl⟩⟩
    · simp only [if_neg beyond]
      exact ⟨used, Or.inl rfl⟩
  · simp only [if_neg low]
    exact ⟨m.memory + bytes, Or.inl rfl⟩

theorem affords_adopt (j : Json) (m : Machine) :
    Affords (Exec.adopt j) m (ofJson m.heap j).1 (ofJson m.heap j).2 := by
  have looked (m : Machine) : (get : Exec Machine) m = .ok m m := rfl
  have built : Exec.onHeap (fun h => ofJson h j) m =
      .ok (ofJson m.heap j).1 { m with heap := (ofJson m.heap j).2 } := rfl
  have charged (bytes : Nat) : Affords (Exec.charge bytes) { m with heap := (ofJson m.heap j).2 } ()
      (ofJson m.heap j).2 := affords_charge bytes _
  unfold Affords Exec.adopt
  rw [bind_apply (looked m), bind_apply built, bind_apply (looked _)]
  exact (charged _).map fun _ => (ofJson m.heap j).1

theorem jsonEncode_apply (c : Invocation) (m : Machine) :
    jsonEncode c m = (match toJson m.heap (c.arg 0) with
      | .ok j => do return #[← Exec.text j.compact.toUTF8]
      | .error e => Exec.hostFail false e.message : Answer) m :=
  rfl

theorem affords_jsonEncode (converted : toJson m.heap (c.arg 0) = .ok j) :
    Affords (jsonEncode c) m #[.string j.compact.toUTF8] m.heap := by
  have text : Affords (Exec.text j.compact.toUTF8) m (.string j.compact.toUTF8) m.heap :=
    (affords_charge _ m).map fun _ => Value.string j.compact.toUTF8
  unfold Affords
  rw [jsonEncode_apply, converted]
  exact text.map fun v => #[v]

theorem toJson_of_jsonEncode {out : Array Value} {m' : Machine} (encoded : jsonEncode c m = .ok out m') :
    ∃ j, toJson m.heap (c.arg 0) = .ok j ∧ out = #[.string j.compact.toUTF8] := by
  cases converted : toJson m.heap (c.arg 0) with
  | error e =>
      rw [jsonEncode_apply, converted] at encoded
      cases encoded
  | ok j =>
      refine ⟨j, rfl, ?_⟩
      obtain ⟨used, answered | ⟨-, -, failed⟩⟩ := affords_jsonEncode converted
      · rw [answered] at encoded
        cases encoded
        rfl
      · rw [failed] at encoded
        cases encoded

/-- The decoder reads a text. -/
theorem jsonDecode_text {s : String} (given : c.arg 0 = .string s.toUTF8) :
    jsonDecode c = match Json.parse s with
      | .error e => Exec.hostFail false e.message
      | .ok j => do return #[← Exec.adopt j] := by
  have text : asText (c.arg 0) = .ok s := by
    simp only [asText, given, Value.toBytes?, decode_toUTF8]
  have read : c.hostArg 0 asText = (pure s : Exec String) := by
    unfold hostArg
    rw [text]
  unfold jsonDecode
  rw [read]
  rfl

/-- Decoding what was encoded: up to 127 levels it is the same value but for its floats, and at the next
level the reader refuses it. -/
theorem jsonDecode_compact (written : WritableWithin maxTableNesting j)
    (given : c.arg 0 = .string j.compact.toUTF8) :
    if j.depth ≤ 127 then
      ∃ read, read.outline = j.outline ∧
        ∀ n, Affords (jsonDecode c) n #[(ofJson n.heap read).1] (ofJson n.heap read).2
    else
      j.depth = 128 ∧
        ∃ position, jsonDecode c = Exec.hostFail false (Json.Problem.message ⟨.tooDeep, position⟩) := by
  have parsed := Json.parse_compact written.1
  rw [jsonDecode_text given]
  split at parsed
  · rename_i shallow
    obtain ⟨read, parsed, same⟩ := parsed
    rw [if_pos shallow, parsed]
    exact ⟨read, same, fun n => (affords_adopt read n).map fun v => #[v]⟩
  · rename_i deep
    obtain ⟨position, refused⟩ := parsed
    have most : j.depth ≤ 128 := written.2
    rw [if_neg deep, refused]
    exact ⟨by omega, position, rfl⟩

end Codec

section Towers

def tower : Nat → Json
  | 0 => .object []
  | n + 1 => .array [tower n]

theorem depth_tower (n : Nat) : (tower n).depth = n + 1 := by
  induction n with
  | zero => rfl
  | succ n ih => simp [tower, Json.depth, Json.depthItems, ih]

theorem isNull_tower (n : Nat) : (tower n).isNull = false := by
  cases n <;> rfl

theorem wellFormed_tower (n : Nat) : (tower n).WellFormed := by
  induction n with
  | zero => exact ⟨List.Pairwise.nil, trivial⟩
  | succ n ih => exact ⟨by simp [Json.Held], ih, trivial⟩

theorem isNormal_tower (n : Nat) : (tower n).IsNormal := by
  induction n with
  | zero => exact trivial
  | succ n ih => exact ⟨List.cons_ne_nil _ _, ⟨isNull_tower n, ih⟩, trivial⟩

theorem toJson_tower {n : Nat} (accepted : n < 128) (h : Heap) :
    toJson (ofJson h (tower n)).2 (ofJson h (tower n)).1 = .ok (tower n) := by
  have turned := (ofJson_stands (tower n) (wellFormed_tower n) h).2 _ (.refl _) maxTableNesting
  have fits : (tower n).depth ≤ maxTableNesting := by
    rw [depth_tower]
    exact accepted
  rw [within, if_pos fits, Json.normal_of_isNormal _ (isNormal_tower n)] at turned
  exact turned

theorem jsonEncode_tower {n : Nat} (accepted : n < 128) (callee : Option Origin) : ∃ m',
    Invocation.jsonEncode ⟨callee, .jsonEncode, #[(ofJson {} (tower n)).1]⟩ { heap := (ofJson {} (tower n)).2 } =
      .ok #[.string (tower n).compact.toUTF8] m' := by
  obtain ⟨m', answered, -⟩ := (affords_jsonEncode (c := ⟨callee, .jsonEncode, #[(ofJson {} (tower n)).1]⟩)
    (m := { heap := (ofJson {} (tower n)).2 }) (toJson_tower accepted {})).ok rfl
  exact ⟨m', answered⟩

end Towers

section Roundtrip

open Invocation

/-- What the encoder answers for a value is read back, but for its floats, exactly if the value is nested
at most 127 deep; at 128 levels, which the encoder still accepts, the decoder fails. -/
theorem jsonDecode_jsonEncode {c d : Invocation} {m m' : Machine} {out : Array Value}
    (encoded : jsonEncode c m = .ok out m') (passed : d.args = out) :
    ∃ j, toJson m.heap (c.arg 0) = .ok j ∧
      if j.depth ≤ 127 then
        ∃ read, read.outline = j.outline ∧
          ∀ n, Affords (jsonDecode d) n #[(ofJson n.heap read).1] (ofJson n.heap read).2
      else
        j.depth = 128 ∧
          ∃ position, jsonDecode d = Exec.hostFail false (Json.Problem.message ⟨.tooDeep, position⟩) := by
  obtain ⟨j, converted, rfl⟩ := toJson_of_jsonEncode encoded
  have written := ensures_toJsonWithin m.heap maxTableNesting (c.arg 0) j converted
  have given : d.arg 0 = .string j.compact.toUTF8 := by
    rw [arg, passed]
    rfl
  exact ⟨j, converted, jsonDecode_compact written given⟩

/-- The deepest tower that is read back. -/
theorem jsonDecode_jsonEncode_of_tower : ∃ read n', read.outline = (tower 126).outline ∧
    jsonDecode ⟨none, .jsonDecode, #[.string (tower 126).compact.toUTF8]⟩ {} = .ok #[(ofJson {} read).1] n' := by
  -- the number of levels stays a variable, so that no tower is built
  have read_back (n : Nat) (levels : n + 1 = 127) : ∃ read n', read.outline = (tower n).outline ∧
      jsonDecode ⟨none, .jsonDecode, #[.string (tower n).compact.toUTF8]⟩ {} = .ok #[(ofJson {} read).1] n' := by
    have accepted : n < 128 := by omega
    obtain ⟨m', encoded⟩ := jsonEncode_tower accepted none
    obtain ⟨j, converted, outcome⟩ := jsonDecode_jsonEncode encoded
      (d := ⟨none, .jsonDecode, #[.string (tower n).compact.toUTF8]⟩) rfl
    obtain rfl : tower n = j := Except.ok.inj ((toJson_tower accepted {}).symm.trans converted)
    rw [depth_tower, if_pos levels.le] at outcome
    obtain ⟨read, same, affords⟩ := outcome
    obtain ⟨n', decoded, -⟩ := (affords {}).ok rfl
    exact ⟨read, n', same, decoded⟩
  exact read_back 126 rfl

/-- One level more is encoded, but not read back. -/
theorem jsonDecode_fails_of_tower :
    ¬ ∀ (c d : Invocation) (m m' n : Machine) (out : Array Value), jsonEncode c m = .ok out m' →
      d.args = out → n.memoryLimit = 0 → ∃ read n', jsonDecode d n = .ok read n' := by
  intro always
  obtain ⟨n, levels⟩ : ∃ n, n + 1 = 128 := ⟨127, rfl⟩
  have accepted : n < 128 := by omega
  obtain ⟨m', encoded⟩ := jsonEncode_tower accepted none
  obtain ⟨read, n', decoded⟩ := always _ ⟨none, .jsonDecode, #[.string (tower n).compact.toUTF8]⟩ _ _ {} _
    encoded rfl rfl
  have written : WritableWithin maxTableNesting (tower n) :=
    ensures_toJsonWithin _ _ _ _ (toJson_tower accepted {})
  have outcome := jsonDecode_compact (c := ⟨none, .jsonDecode, #[.string (tower n).compact.toUTF8]⟩) written rfl
  rw [depth_tower, if_neg (by omega)] at outcome
  obtain ⟨-, position, failed⟩ := outcome
  rw [failed] at decoded
  cases decoded

end Roundtrip

end SlideDeck.Script
