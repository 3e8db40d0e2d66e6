import Mathlib
import SlideDeck.Proofs.Json.Normal
import SlideDeck.Proofs.Json.Number

/-!
Compact text is read back as the value that was written, up to the values of floats, exactly if it is
nested at most 127 deep.
-/

namespace SlideDeck.Json

section Outline

mutual

/-- The value with zero for every float. -/
def outline : Json → Json
  | .float _ => .float 0
  | .array items => .array (outlineItems items)
  | .object fields => .object (outlineFields fields)
  | other => other

def outlineItems : List Json → List Json
  | [] => []
  | j :: rest => outline j :: outlineItems rest

def outlineFields : List (String × Json) → List (String × Json)
  | [] => []
  | f :: rest => (f.1, outline f.2) :: outlineFields rest

end

theorem outlineFields_eq_map (fields : List (String × Json)) :
    outlineFields fields = fields.map fun f => (f.1, outline f.2) := by
  induction fields with
  | nil => rfl
  | cons f rest ih => rw [outlineFields, ih, List.map_cons]

theorem outlineItems_congr {xs ys : List Json}
    (related : List.Forall₂ (fun x y => outline y = outline x) xs ys) : outlineItems ys = outlineItems xs := by
  induction related with
  | nil => rfl
  | cons head _ ih => rw [outlineItems, head, ih, outlineItems]

theorem outlineFields_congr {fs gs : List (String × Json)}
    (related : List.Forall₂ (fun f g => f.1 = g.1 ∧ outline g.2 = outline f.2) fs gs) :
    outlineFields gs = outlineFields fs := by
  induction related with
  | nil => rfl
  | cons head _ ih => rw [outlineFields, outlineFields, head.1, head.2, ih]

section Sorted

variable {α β : Type}

theorem map_insert (h : α → β) (key : String) (value : α) (fields : List (String × α)) :
    (insert key value fields).map (fun f => (f.1, h f.2)) =
      insert key (h value) (fields.map fun f => (f.1, h f.2)) := by
  induction fields with
  | nil => rfl
  | cons f rest ih =>
      simp only [insert, List.map_cons]
      split
      · rfl
      · split
        · rfl
        · rw [List.map_cons, ih]

theorem map_sorted (h : α → β) (fields : List (String × α)) :
    (sorted fields).map (fun f => (f.1, h f.2)) = sorted (fields.map fun f => (f.1, h f.2)) := by
  rw [sorted, sorted, List.foldl_map]
  refine (List.foldl_hom (List.map fun f : String × α => (f.1, h f.2)) ?_).symm
  exact fun acc f => (map_insert h f.1 f.2 acc).symm

end Sorted

mutual

theorem outline_canonical : ∀ j : Json, outline (canonical j) = canonical (outline j)
  | .null | .bool _ | .int _ | .float _ | .string _ => rfl
  | .array items => by
      rw [canonical, outline, outline, canonical, outlineItems_canonicalItems items]
  | .object fields => by
      rw [canonical, outline, outline, canonical, ← outlineFields_canonicalFields fields,
        outlineFields_eq_map, outlineFields_eq_map, map_sorted]

theorem outlineItems_canonicalItems : ∀ items : List Json,
    outlineItems (canonicalItems items) = canonicalItems (outlineItems items)
  | [] => rfl
  | j :: rest => by
      rw [canonicalItems, outlineItems, outlineItems, canonicalItems, outline_canonical j,
        outlineItems_canonicalItems rest]

theorem outlineFields_canonicalFields : ∀ fields : List (String × Json),
    outlineFields (canonicalFields fields) = canonicalFields (outlineFields fields)
  | [] => rfl
  | (k, j) :: rest => by
      rw [canonicalFields, outlineFields, outlineFields, canonicalFields, outline_canonical j,
        outlineFields_canonicalFields rest]

end

mutual

theorem canonical_of_writable : ∀ j : Json, j.Throughout Writable → canonical j = j
  | .null, _ | .bool _, _ | .int _, _ | .float _, _ | .string _, _ => rfl
  | .array items, ⟨_, all⟩ => by rw [canonical, canonicalItems_of_writable items all]
  | .object fields, ⟨ordered, all⟩ => by
      rw [canonical, canonicalFields_of_writable fields all, sorted_of_ordered ordered]

theorem canonicalItems_of_writable : ∀ items : List Json, ThroughoutItems Writable items →
    canonicalItems items = items
  | [], _ => rfl
  | j :: rest, all => by
      rw [canonicalItems, canonical_of_writable j all.1, canonicalItems_of_writable rest all.2]

theorem canonicalFields_of_writable : ∀ fields : List (String × Json), ThroughoutFields Writable fields →
    canonicalFields fields = fields
  | [], _ => rfl
  | (k, j) :: rest, all => by
      rw [canonicalFields, canonical_of_writable j all.1, canonicalFields_of_writable rest all.2]

end

end Outline

namespace Reader

section Text

def written (j : Json) : List Char := j.compact.toList

theorem toList_compactItems (items : List Json) :
    (compactItems items).toList = separated true (items.map written) := by
  have comma : ",".toList = [','] := rfl
  induction items with
  | nil => rfl
  | cons j rest ih =>
      cases rest with
      | nil => simp [compactItems, separated, written]
      | cons k rest =>
          rw [compactItems, String.toList_append, String.toList_append, ih, comma]
          · simp [separated, written]
          · simp

theorem toList_compactFields (fields : List (String × Json)) :
    (compactFields fields).toList = separated true (fields.map (fieldText written)) := by
  have comma : ",".toList = [','] := rfl
  have colon : ":".toList = [':'] := rfl
  induction fields with
  | nil => rfl
  | cons f rest ih =>
      cases rest with
      | nil => simp [compactFields, separated, fieldText, written, colon]
      | cons g rest =>
          rw [compactFields]
          · simp only [String.toList_append, ih, comma, colon]
            simp [separated, fieldText, written]
          · simp

theorem written_array (items : List Json) (rest : List Char) :
    written (.array items) ++ rest = '[' :: (separated true (items.map written) ++ ']' :: rest) := by
  have opening : "[".toList = ['['] := rfl
  have closing : "]".toList = [']'] := rfl
  rw [written, compact, String.toList_append, String.toList_append, opening, closing, toList_compactItems]
  simp

theorem written_object (fields : List (String × Json)) (rest : List Char) :
    written (.object fields) ++ rest =
      '{' :: (separated true (fields.map (fieldText written)) ++ '}' :: rest) := by
  have opening : "\x7b".toList = ['{'] := rfl
  have closing : "\x7d".toList = ['}'] := rfl
  rw [written, compact, String.toList_append, String.toList_append, opening, closing, toList_compactFields]
  simp

end Text

section Scalars

variable {c : Char} {text cs rest : List Char} {depth n : Nat} {j : Json} {holds : Json → Prop}

theorem reads_value_scalar (token : isSpace c = false) (list : c ≠ '[') (object : c ≠ '{')
    (reads : Reads (scalar c) depth (c :: cs) rest j) : Reads (value (n + 1)) depth (c :: cs) rest j := by
  unfold value
  refine (reads_peekToken token depth cs).bind ?_
  split
  · rename_i nothing
    cases nothing
  · rename_i same
    exact absurd (Option.some.inj same) list
  · rename_i same
    exact absurd (Option.some.inj same) object
  · rename_i d _ _ same
    obtain rfl := Option.some.inj same
    exact reads

theorem reads_null (depth : Nat) (rest : List Char) :
    Reads (scalar 'n') depth ('n' :: (['u', 'l', 'l'] ++ rest)) rest .null :=
  (reads_skip depth 'n' _).bind ((reads_word ['u', 'l', 'l'] rest depth).bind (reads_pure _ depth rest))

theorem reads_true (depth : Nat) (rest : List Char) :
    Reads (scalar 't') depth ('t' :: (['r', 'u', 'e'] ++ rest)) rest (.bool true) :=
  (reads_skip depth 't' _).bind
    ((reads_word ['r', 'u', 'e'] rest depth).bind (reads_pure _ depth rest))

theorem reads_false (depth : Nat) (rest : List Char) :
    Reads (scalar 'f') depth ('f' :: (['a', 'l', 's', 'e'] ++ rest)) rest (.bool false) :=
  (reads_skip depth 'f' _).bind
    ((reads_word ['a', 'l', 's', 'e'] rest depth).bind (reads_pure _ depth rest))

theorem reads_quoted (s : String) (depth : Nat) (rest : List Char) :
    Reads (scalar '"') depth ((quote s).toList ++ rest) rest (.string s) := by
  rw [toList_quote, List.cons_append, List.append_assoc]
  exact (reads_skip depth '"' _).bind ((reads_string s depth rest).bind (reads_pure _ depth rest))

theorem ne_of_isDigit (digit : c.isDigit = true) (other : Char) (mark : other.isDigit = false) : c ≠ other := by
  rintro rfl
  rw [digit] at mark
  cases mark

theorem isSpace_of_isDigit (digit : c.isDigit = true) : isSpace c = false := by
  simp [isSpace, ne_of_isDigit digit ' ' rfl, ne_of_isDigit digit '\n' rfl,
    ne_of_isDigit digit '\t' rfl, ne_of_isDigit digit '\r' rfl]

theorem Numeric.begins (numeric : Numeric text holds) : Begins text := by
  obtain ⟨negative, body, rfl, ⟨c, cs, rfl, digit⟩, -⟩ := numeric
  cases negative
  · exact ⟨c, cs, rfl, isSpace_of_isDigit digit, ne_of_isDigit digit _ rfl⟩
  · exact ⟨'-', c :: cs, rfl, rfl, by decide⟩

theorem Numeric.reads_value (numeric : Numeric text holds) (stops : Stops rest) (depth n : Nat) :
    ∃ j, holds j ∧ Reads (value (n + 1)) depth (text ++ rest) rest j := by
  obtain ⟨negative, body, rfl, ⟨c, cs, rfl, digit⟩, reads⟩ := numeric
  obtain ⟨j, held, reads⟩ := reads depth rest stops.ends
  refine ⟨j, held, ?_⟩
  cases negative
  · refine reads_value_scalar (isSpace_of_isDigit digit) (ne_of_isDigit digit _ rfl) (ne_of_isDigit digit _ rfl) ?_
    unfold scalar
    simpa [digit, ne_of_isDigit digit 'n' rfl, ne_of_isDigit digit 't' rfl,
      ne_of_isDigit digit 'f' rfl, ne_of_isDigit digit '-' rfl] using reads
  · refine reads_value_scalar rfl (by decide) (by decide) ?_
    exact (reads_skip depth '-' _).bind reads

end Scalars

section Values

variable {j : Json} {rest : List Char} {m n : Nat} {R : Json → Json → Prop}

def Printable : Json → Prop
  | .int n => -(2 ^ 63) ≤ n ∧ n < 2 ^ 64
  | .float x => x.isFinite = true
  | _ => True

theorem begins_written (printable : j.Throughout Printable) : Begins (written j) := by
  cases j with
  | null => exact ⟨'n', _, rfl, rfl, by decide⟩
  | bool b => cases b <;> exact ⟨_, _, rfl, rfl, by decide⟩
  | int n => exact (numeric_toString printable.1 printable.2).begins
  | float x =>
      obtain ⟨y, numeric⟩ := numeric_jsonText printable
      exact numeric.begins
  | string s => exact ⟨'"', _, toList_quote s, rfl, by decide⟩
  | array items => exact ⟨'[', _, by simpa using written_array items [], rfl, by decide⟩
  | object fields => exact ⟨'{', _, by simpa using written_object fields [], rfl, by decide⟩

theorem depthItems_lt_iff {items : List Json} : depthItems items < n ↔ 0 < n ∧ ∀ j ∈ items, j.depth < n := by
  cases n with
  | zero => simp
  | succ n => simp [depthItems_le_iff]

theorem depthFields_lt_iff {fields : List (String × Json)} :
    depthFields fields < n ↔ 0 < n ∧ ∀ f ∈ fields, f.2.depth < n := by
  cases n with
  | zero => simp
  | succ n => simp [depthFields_le_iff]

/-- What is true of a value and itself, and of lists and objects if it is true of their members. -/
structure Structural (R : Json → Json → Prop) : Prop where
  refl (j : Json) : R j j
  array {xs ys : List Json} (related : List.Forall₂ R xs ys) : R (.array xs) (.array ys)
  object {fs gs : List (String × Json)}
    (related : List.Forall₂ (fun f g => f.1 = g.1 ∧ R f.2 g.2) fs gs) : R (.object fs) (.object gs)

theorem structural_outline : Structural fun j j' => j'.outline = j.outline where
  refl _ := rfl
  array related := by rw [outline, outline, outlineItems_congr related]
  object related := by rw [outline, outline, outlineFields_congr related]

theorem structural_eq : Structural Eq where
  refl _ := rfl
  array related := congrArg Json.array (by rwa [List.forall₂_eq_eq_eq] at related)
  object related := by
    have same := related.imp fun f g both => Prod.ext both.1 both.2
    exact congrArg Json.object (by rwa [List.forall₂_eq_eq_eq] at same)

def Kept (R : Json → Json → Prop) : Json → Prop
  | .float x => ∀ y, Numeric (Decimal.jsonText x).toList (· = .float y) → R (.float x) (.float y)
  | _ => True

theorem kept_outline : ∀ j : Json, Kept (fun j j' => j'.outline = j.outline) j
  | .float _ => fun _ _ => rfl
  | .null | .bool _ | .int _ | .string _ | .array _ | .object _ => trivial

theorem reads_flat (structural : Structural R) (printable : j.Throughout Printable)
    (kept : j.Throughout (Kept R)) (stops : Stops rest) (flat : j.depth = 0) (depth m : Nat) :
    ∃ j', R j j' ∧ Reads (value (m + 1)) depth (written j ++ rest) rest j' := by
  cases j with
  | null =>
      exact ⟨.null, structural.refl _, reads_value_scalar rfl (by decide) (by decide) (reads_null _ rest)⟩
  | bool b =>
      refine ⟨.bool b, structural.refl _, ?_⟩
      cases b
      · exact reads_value_scalar rfl (by decide) (by decide) (reads_false _ rest)
      · exact reads_value_scalar rfl (by decide) (by decide) (reads_true _ rest)
  | int k =>
      obtain ⟨j', rfl, reads⟩ := (numeric_toString printable.1 printable.2).reads_value stops depth m
      exact ⟨.int k, structural.refl _, reads⟩
  | float x =>
      obtain ⟨y, numeric⟩ := numeric_jsonText printable
      obtain ⟨j', rfl, reads⟩ := numeric.reads_value stops depth m
      exact ⟨.float y, kept y numeric, reads⟩
  | string s =>
      have text : written (.string s) = (quote s).toList := rfl
      have reads := reads_quoted s depth rest
      rw [toList_quote, List.cons_append] at reads
      refine ⟨.string s, structural.refl _, ?_⟩
      rw [text, toList_quote, List.cons_append]
      exact reads_value_scalar rfl (by decide) (by decide) reads
  | array items => cases flat
  | object fields => cases flat

/-- A written value is read back, but for the floats that are not kept, if there is a level for every
bracket. -/
theorem settles_value (structural : Structural R) (printable : j.Throughout Printable)
    (kept : j.Throughout (Kept R)) (stops : Stops rest) (room : n ≤ m) :
    Settles (value (m + 1)) (n + 1) (written j ++ rest) rest (j.depth ≤ n) (R j) := by
  induction n using Nat.strongRecOn generalizing m j rest with
  | _ n ih =>
      have scalar (flat : j.depth = 0) :
          Settles (value (m + 1)) (n + 1) (written j ++ rest) rest (j.depth ≤ n) (R j) := by
        obtain ⟨j', same, reads⟩ := reads_flat structural printable kept stops flat (n + 1) m
        exact (reads.settles same).congr (by simp [flat])
      -- A member is read one level further down, if there is one.
      have member {j : Json} (printable : j.Throughout Printable) (kept : j.Throughout (Kept R))
          (some : 0 < n) (rest : List Char) (stops : Stops rest) :
          Settles (value m) n (written j ++ rest) rest (j.depth < n) (R j) := by
        obtain ⟨n, rfl⟩ : ∃ k, n = k + 1 := ⟨n - 1, by omega⟩
        obtain ⟨m, rfl⟩ : ∃ k, m = k + 1 := ⟨m - 1, by omega⟩
        exact (ih n (by omega) printable kept stops (by omega)).congr Nat.lt_succ_iff.symm
      cases j with
      | null | bool b | int k | float x | string s => exact scalar rfl
      | array items =>
          have all := throughoutItems_iff.mp printable.2
          have allKept := throughoutItems_iff.mp kept.2
          have list : Settles (listOf (value m)) (n + 1)
              ('[' :: (separated true (items.map written) ++ ']' :: rest)) rest
              (0 < n ∧ ∀ x ∈ items, x.depth < n) fun ys => List.Forall₂ R items ys :=
            settles_listOf (fun some x inside => member (all x inside) (allKept x inside) some)
              (fun x inside => begins_written (all x inside)) rest
          rw [written_array]
          unfold value
          refine (reads_peekToken rfl (n + 1) _).bind_settles ?_
          refine (list.then fun ys related => ⟨.array ys, structural.array related, reads_pure _ _ rest⟩).congr ?_
          rw [depth, Nat.succ_le_iff, depthItems_lt_iff]
      | object fields =>
          have all := throughoutFields_iff.mp printable.2
          have allKept := throughoutFields_iff.mp kept.2
          have members : Settles (objectWith [] (field (value m))) (n + 1)
              ('{' :: (separated true (fields.map (fieldText written)) ++ '}' :: rest)) rest
              (0 < n ∧ ∀ f ∈ fields, f.2.depth < n)
              fun gs => List.Forall₂ (fun f g => f.1 = g.1 ∧ R f.2 g.2) fields gs.reverse :=
            settles_objectWith (fun j => j.depth < n) R
              (fun some f inside => member (all f inside) (allKept f inside) some) rest
          rw [written_object]
          unfold value
          refine (reads_peekToken rfl (n + 1) _).bind_settles ?_
          refine (members.then fun gs related =>
            ⟨.object gs.reverse, structural.object related, reads_pure _ _ rest⟩).congr ?_
          rw [depth, Nat.succ_le_iff, depthFields_lt_iff]

end Values

section Whole

variable {α : Type} {r : Reader α} {text : List Char} {a : α}

theorem run_of_reads (reads : Reads r 128 text [] a) : run r text = .ok a := by
  have finish : Reads finish 128 [] [] () := fun position => ⟨position, rfl⟩
  have whole : Reads (do let a ← r; Reader.finish; return a) 128 text [] a :=
    reads.bind (finish.bind (reads_pure a 128 []))
  obtain ⟨position, reads⟩ := whole ⟨1, 0⟩
  unfold run Cursor.start
  rw [reads]

theorem run_of_refuses (refuses : Refuses r 128 text) :
    ∃ position, run r text = .error ⟨.tooDeep, position⟩ := by
  obtain ⟨position, refuses⟩ := refuses.bind (f := fun a => do finish; return a) ⟨1, 0⟩
  refine ⟨position, ?_⟩
  unfold run Cursor.start
  rw [refuses]

end Whole

end Reader

theorem printable_of_writable {j : Json} (writable : j.Throughout Writable) : j.Throughout Reader.Printable :=
  writable.imp fun j writable => by cases j <;> first | exact writable | trivial

/-- Compact text reads as what was written, up to the values of floats, if it is nested at most 127 deep;
else it is refused for its depth. -/
theorem parse_compact {j : Json} (writable : j.Throughout Writable) :
    if j.depth ≤ 127 then ∃ j', parse j.compact = .ok j' ∧ j'.outline = j.outline
    else ∃ position, parse j.compact = .error ⟨.tooDeep, position⟩ := by
  have stops : Reader.Stops [] := fun c head => absurd head (by simp)
  have kept : j.Throughout (Reader.Kept fun j j' => j'.outline = j.outline) :=
    writable.imp fun j _ => Reader.kept_outline j
  have settled : Reader.Settles Reader.anyValue 128 (j.compact.toList ++ []) [] (j.depth ≤ 127)
      fun j' => j'.outline = j.outline :=
    Reader.settles_value Reader.structural_outline (printable_of_writable writable) kept stops (le_refl 127)
  rw [List.append_nil] at settled
  unfold parse
  split
  · rename_i shallow
    obtain ⟨j', same, reads⟩ := settled.1 shallow
    refine ⟨canonical j', by rw [Reader.run_of_reads reads]; rfl, ?_⟩
    calc
      (canonical j').outline = canonical j.outline := by rw [outline_canonical, same]
      _ = j.outline := by rw [← outline_canonical, canonical_of_writable j writable]
  · rename_i deep
    obtain ⟨position, refused⟩ := Reader.run_of_refuses (settled.2 deep)
    exact ⟨position, by rw [refused]; rfl⟩

end SlideDeck.Json
