import Mathlib
import SlideDeck.Proofs.Json.Outcome
import SlideDeck.Proofs.Json.Roundtrip

/-!
Values that were read once are written and read back as they are: all of them if the texts of their floats
are read as these floats.
-/

namespace SlideDeck.Json

def Tidy : Json → Prop
  | .int n => -(2 ^ 63) ≤ n ∧ n < 2 ^ 64
  | .object fields => Ordered fields
  | _ => True

mutual

theorem tidy_canonical : ∀ j : Json, Throughout Ranged j → Throughout Tidy (canonical j)
  | .null, _ | .bool _, _ | .float _, _ | .string _, _ => trivial
  | .int _, ranged => ranged
  | .array items, ⟨_, all⟩ => ⟨trivial, throughoutItems_iff.mpr (tidy_canonicalItems items all)⟩
  | .object fields, ⟨_, all⟩ =>
      ⟨ordered_sorted _, throughoutFields_iff.mpr fun f member =>
        tidy_canonicalFields fields all f (mem_of_mem_sorted member)⟩

theorem tidy_canonicalItems : ∀ items : List Json, ThroughoutItems Ranged items →
    ∀ j ∈ canonicalItems items, Throughout Tidy j
  | [], _, _, member => absurd member List.not_mem_nil
  | j :: rest, all, i, member => by
      rcases List.mem_cons.mp member with rfl | later
      · exact tidy_canonical j all.1
      · exact tidy_canonicalItems rest all.2 i later

theorem tidy_canonicalFields : ∀ fields : List (String × Json), ThroughoutFields Ranged fields →
    ∀ f ∈ canonicalFields fields, Throughout Tidy f.2
  | [], _, _, member => absurd member List.not_mem_nil
  | (k, j) :: rest, all, f, member => by
      rcases List.mem_cons.mp member with rfl | later
      · exact tidy_canonical j all.1
      · exact tidy_canonicalFields rest all.2 f later

end

mutual

theorem depth_canonical_le : ∀ j : Json, (canonical j).depth ≤ j.depth
  | .null | .bool _ | .int _ | .float _ | .string _ => le_rfl
  | .array items => Nat.succ_le_succ (depthItems_le_iff.mpr (depth_canonicalItems_le items))
  | .object fields => Nat.succ_le_succ (depthFields_le_iff.mpr fun f member =>
      depth_canonicalFields_le fields f (mem_of_mem_sorted member))

theorem depth_canonicalItems_le : ∀ items : List Json, ∀ j ∈ canonicalItems items, j.depth ≤ depthItems items
  | [], _, member => absurd member List.not_mem_nil
  | j :: rest, i, member => by
      rcases List.mem_cons.mp member with rfl | later
      · exact (depth_canonical_le j).trans (le_max_left _ _)
      · exact (depth_canonicalItems_le rest i later).trans (le_max_right _ _)

theorem depth_canonicalFields_le : ∀ fields : List (String × Json), ∀ f ∈ canonicalFields fields,
    f.2.depth ≤ depthFields fields
  | [], _, member => absurd member List.not_mem_nil
  | (k, j) :: rest, f, member => by
      rcases List.mem_cons.mp member with rfl | later
      · exact (depth_canonical_le j).trans (le_max_left _ _)
      · exact (depth_canonicalFields_le rest f later).trans (le_max_right _ _)

end

def Faithful : Json → Prop
  | .float x => parse (Decimal.jsonText x) = .ok (.float x)
  | _ => True

instance : DecidablePred Faithful
  | .float x =>
      match (motive := ∀ outcome, Decidable (outcome = .ok (.float x))) parse (Decimal.jsonText x) with
      | .ok (.float y) => decidable_of_iff (y = x) (by simp)
      | .ok .null | .ok (.bool _) | .ok (.int _) | .ok (.string _) | .ok (.array _) | .ok (.object _)
      | .error _ => isFalse (by simp)
  | .null | .bool _ | .int _ | .string _ | .array _ | .object _ => isTrue trivial

theorem jsonText_eq_null {x : Float} (infinite : ¬ x.isFinite = true) : Decimal.jsonText x = "null" := by
  rw [Decimal.isFinite_iff, Decimal.value?] at infinite
  unfold Decimal.jsonText
  cases bits : Decimal.Binary.ofFloat x with
  | nan => rfl
  | infinite negative => rfl
  | zero negative => exact absurd ⟨_, by rw [bits, Decimal.Binary.value?]⟩ infinite
  | finite negative m => exact absurd ⟨_, by rw [bits, Decimal.Binary.value?]⟩ infinite

namespace Reader

theorem isFinite_of_faithful {x : Float} (faithful : Faithful (.float x)) : x.isFinite = true := by
  by_contra infinite
  have null : parse "null" = .ok .null := rfl
  rw [Faithful, jsonText_eq_null infinite, null] at faithful
  cases faithful

theorem kept_of_faithful {x : Float} (faithful : Faithful (.float x)) : Kept Eq (.float x) := by
  intro y numeric
  have stops : Stops [] := fun c head => absurd head (by simp)
  obtain ⟨j, rfl, reads⟩ := numeric.reads_value stops 128 127
  rw [List.append_nil] at reads
  have read : run anyValue (Decimal.jsonText x).toList = .ok (.float y) := run_of_reads reads
  rw [Faithful, parse, read] at faithful
  exact (Except.ok.inj faithful).symm

variable {j : Json} {rest : List Char} {n : Nat}

/-- A value is read back if the texts of its floats are. -/
theorem reads_anyValue (ranged : j.Throughout Ranged) (faithful : j.Throughout Faithful) (shallow : j.depth ≤ n)
    (room : n ≤ 127) (stops : Stops rest) : Reads anyValue (n + 1) (written j ++ rest) rest j := by
  have printable : j.Throughout Printable := by
    refine throughout_both (fun j ranged faithful => ?_) j ranged faithful
    cases j with
    | int n => exact ranged
    | float x => exact isFinite_of_faithful faithful
    | _ => trivial
  have kept : j.Throughout (Kept Eq) := by
    refine faithful.imp fun j faithful => ?_
    cases j with
    | float x => exact kept_of_faithful faithful
    | _ => trivial
  obtain ⟨j', rfl, reads⟩ := (settles_value structural_eq printable kept stops room).1 shallow
  exact reads

end Reader

theorem ranged_of_tidy {j : Json} (tidy : j.Throughout Tidy) : j.Throughout Ranged := by
  refine tidy.imp fun j tidy => ?_
  cases j with
  | int n => exact tidy
  | _ => trivial

theorem canonical_of_tidy {j : Json} (tidy : j.Throughout Tidy) (faithful : j.Throughout Faithful) :
    canonical j = j := by
  refine canonical_of_writable j (throughout_both (fun j tidy faithful => ?_) j tidy faithful)
  cases j with
  | int n => exact tidy
  | float x => exact Reader.isFinite_of_faithful faithful
  | object fields => exact tidy
  | _ => trivial

end SlideDeck.Json
