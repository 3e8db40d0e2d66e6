import Mathlib
import SlideDeck.Text.Utf8

/-!
The reading that never fails keeps ASCII text in front of anything else, malformed or not.
-/

namespace SlideDeck.Text.Utf8

variable {bytes rest : ByteArray} {i n fuel : Nat}

section Characters

variable {a b c d : UInt8}

theorem width_le (a : UInt8) : width a ≤ 4 := by
  grind [width]

theorem bounds_of_admits (admitted : admits a b = true) :
    0x80 ≤ b.toNat ∧ b.toNat < 0xC0 ∧ (a.toNat = 0xE0 → 0xA0 ≤ b.toNat) ∧
      (a.toNat = 0xED → b.toNat < 0xA0) ∧ (a.toNat = 0xF0 → 0x90 ≤ b.toNat) ∧
      (a.toNat = 0xF4 → b.toNat < 0x90) := by
  simp only [admits, Bool.and_eq_true, decide_eq_true_eq, UInt8.le_iff_toNat_le, ← UInt8.toNat_inj,
    UInt8.reduceToNat] at admitted
  split_ifs at admitted <;> simp only [UInt8.reduceToNat] at admitted <;> omega

theorem bounds_of_isContinuation (continues : isContinuation c = true) :
    0x80 ≤ c.toNat ∧ c.toNat < 0xC0 := by
  simpa [isContinuation, UInt8.le_iff_toNat_le, UInt8.lt_iff_toNat_lt] using continues

theorem ofNat_eq_iff {v : Nat} : UInt8.ofNat v = a ↔ v % 256 = a.toNat := by
  rw [← UInt8.toNat_inj, UInt8.toNat_ofNat']

theorem val_ofNatAux (v : Nat) (valid : v.isValidChar) : (Char.ofNatAux v valid).val.toNat = v := rfl

theorem valid_of_number (v : Nat) (valid : v.isValidChar) {encoded : List UInt8}
    (same : String.utf8EncodeChar (Char.ofNatAux v valid) = encoded) : encoded.toByteArray.IsValidUTF8 := by
  refine ⟨[Char.ofNatAux v valid], ?_⟩
  rw [List.utf8Encode_singleton, same]

theorem valid_one (first : width a = 1) : [a].toByteArray.IsValidUTF8 := by
  have small : a.toNat < 128 := by grind [width, UInt8.lt_iff_toNat_lt]
  refine valid_of_number a.toNat (Or.inl (by omega)) ?_
  rw [String.utf8EncodeChar, val_ofNatAux, if_pos (by omega)]
  simp only [List.cons.injEq, ofNat_eq_iff, and_true]
  omega

theorem valid_two (first : width a = 2) (second : admits a b = true) : [a, b].toByteArray.IsValidUTF8 := by
  have lead : 0xC2 ≤ a.toNat ∧ a.toNat < 0xE0 := by grind [width, UInt8.lt_iff_toNat_lt]
  have tail := bounds_of_admits second
  refine valid_of_number ((a.toNat - 0xC0) * 64 + (b.toNat - 0x80)) (Or.inl (by omega)) ?_
  rw [String.utf8EncodeChar, val_ofNatAux, if_neg (by omega), if_pos (by omega)]
  simp only [List.cons.injEq, ofNat_eq_iff, and_true]
  omega

theorem valid_three (first : width a = 3) (second : admits a b = true) (third : isContinuation c = true) :
    [a, b, c].toByteArray.IsValidUTF8 := by
  have lead : 0xE0 ≤ a.toNat ∧ a.toNat < 0xF0 := by grind [width, UInt8.lt_iff_toNat_lt]
  have tail := bounds_of_admits second
  have last := bounds_of_isContinuation third
  refine valid_of_number ((a.toNat - 0xE0) * 4096 + (b.toNat - 0x80) * 64 + (c.toNat - 0x80)) ?_ ?_
  · unfold Nat.isValidChar
    omega
  · rw [String.utf8EncodeChar, val_ofNatAux, if_neg (by omega), if_neg (by omega), if_pos (by omega)]
    simp only [List.cons.injEq, ofNat_eq_iff, and_true]
    omega

theorem valid_four (first : width a = 4) (second : admits a b = true) (third : isContinuation c = true)
    (fourth : isContinuation d = true) : [a, b, c, d].toByteArray.IsValidUTF8 := by
  have lead : 0xF0 ≤ a.toNat ∧ a.toNat < 0xF5 := by grind [width, UInt8.lt_iff_toNat_lt]
  have tail := bounds_of_admits second
  have last := bounds_of_isContinuation third
  have final := bounds_of_isContinuation fourth
  refine valid_of_number ((a.toNat - 0xF0) * 262144 + (b.toNat - 0x80) * 4096 + (c.toNat - 0x80) * 64 +
    (d.toNat - 0x80)) ?_ ?_
  · unfold Nat.isValidChar
    omega
  · rw [String.utf8EncodeChar, val_ofNatAux, if_neg (by omega), if_neg (by omega), if_neg (by omega)]
    simp only [List.cons.injEq, ofNat_eq_iff, and_true]
    omega

end Characters

section Reading

theorem exists_of_getElem? {b : UInt8} (found : bytes[i]? = some b) : ∃ inside : i < bytes.size, bytes[i] = b := by
  rw [getElem?_def] at found
  split at found
  · exact ⟨_, Option.some.inj found⟩
  · cases found

theorem characterAt_eq_ok (character : characterAt bytes i = .ok n) :
    ∃ a, bytes[i]? = some a ∧ width a = n ∧ n ≠ 0 ∧
      (2 ≤ n → ∃ b, bytes[i + 1]? = some b ∧ admits a b = true) ∧
      (3 ≤ n → ∃ c, bytes[i + 2]? = some c ∧ isContinuation c = true) ∧
      (4 ≤ n → ∃ d, bytes[i + 3]? = some d ∧ isContinuation d = true) := by
  have longest := width_le
  revert character
  fun_cases characterAt bytes i <;> grind

theorem valid_of_characterAt (character : characterAt bytes i = .ok n) :
    0 < n ∧ i + n ≤ bytes.size ∧ (bytes.extract i (i + n)).IsValidUTF8 := by
  obtain ⟨a, first, length, some, second, third, fourth⟩ := characterAt_eq_ok character
  have longest := width_le a
  obtain ⟨_, rfl⟩ := exists_of_getElem? first
  by_cases one : n = 1
  · rw [one, ByteArray.extract_add_one (by omega)]
    exact ⟨by omega, by omega, valid_one (by omega)⟩
  obtain ⟨b, second, admitted⟩ := second (by omega)
  obtain ⟨_, rfl⟩ := exists_of_getElem? second
  by_cases two : n = 2
  · rw [two, ByteArray.extract_add_two (by omega)]
    exact ⟨by omega, by omega, valid_two (by omega) admitted⟩
  obtain ⟨c, third, continued⟩ := third (by omega)
  obtain ⟨_, rfl⟩ := exists_of_getElem? third
  by_cases three : n = 3
  · rw [three, ByteArray.extract_add_three (by omega)]
    exact ⟨by omega, by omega, valid_three (by omega) admitted continued⟩
  obtain ⟨d, fourth, ended⟩ := fourth (by omega)
  obtain ⟨_, rfl⟩ := exists_of_getElem? fourth
  have four : n = 4 := by omega
  rw [four, ByteArray.extract_add_four (by omega)]
  exact ⟨by omega, by omega, valid_four (by omega) admitted continued ended⟩

/-- Up to its first fault a text is well formed, by induction on the characters looked at. -/
theorem valid_to_fault (enough : bytes.size ≤ i + fuel) (inside : i ≤ bytes.size) :
    match faultFrom bytes fuel i with
    | none => (bytes.extract i bytes.size).IsValidUTF8
    | some f => i ≤ f.index ∧ f.index < bytes.size ∧ (bytes.extract i f.index).IsValidUTF8 ∧
        ∃ c, characterAt bytes f.index = .error c := by
  induction fuel generalizing i with
  | zero =>
      obtain rfl : i = bytes.size := by omega
      rw [faultFrom, ByteArray.extract_same]
      exact ByteArray.isValidUTF8_empty
  | succ fuel ih =>
      unfold faultFrom
      by_cases done : bytes.size ≤ i
      · obtain rfl : i = bytes.size := by omega
        rw [if_pos done, ByteArray.extract_same]
        exact ByteArray.isValidUTF8_empty
      · rw [if_neg done]
        cases character : characterAt bytes i with
        | error c =>
            dsimp only
            rw [ByteArray.extract_same]
            exact ⟨le_rfl, by omega, ByteArray.isValidUTF8_empty, c, character⟩
        | ok n =>
            obtain ⟨positive, fits, valid⟩ := valid_of_characterAt character
            have further := ih (i := i + n) (by omega) fits
            dsimp only
            cases found : faultFrom bytes fuel (i + n) with
            | none =>
                rw [found] at further
                rw [ByteArray.extract_eq_extract_append_extract (i + n) (by omega) fits]
                exact valid.append further
            | some f =>
                rw [found] at further
                obtain ⟨behind, within, later, fault⟩ := further
                dsimp only
                rw [ByteArray.extract_eq_extract_append_extract (i + n) (by omega) behind]
                exact ⟨by omega, within, valid.append later, fault⟩

end Reading

section Lossy

variable {s : String}

theorem text_toUTF8 (s : String) : text s.toUTF8 = s := by
  have read : String.fromUTF8? s.toUTF8 = some s := dif_pos s.isValidUTF8
  rw [text, read, Option.getD_some]

theorem exists_of_valid (valid : bytes.IsValidUTF8) : ∃ s : String, bytes = s.toUTF8 :=
  ⟨String.fromUTF8 bytes valid, rfl⟩

theorem valid_of_append (s : String) (valid : (s.toUTF8 ++ rest).IsValidUTF8) : rest.IsValidUTF8 := by
  have strip : ∀ cs : List Char, (cs.utf8Encode ++ rest).IsValidUTF8 → rest.IsValidUTF8 := by
    intro cs
    induction cs with
    | nil => simp
    | cons c cs ih =>
        intro valid
        rw [List.utf8Encode_cons, ByteArray.append_assoc] at valid
        exact ih (ByteArray.isValidUTF8_utf8Encode_singleton_append_iff.mp valid)
  apply strip s.toList
  rwa [String.utf8Encode_toList]

theorem text_append (s : String) (valid : (s.toUTF8 ++ rest).IsValidUTF8) :
    text (s.toUTF8 ++ rest) = s ++ text rest := by
  obtain ⟨t, rfl⟩ := exists_of_valid (valid_of_append s valid)
  have joined : s.toUTF8 ++ t.toUTF8 = (s ++ t).toUTF8 := String.toByteArray_append.symm
  rw [joined, text_toUTF8, text_toUTF8]

def Plain (s : String) : Prop := ∀ c ∈ s.toList, c.toNat < 128

theorem toUTF8_of_plain (plain : Plain s) : s.toUTF8.data.toList = s.toList.map (UInt8.ofNat ·.toNat) := by
  have encoded : s.toUTF8 = s.toList.utf8Encode := String.utf8Encode_toList.symm
  rw [encoded, List.utf8Encode, List.data_toByteArray, List.toList_toArray, ← List.flatMap_pure_eq_map]
  apply List.flatMap_congr
  intro c member
  rw [String.utf8EncodeChar]
  exact if_pos (Nat.le_of_lt_succ (plain c member))

theorem characterAt_of_plain (plain : Plain s) (before : i < s.toUTF8.size) :
    characterAt (s.toUTF8 ++ rest) i = .ok 1 := by
  have ascii : ∀ b ∈ s.toUTF8.data.toList, b < 0x80 := by
    intro b member
    rw [toUTF8_of_plain plain] at member
    obtain ⟨c, inside, rfl⟩ := List.mem_map.mp member
    have small : c.toNat < 128 := plain c inside
    rw [UInt8.lt_iff_toNat_lt, UInt8.toNat_ofNat']
    exact Nat.lt_of_le_of_lt (Nat.mod_le _ _) small
  have inside : i < (s.toUTF8 ++ rest).size := by
    rw [ByteArray.size_append]
    omega
  have first : (s.toUTF8 ++ rest)[i] < 0x80 := by
    rw [ByteArray.getElem_append_left before]
    exact ascii _ (by simp [ByteArray.getElem_eq_getElem_data])
  have one : width (s.toUTF8 ++ rest)[i] = 1 := if_pos first
  have found : (s.toUTF8 ++ rest)[i]? = some (s.toUTF8 ++ rest)[i] := getElem?_pos _ _ _
  simp only [characterAt, found, one]
  rfl

theorem lossyFrom_extends (bytes : ByteArray) (fuel i : Nat) (acc : String) :
    ∃ t : String, lossyFrom bytes fuel i acc = acc ++ t := by
  induction fuel generalizing i acc with
  | zero => exact ⟨"", (String.append_empty).symm⟩
  | succ fuel ih =>
      unfold lossyFrom
      split
      · exact ⟨_, rfl⟩
      · rename_i f _
        dsimp only
        rw [String.append_assoc]
        split
        · exact ⟨_, rfl⟩
        · obtain ⟨t, read⟩ := ih (f.index + _) (acc ++ (text (bytes.extract i f.index) ++ replacement.toString))
          exact ⟨_, read.trans (String.append_assoc ..)⟩

/-- Whatever comes behind it, ASCII text is read as it is. -/
theorem lossy_append (plain : Plain s) (rest : ByteArray) :
    ∃ t : String, lossy (s.toUTF8 ++ rest) = s ++ t := by
  by_cases valid : (s.toUTF8 ++ rest).IsValidUTF8
  · obtain ⟨t, rfl⟩ := exists_of_valid (valid_of_append s valid)
    have read : String.fromUTF8? (s.toUTF8 ++ t.toUTF8) = some (s ++ t) := dif_pos valid
    exact ⟨t, by rw [lossy, read]⟩
  · have unread : String.fromUTF8? (s.toUTF8 ++ rest) = none := dif_neg valid
    have faulty := valid_to_fault (Nat.le_add_left (s.toUTF8 ++ rest).size 0) (Nat.zero_le _)
    cases fault : faultFrom (s.toUTF8 ++ rest) (s.toUTF8 ++ rest).size 0 with
    | none =>
        rw [fault, ByteArray.extract_zero_size] at faulty
        exact absurd faulty valid
    | some f =>
        rw [fault] at faulty
        obtain ⟨-, inside, front, c, error⟩ := faulty
        -- no character of the text is at fault
        have behind : s.toUTF8.size ≤ f.index := by
          by_contra before
          rw [characterAt_of_plain plain (by omega)] at error
          cases error
        have split : (s.toUTF8 ++ rest).extract 0 f.index =
            s.toUTF8 ++ (s.toUTF8 ++ rest).extract s.toUTF8.size f.index := by
          rw [ByteArray.extract_eq_extract_append_extract s.toUTF8.size (Nat.zero_le _) behind,
            ByteArray.extract_append_eq_left rfl]
        rw [split] at front
        have read : text ((s.toUTF8 ++ rest).extract 0 f.index) =
            s ++ text ((s.toUTF8 ++ rest).extract s.toUTF8.size f.index) := by
          rw [split]
          exact text_append s front
        obtain ⟨fuel, size⟩ := Nat.exists_eq_succ_of_ne_zero (Nat.ne_of_gt (Nat.zero_lt_of_lt inside))
        rw [lossy, unread, size]
        dsimp only
        rw [lossyFrom, fault]
        dsimp only
        rw [read, String.empty_append, String.append_assoc]
        split
        · exact ⟨_, rfl⟩
        · obtain ⟨t, more⟩ := lossyFrom_extends (s.toUTF8 ++ rest) fuel (f.index + _) (s ++ _)
          exact ⟨_, more.trans (String.append_assoc ..)⟩

end Lossy

end SlideDeck.Text.Utf8
