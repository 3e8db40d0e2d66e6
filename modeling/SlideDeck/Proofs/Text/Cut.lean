import Mathlib

/-!
Text by its bytes. An offset counts bytes, and a text is cut at it only between two characters: inside a
character, and behind the end, there is nothing to cut. What is searched for is found where it starts,
and ASCII text starts nowhere else than between two characters.
-/

namespace SlideDeck.Text

open String (utf8Len utf8EncodeChar)

def encode (cs : List Char) : List UInt8 := cs.flatMap utf8EncodeChar

def cut? : Nat → List Char → Option (List Char × List Char)
  | 0, cs => some ([], cs)
  | _ + 1, [] => none
  | n + 1, c :: cs =>
    if c.utf8Size ≤ n + 1 then
      (cut? (n + 1 - c.utf8Size) cs).map fun sides => (c :: sides.1, sides.2)
    else none

def before? (n : Nat) (cs : List Char) : Option (List Char) := (cut? n cs).map Prod.fst

def from? (n : Nat) (cs : List Char) : Option (List Char) := (cut? n cs).map Prod.snd

def between? (start stop : Nat) (cs : List Char) : Option (List Char) :=
  (before? stop cs).bind (from? start)

def findBytes? (pattern : List UInt8) : List UInt8 → Option Nat
  | [] => if pattern.isEmpty then some 0 else none
  | b :: bytes =>
    if pattern.isPrefixOf (b :: bytes) then some 0 else (findBytes? pattern bytes).map (· + 1)

def find? (pattern cs : List Char) : Option Nat := findBytes? (encode pattern) (encode cs)

section Cutting

variable {n start stop : Nat} {cs a b w : List Char}

theorem cut_append (a b : List Char) : cut? (utf8Len a) (a ++ b) = some (a, b) := by
  induction a with
  | nil => cases b <;> rfl
  | cons c a ih =>
      obtain ⟨n, size⟩ : ∃ n, utf8Len (c :: a) = n + 1 := ⟨utf8Len (c :: a) - 1, by
        have := c.utf8Size_pos
        rw [String.utf8Len_cons]
        omega⟩
      rw [String.utf8Len_cons] at size
      rw [String.utf8Len_cons, size, List.cons_append, cut?, if_pos (by omega),
        show n + 1 - c.utf8Size = utf8Len a by omega, ih]
      rfl

theorem cut_eq_some_iff : cut? n cs = some (a, b) ↔ cs = a ++ b ∧ utf8Len a = n := by
  constructor
  · intro cut
    fun_induction cut? n cs generalizing a b with
    | case1 =>
        cases cut
        exact ⟨rfl, rfl⟩
    | case2 => cases cut
    | case3 n c cs fits ih =>
        obtain ⟨⟨front, behind⟩, inner, same⟩ := Option.map_eq_some_iff.mp cut
        cases same
        obtain ⟨rfl, size⟩ := ih inner
        exact ⟨rfl, by rw [String.utf8Len_cons, size]; omega⟩
    | case4 => cases cut
  · rintro ⟨rfl, rfl⟩
    exact cut_append a b

theorem isSome_cut_iff : (cut? n cs).isSome ↔ (⟨n⟩ : String.Pos.Raw).IsValid (String.ofList cs) := by
  rw [String.Pos.Raw.isValid_ofList, Option.isSome_iff_exists]
  constructor
  · rintro ⟨⟨a, b⟩, cut⟩
    obtain ⟨rfl, rfl⟩ := cut_eq_some_iff.mp cut
    exact ⟨a.length, by rw [List.take_left, String.utf8ByteSize_ofList]⟩
  · rintro ⟨k, size⟩
    refine ⟨(cs.take k, cs.drop k), cut_eq_some_iff.mpr ⟨(List.take_append_drop k cs).symm, ?_⟩⟩
    rw [← String.utf8ByteSize_ofList]
    exact size.symm

theorem before_append (size : utf8Len a = n) : before? n (a ++ b) = some a := by
  rw [before?, ← size, cut_append]
  rfl

theorem from_append (size : utf8Len a = n) : from? n (a ++ b) = some b := by
  rw [from?, ← size, cut_append]
  rfl

theorem between_append (low : utf8Len a = start) (high : utf8Len (a ++ w) = stop) :
    between? start stop (a ++ (w ++ b)) = some w := by
  rw [between?, ← List.append_assoc, before_append high]
  exact from_append low

end Cutting

section Bytes

variable {c : Char} {cs front : List Char} {b : UInt8}

theorem length_encode (cs : List Char) : (encode cs).length = utf8Len cs := by
  induction cs with
  | nil => rfl
  | cons c cs ih =>
      rw [encode, List.flatMap_cons, List.length_append, String.length_utf8EncodeChar, String.utf8Len_cons,
        ← ih, Nat.add_comm]
      rfl

theorem encode_append (a b : List Char) : encode (a ++ b) = encode a ++ encode b := List.flatMap_append

/-- The byte at the offset of a character is its first. -/
theorem getElem?_encode (front cs : List Char) : (encode (front ++ cs))[utf8Len front]? = (encode cs).head? := by
  rw [encode_append, List.getElem?_append_right (by rw [length_encode]), length_encode, Nat.sub_self,
    List.head?_eq_getElem?]

theorem encode_cons (c : Char) (cs : List Char) : encode (c :: cs) = utf8EncodeChar c ++ encode cs :=
  List.flatMap_cons

theorem encode_cons_ascii (small : c.val ≤ 127) (cs : List Char) :
    encode (c :: cs) = c.val.toUInt8 :: encode cs := by
  rw [encode_cons, String.utf8EncodeChar_eq_singleton (Char.utf8Size_eq_one_iff.mpr small)]
  rfl

theorem ofUInt8_val (small : c.val ≤ 127) : Char.ofUInt8 c.val.toUInt8 = c := by
  apply Char.ext
  apply UInt32.toNat_inj.mp
  change c.val.toUInt8.toUInt32.toNat = c.val.toNat
  rw [UInt8.toNat_toUInt32, UInt32.toNat_toUInt8]
  exact Nat.mod_eq_of_lt (Nat.lt_of_le_of_lt (UInt32.le_iff_toNat_le.mp small) (by decide))

/-- All bytes of a character beyond ASCII are beyond ASCII. -/
theorem high_of_mem (wide : 127 < c.val) (member : b ∈ utf8EncodeChar c) : 128 ≤ b.toNat := by
  have number : 127 < c.val.toNat := UInt32.lt_iff_toNat_lt.mp wide
  have last : c.val.toNat < 0x110000 := by
    rcases c.valid with low | high
    · exact Nat.lt_trans low (by decide)
    · exact high.2
  unfold utf8EncodeChar at member
  generalize c.val.toNat = v at *
  dsimp only at member
  split_ifs at member <;> simp only [List.mem_cons, List.not_mem_nil, or_false] at member
  · omega
  all_goals
    rcases member with rfl | rfl | rfl | rfl <;> rw [UInt8.toNat_ofNat'] <;> omega

theorem exists_high (wide : 127 < c.val) (cs : List Char) :
    ∃ b bytes, encode (c :: cs) = b :: bytes ∧ 128 ≤ b.toNat := by
  obtain ⟨b, bytes, shape⟩ := List.exists_cons_of_ne_nil (String.utf8EncodeChar_ne_nil (c := c))
  refine ⟨b, bytes ++ encode cs, by rw [encode_cons, shape]; rfl, high_of_mem wide ?_⟩
  rw [shape]
  exact List.mem_cons_self

theorem toNat_ascii (small : c.val ≤ 127) : c.val.toUInt8.toNat < 128 := by
  rw [UInt32.toNat_toUInt8]
  exact Nat.lt_of_le_of_lt (Nat.mod_le _ _) (Nat.lt_succ_of_le (UInt32.le_iff_toNat_le.mp small))

end Bytes

section Finding

variable {p cs a b : List Char} {c : Char} {pattern bytes : List UInt8}

theorem encode_prefix_iff (ascii : ∀ d ∈ p, d.val ≤ 127) : encode p <+: encode cs ↔ p <+: cs := by
  induction p generalizing cs with
  | nil => exact ⟨fun _ => List.nil_prefix, fun _ => List.nil_prefix⟩
  | cons d p ih =>
      obtain ⟨small, others⟩ := List.forall_mem_cons.mp ascii
      rw [encode_cons_ascii small]
      cases cs with
      | nil => simp [encode]
      | cons c cs =>
          rw [List.cons_prefix_cons]
          by_cases same : c.val ≤ 127
          · rw [encode_cons_ascii same, List.cons_prefix_cons, ih others]
            refine and_congr_left fun _ => ⟨fun byte => ?_, fun char => by rw [char]⟩
            rw [← ofUInt8_val small, byte, ofUInt8_val same]
          · obtain ⟨b, bytes, shape, high⟩ := exists_high (UInt32.not_le.mp same) cs
            rw [shape, List.cons_prefix_cons]
            constructor
            · rintro ⟨rfl, -⟩
              exact absurd high (Nat.not_le.mpr (toNat_ascii small))
            · rintro ⟨rfl, -⟩
              exact absurd small same

theorem findBytes_skip {first : UInt8} (small : first.toNat < 128) (high : ∀ b ∈ bytes, 128 ≤ b.toNat)
    (rest : List UInt8) :
    findBytes? (first :: pattern) (bytes ++ rest) =
      (findBytes? (first :: pattern) rest).map (· + bytes.length) := by
  induction bytes with
  | nil => simp
  | cons b bytes ih =>
      obtain ⟨here, others⟩ := List.forall_mem_cons.mp high
      have differs : (first == b) = false := by
        rw [beq_eq_false_iff_ne]
        rintro rfl
        omega
      have noPrefix : ¬ (first :: pattern).isPrefixOf (b :: (bytes ++ rest)) = true := by
        rw [List.isPrefixOf, differs]
        simp
      rw [List.cons_append, findBytes?, if_neg noPrefix, ih others, Option.map_map]
      rfl

theorem find_here (ascii : ∀ d ∈ p, d.val ≤ 127) (b : List Char) : find? p (p ++ b) = some 0 := by
  unfold find?
  have here : encode p <+: encode (p ++ b) := (encode_prefix_iff ascii).mpr (List.prefix_append p b)
  cases bytes : encode (p ++ b) with
  | nil =>
      rw [bytes, List.prefix_nil] at here
      rw [here]
      rfl
  | cons first rest =>
      rw [bytes] at here
      rw [findBytes?, if_pos (List.isPrefixOf_iff_prefix.mpr here)]

theorem find_nil (nonempty : p ≠ []) : find? p [] = none := by
  obtain ⟨d, p, rfl⟩ := List.exists_cons_of_ne_nil nonempty
  obtain ⟨first, pattern, shape⟩ := List.exists_cons_of_ne_nil (String.utf8EncodeChar_ne_nil (c := d))
  rw [find?, encode_cons, shape]
  rfl

theorem find_next (ascii : ∀ d ∈ p, d.val ≤ 127) (nonempty : p ≠ []) (other : ¬ p <+: c :: cs) :
    find? p (c :: cs) = (find? p cs).map (· + c.utf8Size) := by
  have elsewhere : ¬ (encode p).isPrefixOf (encode (c :: cs)) = true := by
    rw [List.isPrefixOf_iff_prefix, encode_prefix_iff ascii]
    exact other
  unfold find?
  -- Past an ASCII character the search goes on at the next byte. The bytes of any other are passed one by one.
  by_cases small : c.val ≤ 127
  · rw [encode_cons_ascii small] at elsewhere ⊢
    rw [findBytes?, if_neg elsewhere, Char.utf8Size_eq_one_iff.mpr small]
  · obtain ⟨d, p, rfl⟩ := List.exists_cons_of_ne_nil nonempty
    obtain ⟨low, -⟩ := List.forall_mem_cons.mp ascii
    rw [encode_cons_ascii low, encode_cons, ← String.length_utf8EncodeChar c]
    exact findBytes_skip (toNat_ascii low) (fun b member => high_of_mem (UInt32.not_le.mp small) member) _

theorem find_eq_none (ascii : ∀ d ∈ p, d.val ≤ 127) (nonempty : p ≠ []) (absent : ¬ p <:+: cs) :
    find? p cs = none := by
  induction cs with
  | nil => exact find_nil nonempty
  | cons c cs ih =>
      rw [List.infix_cons_iff, not_or] at absent
      rw [find_next ascii nonempty absent.1, ih absent.2]
      rfl

theorem find_append (ascii : ∀ d ∈ p, d.val ≤ 127) (nonempty : p ≠ [])
    (first : ∀ x y, a = x ++ y → y ≠ [] → ¬ p <+: y ++ (p ++ b)) :
    find? p (a ++ (p ++ b)) = some (utf8Len a) := by
  induction a with
  | nil => exact find_here ascii b
  | cons c a ih =>
      have here : ¬ p <+: c :: (a ++ (p ++ b)) := first [] (c :: a) rfl (by simp)
      rw [List.cons_append, find_next ascii nonempty here,
        ih fun x y shape => first (c :: x) y (by rw [shape]; rfl), String.utf8Len_cons]
      rfl

end Finding

end SlideDeck.Text
