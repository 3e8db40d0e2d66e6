import Mathlib
import SlideDeck.Proofs.Formula.Number
import SlideDeck.Proofs.Text.Utf8
import SlideDeck.Sandbox.Diagnostic

/-!
The location that an error is reported with: the first in its message, or else in its trace. A position in
front of a message decides, whatever the message says. In a trace it is where the innermost function of the
script was, unless a name in front of it is taken for a location.
-/

namespace SlideDeck.Diagnostic

open Script (Activation Naming Value chunkName traceFirst traceLast traceMost traceText upToZero)
open Script.Exec (displayBytes position)
open Text.Utf8 (Plain lossy)

section Separators

/-- A character that stands between words and in no location. -/
def Separates (c : Char) : Prop :=
  c ∉ chunkName.toList ∧ c ≠ ':' ∧ Text.isDigit c = false ∧ Text.isWord c = false

instance (c : Char) : Decidable (Separates c) := inferInstanceAs (Decidable (_ ∧ _))

variable {c : Char} {name cs front rest : List Char}

theorem isPrefixOf?_append (absent : c ∉ name) (cs rest : List Char) :
    name.isPrefixOf? (cs ++ c :: rest) = (name.isPrefixOf? cs).map (· ++ c :: rest) := by
  induction name generalizing cs with
  | nil => rfl
  | cons a name ih =>
      rw [List.mem_cons, not_or] at absent
      cases cs with
      | nil => simp [List.isPrefixOf?, Ne.symm absent.1]
      | cons b cs =>
          simp only [List.cons_append, List.isPrefixOf?]
          split
          · exact ih absent.2 cs
          · rfl

theorem afterName_append (separates : Separates c) (before : Option Char) (a : Char) (cs rest : List Char) :
    afterName before (a :: cs ++ c :: rest) = (afterName before (a :: cs)).map (· ++ c :: rest) := by
  obtain ⟨absent, -⟩ := separates
  have short : c ∉ "script".toList := fun inside => absent (by
    have part : "script".toList ⊆ chunkName.toList := by decide
    exact part inside)
  unfold afterName
  rw [isPrefixOf?_append absent]
  cases chunkName.toList.isPrefixOf? (a :: cs) with
  | some behind => rfl
  | none =>
      simp only [Option.map_none, isPrefixOf?_append short]
      split <;> simp_all

theorem numberBetweenColons_append (separates : Separates c) (cs rest : List Char) :
    numberBetweenColons (cs ++ c :: rest) = numberBetweenColons cs := by
  obtain ⟨-, colon, digit, -⟩ := separates
  cases cs with
  | nil => simp [numberBetweenColons, colon]
  | cons a cs =>
      have digits : (cs ++ c :: rest).takeWhile Text.isDigit = cs.takeWhile Text.isDigit := by
        rw [List.takeWhile_append, List.takeWhile_cons_of_neg (by simp [digit]), List.append_nil]
        split
        · rename_i all
          exact ((List.takeWhile_prefix _).eq_of_length all).symm
        · rfl
      have behind : (cs ++ c :: rest).drop (cs.takeWhile Text.isDigit).length =
          cs.drop (cs.takeWhile Text.isDigit).length ++ c :: rest :=
        List.drop_append_of_le_length (List.takeWhile_prefix _).length_le
      by_cases colons : a = ':'
      · subst colons
        simp only [List.cons_append, numberBetweenColons, digits, behind]
        cases cs.drop (cs.takeWhile Text.isDigit).length with
        | nil => simp [colon]
        | cons d ds => by_cases last : d = ':' <;> simp [last]
      · simp [numberBetweenColons, colons]

theorem locationFrom_of_not_word (word : Text.isWord c = false) (cs : List Char) :
    locationFrom (some c) cs = locationFrom none cs := by
  cases cs with
  | nil => rfl
  | cons a cs =>
      simp only [locationFrom, afterName, Text.isBoundary, Option.any_some, Option.any_none, word]
      rfl

/-- No location goes across a separator. -/
theorem locationFrom_separated (separates : Separates c) (before : Option Char) (front rest : List Char) :
    locationFrom before (front ++ c :: rest) = (locationFrom before front).or (locationFrom none rest) := by
  induction front generalizing before with
  | nil =>
      have name : afterName before (c :: rest) = none := by
        obtain ⟨absent, -⟩ := separates
        have first : '[' ≠ c ∧ 's' ≠ c := by
          refine ⟨fun same => absent (same ▸ ?_), fun same => absent (same ▸ ?_)⟩ <;> decide
        simp [afterName, List.isPrefixOf?, chunkName, first]
      have passed : locationFrom before (c :: rest) = locationFrom (some c) rest := by
        rw [locationFrom, name]
        rfl
      rw [List.nil_append, passed, locationFrom_of_not_word separates.2.2.2]
      exact Option.none_or.symm
  | cons a front ih =>
      have here : (afterName before (a :: front ++ c :: rest)).bind numberBetweenColons =
          (afterName before (a :: front)).bind numberBetweenColons := by
        rw [afterName_append separates]
        cases afterName before (a :: front) with
        | none => rfl
        | some behind => exact numberBetweenColons_append separates behind rest
      rw [List.cons_append] at here
      rw [List.cons_append, locationFrom, locationFrom, here, ih]
      cases (afterName before (a :: front)).bind numberBetweenColons <;> rfl

end Separators

section Colons

variable {cs : List Char}

theorem two_colons {digits : List Char} (read : numberBetweenColons cs = some digits) : 2 ≤ cs.count ':' := by
  unfold numberBetweenColons at read
  split at read
  · rename_i rest
    dsimp only at read
    split at read
    · rename_i behind more
      have inside : List.Sublist (':' :: behind) rest := more ▸ List.drop_sublist _ rest
      have counted := inside.count_le ':'
      rw [List.count_cons_self] at counted ⊢
      omega
    · cases read
  · cases read

theorem sublist_of_afterName {before : Option Char} {behind : List Char}
    (named : afterName before cs = some behind) : behind.Sublist cs := by
  have suffix {name : List Char} (front : name.isPrefixOf? cs = some behind) : behind.Sublist cs := by
    rw [List.isPrefixOf?_eq_some_iff_append_eq] at front
    exact front ▸ List.sublist_append_right name behind
  unfold afterName at named
  split at named
  · rename_i found
    exact suffix (found.trans named)
  · split at named
    · exact suffix named
    · cases named

theorem locationFrom_of_count (few : cs.count ':' < 2) (before : Option Char) :
    locationFrom before cs = none := by
  induction cs generalizing before with
  | nil => rfl
  | cons c cs ih =>
      have here : (afterName before (c :: cs)).bind numberBetweenColons = none := by
        rw [Option.bind_eq_none_iff]
        intro behind named
        by_contra present
        obtain ⟨digits, read⟩ := Option.ne_none_iff_exists'.mp present
        have most := (sublist_of_afterName named).count_le ':'
        have least := two_colons read
        omega
      have fewer := (List.sublist_cons_self c cs).count_le ':'
      rw [locationFrom, here]
      exact ih (by omega) _

end Colons

section Position

variable (n : Nat)

theorem toList_position : (position (some n)).toList =
    chunkName.toList ++ ':' :: ((toString n).toList ++ ':' :: [' ']) := by
  simp [position, String.toList_append]

theorem numberBetweenColons_toString (rest : List Char) :
    numberBetweenColons (':' :: ((toString n).toList ++ ':' :: rest)) = some (toString n).toList := by
  have digits : ∀ c ∈ (toString n).toList, Text.isDigit c = true := fun c member =>
    Text.is_digit_of_ascii ((Decimal.digits_toString n).2 c member)
  have front : ((toString n).toList ++ ':' :: rest).takeWhile Text.isDigit = (toString n).toList := by
    rw [List.takeWhile_append_of_pos digits, List.takeWhile_cons_of_neg (by decide), List.append_nil]
  have present : (toString n).toList.isEmpty = false :=
    List.isEmpty_eq_false_iff.mpr (Decimal.digits_toString n).1
  simp only [numberBetweenColons, front, List.drop_left, present]
  rfl

/-- A text that begins with a place in the script has its first location there. -/
theorem locationFrom_place (rest : List Char) :
    locationFrom none (chunkName.toList ++ ':' :: ((toString n).toList ++ ':' :: rest)) =
      some (toString n).toList := by
  have named : ∀ text, afterName none (chunkName.toList ++ text) = some text := by
    intro text
    have front : chunkName.toList.isPrefixOf? (chunkName.toList ++ text) = some text := by
      rw [List.isPrefixOf?_eq_some_iff_append_eq]
    rw [afterName, front]
  have first : ∀ text, chunkName.toList ++ text = '[' :: (chunkName.toList.tail ++ text) := fun _ => rfl
  rw [first, locationFrom, ← first, named, Option.bind_some, numberBetweenColons_toString]

theorem lineOf_toString : lineOf (toString n).toList = if n < 2 ^ 32 then some n else none := by
  have digits : (toString n).toList.all Char.isDigit = true :=
    List.all_eq_true.mpr (Decimal.digits_toString n).2
  unfold lineOf
  dsimp only
  rw [digits, Decimal.natOfDigits_toString, Bool.true_and]
  simp only [decide_eq_true_eq]

theorem lineIn_position (rest : List Char) :
    lineIn ((position (some n)).toList ++ rest) = if n < 2 ^ 32 then some n else none := by
  have text : (position (some n)).toList ++ rest =
      chunkName.toList ++ ':' :: ((toString n).toList ++ ':' :: (' ' :: rest)) := by
    rw [toList_position]
    simp only [List.append_assoc, List.cons_append, List.nil_append]
  rw [lineIn, text, locationFrom_place, Option.bind_some, lineOf_toString]

theorem mem_position {c : Char} (member : c ∈ (position (some n)).toList) : 32 ≤ c.toNat ∧ c.toNat < 128 := by
  have fixed : (chunkName.toList ++ [':', ' ']).all (fun c => 32 ≤ c.toNat && c.toNat < 128) = true := rfl
  have shown : ∀ c ∈ chunkName.toList ++ [':', ' '], 32 ≤ c.toNat ∧ c.toNat < 128 := by
    intro c member
    simpa using List.all_eq_true.mp fixed c member
  have parts : c ∈ chunkName.toList ++ [':', ' '] ∨ c ∈ (toString n).toList := by
    rw [toList_position] at member
    generalize chunkName.toList = name at member ⊢
    grind
  rcases parts with mark | digit
  · exact shown c mark
  · have isDigit := (Decimal.digits_toString n).2 c digit
    simp only [Char.isDigit, ge_iff_le, Bool.and_eq_true, decide_eq_true_eq, UInt32.le_iff_toNat_le] at isDigit
    exact ⟨le_trans (by decide) isDigit.1, lt_of_le_of_lt isDigit.2 (by decide)⟩

end Position

section Trace

/-- The digits of the location that a trace has for a function: where it was in the script, or else what
the name has for one that the script gave it. -/
def locationOf (a : Activation) : Option (List Char) :=
  match a.chunk, a.line with
  | .script, some n => some (toString n).toList
  | _, _ => a.name.word?.bind fun w => locationFrom none w.toList

theorem locationFrom_newline (before : Option Char) {front rest : List Char}
    (next : rest = [] ∨ ∃ more, rest = '\n' :: more) :
    locationFrom before (front ++ rest) = (locationFrom before front).or (locationFrom none rest) := by
  have separates : Separates '\n' := by decide
  obtain rfl | ⟨more, rfl⟩ := next
  · rw [List.append_nil, locationFrom, Option.or_none]
  · have skipped : locationFrom none ('\n' :: more) = locationFrom none more :=
      locationFrom_separated separates none [] more
    rw [locationFrom_separated separates, skipped]

def fixedPlaces : List String := ["[C]", "strict:5", chunkName]

/-- What functions are called by, up to the words of the script in it. -/
def fixedNames : List String :=
  ["?", "main chunk", "function ", "function <strict:4>", "local ", "upvalue ", "global ", "constant ", "method ",
    "field ", "for iterator ", "metamethod "]

theorem locationFrom_fixed {place name : String} (fixed : place ∈ fixedPlaces) (known : name ∈ fixedNames) :
    locationFrom none (place ++ ": in " ++ name).toList = none := by
  have all : ∀ place ∈ fixedPlaces, ∀ name ∈ fixedNames,
      locationFrom none (place.toList ++ ": in ".toList ++ name.toList) = none := by decide +kernel
  rw [String.toList_append, String.toList_append]
  exact all place fixed name known

theorem locationFrom_quoted {front : List Char} (quiet : locationFrom none front = none) (w : List Char) :
    locationFrom none (front ++ '\'' :: (w ++ ['\''])) = locationFrom none w := by
  have separates : Separates '\'' := by decide
  rw [locationFrom_separated separates, quiet, Option.none_or, locationFrom_separated separates, locationFrom,
    Option.or_none]

theorem locationFrom_defined {front : List Char} (quiet : locationFrom none front = none) (line : Nat) :
    locationFrom none (front ++ '<' :: (chunkName.toList ++ ':' :: (toString line).toList ++ ['>'])) =
      none := by
  have digits : (toString line).toList.count ':' = 0 := List.count_eq_zero.mpr fun colon =>
    absurd ((Decimal.digits_toString line).2 ':' colon) (by decide)
  have name : chunkName.toList.count ':' = 0 := by decide
  have few : (chunkName.toList ++ ':' :: (toString line).toList).count ':' < 2 := by
    rw [List.count_append, List.count_cons_self, digits, name]
    decide
  have opened : Separates '<' := by decide
  have closed : Separates '>' := by decide
  rw [locationFrom_separated opened, quiet, Option.none_or, locationFrom_separated closed,
    locationFrom_of_count few]
  rfl

theorem locationFrom_name {place : String} (fixed : place ∈ fixedPlaces) (name : Naming) :
    locationFrom none (place ++ ": in " ++ name.text).toList =
      name.word?.bind fun w => locationFrom none w.toList := by
  have quiet (name : String) (known : name ∈ fixedNames) :
      locationFrom none (place ++ ": in " ++ name).toList = none := locationFrom_fixed fixed known
  have quoted (what w : String) (front : locationFrom none (place ++ ": in " ++ what).toList = none) :
      locationFrom none (place ++ ": in " ++ (what ++ "'" ++ w ++ "'")).toList =
        locationFrom none w.toList := by
    have parts : (place ++ ": in " ++ (what ++ "'" ++ w ++ "'")).toList =
        (place ++ ": in " ++ what).toList ++ '\'' :: (w.toList ++ ['\'']) := by
      simp [String.toList_append]
    rw [parts, locationFrom_quoted front]
  cases name with
  | unknown => exact quiet "?" (by decide)
  | mainChunk => exact quiet "main chunk" (by decide)
  | guard => exact quiet "function <strict:4>" (by decide)
  | library w => exact quoted "function " w (quiet "function " (by decide))
  | called kind w => 
    have shown : (Naming.called kind w).text = kind.text ++ " " ++ "'" ++ w ++ "'" := by
      simp [Naming.text, String.append_assoc]
    rw [shown]
    exact quoted (kind.text ++ " ") w (by cases kind <;> exact quiet _ (by decide))
  | defined line =>
    have parts : (place ++ ": in " ++ (Naming.defined line).text).toList =
        (place ++ ": in " ++ "function ").toList ++
          '<' :: (chunkName.toList ++ ':' :: (toString line).toList ++ ['>']) := by
      simp [Naming.text, String.toList_append]
    rw [parts, locationFrom_defined (quiet "function " (by decide))]
    rfl

theorem toList_text (a : Activation) : ∃ tail,
    a.text.toList = '\n' :: '\t' :: ((a.place ++ ": in " ++ a.name.text).toList ++ tail) ∧
      (tail = [] ∨ ∃ more, tail = '\n' :: more) ∧ locationFrom none tail = none := by
  cases tail : a.isTail
  · refine ⟨[], ?_, .inl rfl, rfl⟩
    simp [Activation.text, tail]
  · refine ⟨"\n\t(...tail calls...)".toList, ?_, .inr ⟨_, rfl⟩, by decide⟩
    simp [Activation.text, tail]

theorem locationFrom_text (a : Activation) : locationFrom none a.text.toList = locationOf a := by
  have newline : Separates '\n' := by decide
  have tab : Separates '\t' := by decide
  obtain ⟨tail, text, next, quiet⟩ := toList_text a
  have skipped (cs : List Char) : locationFrom none ('\n' :: '\t' :: cs) = locationFrom none cs :=
    (locationFrom_separated newline none [] _).trans (locationFrom_separated tab none [] _)
  rw [text, skipped, locationFrom_newline none next, quiet, Option.or_none]
  unfold locationOf Activation.place
  cases a.chunk with
  | host => exact locationFrom_name (by decide : "[C]" ∈ fixedPlaces) a.name
  | guard => exact locationFrom_name (by decide : "strict:5" ∈ fixedPlaces) a.name
  | script =>
    cases a.line with
    | none => exact locationFrom_name (by decide) a.name
    | some n =>
      have parts : (chunkName ++ ":" ++ toString n ++ ": in " ++ a.name.text).toList =
          chunkName.toList ++ ':' :: ((toString n).toList ++ ':' :: (" in ".toList ++ a.name.text.toList)) := by
        simp [String.toList_append]
      exact (congrArg _ parts).trans (locationFrom_place n _)

theorem locationFrom_texts (as : List Activation) (before : Option Char) (front : List Char) {rest : List Char}
    (next : rest = [] ∨ ∃ more, rest = '\n' :: more) :
    locationFrom before (front ++ (as.flatMap (·.text.toList) ++ rest)) =
      (locationFrom before front).or ((as.findSome? locationOf).or (locationFrom none rest)) := by
  induction as generalizing before front with
  | nil => exact locationFrom_newline before next
  | cons a as ih =>
      obtain ⟨tail, text, -⟩ := toList_text a
      have line : ∃ more, a.text.toList ++ (as.flatMap (·.text.toList) ++ rest) = '\n' :: more :=
        ⟨_, by rw [text]; rfl⟩
      rw [List.flatMap_cons, List.append_assoc, locationFrom_newline before (.inr line), ih, locationFrom_text,
        List.findSome?_cons]
      cases locationOf a <;> rfl

def shown (trace : List Activation) : List Activation :=
  if trace.length ≤ traceMost then trace
  else trace.take traceFirst ++ trace.drop (trace.length - traceLast)

/-- The first location in a trace is that of the innermost function that has one. -/
theorem locationFrom_traceText (trace : List Activation) :
    locationFrom none (traceText trace).toList = (shown trace).findSome? locationOf := by
  have title : locationFrom none "stack traceback:".toList = none := by decide
  have texts (as : List Activation) :
      (String.join (as.map (·.text))).toList = as.flatMap (·.text.toList) := by
    rw [String.toList_join, List.flatMap_map]
  unfold traceText shown
  dsimp only
  split
  · have all := locationFrom_texts trace none "stack traceback:".toList (.inl rfl)
    rw [title, Option.none_or, List.append_nil, locationFrom, Option.or_none] at all
    rw [String.toList_append, texts, all]
  · have gap (k : Nat) :
        locationFrom none ("\n\t...\t(skipping " ++ toString k ++ " levels)").toList = none := by
      have digits : (toString k).toList.count ':' = 0 := List.count_eq_zero.mpr fun colon =>
        absurd ((Decimal.digits_toString k).2 ':' colon) (by decide)
      have front : "\n\t...\t(skipping ".toList.count ':' = 0 := by decide
      have back : " levels)".toList.count ':' = 0 := by decide
      refine locationFrom_of_count ?_ none
      rw [String.toList_append, String.toList_append, List.count_append, List.count_append, front, digits, back]
      decide
    let skipped := "\n\t...\t(skipping " ++ toString (trace.length - traceMost) ++ " levels)"
    have last := locationFrom_texts (trace.drop (trace.length - traceLast)) none skipped.toList (.inl rfl)
    rw [gap, Option.none_or, List.append_nil, locationFrom, Option.or_none] at last
    have line : ∃ more, skipped.toList ++ (trace.drop (trace.length - traceLast)).flatMap (·.text.toList) =
        '\n' :: more := ⟨_, by simp [skipped]; rfl⟩
    have all := locationFrom_texts (trace.take traceFirst) none "stack traceback:".toList (.inr line)
    rw [title, Option.none_or, last, ← List.findSome?_append] at all
    rw [← all]
    simp only [skipped, String.toList_append, texts, List.append_assoc]

end Trace

section Split

variable {front rest : List Char}

theorem splitTraceFrom_extends (passed text : List Char) :
    ∃ more, (splitTraceFrom passed text).1 = passed.reverse ++ more := by
  induction text generalizing passed with
  | nil => exact ⟨[], (List.append_nil _).symm⟩
  | cons c text ih =>
      unfold splitTraceFrom
      split
      · exact ⟨[], (List.append_nil _).symm⟩
      · obtain ⟨more, split⟩ := ih (c :: passed)
        exact ⟨c :: more, by rw [split, List.reverse_cons, List.append_assoc, List.singleton_append]⟩

theorem splitTrace_append (flat : '\n' ∉ front) (rest : List Char) :
    ∃ more, (splitTrace (front ++ rest)).1 = front ++ more := by
  have passes : ∀ passed,
      splitTraceFrom passed (front ++ rest) = splitTraceFrom (front.reverse ++ passed) rest := by
    induction front with
    | nil => exact fun passed => rfl
    | cons c front ih =>
        intro passed
        rw [List.mem_cons, not_or] at flat
        have unmarked : ¬ traceMark.isPrefixOf (c :: (front ++ rest)) = true := by
          intro marked
          have first := List.isPrefixOf_iff_prefix.mp marked
          exact flat.1 (List.cons_prefix_cons.mp first).1
        rw [List.cons_append, splitTraceFrom, if_neg unmarked, ih flat.2, List.reverse_cons, List.append_assoc,
          List.singleton_append]
  rw [splitTrace, passes, List.append_nil]
  have further := splitTraceFrom_extends front.reverse rest
  rwa [List.reverse_reverse] at further

theorem not_marked_append {c : Char} {text : List Char} (unmarked : ¬ traceMark.isPrefixOf (c :: text) = true)
    (rest : List Char) : ¬ traceMark.isPrefixOf (c :: text ++ (traceMark ++ rest)) = true := by
  intro marked
  have within := List.isPrefixOf_iff_prefix.mp marked
  rcases List.prefix_or_prefix_of_prefix within (List.prefix_append (c :: text) _) with
    inside | ⟨behind, across⟩
  · exact unmarked (List.isPrefixOf_iff_prefix.mpr inside)
  · rw [← across, List.prefix_append_right_inj] at within
    cases behind with
    | nil => exact unmarked (List.isPrefixOf_iff_prefix.mpr (by rw [← across, List.append_nil]))
    | cons d behind =>
        -- the rest of the mark would begin as the mark does, but there is only one newline in it
        have begins : traceMark.head? = some '\n' := by decide
        have single : '\n' ∉ traceMark.tail := by decide
        rw [← across] at begins single
        obtain rfl : c = '\n' := Option.some.inj begins
        obtain rfl : d = '\n' := (List.cons_prefix_cons.mp within).1
        simp at single

/-- The trace that follows a text belongs to the trace that the text has already. -/
theorem splitTrace_marked (text rest : List Char) :
    splitTrace (text ++ (traceMark ++ rest)) =
      ((splitTrace text).1,
        some (((splitTrace text).2.map (· ++ traceMark ++ rest)).getD (traceMark.tail ++ rest))) := by
  unfold splitTrace
  generalize [] = passed
  induction text generalizing passed with
  | nil =>
      have marked : traceMark.isPrefixOf (traceMark ++ rest) = true :=
        List.isPrefixOf_iff_prefix.mpr (List.prefix_append _ _)
      have first : traceMark ++ rest = '\n' :: (traceMark.tail ++ rest) := rfl
      rw [List.nil_append, first]
      rw [first] at marked
      exact if_pos marked
  | cons c text ih =>
      by_cases marked : traceMark.isPrefixOf (c :: text) = true
      · have still : traceMark.isPrefixOf (c :: text ++ (traceMark ++ rest)) = true :=
          List.isPrefixOf_iff_prefix.mpr ((List.isPrefixOf_iff_prefix.mp marked).trans (List.prefix_append _ _))
        rw [List.cons_append] at still ⊢
        rw [splitTraceFrom, if_pos still, splitTraceFrom, if_pos marked]
        simp
      · have still := not_marked_append marked rest
        rw [List.cons_append] at still ⊢
        rw [splitTraceFrom, if_neg still, splitTraceFrom, if_neg marked]
        exact ih (c :: passed)

theorem upToZero_append {a : ByteArray} (nonzero : ∀ b ∈ a.data.toList, b ≠ 0) (b : ByteArray) :
    upToZero (a ++ b) = a ++ upToZero b := by
  apply ByteArray.ext
  apply Array.ext'
  have kept : ∀ b ∈ a.data.toList, (b != 0) = true := fun b member => bne_iff_ne.mpr (nonzero b member)
  rw [ByteArray.data_append, Array.toList_append, upToZero, upToZero, Array.toList_takeWhile,
    Array.toList_takeWhile, ByteArray.data_append, Array.toList_append, List.takeWhile_append_of_pos kept]

end Split

section Raised

def words (v : Value) : List Char × Option (List Char) :=
  match v with
  | .fault f => (if f.isRuntime then (splitTrace f.message.toList).1 else f.message.toList, none)
  | v => splitTrace (lossy (upToZero (displayBytes v))).toList

def callersOf (v : Value) (running : List Activation) : List Activation :=
  match v with
  | .fault f => f.trace
  | _ => running

theorem lineIn_traceText (trace : List Activation) :
    lineIn (traceText trace).toList = ((shown trace).findSome? locationOf).bind lineOf := by
  rw [lineIn, locationFrom_traceText]

theorem line_splitTrace (text : List Char) (trace : List Activation) :
    let parts := splitTrace (text ++ '\n' :: (traceText trace).toList)
    (lineIn parts.1).or (parts.2.bind lineIn) = (lineIn (splitTrace text).1).or
      ((((splitTrace text).2.bind (locationFrom none)).or ((shown trace).findSome? locationOf)).bind lineOf) := by
  have begins : ∃ more, (traceText trace).toList = traceMark.tail ++ more := ⟨_, String.toList_append⟩
  obtain ⟨more, begins⟩ := begins
  have marked : '\n' :: (traceText trace).toList = traceMark ++ more := congrArg (List.cons '\n') begins
  have across (own : List Char) : locationFrom none (own ++ traceMark ++ more) =
      (locationFrom none own).or ((shown trace).findSome? locationOf) := by
    have newline : Separates '\n' := by decide
    rw [List.append_assoc, ← marked, locationFrom_separated newline, locationFrom_traceText]
  dsimp only
  rw [marked, splitTrace_marked]
  cases (splitTrace text).2 with
  | none => simp only [Option.map_none, Option.getD_none, Option.bind_some, ← begins, lineIn_traceText,
      Option.bind_none, Option.none_or]
  | some own => simp only [Option.map_some, Option.getD_some, Option.bind_some, lineIn, across]

/-- The line is that of the first location in the message or, if that tells none, of the first in the trace
that its text has and then the trace of the functions. -/
theorem line_ofRaised (v : Value) (running : List Activation) :
    (ofRaised v running).line = (lineIn (words v).1).or
      ((((words v).2.bind (locationFrom none)).or
        ((shown (callersOf v running)).findSome? locationOf)).bind lineOf) := by
  have plain (text : ByteArray) :
      let parts := splitTrace ((lossy (upToZero text)) ++ "\n" ++ traceText running).toList
      (lineIn parts.1).or (parts.2.bind lineIn) = (lineIn (splitTrace (lossy (upToZero text)).toList).1).or
        ((((splitTrace (lossy (upToZero text)).toList).2.bind (locationFrom none)).or
          ((shown running).findSome? locationOf)).bind lineOf) := by
    rw [String.toList_append, String.toList_append, List.append_assoc]
    exact line_splitTrace _ running
  cases v with
  | fault f => exact congrArg (Option.or (lineIn (words (.fault f)).1)) (lineIn_traceText f.trace)
  | _ =>
    simp only [ofRaised, parts, words, callersOf]
    exact plain _

/-- A line that an error tells in words of the script: in its message, in what its text has as a trace, or in
the name of a function that its trace is about. -/
def Tells (v : Value) (running : List Activation) (n : Nat) : Prop :=
  lineIn (words v).1 = some n ∨ (words v).2.bind lineIn = some n ∨
    ∃ a ∈ callersOf v running, ∃ w, a.name.word? = some w ∧ lineIn w.toList = some n

variable {v : Value} {running : List Activation} {n : Nat}

theorem mem_of_mem_shown {trace : List Activation} {a : Activation} (member : a ∈ shown trace) : a ∈ trace := by
  unfold shown at member
  split at member
  · exact member
  · exact (List.mem_append.mp member).elim List.mem_of_mem_take List.mem_of_mem_drop

theorem tells_or_runs (reported : (ofRaised v running).line = some n) :
    Tells v running n ∨ ∃ a ∈ callersOf v running, a.chunk = .script ∧ a.line = some n := by
  rw [line_ofRaised, Option.or_eq_some_iff] at reported
  obtain message | ⟨-, traced⟩ := reported
  · exact .inl (.inl message)
  · obtain ⟨digits, located, line⟩ := Option.bind_eq_some_iff.mp traced
    obtain own | ⟨-, function⟩ := Option.or_eq_some_iff.mp located
    · obtain ⟨text, present, first⟩ := Option.bind_eq_some_iff.mp own
      refine .inl (.inr (.inl (Option.bind_eq_some_iff.mpr ⟨text, present, ?_⟩)))
      rw [lineIn, first, Option.bind_some, line]
    · obtain ⟨a, member, shows⟩ := List.exists_of_findSome?_eq_some function
      have inside := mem_of_mem_shown member
      unfold locationOf at shows
      split at shows
      · rename_i k chunk place
        obtain rfl := Option.some.inj shows
        rw [lineOf_toString] at line
        split at line
        · exact .inr ⟨a, inside, chunk, place.trans line⟩
        · cases line
      · obtain ⟨w, named, first⟩ := Option.bind_eq_some_iff.mp shows
        refine .inl (.inr (.inr ⟨a, inside, w, named, ?_⟩))
        rw [lineIn, first, Option.bind_some, line]

/-- A message with a position in front is about that line, whatever else it says. -/
theorem told_of_position (small : n < 2 ^ 32) (message : ByteArray) :
    lineIn (words (.string ((position (some n)).toUTF8 ++ message))).1 = some n := by
  have plain : Plain (position (some n)) := fun c member => (mem_position n member).2
  have flat : '\n' ∉ (position (some n)).toList := fun member =>
    absurd (mem_position n member).1 (by decide)
  have nonzero : ∀ b ∈ (position (some n)).toUTF8.data.toList, b ≠ 0 := by
    intro b member
    rw [Text.Utf8.toUTF8_of_plain plain] at member
    obtain ⟨c, inside, rfl⟩ := List.mem_map.mp member
    have shown : 32 ≤ c.toNat ∧ c.toNat < 128 := mem_position n inside
    rw [← UInt8.toNat_inj.ne, UInt8.toNat_ofNat', Nat.mod_eq_of_lt (by omega)]
    exact Nat.ne_of_gt (by simp; omega)
  obtain ⟨more, read⟩ := Text.Utf8.lossy_append plain (upToZero message)
  obtain ⟨behind, split⟩ := splitTrace_append flat more.toList
  have shown : (words (.string ((position (some n)).toUTF8 ++ message))).1 =
      (position (some n)).toList ++ behind := by
    unfold words
    dsimp only
    rw [displayBytes, upToZero_append nonzero, read, String.toList_append, split]
  rw [shown, lineIn_position, if_pos small]

end Raised

end SlideDeck.Diagnostic
