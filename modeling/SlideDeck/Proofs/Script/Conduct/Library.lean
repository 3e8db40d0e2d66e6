import SlideDeck.Proofs.Script.Conduct.Operation
import SlideDeck.Script.Invoke

/-!
Host functions change machines as scripts do and keep to the lines of the machine and of their arguments,
given that calls back do.
-/

namespace SlideDeck.Script.Invocation

open Located (Within)
open Exec (Abides Abides.bind Abides.tryCatch Abides.mapM Abides.foldlM abides_pure abides_throw abides_get
  abides_modify abides_modifyGet)

variable {α : Type} {L : Nat → Prop} (c : Invocation)

section Arguments

variable [Located α] (i : Nat)

@[grind .]
theorem abides_libraryError (message : String) : Abides L (fail c message : Exec α) := by
  unfold fail
  grind

@[grind .]
theorem abides_argFail (message : String) : Abides L (argFail c i message : Exec α) := by
  unfold argFail
  grind

@[grind .]
theorem abides_typeFail (expected : String) : Abides L (typeFail c i expected : Exec α) := by
  unfold typeFail
  grind

variable {c} (args : Within L c.args)

include args in
@[grind ←]
theorem within_arg : Within L (c.arg i) := within_getD args trivial

include args in
@[grind ←]
theorem within_arg? : Within L (c.arg? i) := within_getElem? args

include args in
@[grind ←]
theorem abides_any : Abides L (any c i) := by
  have given := within_arg? i args
  unfold any
  grind

variable (c)

@[grind .]
theorem abides_bytes : Abides L (bytes c i) := by
  unfold bytes
  grind

@[grind .]
theorem abides_tableArg : Abides L (tableArg c i) := by
  unfold tableArg
  grind

@[grind .]
theorem abides_int : Abides L (int c i) := by
  unfold int
  grind

@[grind .]
theorem abides_intOr (default : Int64) : Abides L (intOr c i default) := by
  unfold intOr
  grind

@[grind .]
theorem abides_bytesOr (default : ByteArray) : Abides L (bytesOr c i default) := by
  unfold bytesOr
  grind

@[grind .]
theorem abides_float : Abides L (float c i) := by
  unfold float
  grind

@[grind .]
theorem abides_number : Abides L (number c i) := by
  have read := @within_toNumber? L (c.arg i)
  unfold number
  grind

end Arguments

section Base

theorem within_numberOfBytes (bytes : ByteArray) : Within L (numberOfBytes bytes) :=
  within_toNumber? (.string bytes)

@[grind .]
theorem abides_tonumber (args : Within L c.args) : Abides L (tonumber c) := by
  have read := @within_numberOfBytes L
  unfold tonumber
  grind

@[grind .]
theorem abides_fieldOf (object key : Value) : Abides L (fieldOf object key) := by
  unfold fieldOf
  grind

@[grind ←]
theorem abides_next (args : Within L c.args) : Abides L (next c) := by
  unfold next
  refine (abides_tableArg c 0).bind fun a _ => ?_
  extract_lets goes
  have goes' : ∀ last, Abides L (goes last) := by
    intro last
    refine (Exec.abides_table a).bind fun t table => ?_
    have met := within_next table last
    grind
  split
  · rename_i k found
    exact (abides_pure (within_some.mpr (within_toValue (within_arg 1 args) found))).bind fun last _ => goes' last
  · exact (abides_pure within_none).bind fun last _ => goes' last
  · exact (Exec.abides_raiseText _).bind fun last _ => goes' last

@[grind ←]
theorem abides_raiseAt {v : Value} (within : Within L v) (level : Int) : Abides L (raiseAt v level) := by
  unfold raiseAt
  grind

end Base

section Text

variable (s : ByteArray) (i e : Nat) (captures : Array Pattern.Capture)

@[grind .]
theorem within_captureValue (n : Nat) : Within L (Pattern.captureValue s i e captures n) := by
  unfold Pattern.captureValue
  grind

@[grind .]
theorem within_captureValues (whole : Bool) : Within L (Pattern.captureValues s i e captures whole) := by
  refine within_except_bind (within_mapM fun n _ => within_captureValue s i e captures n) fun values kept => ?_
  exact within_ok.mpr (within_toArray.mpr kept)

@[grind .]
theorem abides_stringChar : Abides L (stringChar c) := by
  unfold stringChar
  refine Abides.bind (Abides.mapM fun i _ => ?_) fun bytes _ => ?_
  · grind
  · grind

@[grind ←]
theorem abides_lift [Located α] {x : Except Pattern.Problem α} (within : Within L x) : Abides L (lift c x) := by
  unfold lift
  grind

@[grind .]
theorem abides_lookFor (finds : Bool) : Abides L (lookFor c finds) := by
  unfold lookFor
  refine (abides_bytes c 0).bind fun s _ => (abides_bytes c 1).bind fun p _ => ?_
  refine (abides_intOr c 2 1).bind fun start _ => ?_
  grind

@[grind .]
theorem abides_stringGmatch : Abides L (stringGmatch c) := by
  unfold stringGmatch
  grind

@[grind .]
theorem abides_stringGmatchStep (id : Nat) : Abides L (stringGmatchStep c id) := by
  have moved : ∀ next : MatchIteration,
      Abides L (modify fun m => { m with iterations := m.iterations.set! id next } : Exec Unit) :=
    fun next => abides_modify (fun _ => ⟨rfl, rfl, rfl, rfl, rfl, le_rfl⟩) fun _ before => before
  unfold stringGmatchStep
  refine abides_get.bind fun m _ => ?_
  split
  · grind
  · refine (abides_lift c (within_lineless _)).bind fun found _ => ?_
    split
    · refine (moved _).bind fun _ _ => ?_
      grind
    · exact (moved _).bind fun _ _ => abides_lift c (within_captureValues ..)

section Substitution

variable {call : Caller} (calls : ∀ f args, Within L f → Within L args → Abides L (call f args)) (p : ByteArray)

@[grind .]
theorem abides_captureBytes (n : Nat) : Abides L (captureBytes c s i e captures n) := by
  unfold captureBytes
  grind

@[grind .]
theorem abides_expand (bytes : List UInt8) (acc : ByteArray) : Abides L (expand c s i e captures bytes acc) := by
  fun_induction expand c s i e captures bytes acc <;> grind

include calls

variable {c} (args : Within L c.args)

include args

@[grind ←]
theorem abides_replacement : Abides L (replacement c call s i e captures) := by
  unfold replacement
  grind

@[grind ←]
theorem abides_replaceFrom (left fuel : Nat) (last : Option Nat) (acc : ByteArray) (count : Nat) :
    Abides L (replaceFrom c call s p left fuel i last acc count) := by
  induction fuel generalizing i last acc count with
  | zero => exact abides_pure (within_lineless _)
  | succ fuel ih =>
      unfold replaceFrom
      grind

@[grind ←]
theorem abides_stringGsub : Abides L (stringGsub c call) := by
  unfold stringGsub
  refine (abides_bytes c 0).bind fun s _ => (abides_bytes c 1).bind fun p _ => ?_
  have replaced := abides_replaceFrom s 0 calls p args
  split <;> grind

end Substitution

section Formatting

variable (spec : Format.Spec) (i : Nat)

@[grind .]
theorem abides_invalidConversion [Located α] : Abides L (invalidConversion c spec : Exec α) := by
  unfold invalidConversion
  grind

@[grind .]
theorem abides_literalBytes : Abides L (literalBytes c i) := by
  unfold literalBytes
  grind

@[grind .]
theorem abides_convert : Abides L (convert c spec i) := by
  unfold convert
  grind

@[grind .]
theorem abides_fillFormat (fuel : Nat) (cs : List Char) (acc : ByteArray) :
    Abides L (fillFormat c fuel cs i acc) := by
  fun_induction fillFormat c fuel cs i acc <;> grind

end Formatting

end Text

section Lists

variable (a : Nat) (i j : Int64) {v w : Value}

@[grind .]
theorem abides_item : Abides L (item a i) := by
  unfold item
  grind

@[grind ←]
theorem abides_setItem (within : Within L v) : Abides L (setItem a i v) := by
  unfold setItem
  grind [Key.toValue]

@[grind .]
theorem abides_lengthOf : Abides L (lengthOf a) := by
  unfold lengthOf
  grind

@[grind .]
theorem abides_copyUp (source target count : Nat) : Abides L (copyUp source target count i j) := by
  induction count generalizing i j with
  | zero => exact abides_pure trivial
  | succ count ih =>
      unfold copyUp
      grind

@[grind .]
theorem abides_copyDown (source target count : Nat) : Abides L (copyDown source target count i j) := by
  induction count generalizing i j with
  | zero => exact abides_pure trivial
  | succ count ih =>
      unfold copyDown
      grind

@[grind .]
theorem abides_joinItems (separator : ByteArray) (count : Nat) (acc : ByteArray) :
    Abides L (joinItems c a separator count i acc) := by
  induction count generalizing i acc with
  | zero => exact abides_pure trivial
  | succ count ih =>
      unfold joinItems
      grind

@[grind .]
theorem abides_tableConcat : Abides L (tableConcat c) := by
  unfold tableConcat
  grind

@[grind .]
theorem abides_tableRemove : Abides L (tableRemove c) := by
  unfold tableRemove
  refine (abides_tableArg c 0).bind fun a _ => (abides_lengthOf a).bind fun size _ => ?_
  refine (abides_intOr c 1 size).bind fun position _ => ?_
  extract_lets removal
  have removes : ∀ u, Abides L (removal u) := by
    intro u
    refine (abides_item a position).bind fun removed found => ?_
    refine (abides_copyUp _ _ a a _).bind fun _ _ => ?_
    refine (abides_setItem a _ (within_value (v := .nil) nofun)).bind fun _ _ => ?_
    exact abides_pure (within_toArray.mpr (within_cons.mpr ⟨found, within_nil⟩))
  split
  · exact (abides_argFail c 1 _).bind fun u _ => removes u
  · exact removes ()

@[grind .]
theorem abides_tableMove : Abides L (tableMove c) := by
  unfold tableMove
  refine (abides_int c 1).bind fun first _ => (abides_int c 2).bind fun last _ => ?_
  refine (abides_int c 3).bind fun target _ => (abides_tableArg c 0).bind fun source _ => ?_
  dsimp only
  split
  · refine (abides_pure (within_lineless source)).bind fun goal _ => ?_
    grind
  · refine (abides_tableArg c 4).bind fun goal _ => ?_
    grind

@[grind .]
theorem abides_unpackItems (object : Value) (count : Nat) {acc : Array Value} (within : Within L acc) :
    Abides L (unpackItems object count i acc) := by
  induction count generalizing i acc with
  | zero => exact abides_pure within
  | succ count ih =>
      unfold unpackItems
      grind

@[grind .]
theorem abides_sizeOf (v : Value) : Abides L (sizeOf v) := by
  unfold sizeOf
  grind

@[grind .]
theorem abides_naturalOrder (v w : Value) : Abides L (naturalOrder v w) := by
  unfold naturalOrder
  grind

variable {c} in
@[grind ←]
theorem abides_tableInsert (args : Within L c.args) : Abides L (tableInsert c) := by
  unfold tableInsert
  refine (abides_tableArg c 0).bind fun a _ => (abides_lengthOf a).bind fun size _ => ?_
  grind

@[grind ←]
theorem abides_tablePack (args : Within L c.args) : Abides L (tablePack c) := by
  have list := within_ofList (within_toList.mpr args)
  have coherent : ((Table.ofList c.args.toList).setString "n" (.int (Int64.ofNat c.args.size))).Coherent :=
    (Table.coherent_ofList c.args.toList).set _ _
  have stored : ((Table.ofList c.args.toList).setString "n" (.int (Int64.ofNat c.args.size))).Stored :=
    (Table.stored_ofList c.args.toList).set (Key.stored_string _) _
  unfold tablePack
  grind

@[grind ←]
theorem abides_orderOf {call : Caller} (calls : ∀ f args, Within L f → Within L args → Abides L (call f args))
    {f : Value} (function : Within L f) (left : Within L v) (right : Within L w) :
    Abides L (orderOf f call v w) := by
  unfold orderOf
  grind

@[grind .]
theorem abides_invalidOrder [Located α] : Abides L (invalidOrder c : Exec α) := by
  unfold invalidOrder
  grind

section Sorting

variable {lt : Precedes} (order : ∀ v w, Within L v → Within L w → Abides L (lt v w)) (fuel : Nat)
variable {pivot : Value} (within : Within L pivot)

include order

section Scans

include within

@[grind ←]
theorem abides_scanUp (last : Int64) : Abides L (scanUp c a lt pivot last fuel i) := by
  induction fuel generalizing i with
  | zero => exact abides_invalidOrder c
  | succ fuel ih =>
      unfold scanUp
      grind

@[grind ←]
theorem abides_scanDown (first : Int64) : Abides L (scanDown c a lt pivot first fuel i) := by
  induction fuel generalizing i with
  | zero => exact abides_invalidOrder c
  | succ fuel ih =>
      unfold scanDown
      grind

@[grind ←]
theorem abides_splitRange (last : Int64) : Abides L (splitRange c a lt pivot last fuel i j) := by
  induction fuel generalizing i j with
  | zero => exact abides_invalidOrder c
  | succ fuel ih =>
      unfold splitRange
      grind

end Scans

@[grind ←]
theorem abides_exchange : Abides L (exchange a lt i j) := by
  unfold exchange
  grind

@[grind ←]
theorem abides_sortRange (low high : Int64) : Abides L (sortRange c a lt fuel low high) := by
  induction fuel generalizing low high with
  | zero => exact abides_pure trivial
  | succ fuel ih =>
      unfold sortRange
      dsimp only
      split
      · exact abides_pure trivial
      · refine (abides_exchange a low high order).bind fun _ _ => ?_
        split
        · exact abides_pure trivial
        · refine (abides_item a _).bind fun m middle => (abides_item a low).bind fun l least => ?_
          refine (order m l middle least).bind fun less _ => ?_
          split
          · refine (abides_setItem a _ least).bind fun _ _ => (abides_setItem a low middle).bind fun _ _ => ?_
            grind
          · refine (abides_exchange a _ high order).bind fun _ _ => ?_
            grind

end Sorting

@[grind ←]
theorem abides_tableSort {call : Caller} (calls : ∀ f args, Within L f → Within L args → Abides L (call f args)) :
    Abides L (tableSort c call) := by
  unfold tableSort
  refine (abides_tableArg c 0).bind fun a _ => (abides_lengthOf a).bind fun size _ => ?_
  have natural := fun fuel => abides_sortRange (L := L) c a (fun v w _ _ => abides_naturalOrder v w) fuel
  have given := fun f fuel => abides_sortRange c a
    (fun v w (left : Within L v) right => abides_orderOf calls (f := .function f) trivial left right) fuel
  grind

end Lists

section Codepoints

@[grind .]
theorem abides_utf8Char : Abides L (utf8Char c) := by
  unfold utf8Char
  refine Abides.bind (Abides.mapM fun i _ => ?_) fun bytes _ => ?_
  · grind
  · grind

@[grind ←]
theorem abides_codesFrom (s : ByteArray) (last fuel i : Nat) {acc : Array Value} (within : Within L acc) :
    Abides L (codesFrom c s last fuel i acc) := by
  induction fuel generalizing i acc with
  | zero => exact abides_pure within
  | succ fuel ih =>
      unfold codesFrom
      grind

@[grind .]
theorem abides_utf8Len : Abides L (utf8Len c) := by
  unfold utf8Len
  refine (abides_bytes c 0).bind fun s _ => (abides_intOr c 1 1).bind fun first _ => ?_
  refine (abides_intOr c 2 (-1)).bind fun last _ => ?_
  grind

end Codepoints

section Numbers

@[grind .]
theorem within_whole (x : Float) : Within L (whole x) := by
  unfold whole
  grind

variable {c} in
@[grind ←]
theorem abides_mathExtreme (args : Within L c.args) {better : Value → Value → Exec Bool}
    (order : ∀ v w, Abides L (better v w)) : Abides L (mathExtreme c better) := by
  unfold mathExtreme
  split
  · exact abides_argFail c 0 _
  · rename_i first rest given
    have values := within_toList.mpr args
    rw [given] at values
    refine Abides.bind (Abides.foldlM (fun best v kept member => ?_) (within_cons.mp values).1) fun best kept => ?_
    · have new : Within L v := (within_cons.mp values).2 v member
      grind
    · grind

@[grind .]
theorem abides_nextWord : Abides L nextWord :=
  abides_modifyGet (fun _ => ⟨rfl, rfl, rfl, rfl, rfl, le_rfl⟩) fun _ before => ⟨trivial, before⟩

@[grind .]
theorem abides_randomWithin (word : UInt64) (low high : Int64) : Abides L (randomWithin c word low high) := by
  unfold randomWithin
  extract_lets draw
  have draws : ∀ u, Abides L (draw u) := by
    intro u
    refine Abides.bind (abides_modifyGet (fun _ => ⟨rfl, rfl, rfl, rfl, rfl, le_rfl⟩)
      fun _ before => ⟨trivial, before⟩) fun offset _ => ?_
    grind
  split
  · exact (abides_argFail _ _ _).bind fun u _ => draws u
  · exact draws ()

@[grind .]
theorem abides_mathRandomseed : Abides L (mathRandomseed c) := by
  have seeded : ∀ m n : UInt64,
      Abides L (modify fun s => { s with random := .ofSeed m n } : Exec Unit) := fun m n =>
    abides_modify (fun _ => ⟨rfl, rfl, rfl, rfl, rfl, le_rfl⟩) fun _ before => before
  unfold mathRandomseed
  dsimp only
  split
  · refine abides_nextWord.bind fun m _ => abides_nextWord.bind fun n _ => ?_
    refine (abides_pure (within_lineless _)).bind fun s _ => (seeded _ _).bind fun _ _ => ?_
    grind
  · refine (abides_number c 0).bind fun v _ => ?_
    split
    all_goals
      refine (abides_pure (within_lineless _)).bind fun m _ => (abides_intOr c 1 0).bind fun n _ => ?_
      refine (abides_pure (within_lineless _)).bind fun s _ => (seeded _ _).bind fun _ _ => ?_
      grind

end Numbers

section Host

@[grind .]
theorem abides_hostArg [Located α] [Lineless α] (i : Nat) (convert : Value → Except Mismatch α) :
    Abides L (hostArg c i convert) := by
  unfold hostArg
  grind

@[grind .]
theorem abides_hostArg? [Located α] [Lineless α] (i : Nat) (convert : Value → Except Mismatch α) :
    Abides L (hostArg? c i convert) := by
  unfold hostArg?
  grind

@[grind .]
theorem abides_missingField [Located α] (name : String) (strict : Bool) :
    Abides L (missingField name strict : Exec α) := by
  unfold missingField
  grind

@[grind .]
theorem abides_dateField (a : Nat) (name : String) (default : Option Int64) : Abides L (dateField a name default) := by
  unfold dateField
  grind

@[grind .]
theorem abides_osTime : Abides L (osTime c) := by
  unfold osTime
  refine (abides_hostArg? c 0 asTable).bind fun table _ => ?_
  split
  · grind
  · rename_i a _
    refine (abides_dateField a _ _).bind fun year _ => ?_
    refine (abides_dateField a _ _).bind fun month _ => ?_
    refine (abides_dateField a _ _).bind fun day _ => ?_
    refine (abides_dateField a _ _).bind fun hour _ => ?_
    grind

@[grind .]
theorem coherent_dateTable (m : Calendar.Moment) : (dateTable m).Coherent := by
  unfold dateTable
  repeat refine Table.Coherent.set ?_ _ _
  exact Table.coherent_empty

theorem stored_dateTable (m : Calendar.Moment) : (dateTable m).Stored := by
  unfold dateTable
  repeat refine Table.Stored.set ?_ (Key.stored_string _) _
  exact Table.stored_of_empty rfl

@[grind .]
theorem within_dateTable (m : Calendar.Moment) : Within L (dateTable m) := by
  have field : ∀ (t : Table) (name : String) (n : Int), Within L t →
      Within L (t.setString name (.int (Int64.ofInt n))) := by
    intro t name n table
    exact within_setString (v := .int (Int64.ofInt n)) table trivial name
  refine within_setString (v := .bool false) ?_ trivial "isdst"
  iterate 8 refine field _ _ _ ?_
  exact within_empty

@[grind .]
theorem abides_osDate : Abides L (osDate c) := by
  unfold osDate
  refine (abides_hostArg? c 0 asText).bind fun format _ => ?_
  refine (abides_hostArg? c 1 asInteger).bind fun seconds _ => abides_get.bind fun m _ => ?_
  dsimp only
  split
  · exact Exec.abides_hostFail _ _
  -- the zone goes by the first character of the format
  · split
    all_goals
      split
      · refine (Exec.abides_newTable (coherent_dateTable _) (stored_dateTable _)
          (within_dateTable _)).bind fun a _ => ?_
        grind
      · grind

@[grind .]
theorem abides_write (w : ConsoleWriter) : Abides L (write c w) := by
  have written : ∀ texts,
      Abides L (modify fun m => { m with console := m.console.push (w.line texts) } : Exec Unit) :=
    fun texts m before => ⟨.single (.write m w texts), trivial, before⟩
  unfold write
  refine abides_get.bind fun m _ => ?_
  split
  · exact abides_pure within_array_nil
  · split
    · exact Exec.abides_hostFail _ _
    · exact (written _).bind fun _ _ => abides_pure within_array_nil

end Host

section Calls

variable {c} (args : Within L c.args) {call : Caller}
variable (calls : ∀ f args, Within L f → Within L args → Abides L (call f args))

include args calls

/-- What a failed call has stored and written stays. Going back to the function that made the call brings its
own lines back. -/
@[grind ←]
theorem abides_pcall : Abides L (pcall c call) := by
  have recovered : ∀ before : Machine, Within L before → Abides L (modify before.recover : Exec Unit) :=
    fun before own => abides_modify (fun _ => ⟨rfl, rfl, rfl, rfl, rfl, le_rfl⟩) fun after kept =>
      ⟨own.1, own.2.1, within_array_nil, kept.2.2.2⟩
  unfold pcall
  split
  · exact Exec.abides_raiseText _
  · rename_i f rest given
    have function : Within L f := by
      have values := within_toList.mpr args
      rw [given] at values
      exact (within_cons.mp values).1
    refine abides_get.bind fun before own => ?_
    refine Abides.bind (Abides.tryCatch ?_ fun failure kept => ?_) fun ended kept => ?_
    · exact (calls _ _ function (within_extract args)).bind fun results kept => abides_pure (by grind)
    · cases failure with
      | raised v => exact (recovered before own).bind fun _ _ => abides_pure (by grind)
      | outOfMemory => exact (recovered before own).bind fun _ _ => abides_pure (by grind)
      | unfinished => exact (abides_throw kept).bind fun r _ => abides_pure (by grind)
    · cases ended with
      | _ => exact abides_pure (by grind)

theorem abides_answer : Abides L (answer c call) := by
  unfold answer
  split
  -- the functions without a lemma of their own are a few steps one after the other
  all_goals
    grind [tostring, tonumber, type, pairs, ipairs, ipairsStep, select, error, assert, stringSub, stringByte,
      stringLen, stringLower, stringUpper, stringReverse, stringRep, stringFormat, tableUnpack, utf8Codepoint,
      utf8Offset, utf8Codes, utf8CodesStep, mathRound, mathApply, mathAbs, mathAtan, mathFmod, mathLog,
      mathMax, mathMin, mathModf, mathTointeger, mathType, mathUlt, mathRandom, jsonEncode, jsonDecode,
      osClock]

end Calls

end SlideDeck.Script.Invocation
