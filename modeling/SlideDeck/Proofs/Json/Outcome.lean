import Mathlib
import SlideDeck.Proofs.Json.Normal
import SlideDeck.Proofs.Json.Reading

/-!
What is true of the values that are read from any text at all: their integers fit 64 bits, and they are
nested no deeper than brackets may still open where they stand.
-/

namespace SlideDeck.Json

def Ranged : Json → Prop
  | .int n => -(2 ^ 63) ≤ n ∧ n < 2 ^ 64
  | _ => True

namespace Reader

variable {α β σ : Type}

/-- Whatever text a reader accepts where `depth` brackets may open, what it makes of it `holds`, and after
it as many brackets may open. -/
def Yields (r : Reader α) (depth : Nat) (holds : α → Prop) : Prop :=
  ∀ text position a c, r ⟨text, position, depth⟩ = .ok (a, c) → holds a ∧ c.depth = depth

def Steady (r : Reader α) : Prop := ∀ depth, Yields r depth fun _ => True

section Sequence

variable {r : Reader α} {f : α → Reader β} {depth : Nat} {holds more : α → Prop} {yields : β → Prop}

theorem Yields.imp (reads : Yields r depth holds) (weaker : ∀ a, holds a → more a) : Yields r depth more :=
  fun text position a c ran => (reads text position a c ran).imp_left (weaker a)

theorem yields_pure {a : α} (held : holds a) : Yields (pure a) depth holds := by
  rintro text position _ _ ⟨⟩
  exact ⟨held, rfl⟩

theorem yields_fail (cause : Cause) : Yields (fail cause) depth holds := by
  rintro text position _ _ ⟨⟩

theorem failAhead_ne_ok (cause : Cause) (c : Cursor) (result : α × Cursor) :
    failAhead cause c ≠ .ok result := by
  unfold failAhead
  split <;> simp

theorem yields_failAhead (cause : Cause) : Yields (failAhead cause) depth holds :=
  fun _ _ _ _ ran => absurd ran (failAhead_ne_ok cause _ _)

theorem Yields.bind (first : Yields r depth holds) (second : ∀ a, holds a → Yields (f a) depth yields) :
    Yields (r >>= f) depth yields := by
  intro text position b c ran
  rw [bind_apply] at ran
  cases outcome : r ⟨text, position, depth⟩ with
  | error p =>
      rw [outcome] at ran
      cases ran
  | ok result =>
      obtain ⟨a, middle⟩ := result
      rw [outcome] at ran
      obtain ⟨held, same⟩ := first text position a middle outcome
      subst same
      exact second a held _ _ b c ran

theorem Steady.then (first : Steady r) (second : ∀ a, Yields (f a) depth yields) :
    Yields (r >>= f) depth yields :=
  (first depth).bind fun a _ => second a

theorem Yields.nested (inner : 1 < depth → Yields r (depth - 1) holds) :
    Yields (Reader.nested r) depth fun a => 1 < depth ∧ holds a := by
  intro text position a c ran
  unfold Reader.nested at ran
  simp only at ran
  split at ran
  · exact absurd ran (failAhead_ne_ok _ _ _)
  · rename_i room
    cases outcome : r ⟨text, position, depth - 1⟩ with
    | error p =>
        rw [outcome] at ran
        cases ran
    | ok result =>
        obtain ⟨b, after⟩ := result
        rw [outcome] at ran
        cases ran
        have deep : 1 < depth := by omega
        exact ⟨⟨deep, (inner deep text position a after outcome).1⟩, rfl⟩

end Sequence

/-! Readers of characters leave the brackets alone. -/

section Characters

variable {r : Reader α} {f : α → Reader β}

attribute [grind .] yields_pure yields_fail yields_failAhead Steady.then

@[grind .] theorem steady_pure (a : α) : Steady (pure a) := fun _ => yields_pure trivial

@[grind .] theorem steady_fail (cause : Cause) : Steady (fail cause : Reader α) := fun _ => yields_fail cause

@[grind .] theorem steady_failAhead (cause : Cause) : Steady (failAhead cause : Reader α) :=
  fun _ => yields_failAhead cause

@[grind .] theorem Steady.bind (first : Steady r) (second : ∀ a, Steady (f a)) : Steady (r >>= f) :=
  fun depth => first.then fun a => second a depth

@[grind .] theorem steady_peek : Steady peek := by
  rintro depth text position _ _ ⟨⟩
  exact ⟨trivial, rfl⟩

@[grind .] theorem steady_get : Steady get := by
  rintro depth text position _ _ ⟨⟩
  exact ⟨trivial, rfl⟩

@[grind .] theorem steady_takeWhile (p : Char → Bool) : Steady (takeWhile p) := by
  rintro depth text position _ _ ⟨⟩
  exact ⟨trivial, rfl⟩

@[grind .] theorem steady_next : Steady next := by
  intro depth text position _ _ ran
  unfold next at ran
  split at ran <;> cases ran <;> exact ⟨trivial, rfl⟩

@[grind .] theorem steady_skip : Steady skip := by
  unfold skip
  grind

@[grind .] theorem steady_peekToken : Steady peekToken := by
  unfold peekToken
  grind

@[grind .] theorem steady_word (ws : List Char) : Steady (word ws) := by
  induction ws with
  | nil => exact steady_pure ()
  | cons w ws ih =>
      unfold word
      grind

@[grind .] theorem steady_hexEscape : Steady hexEscape := by
  intro depth text position _ _ ran
  unfold hexEscape at ran
  split at ran
  · split at ran <;> cases ran
    exact ⟨trivial, rfl⟩
  · simp only at ran
    split at ran <;> cases ran

@[grind .] theorem steady_unicodeEscape : Steady unicodeEscape := by
  unfold unicodeEscape
  refine steady_hexEscape.bind fun n => ?_
  extract_lets want
  have wanted (w : Char) : Steady (want w) := steady_peek.bind fun c => by grind
  split
  · exact steady_fail _
  · split
    · exact steady_pure _
    · exact (wanted _).bind fun _ => (wanted _).bind fun _ => steady_hexEscape.bind fun m => by grind

@[grind .] theorem steady_stringBody (checked : Bool) (fuel : Nat) (acc : List Char) :
    Steady (stringBody checked fuel acc) := by
  induction fuel generalizing acc with
  | zero => exact steady_fail _
  | succ fuel ih =>
      unfold stringBody
      refine steady_next.bind fun c => ?_
      split <;> grind

@[grind .] theorem steady_string : Steady string :=
  fun depth text => steady_stringBody true (text.length + 1) [] depth text

@[grind .] theorem steady_skipString : Steady skipString :=
  fun depth text => steady_stringBody false (text.length + 1) [] depth text

@[grind .] theorem steady_moreItems (first : Bool) : Steady (moreItems first) := by
  unfold moreItems
  grind

@[grind .] theorem steady_endList : Steady endList := by
  unfold endList
  grind

@[grind .] theorem steady_nextKey {key : Reader String} (steady : Steady key) (first : Bool) :
    Steady (nextKey key first) := by
  unfold nextKey
  refine steady_peekToken.bind fun c => ?_
  split <;> grind

@[grind .] theorem steady_colon : Steady colon := by
  unfold colon
  grind

end Characters

section Scalars

variable {depth : Nat}

def Flat (j : Json) : Prop := j.Throughout Ranged ∧ j.depth = 0

theorem flat_float (x : Float) : Flat (.float x) := ⟨trivial, rfl⟩

theorem flat_integer (negative : Bool) {n : Nat} (small : n < 2 ^ 64) : Flat (number.integer negative n) := by
  unfold number.integer
  split
  · exact ⟨⟨by omega, by omega⟩, rfl⟩
  · split
    · exact ⟨⟨by omega, by omega⟩, rfl⟩
    · exact flat_float _

theorem flat_zero (negative : Bool) : Flat (number.zero negative 0) := by
  unfold number.zero
  split
  · exact flat_float _
  · exact ⟨⟨by omega, by omega⟩, rfl⟩

theorem yields_scaled (negative : Bool) (significand : Nat) (exponent : Int) :
    Yields (scaled negative significand exponent) depth Flat := by
  have finished {x : Float} : Yields (pure (Json.float x)) depth Flat := yields_pure (flat_float x)
  unfold scaled
  grind

theorem yields_exponentPart (negative : Bool) (significand : Nat) (base : Int) :
    Yields (exponentPart negative significand base) depth Flat := by
  unfold exponentPart
  refine steady_skip.then fun _ => steady_peek.then fun c => ?_
  extract_lets digits
  have rest (down : Bool) : Yields (digits down) depth Flat := by
    refine steady_next.then fun c => ?_
    split
    · exact yields_fail _
    · split
      · exact yields_fail _
      · refine (steady_takeWhile _).then fun ds => ?_
        extract_lets e
        split
        · split
          · exact yields_fail _
          · exact yields_pure (flat_float _)
        · exact yields_scaled _ _ _
  split
  · exact steady_skip.then fun _ => rest true
  · exact steady_skip.then fun _ => rest false
  · exact rest false

theorem yields_numberTail (negative : Bool) (significand : Nat) (base : Int) {integer : Reader Json}
    (whole : Yields integer depth Flat) : Yields (numberTail negative significand base integer) depth Flat := by
  unfold numberTail
  refine steady_peek.then fun c => ?_
  split
  · refine steady_skip.then fun _ => (steady_takeWhile _).then fun digits => ?_
    split
    · grind
    · refine steady_peek.then fun d => ?_
      split
      · exact yields_exponentPart _ _ _
      · exact yields_scaled _ _ _
  · split
    · exact yields_exponentPart _ _ _
    · exact whole

theorem absorb_lt {significand : Nat} (small : significand < 2 ^ 64) (ds : List Char) :
    (absorb significand ds).1 < 2 ^ 64 := by
  induction ds generalizing significand with
  | nil => exact small
  | cons d ds ih =>
      rw [absorb]
      split
      · rename_i fits
        exact ih fits
      · exact small

theorem yields_number (negative : Bool) : Yields (number negative) depth Flat := by
  have zero : Yields (numberTail negative 0 0 (pure (number.zero negative 0))) depth Flat :=
    yields_numberTail _ _ _ (yields_pure (flat_zero negative))
  unfold number
  refine steady_next.then fun c => ?_
  split
  · exact yields_fail _
  · refine steady_peek.then fun d => ?_
    split
    · split
      · exact yields_failAhead _
      · exact zero
    · exact zero
  · split
    · exact yields_fail _
    · refine (steady_takeWhile _).then fun digits => ?_
      rename_i d _ _
      have first : Decimal.digitValue d < 2 ^ 64 := by
        have bound : d.toNat < 2 ^ 32 := d.val.toNat_lt
        unfold Decimal.digitValue
        omega
      have small := absorb_lt first digits
      dsimp only
      split
      · exact yields_numberTail _ _ _ (yields_pure (flat_integer negative small))
      · exact yields_numberTail _ _ _ (yields_scaled _ _ _)

theorem yields_scalar (c : Char) : Yields (scalar c) depth Flat := by
  unfold scalar
  split_ifs
  · exact steady_skip.then fun _ => (steady_word _).then fun _ => yields_pure ⟨trivial, rfl⟩
  · exact steady_skip.then fun _ => (steady_word _).then fun _ => yields_pure ⟨trivial, rfl⟩
  · exact steady_skip.then fun _ => (steady_word _).then fun _ => yields_pure ⟨trivial, rfl⟩
  · exact steady_skip.then fun _ => yields_number true
  · exact yields_number false
  · exact steady_skip.then fun _ => steady_string.then fun s => yields_pure ⟨trivial, rfl⟩
  · exact yields_failAhead _

end Scalars

/-! Lists and objects, one more bracket deep. -/

section Members

variable {item : Reader α} {holds : α → Prop} {depth : Nat}

theorem yields_items (each : Yields item depth holds) (fuel : Nat) (first : Bool) {acc : List α}
    (all : ∀ a ∈ acc, holds a) : Yields (items item fuel first acc) depth fun as => ∀ a ∈ as, holds a := by
  induction fuel generalizing first acc with
  | zero => exact yields_pure (by simpa using all)
  | succ fuel ih =>
      unfold items
      refine (steady_moreItems first).then fun more => ?_
      split
      · exact each.bind fun a held => ih false (List.forall_mem_cons.mpr ⟨held, all⟩)
      · exact yields_pure (by simpa using all)

theorem yields_listOf (each : 1 < depth → Yields item (depth - 1) holds) :
    Yields (listOf item) depth fun as => 1 < depth ∧ ∀ a ∈ as, holds a := by
  unfold listOf
  refine Yields.bind (Yields.nested fun deep => steady_skip.then fun _ => steady_get.then fun c => ?_)
    fun as all => steady_endList.then fun _ => yields_pure all
  exact yields_items (each deep) (c.rest.length + 1) true (List.forall_mem_nil _)

theorem yields_fields {key : Reader String} (steady : Steady key) {field : σ → String → Reader σ}
    {holds : σ → Prop} (each : ∀ s name, holds s → Yields (field s name) depth holds) (fuel : Nat) (first : Bool)
    {s : σ} (held : holds s) : Yields (fields key field fuel first s) depth holds := by
  induction fuel generalizing first s with
  | zero => exact yields_pure held
  | succ fuel ih =>
      unfold fields
      refine (steady_nextKey steady first).then fun name => ?_
      split
      · exact yields_pure held
      · rename_i name
        exact (each s name held).bind fun t kept => ih false kept

theorem yields_objectWith {field : σ → String → Reader σ} {holds : σ → Prop} {start : σ} (held : holds start)
    (each : 1 < depth → ∀ s name, holds s → Yields (field s name) (depth - 1) holds) :
    Yields (objectWith start field) depth fun s => 1 < depth ∧ holds s := by
  have inside : Yields (nested (do skip; let c ← get; fields string field (c.rest.length + 1) true start))
      depth fun s => 1 < depth ∧ holds s :=
    Yields.nested fun deep => steady_skip.then fun _ => steady_get.then fun c =>
      yields_fields steady_string (each deep) (c.rest.length + 1) true held
  unfold objectWith
  refine inside.bind fun s kept => steady_peekToken.then fun c => ?_
  split <;> grind

end Members

section Values

variable {depth : Nat}

def Within (depth : Nat) (j : Json) : Prop := j.Throughout Ranged ∧ j.depth < max depth 1

theorem Flat.within {j : Json} (flat : Flat j) (depth : Nat) : Within depth j := by
  have zero := flat.2
  exact ⟨flat.1, by omega⟩

theorem within_array (deep : 1 < depth) {items : List Json} (all : ∀ j ∈ items, Within (depth - 1) j) :
    Within depth (.array items) := by
  refine ⟨⟨trivial, throughoutItems_iff.mpr fun j inside => (all j inside).1⟩, ?_⟩
  have shallow : depthItems items ≤ depth - 2 := depthItems_le_iff.mpr fun j inside => by
    have less := (all j inside).2
    omega
  rw [Json.depth]
  omega

theorem within_object (deep : 1 < depth) {fields : List (String × Json)}
    (all : ∀ f ∈ fields, Within (depth - 1) f.2) : Within depth (.object fields) := by
  refine ⟨⟨trivial, throughoutFields_iff.mpr fun f inside => (all f inside).1⟩, ?_⟩
  have shallow : depthFields fields ≤ depth - 2 := depthFields_le_iff.mpr fun f inside => by
    have less := (all f inside).2
    omega
  rw [Json.depth]
  omega

theorem yields_value (fuel : Nat) : Yields (value fuel) depth (Within depth) := by
  induction fuel generalizing depth with
  | zero => exact yields_failAhead _
  | succ fuel ih =>
      unfold value
      refine steady_peekToken.then fun c => ?_
      split
      · exact yields_failAhead _
      · refine (yields_listOf fun _ => ih).bind fun items all => yields_pure ?_
        exact within_array all.1 all.2
      · have member (acc : List (String × Json)) (key : String) (all : ∀ f ∈ acc, Within (depth - 1) f.2) :
            Yields (do colon; return (key, ← value fuel) :: acc) (depth - 1)
              fun fs => ∀ f ∈ fs, Within (depth - 1) f.2 :=
          steady_colon.then fun _ => ih.bind fun j held =>
            yields_pure (List.forall_mem_cons.mpr ⟨held, all⟩)
        refine (yields_objectWith (List.forall_mem_nil _) fun _ => member).bind fun fs all => yields_pure ?_
        exact within_object all.1 fun f inside => all.2 f (List.mem_reverse.mp inside)
      · exact (yields_scalar _).imp fun j flat => flat.within depth

theorem yields_anyValue : Yields anyValue depth (Within depth) := yields_value 128

end Values

/-! What is passed by leaves the brackets alone, too. -/

section Ignored

theorem steady_skipNumber : Steady skipNumber := by
  unfold skipNumber
  refine steady_next.bind fun c => ?_
  -- What follows each part of a number, from the last part on.
  extract_lets power mark fraction
  have powers (u : Unit) : Steady (power u) := steady_next.bind fun c => by grind
  have marks (u : Unit) : Steady (mark u) := by
    refine steady_peek.bind fun c => ?_
    clear_value power
    grind
  have fractions (u : Unit) : Steady (fraction u) := by
    refine steady_peek.bind fun c => ?_
    clear_value mark
    grind
  clear_value fraction
  split <;> grind

theorem steady_scalar (c : Char) : Steady (scalar c) := fun _ => (yields_scalar c).imp fun _ _ => trivial

theorem steady_skipScalar (c : Char) : Steady (skipScalar c) := by
  unfold skipScalar
  grind [steady_skipNumber, steady_scalar]

theorem steady_ignored (fuel : Nat) : Steady (ignored fuel) := by
  induction fuel with
  | zero => exact steady_failAhead _
  | succ fuel ih =>
      unfold ignored
      refine steady_peekToken.bind fun c => ?_
      split
      · exact steady_failAhead _
      · refine steady_skip.bind fun _ => steady_get.bind fun c => ?_
        have each (depth : Nat) := yields_items (ih depth) (c.rest.length + 1) true (List.forall_mem_nil _)
        exact Steady.bind (fun depth => (each depth).imp fun _ _ => trivial) fun _ => steady_endList
      · refine steady_skip.bind fun _ => steady_get.bind fun c => ?_
        have each (_ : Unit) (_ : String) : Steady (do colon; ignored fuel) := steady_colon.bind fun _ => ih
        exact Steady.bind (fun depth => yields_fields steady_skipString (fun s name _ => each s name depth)
          (c.rest.length + 1) true trivial) fun _ => steady_skip
      · exact steady_skipScalar _

theorem steady_ignoredValue : Steady ignoredValue :=
  fun depth text => steady_ignored (text.length + 1) depth text

end Ignored

theorem steady_finish : Steady finish := by
  unfold finish
  grind

theorem holds_of_run {r : Reader α} {holds : α → Prop} (yields : Yields r 128 holds) {text : List Char} {a : α}
    (ran : run r text = .ok a) : holds a := by
  have whole : Yields (do let a ← r; finish; return a) 128 holds :=
    yields.bind fun a held => steady_finish.then fun _ => yields_pure held
  unfold run at ran
  split at ran
  · rename_i b c outcome
    cases ran
    exact (whole text ⟨1, 0⟩ a c outcome).1
  · cases ran

end Reader

end SlideDeck.Json
