import Mathlib
import SlideDeck.Script.Code

/-!
Lines that are mentioned while a script is read and while it runs. A computation keeps to some lines if
neither its result nor its error, nor the state that it leaves, mentions any other.
-/

namespace SlideDeck.Script

/-- How many line breaks a text has. A carriage return and a newline next to each other are one. -/
def breaks : List Char → Nat
  | [] => 0
  | '\r' :: '\n' :: rest | '\n' :: '\r' :: rest => breaks rest + 1
  | c :: rest => if c = '\n' ∨ c = '\r' then breaks rest + 1 else breaks rest

/-- Values of the type may mention lines: `Within` says that they are all among the given ones. -/
class Located (α : Type) where
  Within (lines : Nat → Prop) : α → Prop

open Located (Within)

instance (priority := low) unlocated {α : Type} : Located α := ⟨fun _ _ => True⟩

variable {α β ε σ : Type} {L : Nat → Prop}

class Lineless (α : Type) [Located α] : Prop where
  within (L : Nat → Prop) (a : α) : Within L a

instance : @Lineless α unlocated := ⟨fun _ _ => trivial⟩

@[simp, grind norm]
theorem within_lineless [Located α] [Lineless α] (a : α) : Within L a := Lineless.within L a

section Containers

variable [Located α] [Located β] [Located ε]

instance : Located (Option α) := ⟨fun L o => ∀ a, o = some a → Within L a⟩

instance : Located (List α) := ⟨fun L xs => ∀ a ∈ xs, Within L a⟩

instance : Located (Array α) := ⟨fun L xs => ∀ a ∈ xs, Within L a⟩

instance : Located (α × β) := ⟨fun L p => Within L p.1 ∧ Within L p.2⟩

instance : Located (Except ε α) := ⟨fun L x => match x with
  | .ok a => Within L a
  | .error e => Within L e⟩

instance [Lineless α] : Lineless (Option α) := ⟨fun _ _ a _ => within_lineless a⟩

instance [Lineless α] : Lineless (List α) := ⟨fun _ _ a _ => within_lineless a⟩

instance [Lineless α] : Lineless (Array α) := ⟨fun _ _ a _ => within_lineless a⟩

instance [Lineless α] [Lineless β] : Lineless (α × β) := ⟨fun _ p => ⟨within_lineless p.1, within_lineless p.2⟩⟩

instance [Lineless ε] [Lineless α] : Lineless (Except ε α) := ⟨fun _ x => match x with
  | .ok a => within_lineless a
  | .error e => within_lineless e⟩

variable {a : α} {b : β} {e : ε} {xs ys : List α} {as bs : Array α} {i j : Nat}

@[simp, grind .] theorem within_none : Within L (none : Option α) := nofun

@[simp, grind =] theorem within_some : Within L (some a) ↔ Within L a :=
  ⟨fun within => within a rfl, fun within _ same => Option.some.inj same ▸ within⟩

@[simp, grind =] theorem within_ok : Within L (.ok a : Except ε α) ↔ Within L a := Iff.rfl

@[simp, grind =] theorem within_error : Within L (.error e : Except ε α) ↔ Within L e := Iff.rfl

@[grind =] theorem within_pair {p : α × β} : Within L p ↔ Within L p.1 ∧ Within L p.2 := Iff.rfl

@[simp, grind norm] theorem within_nil : Within L ([] : List α) := nofun

@[simp, grind norm] theorem within_cons : Within L (a :: xs) ↔ Within L a ∧ Within L xs := List.forall_mem_cons

@[simp, grind norm] theorem within_append : Within L (xs ++ ys) ↔ Within L xs ∧ Within L ys :=
  List.forall_mem_append

@[simp, grind norm] theorem within_toArray : Within L xs.toArray ↔ Within L xs := by
  simp [Within]

theorem within_array_nil : Within L (#[] : Array α) := within_toArray.mpr within_nil

@[simp, grind norm] theorem within_toList : Within L as.toList ↔ Within L as := by
  simp [Within]

@[simp, grind norm] theorem within_push : Within L (as.push a) ↔ Within L as ∧ Within L a := by
  simp [Within, or_imp, forall_and]

@[simp, grind norm] theorem within_array_append : Within L (as ++ bs) ↔ Within L as ∧ Within L bs := by
  simp [Within, or_imp, forall_and]

@[grind ←] theorem within_extract (within : Within L as) : Within L (as.extract i j) := by
  intro a member
  obtain ⟨k, inside, rfl⟩ := Array.mem_extract_iff_getElem.mp member
  exact within _ (Array.getElem_mem _)

@[grind ←] theorem within_getElem? (within : Within L as) : Within L as[i]? :=
  fun _ found => within _ (Array.mem_of_getElem? found)

theorem within_getD (within : Within L as) (default : Within L a) : Within L (as.getD i a) := by
  rw [Array.getD_eq_getD_getElem?]
  cases found : as[i]? with
  | none => exact default
  | some b => exact within b (Array.mem_of_getElem? found)

@[grind ←] theorem within_option_getD {o : Option α} (within : Within L o) (default : Within L a) :
    Within L (o.getD a) := by
  cases o with
  | none => exact default
  | some b => exact within b rfl

@[grind ←] theorem within_option_map {f : α → β} {o : Option α} (keeps : ∀ a, Within L a → Within L (f a))
    (within : Within L o) : Within L (o.map f) := by
  cases o with
  | none => exact within_none
  | some a => exact within_some.mpr (keeps a (within a rfl))

@[grind ←] theorem within_back? (within : Within L as) : Within L as.back? :=
  fun _ found => within _ (Array.mem_of_back? found)

@[grind ←] theorem within_replicate (within : Within L a) (n : Nat) : Within L (Array.replicate n a) := by
  intro b member
  rw [Array.eq_of_mem_replicate member]
  exact within

@[grind ←] theorem within_setIfInBounds (within : Within L as) (new : Within L a) (i : Nat) :
    Within L (as.setIfInBounds i a) := by
  intro b member
  obtain member | rfl := Array.mem_or_eq_of_mem_setIfInBounds member
  · exact within b member
  · exact new

@[grind ←] theorem within_modify {f : α → α} (within : Within L as) (keeps : ∀ a, Within L a → Within L (f a)) :
    Within L (as.modify i f) := by
  intro b member
  obtain ⟨k, found⟩ := Array.mem_iff_getElem?.mp member
  rw [Array.getElem?_modify] at found
  split at found
  · obtain ⟨a, old, rfl⟩ := Option.map_eq_some_iff.mp found
    exact keeps a (within a (Array.mem_of_getElem? old))
  · exact within b (Array.mem_of_getElem? found)

@[grind ←] theorem within_array_map {f : α → β} (keeps : ∀ a, Within L a → Within L (f a)) (within : Within L as) :
    Within L (as.map f) := by
  intro b member
  obtain ⟨a, inside, rfl⟩ := Array.mem_map.mp member
  exact keeps a (within a inside)

@[grind ←] theorem within_drop (within : Within L xs) : Within L (xs.drop i) :=
  fun a member => within a (List.mem_of_mem_drop member)

theorem within_except_bind {x : Except ε α} {f : α → Except ε β} (first : Within L x)
    (next : ∀ a, Within L a → Within L (f a)) : Within L (x >>= f) := by
  cases x with
  | ok a => exact next a first
  | error e => exact first

omit [Located α] in
theorem within_mapM {f : α → Except ε β} (each : ∀ a ∈ xs, Within L (f a)) : Within L (xs.mapM f) := by
  induction xs with
  | nil => exact within_ok.mpr within_nil
  | cons a rest ih =>
      rw [List.mapM_cons]
      refine within_except_bind (each a List.mem_cons_self) fun b new => ?_
      refine within_except_bind (ih fun c member => each c (List.mem_cons_of_mem a member)) fun bs kept => ?_
      exact within_ok.mpr (within_cons.mpr ⟨new, kept⟩)

end Containers

section Values

-- in `within_value` and `within_instr` the condition comes to `True` under its binder
attribute [grind norm] implies_true

instance : Located Activation := ⟨fun L a => a.chunk = .script → ∀ n, a.line = some n → L n⟩

/-- Of all values only the errors of the host mention lines. -/
instance : Located Value := ⟨fun L v => match v with
  | .fault f => Within L f.trace
  | _ => True⟩

variable {v : Value}

@[grind .] theorem within_activation {a : Activation} (other : a.chunk ≠ .script) : Within L a :=
  fun script => absurd script other

@[simp, grind =] theorem within_fault {f : Fault} : Within L (Value.fault f) ↔ Within L f.trace := Iff.rfl

@[grind ←] theorem within_value (other : ∀ f, v ≠ .fault f) : Within L v := by
  cases v with
  | fault f => exact absurd rfl (other f)
  | _ => trivial

@[simp, grind .] theorem within_ofString (s : String) : Within L (Value.ofString s) := trivial

theorem within_readNumeral (negative : Bool) (cs : List Char) : Within L (readNumeral negative cs) := by
  have hexadecimal : ∀ rest, Within L (readHexadecimal negative rest) := by
    intro rest
    unfold readHexadecimal
    grind
  have decimal : Within L (readDecimal negative cs) := by
    unfold readDecimal
    grind
  unfold readNumeral
  grind

theorem within_toNumber? (v : Value) : Within L v.toNumber? := by
  unfold Value.toNumber? numberOfBytes
  have read := @within_readNumeral L
  grind

instance : Located Instr := ⟨fun L i => match i with
  | .push v => Within L v
  | _ => True⟩

instance : Located Code := ⟨fun L c => Within L c.instrs ∧ ∀ n ∈ c.lines, L n⟩

@[grind =] theorem within_push_instr : Within L (Instr.push v) ↔ Within L v := Iff.rfl

@[grind ←] theorem within_instr {i : Instr} (other : ∀ v, i ≠ .push v) : Within L i := by
  cases i with
  | push v => exact absurd rfl (other v)
  | _ => trivial

end Values

section Keeps

variable [Located ε] [Located σ] [Located α] [Located β]

/-- From a state within some lines a computation comes to nothing outside of them. -/
def Keeps (L : Nat → Prop) (x : EStateM ε σ α) : Prop := ∀ s, Within L s → match x s with
  | .ok a s' => Within L a ∧ Within L s'
  | .error e s' => Within L e ∧ Within L s'

variable {x : EStateM ε σ α} {f : α → EStateM ε σ β}

@[grind ←] theorem keeps_pure {a : α} (within : Within L a) : Keeps L (pure a : EStateM ε σ α) :=
  fun _ before => ⟨within, before⟩

@[grind ←] theorem keeps_throw {e : ε} (within : Within L e) : Keeps L (throw e : EStateM ε σ α) :=
  fun _ before => ⟨within, before⟩

@[grind .] theorem keeps_get : Keeps L (get : EStateM ε σ σ) := fun _ before => ⟨before, before⟩

@[grind ←] theorem keeps_set {s : σ} (within : Within L s) : Keeps L (set s : EStateM ε σ PUnit) :=
  fun _ _ => ⟨trivial, within⟩

@[grind ←] theorem keeps_modify {change : σ → σ} (keeps : ∀ s, Within L s → Within L (change s)) :
    Keeps L (modify change : EStateM ε σ PUnit) := fun s before => ⟨trivial, keeps s before⟩

@[grind ←] theorem Keeps.bind (first : Keeps L x) (next : ∀ a, Within L a → Keeps L (f a)) :
    Keeps L (x >>= f) := by
  intro s before
  have ended := first s before
  change match EStateM.bind x f s with
    | .ok a s' => Within L a ∧ Within L s'
    | .error e s' => Within L e ∧ Within L s'
  unfold EStateM.bind
  cases shape : x s with
  | ok a s' =>
      rw [shape] at ended
      exact next a ended.1 s' ended.2
  | error e s' =>
      rw [shape] at ended
      exact ended

theorem Keeps.seq {y : EStateM ε σ β} (first : Keeps L x) (next : Keeps L y) : Keeps L (x >>= fun _ => y) :=
  first.bind fun _ _ => next

theorem Keeps.ite {c : Prop} [Decidable c] {y : EStateM ε σ α} (first : Keeps L x) (second : Keeps L y) :
    Keeps L (if c then x else y) := by
  split
  · exact first
  · exact second

omit [Located α] in
theorem Keeps.mapM {xs : List α} (each : ∀ a ∈ xs, Keeps L (f a)) : Keeps L (xs.mapM f) := by
  induction xs with
  | nil => exact keeps_pure within_nil
  | cons a rest ih =>
      rw [List.mapM_cons]
      refine (each a List.mem_cons_self).bind fun b new => ?_
      refine (ih fun c member => each c (List.mem_cons_of_mem a member)).bind fun bs kept => ?_
      exact keeps_pure (within_cons.mpr ⟨new, kept⟩)

omit [Located α] in
theorem Keeps.forIn {step : α → PUnit → EStateM ε σ (ForInStep PUnit)} {xs : List α}
    (each : ∀ a ∈ xs, Keeps L (step a ⟨⟩)) : Keeps L (forIn xs ⟨⟩ step) := by
  induction xs with
  | nil => exact keeps_pure trivial
  | cons a rest ih =>
      rw [List.forIn_cons]
      refine (each a List.mem_cons_self).bind fun next _ => ?_
      cases next with
      | done b => exact keeps_pure trivial
      | yield b => exact ih fun c member => each c (List.mem_cons_of_mem a member)

end Keeps

end SlideDeck.Script
