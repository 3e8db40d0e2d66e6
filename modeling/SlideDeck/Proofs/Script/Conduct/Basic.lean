import SlideDeck.Proofs.Script.Change
import SlideDeck.Proofs.Script.Lines.Machine

/-!
How the computations of a machine conduct themselves: all that they do is a sequence of changes, and from
a machine within some lines they come to nothing outside of them. Each computation has one lemma, put
together from those of its parts.
-/

namespace SlideDeck.Script.Exec

open Located (Within)

variable {α β : Type} {L : Nat → Prop}

def Ends [Located α] (L : Nat → Prop) (m : Machine) : EStateM.Result Failure Machine α → Prop
  | .ok a m' => m.Reaches m' ∧ Within L a ∧ Within L m'
  | .error e m' => m.Reaches m' ∧ Within L e ∧ Within L m'

/-- From every machine within some lines a computation makes only changes, and keeps to the lines. -/
def Abides [Located α] (L : Nat → Prop) (x : Exec α) : Prop := ∀ m : Machine, Within L m → Ends L m (x m)

section Closure

variable [Located α] [Located β] {x y : Exec α} {f : α → Exec β} {m m' : Machine}

theorem Ends.behind {r : EStateM.Result Failure Machine α} (ends : Ends L m' r) (reached : m.Reaches m') :
    Ends L m r := by
  cases r with
  | ok a m'' => exact ⟨reached.trans ends.1, ends.2⟩
  | error e m'' => exact ⟨reached.trans ends.1, ends.2⟩

@[grind ←]
theorem abides_pure {a : α} (within : Within L a) : Abides L (pure a : Exec α) :=
  fun _ before => ⟨.refl, within, before⟩

@[grind ←]
theorem abides_throw {e : Failure} (within : Within L e) : Abides L (throw e : Exec α) :=
  fun _ before => ⟨.refl, within, before⟩

@[grind .]
theorem abides_get : Abides L (get : Exec Machine) := fun _ before => ⟨.refl, before, before⟩

@[grind ←]
theorem abides_modify {change : Machine → Machine} (same : ∀ m : Machine, m.SameStore (change m))
    (keeps : ∀ m, Within L m → Within L (change m)) : Abides L (modify change : Exec Unit) :=
  fun m before => ⟨.single (.work (same m)), trivial, keeps m before⟩

@[grind ←]
theorem abides_modifyGet {change : Machine → α × Machine} (same : ∀ m : Machine, m.SameStore (change m).2)
    (keeps : ∀ m, Within L m → Within L (change m)) : Abides L (modifyGet change : Exec α) :=
  fun m before => ⟨.single (.work (same m)), keeps m before⟩

theorem abides_onHeap {change : Heap → α × Heap} (reaches : ∀ h : Heap, h.Reaches (change h).2)
    (keeps : ∀ h, Within L h → Within L (change h)) : Abides L (onHeap change) := by
  intro m before
  have changed := keeps m.heap before.2.2.2
  exact ⟨.ofHeap m (reaches m.heap), changed.1, before.1, before.2.1, before.2.2.1, changed.2⟩

@[grind ←]
theorem Abides.bind (first : Abides L x) (next : ∀ a, Within L a → Abides L (f a)) : Abides L (x >>= f) := by
  intro m before
  have ended := first m before
  change Ends L m (EStateM.bind x f m)
  unfold EStateM.bind
  cases shape : x m with
  | ok a m' =>
      rw [shape] at ended
      exact (next a ended.2.1 m' ended.2.2).behind ended.1
  | error e m' =>
      rw [shape] at ended
      exact ended

@[grind ←]
theorem Abides.tryCatch {handle : Failure → Exec α} (body : Abides L x)
    (caught : ∀ e, Within L e → Abides L (handle e)) : Abides L (tryCatch x handle) := by
  intro m before
  have ended := body m before
  change Ends L m ((EStateM.tryCatch x handle : Exec α) m)
  unfold EStateM.tryCatch
  cases shape : x m with
  | ok a m' =>
      rw [shape] at ended
      exact ended
  | error e m' =>
      rw [shape] at ended
      exact (caught e ended.2.1 m' ended.2.2).behind ended.1

theorem Abides.ite {c : Prop} [Decidable c] (first : Abides L x) (second : Abides L y) :
    Abides L (if c then x else y) := by
  split
  · exact first
  · exact second

omit [Located α] in
theorem Abides.mapM {xs : List α} (each : ∀ a ∈ xs, Abides L (f a)) : Abides L (xs.mapM f) := by
  induction xs with
  | nil => exact abides_pure within_nil
  | cons a rest ih =>
      rw [List.mapM_cons]
      refine (each a List.mem_cons_self).bind fun b new => ?_
      refine (ih fun c member => each c (List.mem_cons_of_mem a member)).bind fun bs kept => ?_
      exact abides_pure (within_cons.mpr ⟨new, kept⟩)

omit [Located α] in
theorem Abides.arrayMapM {as : Array α} (each : ∀ a ∈ as, Abides L (f a)) : Abides L (as.mapM f) := by
  rw [Array.mapM_eq_mapM_toList, map_eq_pure_bind]
  refine (Abides.mapM fun a member => each a (Array.mem_toList_iff.mp member)).bind fun bs kept => ?_
  exact abides_pure (within_toArray.mpr kept)

omit [Located α] in
theorem Abides.foldlM {step : β → α → Exec β} {xs : List α}
    (each : ∀ b a, Within L b → a ∈ xs → Abides L (step b a)) {b : β} (start : Within L b) :
    Abides L (xs.foldlM step b) := by
  induction xs generalizing b with
  | nil => exact abides_pure start
  | cons a rest ih =>
      rw [List.foldlM_cons]
      refine (each b a start List.mem_cons_self).bind fun c new => ?_
      exact ih (fun b a' kept member => each b a' kept (List.mem_cons_of_mem a member)) new

omit [Located α] in
theorem Abides.forIn {step : α → PUnit → Exec (ForInStep PUnit)} {xs : List α}
    (each : ∀ a ∈ xs, Abides L (step a ⟨⟩)) : Abides L (forIn xs ⟨⟩ step) := by
  induction xs with
  | nil => exact abides_pure trivial
  | cons a rest ih =>
      rw [List.forIn_cons]
      refine (each a List.mem_cons_self).bind fun next _ => ?_
      cases next with
      | done b => exact abides_pure trivial
      | yield b => exact ih fun c member => each c (List.mem_cons_of_mem a member)

end Closure

end SlideDeck.Script.Exec
