import SlideDeck.Proofs.Script.Conduct.Library
import SlideDeck.Script.Run

/-!
Runs change machines step by step, no step does more than the changes allow, and none goes outside of the
lines of the program and of the machine that the run begins with.
-/

namespace SlideDeck.Script.Exec

open Located (Within)

variable {α : Type} {L : Nat → Prop} {v : Value} (i : Nat)

section Frames

variable {f : Frame}

theorem within_top (within : Within L f) : Within L f.top := within_option_getD (within_back? within.2.2.1) trivial

theorem within_below (within : Within L f) (depth : Nat) : Within L (f.below depth) :=
  within_getD within.2.2.1 trivial

theorem within_topmost (within : Within L f) (count : Nat) : Within L (f.topmost count) :=
  within_extract within.2.2.1

@[grind ←]
theorem within_dropped (within : Within L f) (count : Nat) : Within L (f.drop count) := by
  refine ⟨within.1, within.2.1, ?_, within.2.2.2⟩
  unfold Frame.drop
  rw [Array.shrink_eq_take]
  exact within_extract within.2.2.1

theorem within_slot {i : Nat} (within : Within L f) (found : f.slots.getD i (.plain .nil) = .plain v) :
    Within L v := by
  have slot := within_getD (i := i) (a := Slot.plain .nil) within.2.1 trivial
  rw [found] at slot
  exact slot

theorem within_setSlot {s : Slot} (within : Within L f) (new : Within L s) : Within L (f.setSlot i s) :=
  ⟨within.1, within_setIfInBounds within.2.1 new i, within.2.2⟩

theorem within_closureAt {h : Heap} (within : Within L h) (a : Nat) : Within L (h.closures.getD a default) :=
  within_getD within.2.1 ⟨within_array_nil, nofun⟩

theorem within_start {h : Heap} {args : Array Value} (heap : Within L h) (given : Within L args) (a : Nat)
    (isTail : Bool) : Within L (Frame.start h a args isTail) := by
  refine ⟨within_closureAt heap a, ?_, within_array_nil, ?_⟩
  · have plain : ∀ v : Value, Within L v → Within L (Slot.plain v) := fun _ value => value
    exact within_array_append.mpr
      ⟨within_array_map plain (within_extract given), within_replicate (a := Slot.plain .nil) trivial _⟩
  · unfold Frame.start
    dsimp only
    split
    · exact within_extract given
    · exact within_array_nil

@[grind ←]
theorem abides_modifyFrame {change : Frame → Frame} (keeps : ∀ f, Within L f → Within L (change f)) :
    Abides L (modifyFrame change) :=
  abides_modify (fun _ => ⟨rfl, rfl, rfl, rfl, rfl, le_rfl⟩) fun m before => ⟨keeps m.current before.1, before.2⟩

@[grind ←]
theorem abides_push (value : Within L v) : Abides L (push v) :=
  abides_modifyFrame fun _ frame => ⟨frame.1, frame.2.1, within_push.mpr ⟨frame.2.2.1, value⟩, frame.2.2.2⟩

@[grind .]
theorem abides_top : Abides L top := abides_get.bind fun _ before => abides_pure (within_top before.1)

@[grind .]
theorem abides_pop : Abides L pop :=
  abides_modifyGet (fun _ => ⟨rfl, rfl, rfl, rfl, rfl, le_rfl⟩) fun _ before =>
    ⟨within_top before.1, within_dropped before.1 1, before.2⟩

/-- The instruction that is passed is one of the running function. Only here steps are counted. -/
@[grind .]
theorem abides_fetch : Abides L fetch :=
  abides_modifyGet (fun m => ⟨rfl, rfl, rfl, rfl, rfl, Nat.le_succ m.steps⟩) fun _ before =>
    ⟨within_getElem? before.1.1.1, before.1, before.2⟩

@[grind .]
theorem abides_jump (target : Nat) : Abides L (jump target) := abides_modifyFrame fun _ frame => frame

@[grind .]
theorem abides_slotValue : Abides L (slotValue i) := by
  unfold slotValue
  refine abides_get.bind fun m before => ?_
  split
  · rename_i v found
    exact abides_pure (within_slot before.1 found)
  · rename_i c found
    exact abides_pure (within_heap_cell before.2.2.2 c)

@[grind ←]
theorem abides_declare (value : Within L v) : Abides L (declare i v) :=
  abides_modifyFrame fun _ frame => within_setSlot i frame value

@[grind ←]
theorem abides_setSlot (value : Within L v) : Abides L (setSlot i v) := by
  have declared := abides_declare i value
  unfold setSlot
  refine abides_get.bind fun m before => ?_
  split
  · exact declared
  · exact abides_setCell _ value

@[grind .]
theorem abides_share : Abides L (share i) := by
  unfold share
  refine abides_get.bind fun m before => ?_
  split
  · exact abides_pure trivial
  · rename_i v found
    refine (abides_newCell (within_slot before.1 found)).bind fun c _ => ?_
    have shared : Abides L (modifyFrame (·.setSlot i (.shared c))) :=
      abides_modifyFrame fun f frame => within_setSlot i frame within_shared
    exact shared.bind fun _ _ => abides_pure trivial

@[grind .]
theorem abides_outerCell : Abides L (outerCell i) := abides_get.bind fun _ _ => abides_pure trivial

@[grind .]
theorem abides_capture (c : Capture) : Abides L (capture c) := by
  unfold capture
  grind

@[grind ←]
theorem abides_makeClosure {p : Program} (program : Within L p) (function : Nat) :
    Abides L (makeClosure p function) := by
  have code : Within L (p.getD function {}) := within_getD program ⟨within_array_nil, nofun⟩
  unfold makeClosure
  refine Abides.bind (Abides.arrayMapM fun c _ => abides_capture c) fun cells _ => ?_
  refine (abides_newClosure (c := ⟨p.getD function {}, cells⟩) code).bind fun a _ => ?_
  grind

end Frames

section Calls

variable {values : Array Value} (wanted : Option Nat) (callee : Option Origin)

@[grind .]
theorem abides_reserve (f : Frame) : Abides L (reserve f) := by
  have deeper : Abides L (modify fun m => { m with depth := m.depth + f.size } : Exec Unit) :=
    abides_modify (fun _ => ⟨rfl, rfl, rfl, rfl, rfl, le_rfl⟩) fun _ before => before
  unfold reserve
  grind

@[grind .]
theorem abides_release (f : Frame) : Abides L (release f) :=
  abides_modify (fun _ => ⟨rfl, rfl, rfl, rfl, rfl, le_rfl⟩) fun _ before => before

theorem within_padTo (within : Within L values) (count : Nat) : Within L (padTo count values) :=
  within_array_append.mpr ⟨within_extract within, within_replicate (a := Value.nil) trivial _⟩

@[grind ←]
theorem abides_deliver (within : Within L values) : Abides L (deliver wanted values) := by
  have opened : Abides L (modify fun m => { m with opened := values } : Exec Unit) :=
    abides_modify (fun _ => ⟨rfl, rfl, rfl, rfl, rfl, le_rfl⟩) fun _ before =>
      ⟨before.1, before.2.1, within, before.2.2.2⟩
  have first : Within L (values.getD 0 .nil) := within_getD within trivial
  have padded : ∀ n, Abides L (modifyFrame (·.pushAll (padTo n values))) := fun n =>
    abides_modifyFrame fun f frame =>
      ⟨frame.1, frame.2.1, within_array_append.mpr ⟨frame.2.2.1, within_padTo within n⟩, frame.2.2.2⟩
  unfold deliver
  split
  · exact opened
  · exact abides_pure trivial
  · exact abides_push first
  · exact padded _

@[grind .]
theorem abides_takeValues (count : Nat) (isOpen : Bool) : Abides L (takeValues count isOpen) := by
  refine abides_modifyGet (fun _ => ⟨rfl, rfl, rfl, rfl, rfl, le_rfl⟩) fun m before => ?_
  have taken := within_topmost before.1 count
  have left := within_dropped before.1 count
  cases isOpen with
  | false => exact ⟨taken, left, before.2⟩
  | true =>
      exact ⟨within_array_append.mpr ⟨taken, before.2.2.1⟩, left, before.2.1, within_array_nil,
        before.2.2.2⟩

@[grind .]
theorem abides_callFail [Located α] (v : Value) : Abides L (callFail v callee : Exec α) := abides_typeError _ v callee

@[grind ←]
theorem abides_inHost [Located α] {x : Exec α} (inner : Abides L x) (h : Host) : Abides L (inHost h x) := by
  have entered : Abides L (modify fun m => { m with hosts := h :: m.hosts } : Exec Unit) :=
    abides_modify (fun _ => ⟨rfl, rfl, rfl, rfl, rfl, le_rfl⟩) fun _ before => before
  have left : Abides L (modify fun m => { m with hosts := m.hosts.tail } : Exec Unit) :=
    abides_modify (fun _ => ⟨rfl, rfl, rfl, rfl, rfl, le_rfl⟩) fun _ before => before
  unfold inHost
  grind

variable {call : Invocation.Caller} {f : Value}
variable (calls : ∀ f args, Within L f → Within L args → Abides L (call f args))
variable (function : Within L f) (given : Within L values)

include calls function given

@[grind ←]
theorem abides_callFrom : Abides L (callFrom call f values wanted callee) := by
  unfold callFrom
  split
  · rename_i a
    refine abides_get.bind fun m before => (abides_reserve _).bind fun _ _ => ?_
    refine abides_modify (fun _ => ⟨rfl, rfl, rfl, rfl, rfl, le_rfl⟩) fun m' before' => ?_
    have frame := within_start before.2.2.2 given a false
    exact ⟨frame, within_cons.mpr ⟨before'.1, before'.2.1⟩, before'.2.2⟩
  · exact (abides_inHost (Invocation.abides_answer given calls) _).bind fun results kept =>
      abides_deliver wanted kept
  · exact abides_callFail callee f

@[grind ←]
theorem abides_tailCallFrom : Abides L (tailCallFrom call f values callee) := by
  have fallback := abides_callFrom none callee calls function given
  unfold tailCallFrom
  split
  · rename_i a
    refine abides_get.bind fun m before => abides_get.bind fun m' _ => ?_
    refine (abides_release _).bind fun _ _ => (abides_reserve _).bind fun _ _ => abides_modifyFrame fun _ _ => ?_
    exact within_start before.2.2.2 given a true
  · exact fallback

omit calls function in
@[grind ←]
theorem abides_returnFrom : Abides L (returnFrom values) := by
  unfold returnFrom
  refine abides_get.bind fun m _ => (abides_release _).bind fun _ _ => abides_get.bind fun m before => ?_
  split
  · rename_i f wanted rest waiting
    have levels := before.2.1
    rw [waiting] at levels
    have left : Abides L (modify fun m => { m with current := f, below := rest } : Exec Unit) :=
      abides_modify (fun _ => ⟨rfl, rfl, rfl, rfl, rfl, le_rfl⟩) fun _ kept =>
        ⟨(within_cons.mp levels).1, (within_cons.mp levels).2, kept.2.2⟩
    exact left.bind fun _ _ => (abides_deliver wanted given).bind fun _ _ => abides_pure within_none
  · exact abides_pure (within_some.mpr given)

end Calls

section Loops

variable (slot exit : Nat)

@[grind .]
theorem abides_forProblem [Located α] (what : String) (v : Value) : Abides L (forProblem what v : Exec α) := by
  unfold forProblem
  grind

@[grind .]
theorem abides_forFloat (what : String) (v : Value) : Abides L (forFloat what v) := by
  unfold forFloat
  grind

@[grind .]
theorem abides_forLimit (step : Int64) (v : Value) : Abides L (forLimit step v) := by
  unfold forLimit
  grind

theorem abides_declareLoop {first rounds step : Value} (start : Within L first) (count : Within L rounds)
    (width : Within L step) : Abides L (do
      declare slot first
      declare (slot + 1) rounds
      declare (slot + 2) step
      declare (slot + 3) first) :=
  (abides_declare _ start).bind fun _ _ => (abides_declare _ count).bind fun _ _ =>
    (abides_declare _ width).bind fun _ _ => abides_declare _ start

@[grind .]
theorem abides_forPrepareInt (start step : Int64) (v : Value) :
    Abides L (forPrepareInt slot exit start step v) := by
  unfold forPrepareInt
  extract_lets prepare
  have prepares : ∀ u, Abides L (prepare u) := by
    intro u
    refine (abides_forLimit step v).bind fun limit _ => ?_
    cases limit with
    | none => exact abides_jump exit
    | some stop => exact Abides.ite (abides_jump exit) (abides_declareLoop slot trivial trivial trivial)
  exact Abides.ite ((abides_fail _).bind fun u _ => prepares u) (prepares ())

@[grind .]
theorem abides_forPrepareFloat (start limit step : Float) :
    Abides L (forPrepareFloat slot exit start limit step) := by
  unfold forPrepareFloat
  extract_lets prepare
  have prepares : ∀ u, Abides L (prepare u) := fun _ =>
    Abides.ite (abides_jump exit) (abides_declareLoop slot trivial trivial trivial)
  exact Abides.ite ((abides_fail _).bind fun u _ => prepares u) (prepares ())

@[grind .]
theorem abides_forPrepare : Abides L (forPrepare slot exit) := by
  unfold forPrepare
  grind

@[grind .]
theorem abides_forLoop (body : Nat) : Abides L (forLoop slot body) := by
  unfold forLoop
  refine (abides_slotValue slot).bind fun value _ => ?_
  refine (abides_slotValue _).bind fun rounds _ => (abides_slotValue _).bind fun step _ => ?_
  split
  · refine Abides.ite ?_ (abides_pure trivial)
    refine Abides.bind (abides_declare _ trivial) fun _ _ => Abides.bind (abides_declare _ trivial) fun _ _ => ?_
    exact Abides.bind (abides_declare _ trivial) fun _ _ => abides_jump body
  · refine Abides.ite ?_ (abides_pure trivial)
    refine Abides.bind (abides_declare _ trivial) fun _ _ => ?_
    exact Abides.bind (abides_declare _ trivial) fun _ _ => abides_jump body
  · exact abides_pure trivial

@[grind .]
theorem abides_iterTest (count : Nat) : Abides L (iterTest slot count exit) := by
  unfold iterTest
  refine (abides_takeValues count false).bind fun vs taken => ?_
  have value : ∀ i, Within L (vs.getD i .nil) := fun i => within_getD taken trivial
  split
  · exact abides_jump exit
  · refine (abides_declare _ (value 0)).bind fun _ _ => ?_
    refine Abides.bind (Abides.forIn fun i _ => ?_) fun _ _ => abides_pure trivial
    exact (abides_declare _ (value i)).bind fun _ _ => abides_pure trivial

end Loops

section Steps

variable {p : Program} (program : Within L p) {call : Invocation.Caller}
variable (calls : ∀ f args, Within L f → Within L args → Abides L (call f args))

include program calls

theorem abides_step : Abides L (step p call) := by
  unfold step
  refine abides_fetch.bind fun fetched own => ?_
  cases fetched with
  | none => exact abides_returnFrom (within_array_nil)
  | some i =>
      cases i with
      | push v =>
          have value : Within L v := within_push_instr.mp (within_some.mp own)
          exact Abides.bind (abides_push value) fun _ _ => abides_pure within_none
      | assign depth object =>
          refine abides_pop.bind fun v value => abides_get.bind fun m before => ?_
          have key := within_below before.1 depth
          exact (abides_setIndex _ key value).bind fun _ _ => abides_pure within_none
      | compare op =>
          refine abides_pop.bind fun b _ => abides_pop.bind fun a _ => (abides_compare op a b).bind fun r _ => ?_
          exact Abides.bind (abides_push trivial) fun _ _ => abides_pure within_none
      | concat origins =>
          refine (abides_takeValues _ _).bind fun vs taken => ?_
          have operands : Within L (vs.toList.zip origins).reverse := fun e member =>
            ⟨taken e.1 (Array.mem_toList_iff.mp (List.of_mem_zip (List.mem_reverse.mp member)).1), within_lineless _⟩
          refine (abides_concat operands).bind fun joined value => ?_
          exact (abides_push value).bind fun _ _ => abides_pure within_none
      | newTable items keys =>
          refine (abides_newTable (Table.coherent_of_empty rfl rfl) (Table.stored_of_empty rfl)
            (within_sized items keys)).bind fun a _ => ?_
          exact Abides.bind (abides_push trivial) fun _ _ => abides_pure within_none
      | addItems count first isOpen =>
          refine (abides_takeValues count isOpen).bind fun vs taken => abides_top.bind fun list _ => ?_
          cases list with
          | table a =>
              refine Abides.bind (Abides.forIn fun e member => ?_) fun _ _ => abides_pure within_none
              have item : Within L e.1 := taken e.1 (Array.mem_toList_iff.mp (List.fst_mem_of_mem_zipIdx member))
              exact Abides.bind (abides_setEntry a (Key.stored_int _) trivial item) fun _ _ => abides_pure trivial
          | _ => exact abides_pure within_none
      | _ => grind

end Steps

section Runs

@[grind ←]
theorem abides_startFrom (a : Nat) {args : Array Value} (given : Within L args) : Abides L (startFrom a args) := by
  unfold startFrom
  refine abides_get.bind fun m own => (abides_reserve _).bind fun _ _ => ?_
  refine abides_modify (fun _ => ⟨rfl, rfl, rfl, rfl, rfl, le_rfl⟩) fun m before => ?_
  refine ⟨within_start own.2.2.2 given a false, ?_, within_array_nil, before.2.2.2⟩
  have waiting : Within L (m.hosts.map Level.host) := by
    intro l member
    obtain ⟨h, -, rfl⟩ := List.mem_map.mp member
    trivial
  exact within_append.mpr ⟨waiting, within_cons.mpr ⟨before.1, before.2.1⟩⟩

@[grind .]
theorem abides_backTo (hosts : List Host) : Abides L (backTo hosts) := by
  refine abides_modify (fun m => ?_) fun m before => ?_
  · split <;> exact ⟨rfl, rfl, rfl, rfl, rfl, le_rfl⟩
  have levels := within_drop (i := hosts.length) before.2.1
  split
  · rename_i f wanted rest left
    rw [left] at levels
    exact ⟨(within_cons.mp levels).1, (within_cons.mp levels).2, before.2.2⟩
  · exact ⟨before.1, levels, before.2.2⟩

variable {p : Program}

mutual

/-- By induction on the fuel of a run: one step, and then the rest of it. -/
theorem abides_run (program : Within L p) : ∀ fuel, Abides L (run p fuel)
  | 0 => abides_throw trivial
  | fuel + 1 => by
      unfold run
      refine Abides.bind (abides_step program (abides_enter program fuel)) fun results kept => ?_
      cases results with
      | none => exact abides_run program fuel
      | some results => exact abides_pure (within_some.mp kept)

theorem abides_enter (program : Within L p) : ∀ fuel f args, Within L f → Within L args →
    Abides L (enter p fuel f args)
  | 0, _, _, _, _ => abides_throw trivial
  | fuel + 1, f, args, function, given => by
      have nested : Abides L (modify fun m => { m with nesting := m.nesting + 1 } : Exec Unit) :=
        abides_modify (fun _ => ⟨rfl, rfl, rfl, rfl, rfl, le_rfl⟩) fun _ before => before
      have unnested : Abides L (modify fun m => { m with nesting := m.nesting - 1 } : Exec Unit) :=
        abides_modify (fun _ => ⟨rfl, rfl, rfl, rfl, rfl, le_rfl⟩) fun _ before => before
      have ran := abides_run program fuel
      have inner := abides_enter program fuel
      unfold enter
      refine abides_get.bind fun m _ => ?_
      extract_lets leave call
      have leaves : ∀ results, Within L results → Abides L (leave results) := fun results kept =>
        unnested.bind fun _ _ => abides_pure kept
      have calls : ∀ u, Abides L (call u) := fun _ => nested.bind fun _ _ => by
        split
        · rename_i a
          refine abides_get.bind fun m before => ?_
          refine (abides_startFrom a given).bind fun _ _ => ?_
          refine ran.bind fun results kept => (abides_backTo m.hosts).bind fun _ _ => ?_
          exact (abides_pure kept).bind leaves
        · exact (abides_inHost (Invocation.abides_answer given inner) _).bind leaves
        · exact (abides_raiseText _).bind leaves
      split
      · exact (abides_raiseText _).bind fun u _ => calls u
      · exact calls ()

end

end Runs

end SlideDeck.Script.Exec
