import SlideDeck.Proofs.Script.Conduct.Basic

/-!
Errors, objects and operators change nothing but what they store, and keep to the lines of the machine they
work on: an error mentions the line of the innermost script function, and no value comes up that was not
there but those without a line.
-/

namespace SlideDeck.Script.Exec

open Located (Within)

variable {α : Type} {L : Nat → Prop}

section Errors

variable {v : Value} (message : String)

theorem within_levelLine {l : Level} (within : Within L l) : ∀ n, levelLine l = some n → L n := by
  cases l with
  | script f wanted => exact within_line? within
  | host h => exact nofun

theorem levelPosition_eq {m : Machine} (within : Within L m) (level : Nat) :
    ∃ line, levelPosition level m = .ok (position line) m ∧ ∀ n, line = some n → L n := by
  by_cases host : level < m.hosts.length
  · refine ⟨none, ?_, nofun⟩
    simp only [levelPosition, bind, EStateM.bind, get, getThe, MonadStateOf.get, EStateM.get, if_pos host]
    rfl
  · by_cases caller : level = m.hosts.length
    · refine ⟨m.current.line?, ?_, within_line? within.1⟩
      simp only [levelPosition, bind, EStateM.bind, get, getThe, MonadStateOf.get, EStateM.get, if_neg host,
        if_pos caller]
      rfl
    · refine ⟨(m.below[level - m.hosts.length - 1]?).bind levelLine, ?_, ?_⟩
      · simp only [levelPosition, bind, EStateM.bind, get, getThe, MonadStateOf.get, EStateM.get, if_neg host,
          if_neg caller]
        rfl
      · intro n found
        obtain ⟨l, waiting, line⟩ := Option.bind_eq_some_iff.mp found
        exact within_levelLine (within.2.1 l (List.mem_of_getElem? waiting)) n line

variable [Located α]

@[grind ←]
theorem abides_raise (within : Within L v) : Abides L (raise v : Exec α) := abides_throw within

@[grind .]
theorem abides_raiseText : Abides L (raiseText message : Exec α) := abides_raise trivial

@[grind .]
theorem abides_line? : Abides L line? := fun _ before => ⟨.refl, fun _ _ => trivial, before⟩

@[grind .]
theorem abides_fail (message : ByteArray) : Abides L (fail message : Exec α) :=
  Abides.bind abides_line? fun _ _ => abides_raise trivial

@[grind .]
theorem abides_hostFail (isRuntime : Bool) : Abides L (hostFail isRuntime message : Exec α) := by
  refine abides_get.bind fun m before => abides_raise ?_
  have trace := within_trace before []
  have innermost : Within L ((m.trace []).headD {}) := by
    cases shape : m.trace [] with
    | nil => exact within_activation nofun
    | cons a rest => exact trace a (shape ▸ List.mem_cons_self)
  exact within_cons.mpr ⟨innermost, fun a member => trace a (List.mem_of_mem_tail member)⟩

@[grind .]
theorem abides_levelPosition (level : Nat) : Abides L (levelPosition level) := by
  unfold levelPosition
  grind

@[grind .]
theorem abides_libraryFail : Abides L (libraryFail message : Exec α) := by
  unfold libraryFail
  grind

@[grind .]
theorem abides_typeError (v : Value) (origin : Option Origin) : Abides L (typeError message v origin : Exec α) := by
  unfold typeError
  grind

end Errors

section Objects

variable (a : Nat) {k : Key} {v : Value}

@[grind .]
theorem abides_charge (bytes : Nat) : Abides L (charge bytes) := by
  have counted : Abides L (modify fun m => { m with memory := m.memory + bytes } : Exec Unit) :=
    abides_modify (fun _ => ⟨rfl, rfl, rfl, rfl, rfl, le_rfl⟩) fun _ before => before
  have settled : ∀ used, Abides L (modify fun m => { m with memory := used } : Exec Unit) :=
    fun _ => abides_modify (fun _ => ⟨rfl, rfl, rfl, rfl, rfl, le_rfl⟩) fun _ before => before
  refine Abides.bind counted fun _ _ => abides_get.bind fun m _ => ?_
  -- what is measured does not matter, and must not be computed
  generalize m.measure + bytes = used
  grind

@[grind .]
theorem abides_table : Abides L (table a) := by
  refine abides_get.bind fun m before => abides_pure (within_heap_table before.2.2.2 a)

@[grind .]
theorem abides_tableBytes : Abides L (tableBytes a) := by
  unfold tableBytes
  grind

@[grind ←]
theorem abides_newTable {t : Table} (coherent : t.Coherent) (stored : t.Stored) (within : Within L t) :
    Abides L (newTable t) :=
  (abides_charge _).bind fun _ _ =>
    abides_onHeap (fun h => .single (.addTable h coherent stored)) fun _ heap => within_addTable heap within

@[grind ←]
theorem abides_setEntry (normal : k.Stored) (key : Within L k) (value : Within L v) :
    Abides L (setEntry a k v) := by
  have stored : Abides L (onHeap fun h => ((), h.modifyTable a (·.set k v))) :=
    abides_onHeap (fun h => .single (.setEntry h a normal v)) fun h heap =>
      ⟨trivial, within_modifyTable heap (fun t table => within_set table key value) a⟩
  unfold setEntry
  grind

@[grind ←]
theorem abides_newCell (value : Within L v) : Abides L (newCell v) :=
  (abides_charge _).bind fun _ _ =>
    abides_onHeap (fun h => .single (.addCell h v)) fun _ heap => within_addCell heap value

@[grind ←]
theorem abides_setCell (value : Within L v) : Abides L (setCell a v) :=
  abides_onHeap (fun h => .single (.setCell h a v)) fun _ heap => ⟨trivial, within_setCell heap value a⟩

@[grind ←]
theorem abides_newClosure {c : Closure} (within : Within L c) : Abides L (newClosure c) :=
  (abides_charge _).bind fun _ _ =>
    abides_onHeap (fun h => .single (.addClosure h c)) fun _ heap => within_addClosure heap within

@[grind .]
theorem abides_adopt (j : Json) : Abides L (adopt j) := by
  have stored : Abides L (onHeap fun h => ofJson h j) :=
    abides_onHeap (reaches_ofJson j) (within_ofJson j)
  unfold adopt
  grind

@[grind .]
theorem abides_text (s : ByteArray) : Abides L (text s) := by
  unfold text
  grind

end Objects

section Operations

variable {key object a b : Value} (origin p q : Option Origin)

theorem abides_above [Located α] {x : Exec α} (inner : Abides L x) (above : List Host) :
    Abides L (modify (fun m => { m with hosts := above ++ m.hosts }) >>= fun _ => x) :=
  Abides.bind (abides_modify (fun _ => ⟨rfl, rfl, rfl, rfl, rfl, le_rfl⟩) fun _ before => before) fun _ _ => inner

@[grind .]
theorem abides_undefined [Located α] (k : Key) (byScript : Bool) : Abides L (undefined k byScript : Exec α) :=
  abides_line?.bind fun _ _ => abides_above (abides_raise (v := .string _) trivial) undefinedHosts

@[grind .]
theorem abides_tableGet (t : Nat) (key : Value) (byScript : Bool) : Abides L (tableGet t key byScript) := by
  unfold tableGet
  split
  · exact abides_pure trivial
  · rename_i k _
    refine (abides_table t).bind fun entries kept => ?_
    have found := within_get kept k
    grind

@[grind .]
theorem abides_index : Abides L (index object key origin) := by
  unfold index
  grind

@[grind ←]
theorem abides_setIndex (named : Within L key) (value : Within L b) :
    Abides L (setIndex object key b origin) := by
  unfold setIndex
  split
  · split
    · rename_i k found
      exact abides_setEntry _ (Key.stored_ofValue found) (within_toValue named found) value
    · exact abides_fail _
  · exact abides_typeError _ _ _

@[grind .]
theorem abides_arithmeticFail [Located α] (op : Operator) (a b : Value) :
    Abides L (arithmeticFail op a b p q : Exec α) := by
  have ofText := abides_above (abides_typeError (L := L) (α := α) "perform arithmetic on" a none) [.helper]
  unfold arithmeticFail
  grind

theorem within_arithInt (op : Operator) (m n : Int64) : Within L (arithInt op m n) := by
  unfold arithInt
  grind

theorem within_arith (op : Operator) (a b : Value) : Within L (arith op a b) := by
  have whole := @within_arithInt L op
  unfold arith
  grind

theorem within_negate (a : Value) : Within L (negate a) := by
  unfold negate
  grind

theorem within_complement (a : Value) : Within L (complement a) := by
  unfold complement
  grind

@[grind .]
theorem abides_arithmetic (op : Operator) (a b : Value) : Abides L (arithmetic op a b p q) := by
  have result := @within_arith L op a b
  unfold arithmetic
  grind

@[grind .]
theorem abides_unary (op : UnaryOperator) (a : Value) : Abides L (unary op a origin) := by
  have negated := @within_negate L a
  have complemented := @within_complement L a
  unfold unary
  grind

@[grind .]
theorem abides_compareFail [Located α] (a b : Value) : Abides L (compareFail a b : Exec α) := by
  unfold compareFail
  grind

@[grind .]
theorem abides_less (a b : Value) : Abides L (less a b) := by
  unfold less
  grind

@[grind .]
theorem abides_lessEq (a b : Value) : Abides L (lessEq a b) := by
  unfold lessEq
  grind

@[grind .]
theorem abides_compare (op : Comparison) (a b : Value) : Abides L (compare op a b) := by
  unfold compare
  grind

@[grind .]
theorem abides_concatFrom (acc : ByteArray) (operands : List (Value × Option Origin)) :
    Abides L (concat.go acc q operands) := by
  induction operands generalizing acc q with
  | nil =>
      unfold concat.go
      grind
  | cons operand rest ih =>
      unfold concat.go
      grind

@[grind ←]
theorem abides_concat {operands : List (Value × Option Origin)} (within : Within L operands) :
    Abides L (concat operands) := by
  cases operands with
  | nil => exact abides_pure (within_ofString "")
  | cons operand rest =>
      have first := (within_cons.mp within).1
      unfold concat
      grind

end Operations

end SlideDeck.Script.Exec
