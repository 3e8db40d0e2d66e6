import SlideDeck.Proofs.Script.Lines.Reading

/-!
Reading expressions keeps to the lines of the text, given that the grammar inside does.
-/

namespace SlideDeck.Script

open Located (Within)

variable {L : Nat → Prop}

instance : Located Parse.TableItems := ⟨fun L t => Within L t.held⟩

@[grind =] theorem within_tableItems {t : Parse.TableItems} : Within L t ↔ Within L t.held := Iff.rfl

namespace Parse

structure Inner.Keeping (L : Nat → Prop) (r : Inner) : Prop where
  expr (limit : Nat) : Keeps L (r.expr limit)
  statement : Keeps L r.statement

attribute [grind ←] Inner.Keeping.expr Inner.Keeping.statement

variable {r : Inner} {e : Operand}

section Operands

@[grind ←] theorem keeps_discharge (within : Within L e) : Keeps L (discharge e) := by
  unfold discharge
  grind

@[grind ←] theorem keeps_discharge' (within : Within L e) : Keeps L (discharge' e) :=
  (keeps_discharge within).bind fun _ _ => keeps_pure trivial

@[grind .] theorem keeps_want (count : Option Nat) : Keeps L (want count) := by
  refine keeps_modifyScope fun s within => ⟨?_, within.2⟩
  dsimp only
  apply within_modify within.1
  intro i own
  split <;> trivial

@[grind ←] theorem keeps_field (within : Within L e) (key : String) : Keeps L (field e key) := by
  unfold field
  grind

@[grind .] theorem within_ofBinding (name : String) (b : Binding) : Within L (ofBinding name b) := by
  unfold ofBinding
  grind

@[grind .] theorem keeps_named (name : String) : Keeps L (named name) := by
  unfold named
  grind

end Operands

variable (inner : r.Keeping L)

include inner

section Lists

@[grind ←] theorem keeps_exprList : Keeps L (exprList r) := by
  unfold exprList
  grind

omit inner in
@[grind ←] theorem keeps_closedList {es : Nat × Operand} (within : Within L es.2) : Keeps L (closedList es) := by
  unfold closedList
  grind

omit inner in
@[grind .] theorem keeps_params : Keeps L params := by
  have counted : Keeps L (modifyScope fun s => { s with params := s.active }) :=
    keeps_modifyScope fun _ within => within
  have open_ended : Keeps L (modifyScope fun s => { s with isVararg := true }) :=
    keeps_modifyScope fun _ within => within
  unfold params
  extract_lets count more
  refine (keeps_sees ")").bind fun isEmpty _ => Keeps.ite ?_ counted
  refine Keeps.bind (keeps_loop ?_) fun _ _ => counted
  refine keeps_token.bind fun t _ => ?_
  split
  · grind
  · grind

@[grind ←] theorem keeps_statements : Keeps L (statements r) := by
  unfold statements
  grind

omit inner in
@[grind .] theorem keeps_finish : Keeps L finish := by
  unfold finish
  refine Keeps.bind (keeps_emit trivial) fun _ _ => keeps_leaveBlock.bind fun _ _ => ?_
  refine keeps_scope.bind fun s scope => ?_
  have closed : Keeps L (modify fun r => { r with scopes := r.scopes.drop 1, program := r.program.push s.toCode } :
      Parse Unit) := keeps_modify fun r before => ⟨before.1, before.2.1, before.2.2.1, before.2.2.2.1,
    within_drop before.2.2.2.2.1, within_push.mpr ⟨before.2.2.2.2.2, Scope.within_toCode scope⟩⟩
  exact closed.bind fun _ _ => keeps_get.bind fun _ _ => keeps_pure trivial

@[grind ←] theorem keeps_body (isMethod : Bool) (start : Nat) : Keeps L (body r isMethod start) := by
  have opened : Keeps L (modify fun r => { r with scopes := ({ line := start } : Scope).enter false :: r.scopes } :
      Parse Unit) := keeps_modify fun r before => ⟨before.1, before.2.1, before.2.2.1, before.2.2.2.1,
    within_cons.mpr ⟨Scope.within_default, before.2.2.2.2.1⟩, before.2.2.2.2.2⟩
  unfold body
  extract_lets rest
  have rests : ∀ u, Keeps L (rest u) := by
    intro u
    refine keeps_params.bind fun _ _ => (keeps_expect ")").bind fun _ _ => ?_
    refine (keeps_statements inner).bind fun _ _ => (keeps_close _ _ _).bind fun _ _ => ?_
    exact keeps_finish.bind fun number _ => Keeps.bind (keeps_emit trivial) fun _ _ => keeps_pure trivial
  refine opened.bind fun _ _ => (keeps_expect "(").bind fun _ _ => ?_
  exact Keeps.ite ((keeps_addLocal _ _).bind fun _ _ => rests ()) (rests ())

end Lists

section Tables

variable {t : TableItems}

omit inner in
@[grind ←] theorem keeps_settleItem (within : Within L t) : Keeps L (settleItem t) := by
  unfold settleItem
  grind

@[grind ←] theorem keeps_recordField (within : Within L t) : Keeps L (recordField r t) := by
  have value : Keeps L (do
      discharge' (← r.expr 0)
      emit (.addField t.waiting)
      return { t with keys := t.keys + 1 } : Parse TableItems) := by
    grind
  unfold recordField
  refine keeps_token.bind fun k _ => ?_
  split
  · grind
  · refine keeps_next.bind fun _ _ => (inner.expr 0).bind fun key _ => ?_
    grind

@[grind .] theorem keeps_listItem : Keeps L (listItem r t) := by
  unfold listItem
  grind

@[grind ←] theorem keeps_tableField (within : Within L t) : Keeps L (tableField r t) := by
  unfold tableField
  grind

omit inner in
@[grind ←] theorem keeps_finishItems (within : Within L t) : Keeps L (finishItems t) := by
  unfold finishItems
  grind

@[grind ←] theorem keeps_table : Keeps L (table r) := by
  have fields : ∀ t : TableItems × Bool, Within L t → Keeps L (do
      if !t.2 || (← sees "\x7d") then return none
      let t ← tableField r (← settleItem t.1)
      if ← accept "," then return some (t, true)
      return some (t, ← accept ";") : Parse (Option (TableItems × Bool))) := by
    intro t within
    grind
  unfold table
  refine keeps_line.bind fun start _ => keeps_here.bind fun site _ => ?_
  refine Keeps.bind (keeps_emit trivial) fun _ _ => (keeps_expect "\x7b").bind fun _ _ => ?_
  refine Keeps.bind (keeps_loopFrom (a := (({} : TableItems), true)) ⟨within_none, trivial⟩ fields) fun t within => ?_
  refine (keeps_close _ _ _).bind fun _ _ => (keeps_finishItems within.1).bind fun t _ => ?_
  have sized : Keeps L (modifyScope fun s => s.replace site (.newTable t.stored t.keys)) :=
    keeps_modifyScope fun s scope => Scope.within_replace scope (i := .newTable t.stored t.keys) trivial site
  exact sized.bind fun _ _ => keeps_pure trivial

end Tables

section Calls

@[grind ←] theorem keeps_arguments (callee : Option Origin) (extra : Nat) : Keeps L (arguments r callee extra) := by
  unfold arguments
  refine keeps_line_bind fun start known => keeps_token.bind fun t _ => ?_
  dsimp only
  have called : ∀ given : Nat × Bool, Keeps L (do
      emitAt start (.call (given.1 + extra) given.2 (some 1) callee)
      return .call : Parse Operand) := by
    intro given
    grind
  split
  · grind
  · refine Keeps.ite ?_ (Keeps.ite ?_ ?_)
    · grind
    · refine keeps_next.bind fun _ _ => (keeps_accept ")").bind fun isEmpty _ => Keeps.ite ?_ ?_
      · grind
      · refine (keeps_exprList inner).bind fun es within => ?_
        grind
    · grind

@[grind ←] theorem keeps_primary : Keeps L (primary r) := by
  unfold primary
  refine keeps_token.bind fun t _ => ?_
  split
  · grind
  · refine Keeps.ite ?_ (keeps_failNear _)
    refine keeps_line.bind fun start _ => keeps_next.bind fun _ _ => (inner.expr 0).bind fun e within => ?_
    grind

@[grind ←] theorem keeps_suffix (within : Within L e) : Keeps L (suffix r e) := by
  unfold suffix
  refine keeps_token.bind fun t _ => ?_
  split
  · grind
  · refine Keeps.ite ?_ (Keeps.ite ?_ (Keeps.ite ?_ ?_))
    · grind
    · refine (keeps_discharge within).bind fun o _ => keeps_next.bind fun _ _ => ?_
      refine (inner.expr 0).bind fun key found => ?_
      grind
    · refine keeps_next.bind fun _ _ => (keeps_discharge within).bind fun o _ => keeps_name.bind fun key _ => ?_
      grind
    · grind

@[grind ←] theorem keeps_suffixed : Keeps L (suffixed r) := by
  unfold suffixed
  grind

omit inner in
theorem within_literal? {t : Token} (within : Within L t) : Within L (literal? t) := by
  unfold literal?
  grind

@[grind ←] theorem keeps_simple : Keeps L (simple r) := by
  unfold simple
  refine keeps_token.bind fun t token => ?_
  have literal := within_literal? token
  grind

end Calls

section Operators

@[grind ←] theorem keeps_rightOperand (form : BinaryForm) (limit : Nat) {start : Nat} (known : L start)
    (within : Within L e) : Keeps L (rightOperand r form limit start e) := by
  unfold rightOperand
  cases form with
  | concat =>
      refine (keeps_discharge within).bind fun o _ => (inner.expr limit).bind fun right found => ?_
      split
      · rename_i os
        have joined : Keeps L (modifyScope fun s => s.replace (s.here - 1) (.concat (o :: os))) :=
          keeps_modifyScope fun s scope => Scope.within_replace scope (i := .concat (o :: os)) trivial _
        exact joined.bind fun _ _ => keeps_pure trivial
      · grind
  | _ => grind

@[grind ←] theorem keeps_binaryStep (limit : Nat) (within : Within L e) : Keeps L (binaryStep r limit e) := by
  unfold binaryStep
  refine keeps_token.bind fun t _ => ?_
  split
  · exact keeps_pure within_none
  · refine Keeps.ite (keeps_line_bind fun start known => ?_) (keeps_pure within_none)
    grind

@[grind ←] theorem keeps_expression (limit : Nat) : Keeps L (expression r limit) := by
  unfold expression
  refine keeps_token.bind fun t _ => ?_
  split
  · refine keeps_line_bind fun start known => ?_
    grind
  · grind

end Operators

end Parse

end SlideDeck.Script
