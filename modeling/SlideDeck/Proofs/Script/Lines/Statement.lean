import SlideDeck.Proofs.Script.Lines.Expression
import SlideDeck.Script.Statement

/-!
Reading statements keeps to the lines of the text, and so does the program that a whole script is read
into.
-/

namespace SlideDeck.Script

open Located (Within)

variable {L : Nat → Prop}

namespace Parse

variable {r : Inner} {e : Operand} (inner : r.Keeping L)

section Assignments

@[grind ←] theorem keeps_adjust (wanted count : Nat) (within : Within L e) : Keeps L (adjust wanted count e) := by
  unfold adjust
  refine Keeps.ite ?_ ?_
  · grind
  · refine (keeps_discharge' within).bind fun _ _ => Keeps.bind (Keeps.forIn fun _ _ => ?_) fun _ _ => ?_
    · grind
    · grind

@[grind .] theorem keeps_checkWritable (e : Operand) : Keeps L (checkWritable e) := by
  unfold checkWritable
  grind

@[grind .] theorem keeps_storeIn (target : Operand) (depth : Nat) : Keeps L (storeIn target depth) := by
  unfold storeIn
  grind

@[grind .] theorem keeps_storeAll (targets : List Operand) (size : Nat) : Keeps L (storeAll targets size) := by
  induction targets generalizing size with
  | nil =>
      unfold storeAll
      grind
  | cons t rest ih =>
      unfold storeAll
      grind

@[grind .] theorem keeps_checkTarget (e : Operand) : Keeps L (checkTarget e) := by
  unfold checkTarget
  grind

include inner

@[grind ←] theorem keeps_assignment (depth : Nat) (within : Within L e) : Keeps L (assignment r depth e) := by
  have further : ∀ ts : List Operand, Within L ts → Keeps L (do
      if ← accept "," then
        let t ← suffixed r
        if depth < ts.length then throw .tooDeep
        checkTarget t
        return some (t :: ts)
      else return none : Parse (Option (List Operand))) := by
    intro ts kept
    refine (keeps_accept ",").bind fun more _ => Keeps.ite ?_ (keeps_pure within_none)
    refine (keeps_suffixed inner).bind fun t new => ?_
    grind
  unfold assignment
  refine (keeps_checkTarget e).seq ?_
  refine Keeps.bind (keeps_loopFrom (within_cons.mpr ⟨within, within_nil⟩) further) fun targets _ => ?_
  refine (keeps_expect "=").seq ((keeps_exprList inner).bind fun es kept => ?_)
  grind

@[grind ←] theorem keeps_expressionStatement (depth : Nat) : Keeps L (expressionStatement r depth) := by
  unfold expressionStatement
  grind

end Assignments

section Variables

@[grind .] theorem keeps_declareAll (slots : List Nat) : Keeps L (declareAll slots) := by
  induction slots with
  | nil => exact keeps_pure trivial
  | cons slot rest ih =>
      unfold declareAll
      grind

@[grind .] theorem keeps_attrib : Keeps L attrib := by
  unfold attrib
  grind

@[grind .] theorem keeps_checkRoom (count : Nat) : Keeps L (checkRoom count) := by
  unfold checkRoom
  grind

include inner

@[grind ←] theorem keeps_localStatement : Keeps L (localStatement r) := by
  unfold localStatement
  extract_lets one
  have ones : ∀ declared, Keeps L (one declared) := by
    intro declared
    refine keeps_name.bind fun n _ => (keeps_checkRoom _).seq (keeps_attrib.bind fun a _ => ?_)
    grind
  have further : ∀ ds : List (String × Attribute), Keeps L (do
      if ← accept "," then return some (← one ds) else return none : Parse (Option (List (String × Attribute)))) := by
    intro ds
    grind
  refine (ones []).bind fun first _ => ?_
  refine Keeps.bind (keeps_loopFrom (within_lineless first) fun ds _ => further ds) fun vars _ => ?_
  refine (keeps_accept "=").bind fun given _ => ?_
  extract_lets declaring
  have declares : ∀ u, Keeps L (declaring u) := by
    intro u
    refine Keeps.bind (Keeps.mapM fun v _ => keeps_addLocal _ _) fun slots _ => ?_
    grind
  refine Keeps.ite ?_ ?_
  · refine (keeps_exprList inner).bind fun es kept => ?_
    exact (keeps_adjust _ _ kept.2).bind fun u _ => declares u
  · refine Keeps.bind (Keeps.forIn fun _ _ => ?_) fun _ _ => declares ()
    grind

@[grind ←] theorem keeps_localFunction : Keeps L (localFunction r) := by
  unfold localFunction
  refine keeps_name.bind fun n _ => (keeps_addLocal n false).bind fun slot _ => ?_
  refine Keeps.seq (keeps_emit trivial) (Keeps.seq (keeps_emit trivial) (keeps_line.bind fun start _ => ?_))
  grind

@[grind ←] theorem keeps_functionStatement {start : Nat} (known : L start) : Keeps L (functionStatement r start) := by
  have further : ∀ x : Operand × Bool × Bool, Within L x → Keeps L (do
      if !x.2.2 then return none
      if ← accept "." then return some (← field x.1 (← name), false, true)
      if ← accept ":" then return some (← field x.1 (← name), true, false)
      return none : Parse (Option (Operand × Bool × Bool))) := by
    intro x within
    grind
  unfold functionStatement
  refine keeps_next.seq (keeps_name.bind fun n _ => (keeps_named n).bind fun first found => ?_)
  refine Keeps.bind (keeps_loopFrom (a := (first, false, true)) ⟨found, within_lineless _⟩ further) fun x within => ?_
  refine (keeps_body inner x.2.1 start).bind fun f function => (keeps_discharge' function).seq ?_
  grind

end Variables

include inner

section Blocks

@[grind ←] theorem keeps_block (isLoop : Bool) : Keeps L (block r isLoop) := by
  unfold block
  grind

@[grind ←] theorem keeps_condition (mark : String) : Keeps L (condition r mark) := by
  unfold condition
  grind

@[grind ←]
theorem keeps_ifRest (start : Nat) (exits : List Nat) (site : Nat) : Keeps L (ifRest r start exits site) := by
  unfold ifRest
  refine (keeps_seesAny _).bind fun goesOn _ => Keeps.ite ?_ ?_
  · refine Keeps.bind (keeps_emitJump trivial) fun exit _ => (keeps_patchHere site).seq ?_
    grind
  · grind

@[grind ←] theorem keeps_ifStatement (start : Nat) : Keeps L (ifStatement r start) := by
  unfold ifStatement
  refine (keeps_condition inner "then").bind fun site _ => (keeps_block inner false).seq ?_
  refine Keeps.bind (keeps_loopFrom (within_lineless _) fun x _ => ?_) fun x _ => ?_
  · exact Keeps.ite (keeps_ifRest inner _ _ _) (keeps_pure within_none)
  · refine Keeps.bind (Keeps.forIn fun exit _ => ?_) fun _ _ => keeps_pure trivial
    exact (keeps_patchHere exit).seq (keeps_pure trivial)

@[grind ←] theorem keeps_whileStatement (start : Nat) : Keeps L (whileStatement r start) := by
  unfold whileStatement
  refine keeps_next.seq (keeps_here.bind fun top _ => (inner.expr 0).bind fun e within => ?_)
  refine (keeps_discharge' within).seq (Keeps.bind (keeps_emitJump trivial) fun site _ => ?_)
  refine (keeps_enterBlock true).seq ((keeps_expect "do").seq ((keeps_block inner false).seq ?_))
  refine Keeps.seq (keeps_emit trivial) ((keeps_close _ _ _).seq ?_)
  exact (keeps_patchHere site).seq keeps_leaveBlock

@[grind ←] theorem keeps_repeatStatement (start : Nat) : Keeps L (repeatStatement r start) := by
  unfold repeatStatement
  refine keeps_here.bind fun top _ => (keeps_enterBlock true).seq ((keeps_enterBlock false).seq ?_)
  refine keeps_next.seq ((keeps_statements inner).seq ((keeps_close _ _ _).seq ?_))
  refine (inner.expr 0).bind fun e within => (keeps_discharge' within).seq (keeps_leaveBlock.seq ?_)
  exact Keeps.seq (keeps_emit trivial) keeps_leaveBlock

@[grind ←]
theorem keeps_numericFor {start : Nat} (known : L start) (var : String) : Keeps L (numericFor r start var) := by
  unfold numericFor
  refine (keeps_addLocal _ _).bind fun slot _ => (keeps_addLocal _ _).seq ((keeps_addLocal _ _).seq ?_)
  refine (keeps_expect "=").seq ((inner.expr 0).bind fun first within => (keeps_discharge' within).seq ?_)
  refine (keeps_expect ",").seq ((inner.expr 0).bind fun last within => (keeps_discharge' within).seq ?_)
  refine (keeps_accept ",").bind fun steps _ => ?_
  extract_lets loops
  have each : ∀ u, Keeps L (loops u) := by
    intro u
    refine (keeps_expect "do").seq (Keeps.bind (keeps_emitJump trivial) fun site _ => ?_)
    refine (keeps_enterBlock false).seq ((keeps_addLocal var false).seq (keeps_here.bind fun top _ => ?_))
    refine (keeps_statements inner).seq (keeps_leaveBlock.seq ?_)
    exact (keeps_emitAt (i := .forLoop slot top) trivial known).seq (keeps_patchHere site)
  refine Keeps.ite ?_ ?_
  · exact (inner.expr 0).bind fun step within => (keeps_discharge' within).bind fun u _ => each u
  · exact Keeps.bind (keeps_emit trivial) fun u _ => each u

@[grind ←] theorem keeps_genericFor (var : String) : Keeps L (genericFor r var) := by
  unfold genericFor
  refine (keeps_addLocal _ _).bind fun slot _ => Keeps.bind (Keeps.forIn fun _ _ => ?_) fun _ _ => ?_
  · exact (keeps_addLocal _ _).seq (keeps_pure trivial)
  refine Keeps.bind (keeps_loopFrom (within_lineless [var]) fun vs _ => ?_) fun vars _ => ?_
  · grind
  refine (keeps_expect "in").seq (keeps_line_bind fun start known => (keeps_exprList inner).bind fun es kept => ?_)
  refine (keeps_adjust 4 _ kept.2).seq ((keeps_declareAll _).seq ?_)
  have marked : Keeps L (modifyScope Scope.markClosing) := keeps_modifyScope fun _ => Scope.within_markClosing
  refine marked.seq ((keeps_expect "do").seq (Keeps.seq (keeps_emit trivial) (keeps_here.bind fun top _ => ?_)))
  refine (keeps_emitAt (i := .iterCall slot vars.length) trivial known).seq (keeps_here.bind fun site _ => ?_)
  refine (keeps_emitAt (i := .iterTest slot vars.length 0) trivial known).seq ((keeps_enterBlock false).seq ?_)
  refine Keeps.bind (Keeps.forIn fun v _ => (keeps_addLocal v false).seq (keeps_pure trivial)) fun _ _ => ?_
  refine (keeps_statements inner).seq (keeps_leaveBlock.seq ?_)
  exact (keeps_emitAt (i := .jump top) trivial known).seq (keeps_patchHere site)

@[grind ←] theorem keeps_forStatement {start : Nat} (known : L start) : Keeps L (forStatement r start) := by
  unfold forStatement
  grind

end Blocks

section Jumps

omit inner in
@[grind .] theorem keeps_jumpTo (name : String) (start : Nat) : Keeps L (jumpTo name start) := by
  unfold jumpTo
  grind

omit inner in
@[grind .] theorem keeps_blockEnds : Keeps L blockEnds := by
  unfold blockEnds
  grind

@[grind ←] theorem keeps_labelStatement (name : String) (start : Nat) : Keeps L (labelStatement r name start) := by
  unfold labelStatement
  refine (keeps_expect "::").seq (Keeps.seq (keeps_loop ?_) (keeps_scope.bind fun s _ => ?_))
  · grind
  extract_lets settle
  have settles : ∀ u, Keeps L (settle u) := by
    intro u
    refine keeps_scope.bind fun s within => keeps_blockEnds.bind fun ends _ => ?_
    extract_lets active
    have settled := Scope.within_settle within name s.here active
    split
    · rename_i s' found
      rw [found] at settled
      exact keeps_modifyScope fun _ _ => Scope.within_addLabel settled _
    · exact keeps_fail _
  split
  · exact (keeps_fail _).bind fun u _ => settles u
  · exact settles ()

@[grind ←] theorem keeps_returnStatement : Keeps L (returnStatement r) := by
  have tail : ∀ change : Instr → Instr, (∀ i, Within L i → Within L (change i)) →
      Keeps L (modifyScope fun s => { s with instrs := s.instrs.modify (s.here - 1) change }) :=
    fun change keeps => keeps_modifyScope fun s within => ⟨within_modify within.1 keeps, within.2⟩
  unfold returnStatement
  refine keeps_next.seq (keeps_blockEnds.bind fun ends _ => (keeps_seesAny _).bind fun stops _ => ?_)
  extract_lets finish
  have finishes : ∀ u, Keeps L (finish u) := fun _ => (keeps_accept ";").seq (keeps_pure trivial)
  refine Keeps.ite (Keeps.bind (keeps_emit trivial) fun u _ => finishes u) ?_
  refine (keeps_exprList inner).bind fun es kept => ?_
  dsimp only
  refine (keeps_closedList kept.2).bind fun given _ => keeps_scope.bind fun s _ => ?_
  refine Keeps.ite ?_ ?_
  · refine Keeps.seq (tail _ fun i own => ?_) (Keeps.bind (keeps_emit trivial) fun u _ => finishes u)
    split
    · trivial
    · exact own
  · exact Keeps.bind (keeps_emit trivial) fun u _ => finishes u

end Jumps

theorem keeps_statement (depth : Nat) : Keeps L (statement r depth) := by
  unfold statement
  refine keeps_line_bind fun start known => keeps_token.bind fun t _ => ?_
  split
  all_goals grind

omit inner in
/-- The grammar keeps to the lines, by induction on the levels of nesting that remain. -/
theorem keeping_grammar (n : Nat) : (grammar n).Keeping L := by
  induction n with
  | zero => exact ⟨fun _ => keeps_throw within_tooDeep, keeps_throw within_tooDeep⟩
  | succ n ih => exact ⟨keeps_expression ih, keeps_statement ih n⟩

omit inner in
theorem keeps_script : Keeps L script := by
  have opened : Keeps L (modify fun r => { r with
      scopes := [({ isVararg := true, outers := #[⟨"_ENV", .ofSlot 0, false⟩] } : Scope).enter false] } :
      Parse Unit) := keeps_modify fun r before => ⟨before.1, before.2.1, before.2.2.1, before.2.2.2.1,
    within_cons.mpr ⟨Scope.within_default, within_nil⟩, before.2.2.2.2.2⟩
  unfold script
  refine opened.seq (keeps_next.seq ((keeps_statements (keeping_grammar maxNesting)).seq ?_))
  refine keeps_token.bind fun t _ => ?_
  split
  · exact keeps_finish.bind fun _ _ => keeps_get.bind fun r before => keeps_pure before.2.2.2.2.2
  · exact keeps_failNear _

end Parse

def OnText (cs : List Char) (n : Nat) : Prop := 1 ≤ n ∧ n ≤ 1 + breaks cs

/-- A program mentions only lines of its text, and so does the error of a text that is none. -/
theorem within_ofSource (source : String) : Within (OnText source.toList) (Program.ofSource source) := by
  unfold Program.ofSource
  extract_lets cs start
  split
  · trivial
  · have ahead : Within (OnText cs) start.cursor := by
      intro k bound
      have most : k ≤ breaks cs := bound
      exact ⟨Nat.le_add_right 1 k, Nat.add_le_add_left most 1⟩
    have first : OnText cs 1 := ⟨le_rfl, Nat.le_add_right 1 _⟩
    have ended := Parse.keeps_script start
      ⟨ahead, first, trivial, within_none, within_nil, within_array_nil⟩
    unfold EStateM.run
    cases read : Parse.script start with
    | ok p r =>
        rw [read] at ended
        exact ended.1
    | error e r =>
        rw [read] at ended
        exact ended.1

end SlideDeck.Script
