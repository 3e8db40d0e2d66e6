import SlideDeck.Proofs.Script.Lines.Token
import SlideDeck.Script.Expression

/-!
The steps that reading shares keep to the lines of the text: instructions get the line of a token, and
errors name the line that the cursor has reached.
-/

namespace SlideDeck.Script

open Located (Within)

variable {L : Nat → Prop}

section Kinds

instance : Located Scope := ⟨fun L s => Within L s.instrs ∧ ∀ n ∈ s.lines, L n⟩

instance : Located CompileError := ⟨fun L e => match e with
  | .malformed c => Within L c
  | .tooDeep | .binary _ => True⟩

instance : Located Reading := ⟨fun L r => Within L r.cursor ∧ L r.lastLine ∧ Within L r.token ∧
  Within L r.ahead ∧ Within L r.scopes ∧ Within L r.program⟩

instance : Located Operand := ⟨fun L e => match e with
  | .constant v => Within L v
  | _ => True⟩

@[grind =] theorem within_number {v : Value} {text : String} :
    Within L (Token.number v text) ↔ Within L v := Iff.rfl

@[grind =] theorem within_constant {v : Value} : Within L (Operand.constant v) ↔ Within L v := Iff.rfl

@[grind ←] theorem within_operand {e : Operand} (other : ∀ v, e ≠ .constant v) : Within L e := by
  cases e with
  | constant v => exact absurd rfl (other v)
  | _ => trivial

@[grind .] theorem within_tooDeep : Within L CompileError.tooDeep := trivial

end Kinds

namespace Scope

variable {s : Scope}

theorem within_default : Within L ({} : Scope) := ⟨within_array_nil, nofun⟩

@[grind ←] theorem within_emit (within : Within L s) {i : Instr} {line : Nat} (instr : Within L i) (known : L line) :
    Within L (s.emit i line) := by
  refine ⟨within_push.mpr ⟨within.1, instr⟩, ?_⟩
  intro n member
  obtain member | rfl := Array.mem_push.mp member
  · exact within.2 n member
  · exact known

@[grind ←] theorem within_replace (within : Within L s) {i : Instr} (instr : Within L i) (site : Nat) :
    Within L (s.replace site i) := by
  refine ⟨?_, within.2⟩
  unfold replace
  rw [Array.set!_eq_setIfInBounds]
  exact within_setIfInBounds within.1 instr site

@[grind ←] theorem within_patch (within : Within L s) (site target : Nat) : Within L (s.patch site target) := by
  refine ⟨?_, within.2⟩
  dsimp only [patch]
  apply within_modify within.1
  intro i own
  split <;> trivial

theorem within_foldl_patch (within : Within L s) (jumps : List PendingJump) (target : Scope → Nat) :
    Within L (jumps.foldl (fun s j => s.patch j.site (target s)) s) := by
  induction jumps generalizing s with
  | nil => exact within
  | cons j rest ih => exact ih (within_patch within j.site (target s))

@[grind ←] theorem within_markClosing (within : Within L s) : Within L s.markClosing := by
  unfold markClosing
  split <;> exact within

@[grind ←] theorem within_addJump (within : Within L s) (j : PendingJump) : Within L (s.addJump j) := by
  unfold addJump
  split <;> exact within

@[grind ←] theorem within_addLabel (within : Within L s) (l : Label) : Within L (s.addLabel l) := by
  unfold addLabel
  split <;> exact within

@[grind ←] theorem within_settle (within : Within L s) (name : String) (target active : Nat) :
    Within L (s.settle name target active) := by
  unfold settle
  split
  · exact within
  · dsimp only
    split
    · exact within_error.mpr (within_lineless _)
    · exact within_foldl_patch within _ fun _ => target

@[grind ←] theorem within_leave (within : Within L s) : Within L s.leave := by
  unfold leave
  split
  · exact within
  · rename_i b rest _
    have left : Within L { s with locals := s.locals.drop (s.active - b.active), blocks := rest } := within
    have patched := within_foldl_patch left (if b.isLoop then b.jumps.filter fun j => j.name == "break" else [])
      here
    dsimp only
    split
    · exact patched
    · exact within_error.mpr (within_lineless _)
    · exact patched

@[grind ←] theorem within_toCode (within : Within L s) : Within L s.toCode := within

theorem within_resolve (name : String) {scopes : List Scope} (within : Within L scopes) :
    Within L (resolve name scopes) := by
  induction scopes with
  | nil => exact within_none
  | cons s rest ih =>
      have inner := ih (within_cons.mp within).2
      unfold resolve
      split
      · exact within_some.mpr ⟨trivial, within⟩
      · split
        · exact within_none
        · rename_i b scopes found
          rw [found] at inner
          exact within_some.mpr ⟨trivial, within_cons.mpr ⟨(within_cons.mp within).1, (within_some.mp inner).2⟩⟩

end Scope

namespace Parse

section Tokens

variable {α : Type} [Located α] (mark : String)

@[grind .] theorem keeps_line : Keeps L line := keeps_get.bind fun _ _ => keeps_pure trivial

theorem keeps_line_bind {f : Nat → Parse α} (next : ∀ n, L n → Keeps L (f n)) : Keeps L (line >>= f) := by
  intro r before
  exact next r.cursor.line (Cursor.within_line before.1) r before

theorem keeps_lastLine_bind {f : Nat → Parse α} (next : ∀ n, L n → Keeps L (f n)) : Keeps L (lastLine >>= f) := by
  intro r before
  exact next r.lastLine before.2.1 r before

@[grind .] theorem keeps_token : Keeps L token := keeps_get.bind fun _ before => keeps_pure before.2.2.1

@[grind .] theorem keeps_fail (message : String) : Keeps L (fail message : Parse α) :=
  keeps_line_bind fun _ known => keeps_throw known

@[grind .] theorem keeps_failNear (message : String) : Keeps L (failNear message : Parse α) :=
  keeps_token.bind fun _ _ => keeps_fail _

@[grind ←] theorem keeps_scan {c : Cursor} (within : Within L c) : Keeps L (scan c) := by
  refine keeps_get.bind fun r _ => ?_
  have scanned := Cursor.within_scan r.fuel within
  split
  · rename_i read found
    rw [found] at scanned
    exact keeps_pure scanned
  · rename_i e wrong
    rw [wrong] at scanned
    exact keeps_throw scanned

@[grind .] theorem keeps_next : Keeps L next := by
  unfold next
  refine keeps_get.bind fun r before => ?_
  have reached := Cursor.within_line before.1
  split
  · rename_i t ahead
    exact keeps_set ⟨before.1, reached, within_some.mp (ahead ▸ before.2.2.2.1), within_none, before.2.2.2.2⟩
  · have passed : Keeps L (modify fun s => { s with lastLine := r.cursor.line } : Parse Unit) :=
      keeps_modify fun s kept => ⟨kept.1, reached, kept.2.2⟩
    refine passed.bind fun _ _ => (keeps_scan before.1).bind fun read within => ?_
    exact keeps_modify fun s kept => ⟨within.2, kept.2.1, within.1, kept.2.2.2⟩

@[grind .] theorem keeps_peek : Keeps L peek := by
  unfold peek
  refine keeps_get.bind fun r before => ?_
  split
  · rename_i t ahead
    exact keeps_pure (within_some.mp (ahead ▸ before.2.2.2.1))
  · refine keeps_get.bind fun r before => (keeps_scan before.1).bind fun read within => ?_
    have held : Keeps L (modify fun s => { s with ahead := some read.1, cursor := read.2 } : Parse Unit) :=
      keeps_modify fun s kept => ⟨within.2, kept.2.1, kept.2.2.1, within_some.mpr within.1, kept.2.2.2.2⟩
    exact held.bind fun _ _ => keeps_pure within.1

@[grind .] theorem keeps_sees : Keeps L (sees mark) := keeps_token.bind fun _ _ => keeps_pure trivial

@[grind .] theorem keeps_seesAny (marks : List String) : Keeps L (seesAny marks) :=
  keeps_token.bind fun _ _ => keeps_pure trivial

@[grind .] theorem keeps_accept : Keeps L (accept mark) := by
  unfold accept
  grind

@[grind .] theorem keeps_check : Keeps L (check mark) := by
  unfold check
  grind

@[grind .] theorem keeps_expect : Keeps L (expect mark) := by
  unfold expect
  grind

@[grind .] theorem keeps_close (opener : String) (start : Nat) : Keeps L (close mark opener start) := by
  unfold close
  grind

@[grind .] theorem keeps_name : Keeps L name := by
  unfold name
  grind

theorem keeps_iterate {body : Parse Bool} (round : Keeps L body) (fuel : Nat) : Keeps L (iterate body fuel) := by
  induction fuel with
  | zero => exact keeps_pure trivial
  | succ fuel ih =>
      unfold iterate
      grind

@[grind ←] theorem keeps_loop {body : Parse Bool} (round : Keeps L body) : Keeps L (loop body) :=
  keeps_get.bind fun r _ => keeps_iterate round r.fuel

theorem keeps_iterateFrom {step : α → Parse (Option α)} (round : ∀ a, Within L a → Keeps L (step a))
    (fuel : Nat) {a : α}
    (start : Within L a) : Keeps L (iterateFrom step fuel a) := by
  induction fuel generalizing a with
  | zero => exact keeps_pure start
  | succ fuel ih =>
      refine (round a start).bind fun b kept => ?_
      cases b with
      | none => exact keeps_pure start
      | some b => exact ih (within_some.mp kept)

@[grind ←] theorem keeps_loopFrom {step : α → Parse (Option α)} {a : α} (start : Within L a)
    (round : ∀ a, Within L a → Keeps L (step a)) : Keeps L (loopFrom a step) :=
  keeps_get.bind fun r _ => keeps_iterateFrom round r.fuel start

end Tokens

section Code

variable {α : Type} [Located α] {i : Instr}

@[grind .] theorem keeps_scope : Keeps L scope := by
  refine keeps_get.bind fun r before => keeps_pure ?_
  have scopes := before.2.2.2.2.1
  cases found : r.scopes with
  | nil => exact Scope.within_default
  | cons s rest =>
      rw [found] at scopes
      exact (within_cons.mp scopes).1

@[grind ←] theorem keeps_modifyScope {f : Scope → Scope} (keeps : ∀ s, Within L s → Within L (f s)) :
    Keeps L (modifyScope f) := by
  refine keeps_modify fun r before => ?_
  split
  · exact before
  · rename_i s rest found
    have scopes := before.2.2.2.2.1
    rw [found] at scopes
    refine ⟨before.1, before.2.1, before.2.2.1, before.2.2.2.1, within_cons.mpr ⟨?_, (within_cons.mp scopes).2⟩,
      before.2.2.2.2.2⟩
    exact keeps s (within_cons.mp scopes).1

@[grind ←] theorem keeps_emitAt (instr : Within L i) {line : Nat} (known : L line) : Keeps L (emitAt line i) :=
  keeps_modifyScope fun _ within => Scope.within_emit within instr known

@[grind ←] theorem keeps_emit (instr : Within L i) : Keeps L (emit i) :=
  keeps_lastLine_bind fun _ known => keeps_emitAt instr known

@[grind .] theorem keeps_here : Keeps L here := keeps_scope.bind fun _ _ => keeps_pure trivial

@[grind ←] theorem keeps_emitJump (instr : Within L i) : Keeps L (emitJump i) :=
  keeps_here.bind fun _ _ => (keeps_emit instr).bind fun _ _ => keeps_pure trivial

@[grind .] theorem keeps_patchHere (site : Nat) : Keeps L (patchHere site) :=
  keeps_modifyScope fun s within => Scope.within_patch within site s.here

@[grind .] theorem keeps_limitError (what : String) (limit : Nat) : Keeps L (limitError what limit : Parse α) :=
  keeps_scope.bind fun _ _ => keeps_failNear _

@[grind .] theorem keeps_addLocal (name : String) (isConst : Bool) : Keeps L (addLocal name isConst) := by
  have added : Keeps L (modifyScope fun s => s.addLocal name isConst) := keeps_modifyScope fun _ within => within
  unfold addLocal
  grind

@[grind .] theorem keeps_resolve (name : String) : Keeps L (resolve name) := by
  unfold resolve
  refine keeps_get.bind fun r before => ?_
  have resolved := Scope.within_resolve name before.2.2.2.2.1
  split
  · exact keeps_pure within_none
  · rename_i b scopes found
    rw [found] at resolved
    have handed : Keeps L (modify fun r => { r with scopes } : Parse Unit) := keeps_modify fun r kept =>
      ⟨kept.1, kept.2.1, kept.2.2.1, kept.2.2.2.1, (within_some.mp resolved).2, kept.2.2.2.2.2⟩
    grind

@[grind .] theorem keeps_enterBlock (isLoop : Bool) : Keeps L (enterBlock isLoop) :=
  keeps_modifyScope fun _ within => within

@[grind .] theorem keeps_danglingJump (j : PendingJump) : Keeps L (danglingJump j : Parse α) := by
  unfold danglingJump
  grind

@[grind .] theorem keeps_leaveBlock : Keeps L leaveBlock := by
  unfold leaveBlock
  refine keeps_scope.bind fun s within => ?_
  have left := Scope.within_leave within
  split
  · rename_i s' found
    rw [found] at left
    exact keeps_modifyScope fun _ _ => within_ok.mp left
  · exact keeps_danglingJump _

end Code

end Parse

end SlideDeck.Script
