import SlideDeck.Script.Expression

/-!
Statements, and whole scripts read into programs.
-/

namespace SlideDeck.Script

namespace Parse

/-! Assignments -/

def adjust (wanted : Nat) (count : Nat) (last : Operand) : Parse Unit := do
  if Operand.isOpen last then
    want (some (wanted + 1 - count))
    if wanted + 1 < count then emit (.drop (count - 1 - wanted))
  else
    discharge' last
    for _ in List.range (wanted - count) do emit (.push .nil)
    if wanted < count then emit (.drop (count - wanted))

def targetSize : Operand → Nat
  | .indexed _ _ => 2
  | _ => 0

def checkWritable : Operand → Parse Unit
  | .slot _ n true | .outer _ n true => fail ("attempt to assign to const variable '" ++ n ++ "'")
  | _ => return

/-- Stores the top in a target whose object and key stand `depth` below it. -/
def storeIn (target : Operand) (depth : Nat) : Parse Unit := do
  match target with
  | .slot i _ _ => emit (.store i)
  | .outer i _ _ => emit (.storeOuter i)
  | .indexed o _ => emit (.assign depth o)
  | _ => return

/-- Stores as many values as there are targets, given from the last to the first; `size` places are
taken by the targets behind them. -/
def storeAll : List Operand → Nat → Parse Unit
  | [], size => if size = 0 then return else emit (.drop size)
  | t :: rest, size => do
    storeIn t (rest.length + size)
    storeAll rest (size + targetSize t)

def isTarget : Operand → Bool
  | .slot _ _ _ | .outer _ _ _ | .indexed _ _ => true
  | _ => false

def checkTarget (e : Operand) : Parse Unit := do
  if !isTarget e then failNear "syntax error"
  checkWritable e

def assignment (r : Inner) (depth : Nat) (first : Operand) : Parse Unit := do
  checkTarget first
  let targets ← loopFrom [first] fun ts => do
    if ← accept "," then
      let t ← suffixed r
      if depth < ts.length then throw .tooDeep
      checkTarget t
      return some (t :: ts)
    else return none
  expect "="
  let (count, last) ← exprList r
  adjust targets.length count last
  storeAll targets 0

def expressionStatement (r : Inner) (depth : Nat) : Parse Unit := do
  let e ← suffixed r
  if ← seesAny ["=", ","] then assignment r depth e
  else
    match e with
    | .call => want (some 0)
    | _ => failNear "syntax error"

/-! Variables -/

def declareAll : List Nat → Parse Unit
  | [] => return
  | slot :: rest => do
    emit (.declare slot)
    declareAll rest

inductive Attribute where
  | none
  | const
  | close
  deriving DecidableEq

def attrib : Parse Attribute := do
  if ← accept "<" then
    let a ← name
    expect ">"
    if a = "const" then return .const
    else if a = "close" then return .close
    else fail ("unknown attribute '" ++ a ++ "'")
  else return .none

def checkRoom (count : Nat) : Parse Unit := do
  if 200 < (← scope).active + count then limitError "local variables" 200

def localStatement (r : Inner) : Parse Unit := do
  let one (declared : List (String × Attribute)) : Parse (List (String × Attribute)) := do
    let n ← name
    checkRoom (declared.length + 1)
    let a ← attrib
    if a = .close && declared.any (·.2 = .close) then
      fail "multiple to-be-closed variables in local list"
    return (n, a) :: declared
  let vars ← loopFrom (← one []) fun ds => do
    if ← accept "," then return some (← one ds) else return none
  if ← accept "=" then
    let (count, last) ← exprList r
    adjust vars.length count last
  else
    for _ in vars do emit (.push .nil)
  let slots ← vars.reverse.mapM fun v => addLocal v.1 (v.2 ≠ .none)
  declareAll slots.reverse
  match (vars.reverse.zip slots).find? fun v => v.1.2 = .close with
  | some ((n, _), slot) =>
    modifyScope Scope.markClosing
    emit (.closable slot n)
  | none => return

def localFunction (r : Inner) : Parse Unit := do
  let slot ← addLocal (← name) false
  emit (.push .nil)
  emit (.declare slot)
  discharge' (← body r false (← line))
  emit (.store slot)

def functionStatement (r : Inner) (start : Nat) : Parse Unit := do
  next
  let first ← named (← name)
  let (target, isMethod, _) ← loopFrom (first, false, true) fun (e, _, more) => do
    if !more then return none
    if ← accept "." then return some (← field e (← name), false, true)
    if ← accept ":" then return some (← field e (← name), true, false)
    return none
  discharge' (← body r isMethod start)
  checkWritable target
  match target with
  | .slot i _ _ => emitAt start (.store i)
  | .outer i _ _ => emitAt start (.storeOuter i)
  | .indexed o _ =>
    emitAt start (.assign 0 o)
    emit (.drop 2)
  | _ => return

/-! Blocks and loops -/

def block (r : Inner) (isLoop : Bool) : Parse Unit := do
  enterBlock isLoop
  statements r
  leaveBlock

def condition (r : Inner) (mark : String) : Parse Nat := do
  next
  let e ← r.expr 0
  expect mark
  discharge' e
  emitJump (.jumpIfFalse 0)

def ifRest (r : Inner) (start : Nat) (exits : List Nat) (site : Nat) :
    Parse (Option (List Nat × Nat × Bool)) := do
  if ← seesAny ["elseif", "else"] then
    let exit ← emitJump (.jump 0)
    patchHere site
    if ← accept "else" then
      block r false
      close "end" "if" start
      return some (exit :: exits, 0, false)
    else
      let site ← condition r "then"
      block r false
      return some (exit :: exits, site, true)
  else
    close "end" "if" start
    patchHere site
    return some (exits, 0, false)

def ifStatement (r : Inner) (start : Nat) : Parse Unit := do
  let site ← condition r "then"
  block r false
  let (exits, _, _) ← loopFrom (([] : List Nat), site, true) fun (exits, site, more) => do
    if more then ifRest r start exits site else return none
  for exit in exits do patchHere exit

def whileStatement (r : Inner) (start : Nat) : Parse Unit := do
  next
  let top ← here
  discharge' (← r.expr 0)
  let site ← emitJump (.jumpIfFalse 0)
  enterBlock true
  expect "do"
  block r false
  emit (.jump top)
  close "end" "while" start
  patchHere site
  leaveBlock

def repeatStatement (r : Inner) (start : Nat) : Parse Unit := do
  let top ← here
  enterBlock true
  enterBlock false
  next
  statements r
  close "until" "repeat" start
  discharge' (← r.expr 0)
  leaveBlock
  emit (.jumpIfFalse top)
  leaveBlock

def numericFor (r : Inner) (start : Nat) (var : String) : Parse Unit := do
  let slot ← addLocal "(for state)" false
  let _ ← addLocal "(for state)" false
  let _ ← addLocal "(for state)" false
  expect "="
  discharge' (← r.expr 0)
  expect ","
  discharge' (← r.expr 0)
  if ← accept "," then discharge' (← r.expr 0) else emit (.push (.int 1))
  expect "do"
  let site ← emitJump (.forPrepare slot 0)
  enterBlock false
  let _ ← addLocal var false
  let top ← here
  statements r
  leaveBlock
  emitAt start (.forLoop slot top)
  patchHere site

def genericFor (r : Inner) (var : String) : Parse Unit := do
  let slot ← addLocal "(for state)" false
  for _ in List.range 3 do
    let _ ← addLocal "(for state)" false
  let vars ← loopFrom [var] fun vs => do
    if ← accept "," then return some ((← name) :: vs) else return none
  expect "in"
  let start ← line
  let (count, last) ← exprList r
  adjust 4 count last
  declareAll [slot + 3, slot + 2, slot + 1, slot]
  modifyScope Scope.markClosing
  expect "do"
  emit (.closable (slot + 3) "(for state)")
  let top ← here
  emitAt start (.iterCall slot vars.length)
  let site ← here
  emitAt start (.iterTest slot vars.length 0)
  enterBlock false
  for v in vars.reverse do
    let _ ← addLocal v false
  statements r
  leaveBlock
  emitAt start (.jump top)
  patchHere site

def forStatement (r : Inner) (start : Nat) : Parse Unit := do
  enterBlock true
  next
  let var ← name
  if ← sees "=" then numericFor r start var
  else if ← seesAny [",", "in"] then genericFor r var
  else failNear "'=' or 'in' expected"
  close "end" "for" start
  leaveBlock

/-! Jumps -/

def jumpTo (name : String) (start : Nat) : Parse Unit := do
  let s ← scope
  match s.label? name with
  | some l => emit (.jump l.target)
  | none =>
    let site ← emitJump (.jump 0)
    modifyScope fun s => s.addJump ⟨name, site, start, s.active⟩

/-- Whether a block ends here; `until` counts only if `withUntil`. -/
def blockEnds : Parse Bool := do
  match ← token with
  | .eof => return true
  | t => return ["else", "elseif", "end"].any t.isMark

def labelStatement (r : Inner) (name : String) (start : Nat) : Parse Unit := do
  expect "::"
  loop do
    if ← seesAny [";", "::"] then
      r.statement
      return true
    else return false
  let s ← scope
  match s.label? name with
  | some l => fail ("label '" ++ name ++ "' already defined on line " ++ toString l.line)
  | none => pure ()
  let s ← scope
  let active := if ← blockEnds then (s.blocks.head?.map (·.active)).getD 0 else s.active
  match s.settle name s.here active with
  | .ok s => modifyScope fun _ => s.addLabel ⟨name, s.here, start, active⟩
  | .error (j, v) =>
    fail ("<goto " ++ name ++ "> at line " ++ toString j.line ++ " jumps into the scope of local '" ++ v ++ "'")

def returnStatement (r : Inner) : Parse Unit := do
  next
  if (← blockEnds) || (← seesAny ["until", ";"]) then emit (.ret 0 false)
  else
    let (count, last) ← exprList r
    let isTail := match last with
      | .call => count == 1
      | _ => false
    let (n, isOpen) ← closedList (count, last)
    if isTail && !(← scope).isClosing then
      modifyScope fun s => { s with instrs := s.instrs.modify (s.here - 1) fun i => match i with
        | .call args isOpen _ callee => .tailCall args isOpen callee
        | i => i }
    emit (.ret n isOpen)
  let _ ← accept ";"

def statement (r : Inner) (depth : Nat) : Parse Unit := do
  let start ← line
  match ← token with
  | .mark ";" => next
  | .mark "if" => ifStatement r start
  | .mark "while" => whileStatement r start
  | .mark "do" =>
    next
    block r false
    close "end" "do" start
  | .mark "for" => forStatement r start
  | .mark "repeat" => repeatStatement r start
  | .mark "function" => functionStatement r start
  | .mark "local" =>
    next
    if ← accept "function" then localFunction r else localStatement r
  | .mark "::" =>
    next
    labelStatement r (← name) start
  | .mark "return" => returnStatement r
  | .mark "break" =>
    next
    jumpTo "break" start
  | .mark "goto" =>
    next
    jumpTo (← name) start
  | _ => expressionStatement r depth

def grammar : Nat → Inner
  | 0 => { expr := fun _ => throw .tooDeep, statement := throw .tooDeep }
  | n + 1 =>
    let inner := grammar n
    { expr := expression inner, statement := statement inner n }

def maxNesting : Nat := 199

def script : Parse Program := do
  modify fun r => { r with
    scopes := [({ isVararg := true, outers := #[⟨"_ENV", .ofSlot 0, false⟩] } : Scope).enter false] }
  next
  statements (grammar maxNesting)
  match ← token with
  | .eof =>
    let _ ← finish
    return (← get).program
  | _ => failNear "<eof> expected"

end Parse

/-- Why text that begins with the mark of compiled code cannot be read, given what is behind the mark's
first character. What compiled code has in its sixth byte is not valid in any text. -/
def binaryFault (cs : List Char) : BinaryFault :=
  match "Lua".toList.isPrefixOf? cs with
  | none => .refused
  | some [] => .damaged "truncated chunk"
  | some (version :: rest) =>
    if version ≠ 'T' then .damaged "version mismatch"
    else
      match rest with
      | [] => .damaged "truncated chunk"
      | format :: rest =>
        if format ≠ '\x00' then .damaged "format mismatch"
        else if (String.ofList rest).utf8ByteSize < 6 then .damaged "truncated chunk"
        else .damaged "corrupted chunk"

def Program.ofSource (source : String) : Except CompileError Program :=
  let cs := source.toList
  if cs.head? = some '\x1b' then .error (.binary (binaryFault (cs.drop 1))) else
  let start : Reading := { cursor := ⟨cs, 1⟩, token := .eof, fuel := cs.length + 2, scopes := [] }
  match Parse.script.run start with
  | .ok p _ => .ok p
  | .error e _ => .error e

end SlideDeck.Script
