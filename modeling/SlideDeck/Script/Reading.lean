import SlideDeck.Script.Scope
import SlideDeck.Script.Token

/-!
The state in which script text is read into code, and the steps that all of its grammar shares.
-/

namespace SlideDeck.Script

/-- Why text that looks like compiled code is not read. -/
inductive BinaryFault where
  /-- Only plain text is wanted. -/
  | refused
  | damaged (reason : String)
  deriving DecidableEq, Repr

def BinaryFault.message : BinaryFault → String
  | refused => "attempt to load a binary chunk (mode is 't')"
  | damaged reason => "script: bad binary format (" ++ reason ++ ")"

inductive CompileError where
  | malformed (c : Complaint)
  /-- Constructs are nested too deeply. -/
  | tooDeep
  | binary (f : BinaryFault)
  deriving DecidableEq, Repr

structure Reading where
  /-- Behind the current token, or behind `ahead` if it is there. -/
  cursor : Cursor
  token : Token
  ahead : Option Token := none
  /-- The line of the last token passed. -/
  lastLine : Nat := 1
  /-- More than the length of the text. -/
  fuel : Nat
  /-- The open functions, the innermost first. -/
  scopes : List Scope
  program : Program := #[]

abbrev Parse := EStateM CompileError Reading

namespace Parse

def line : Parse Nat := return (← get).cursor.line

def lastLine : Parse Nat := return (← get).lastLine

def token : Parse Token := return (← get).token

def fail {α : Type} (message : String) : Parse α := do throw (.malformed ⟨message, ← line⟩)

def failNear {α : Type} (message : String) : Parse α := do
  fail (message ++ " near " ++ (← token).shown)

def scan (c : Cursor) : Parse (Token × Cursor) := do
  match Cursor.scan (← get).fuel c with
  | .ok r => return r
  | .error e => throw (.malformed e)

def next : Parse Unit := do
  let r ← get
  let lastLine := r.cursor.line
  match r.ahead with
  | some t => set { r with token := t, ahead := none, lastLine }
  | none =>
    modify fun r => { r with lastLine }
    let (t, c) ← scan r.cursor
    modify fun r => { r with token := t, cursor := c }

def peek : Parse Token := do
  match (← get).ahead with
  | some t => return t
  | none =>
    let (t, c) ← scan (← get).cursor
    modify fun r => { r with ahead := some t, cursor := c }
    return t

def sees (mark : String) : Parse Bool := return (← token).isMark mark

def seesAny (marks : List String) : Parse Bool := do
  let t ← token
  return marks.any t.isMark

def accept (mark : String) : Parse Bool := do
  if ← sees mark then
    next
    return true
  else return false

def check (mark : String) : Parse Unit := do
  if !(← sees mark) then failNear ("'" ++ mark ++ "' expected")

def expect (mark : String) : Parse Unit := do
  check mark
  next

def close (mark opener : String) (start : Nat) : Parse Unit := do
  if ← accept mark then return
  if start = (← line) then failNear ("'" ++ mark ++ "' expected")
  else failNear ("'" ++ mark ++ "' expected (to close '" ++ opener ++ "' at line " ++ toString start ++ ")")

def name : Parse String := do
  match ← token with
  | .name s =>
    next
    return s
  | _ => failNear "<name> expected"

/-- Repeats `body` as long as it answers true, `fuel` times at most. -/
def iterate (body : Parse Bool) : Nat → Parse Unit
  | 0 => return
  | fuel + 1 => do
    if ← body then iterate body fuel

def loop (body : Parse Bool) : Parse Unit := do iterate body (← get).fuel

def iterateFrom {α : Type} (step : α → Parse (Option α)) : Nat → α → Parse α
  | 0, a => return a
  | fuel + 1, a => do
    match ← step a with
    | none => return a
    | some b => iterateFrom step fuel b

def loopFrom {α : Type} (a : α) (step : α → Parse (Option α)) : Parse α := do
  iterateFrom step (← get).fuel a

/-! Code -/

def scope : Parse Scope := return (← get).scopes.headD {}

def modifyScope (f : Scope → Scope) : Parse Unit :=
  modify fun r => match r.scopes with
    | [] => r
    | s :: rest => { r with scopes := f s :: rest }

def emitAt (line : Nat) (i : Instr) : Parse Unit := modifyScope fun s => s.emit i line

/-- Code belongs to the line of the last token passed. -/
def emit (i : Instr) : Parse Unit := do emitAt (← lastLine) i

def here : Parse Nat := return (← scope).here

def emitJump (i : Instr) : Parse Nat := do
  let site ← here
  emit i
  return site

def patchHere (site : Nat) : Parse Unit := modifyScope fun s => s.patch site s.here

def limitError {α : Type} (what : String) (limit : Nat) : Parse α := do
  let line := (← scope).line
  failNear ("too many " ++ what ++ " (limit is " ++ toString limit ++ ") in " ++
    if line = 0 then "main function" else "function at line " ++ toString line)

def addLocal (name : String) (isConst : Bool) : Parse Nat := do
  let slot := (← scope).active
  if 200 ≤ slot then limitError "local variables" 200
  modifyScope fun s => s.addLocal name isConst
  return slot

def resolve (name : String) : Parse (Option Binding) := do
  match Scope.resolve name (← get).scopes with
  | none => return none
  | some (b, scopes) =>
    modify fun r => { r with scopes }
    if 255 < (← scope).outers.size then limitError "upvalues" 255
    return some b

def enterBlock (isLoop : Bool) : Parse Unit := modifyScope fun s => s.enter isLoop

def danglingJump {α : Type} (j : PendingJump) : Parse α :=
  if j.name = "break" then fail ("break outside a loop at line " ++ toString j.line)
  else fail ("no visible label '" ++ j.name ++ "' for <goto> at line " ++ toString j.line)

def leaveBlock : Parse Unit := do
  match (← scope).leave with
  | .ok s => modifyScope fun _ => s
  | .error j => danglingJump j

end Parse

end SlideDeck.Script
