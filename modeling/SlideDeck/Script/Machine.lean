import SlideDeck.Script.Conversion
import SlideDeck.Script.Random

/-!
The state of a running script and the ways in which a step of it can fail. Memory is counted roughly:
every new object adds an estimate of its size, and what is still in use is measured when the sum
passes the limit.
-/

namespace SlideDeck.Script

/-- A variable of a running function; one that an inner function uses too lives in a cell. -/
inductive Slot where
  | plain (v : Value)
  | shared (cell : Nat)
  deriving Inhabited

structure Frame where
  code : Code := {}
  cells : Array Nat := #[]
  /-- The next instruction. -/
  pc : Nat := 0
  slots : Array Slot := #[]
  stack : Array Value := #[]
  /-- Arguments beyond the parameters. -/
  extra : Array Value := #[]
  /-- Which function it is. -/
  address : Nat := 0
  /-- Whether it took the place of the function that called it. -/
  isTail : Bool := false
  deriving Inhabited

namespace Frame

def line? (f : Frame) : Option Nat := f.code.lines[f.pc - 1]?

def callee? (f : Frame) : Option Origin := f.code.instrs[f.pc - 1]?.bind Instr.callee?

end Frame

inductive Host where
  /-- The program that runs scripts. -/
  | program
  /-- What answers where a script reads a name that is not bound. -/
  | guard
  /-- A function of the language that is no value. -/
  | helper
  | function (b : Builtin)
  deriving DecidableEq, Repr, Inhabited

/-- What waits for the running function to return. -/
inductive Level where
  /-- A script function that keeps so many of the results. -/
  | script (f : Frame) (wanted : Option Nat)
  | host (h : Host)
  deriving Inhabited

/-- The search state of an iteration over the matches of a pattern. -/
structure MatchIteration where
  subject : ByteArray
  pattern : ByteArray
  position : Nat
  /-- Where the last match ended. -/
  last : Option Nat
  deriving Inhabited

structure Machine where
  /-- The innermost script function. -/
  current : Frame := {}
  /-- The host functions that run above it, the innermost first. -/
  hosts : List Host := []
  below : List Level := []
  /-- The values of an open call or of open extra arguments, behind those on the stack. -/
  opened : Array Value := #[]
  heap : Heap := {}
  console : Console := {}
  /-- The table that methods of strings are looked up in. -/
  stringMethods : Nat := 0
  /-- The libraries of the language, under which traces and messages name functions. -/
  libraries : List (String × Nat) := []
  iterations : Array MatchIteration := #[]
  random : Generator := .ofSeed 1 0
  /-- Seconds since the start of 1970. -/
  now : Int := 0
  /-- How many instructions have been executed. -/
  steps : Nat := 0
  /-- An upper estimate of the bytes in use. -/
  memory : Nat := 0
  /-- Those of them that the code takes. -/
  codeBytes : Nat := 0
  /-- Zero for no limit. -/
  memoryLimit : Nat := 0
  /-- How many variables and operands the waiting functions hold. -/
  depth : Nat := 0
  /-- How many host functions are running inside one another. -/
  nesting : Nat := 0
  deriving Inhabited

/-- How a step fails. The functions that are running are left as they are. -/
inductive Failure where
  | raised (v : Value)
  | outOfMemory
  /-- The given number of steps was not enough. -/
  | unfinished
  deriving Inhabited

abbrev Exec := EStateM Failure Machine

/-! Memory -/

/-- What has been counted while measuring, and what remains to be visited. -/
structure Census where
  pending : List Value
  tables : Array Bool
  closures : Array Bool
  cells : Array Bool
  /-- Long texts, which may be held in many places. -/
  texts : Std.HashSet ByteArray := {}
  bytes : Nat := 0

namespace Census

def textSize (s : ByteArray) : Nat := 24 + s.size

def add (c : Census) (v : Value) : Census :=
  match v with
  | .string s =>
    if s.size ≤ 40 then { c with bytes := c.bytes + textSize s }
    else if c.texts.contains s then c
    else { c with texts := c.texts.insert s, bytes := c.bytes + textSize s }
  | .table _ | .function (.closure _) => { c with pending := v :: c.pending }
  | _ => c

def addCell (h : Heap) (c : Census) (i : Nat) : Census :=
  if c.cells.getD i true then c
  else { c with cells := c.cells.set! i true, bytes := c.bytes + 40 }.add (h.cell i)

def visit (h : Heap) (c : Census) : Value → Census
  | .table a =>
    if c.tables.getD a true then c
    else
      let t := h.table a
      t.slots.foldl (fun c e => (c.add e.1.toValue).add e.2)
        { c with tables := c.tables.set! a true, bytes := c.bytes + 56 + t.bytes }
  | .function (.closure a) =>
    if c.closures.getD a true then c
    else
      match h.closures[a]? with
      | none => c
      | some f =>
        f.cells.foldl (addCell h)
          { c with closures := c.closures.set! a true, bytes := c.bytes + 32 + 8 * f.cells.size }
  | _ => c

def visitAll (h : Heap) : Nat → Census → Census
  | 0, c => c
  | fuel + 1, c =>
    match c.pending with
    | [] => c
    | v :: rest => visitAll h fuel (visit h { c with pending := rest } v)

def addSlot (h : Heap) (c : Census) : Slot → Census
  | .plain v => c.add v
  | .shared i => addCell h c i

def addFrame (h : Heap) (c : Census) (f : Frame) : Census :=
  let c := f.slots.foldl (addSlot h) { c with bytes := c.bytes + 64 + 16 * (f.slots.size + 1) }
  let c := f.stack.foldl add c
  let c := f.extra.foldl add c
  f.cells.foldl (addCell h) c

def addLevel (h : Heap) (c : Census) : Level → Census
  | .script f _ => addFrame h c f
  | .host _ => c

end Census

namespace Machine

def baseMemory : Nat := 22000

def measure (m : Machine) : Nat :=
  let h := m.heap
  let none (n : Nat) : Array Bool := Array.replicate n false
  let c : Census :=
    { pending := [.table 0, .table m.stringMethods], tables := none h.tables.size,
      closures := none h.closures.size, cells := none h.cells.size }
  let c := m.opened.foldl Census.add (m.below.foldl (Census.addLevel h) (Census.addFrame h c m.current))
  let c := m.iterations.foldl (fun c i => (c.add (.string i.subject)).add (.string i.pattern)) c
  let entries := h.tables.foldl (fun n t => n + 2 * t.slots.size) 0
  baseMemory + m.codeBytes + (Census.visitAll h (entries + h.cells.size + h.closures.size + 1000000) c).bytes

end Machine

/-! Traces -/

def Builtin.name? : Builtin → Option String
  | tostring => some "tostring" | tonumber => some "tonumber" | type => some "type"
  | pairs => some "pairs" | ipairs => some "ipairs" | next => some "next" | select => some "select"
  | error => some "error" | pcall => some "pcall" | assert => some "assert"
  | _ => none

def Callable.name? : Callable → Option String
  | .builtin b => b.name?
  | .closure _ => none

namespace Table

def nameOf? (t : Table) (f : Callable) : Option ByteArray :=
  t.slots.toList.findSome? fun e => match e with
    | (.string name, .function g) => if g = f then some name else none
    | _ => none

end Table

namespace Machine

def libraryName? (m : Machine) (f : Callable) : Option String :=
  f.name?.or (m.libraries.findSome? fun (library, a) =>
    ((m.heap.table a).nameOf? f).map fun name => library ++ "." ++ Text.Utf8.lossy (upToZero name))

def called? (caller : Option Level) : Option Naming :=
  match caller with
  | some (.script f _) => f.callee?.map fun o => .called o.kind (Text.Utf8.lossy o.text)
  | _ => none

def activation (m : Machine) (l : Level) (caller : Option Level) : Activation :=
  match l with
  | .script f _ =>
    let name := if f.isTail then none else called? caller
    let own : Naming := if f.code.definedAt = 0 then .mainChunk else .defined f.code.definedAt
    { chunk := .script
      line := f.line?
      name := (((m.libraryName? (.closure f.address)).map .library).or name).getD own
      isTail := f.isTail }
  | .host .guard => { chunk := .guard, name := (called? caller).getD .guard }
  | .host (.function b) =>
    { name := (((m.libraryName? (.builtin b)).map .library).or (called? caller)).getD .unknown }
  | .host _ => { name := (called? caller).getD .unknown }

/-- The functions that run for the program, the innermost first. -/
def levels (m : Machine) : List Level :=
  (m.hosts.map Level.host ++ Level.script m.current none :: m.below).takeWhile fun l => match l with
    | .host .program => false
    | _ => true

/-- The trace of the functions that are running, given others above them. -/
def trace (m : Machine) (above : List Host) : List Activation :=
  let levels := above.map Level.host ++ m.levels
  (levels.zip (levels.tail.map some ++ [none])).map fun (l, caller) => m.activation l caller

end Machine

namespace Exec

def charge (bytes : Nat) : Exec Unit := do
  modify fun m => { m with memory := m.memory + bytes }
  let m ← get
  if m.memoryLimit ≠ 0 && m.memoryLimit < m.memory then
    let used := m.measure + bytes
    modify fun m => { m with memory := used }
    if m.memoryLimit < used then throw .outOfMemory

/-! Errors -/

def line? : Exec (Option Nat) := return (← get).current.line?

/-- The position that messages begin with. -/
def position (line : Option Nat) : String :=
  match line with
  | some n => chunkName ++ ":" ++ toString n ++ ": "
  | none => ""

def raise {α : Type} (v : Value) : Exec α := throw (.raised v)

def raiseText {α : Type} (s : String) : Exec α := raise (.ofString s)

def fail {α : Type} (message : ByteArray) : Exec α := do
  raise (.string ((position (← line?)).toUTF8 ++ message))

def hostFail {α : Type} (isRuntime : Bool) (message : String) : Exec α := do
  let m ← get
  let trace := m.trace []
  raise (.fault { trace.headD {} with message, isRuntime, callers := trace.tail, step := m.steps })

def levelLine : Level → Option Nat
  | .script f _ => f.line?
  | .host _ => none

/-- The position of the `level`-th function, the innermost host function being the zeroth. -/
def levelPosition (level : Nat) : Exec String := do
  let m ← get
  if level < m.hosts.length then return ""
  if level = m.hosts.length then return position m.current.line?
  return position ((m.below[level - m.hosts.length - 1]?).bind levelLine)

def libraryFail {α : Type} (message : String) : Exec α := do
  raiseText ((← levelPosition 1) ++ message)

def describe : Option Origin → ByteArray
  | none => "".toUTF8
  | some o => (" (" ++ o.kind.text ++ " '").toUTF8 ++ o.text ++ "')".toUTF8

def typeError {α : Type} (operation : String) (v : Value) (origin : Option Origin) : Exec α :=
  fail (("attempt to " ++ operation ++ " a " ++ v.typeName ++ " value").toUTF8 ++ describe origin)

/-! Objects -/

@[inline] def onHeap {α : Type} (change : Heap → α × Heap) : Exec α := modifyGet fun m =>
  let h := m.heap
  let m := { m with heap := {} }
  let (r, h) := change h
  (r, { m with heap := h })

def newTable (t : Table) : Exec Nat := do
  charge (56 + t.bytes)
  onHeap (·.addTable t)

def table (a : Nat) : Exec Table := return (← get).heap.table a

def tableBytes (a : Nat) : Exec Nat := return ((← get).heap.table a).bytes

def setEntry (a : Nat) (k : Key) (v : Value) : Exec Unit := do
  let before ← tableBytes a
  onHeap fun h => ((), h.modifyTable a (·.set k v))
  let growth := (← tableBytes a) - before
  if growth ≠ 0 then charge growth

def newCell (v : Value) : Exec Nat := do
  charge 40
  onHeap (·.addCell v)

def setCell (c : Nat) (v : Value) : Exec Unit := onHeap fun h => ((), h.setCell c v)

def newClosure (c : Closure) : Exec Nat := do
  charge (32 + 8 * c.cells.size)
  onHeap (·.addClosure c)

def adopt (j : Json) : Exec Value := do
  let before := (← get).heap.tables.size
  let v ← onHeap fun h => ofJson h j
  let size (t : Table) : Nat :=
    56 + t.bytes + t.slots.foldl (fun n e => match e.2 with
      | .string s => n + 24 + s.size
      | _ => n) 0
  charge (((← get).heap.tables.extract before).foldl (fun n t => n + size t) 0)
  return v

def text (s : ByteArray) : Exec Value := do
  charge (24 + s.size)
  return .string s

end Exec

end SlideDeck.Script
