import SlideDeck.Script.Invoke

/-!
One instruction of a running script function, and its calls and returns.
-/

namespace SlideDeck.Script

namespace Frame

def push (f : Frame) (v : Value) : Frame := { f with stack := f.stack.push v }

def pushAll (f : Frame) (vs : Array Value) : Frame := { f with stack := f.stack ++ vs }

def top (f : Frame) : Value := f.stack.back?.getD .nil

def below (f : Frame) (depth : Nat) : Value := f.stack.getD (f.stack.size - 1 - depth) .nil

def drop (f : Frame) (count : Nat) : Frame := { f with stack := f.stack.shrink (f.stack.size - count) }

def topmost (f : Frame) (count : Nat) : Array Value :=
  f.stack.extract (f.stack.size - count) f.stack.size

def setSlot (f : Frame) (i : Nat) (s : Slot) : Frame := { f with slots := f.slots.setIfInBounds i s }

def jump (f : Frame) (target : Nat) : Frame := { f with pc := target }

/-- The function at an address at its beginning: parameters without an argument are nil. -/
def start (h : Heap) (address : Nat) (args : Array Value) (isTail : Bool) : Frame :=
  let c := h.closures.getD address default
  let given := (args.extract 0 c.code.params).map Slot.plain
  { code := c.code
    cells := c.cells
    address
    isTail
    slots := given ++ Array.replicate (c.code.slots - given.size) (.plain .nil)
    extra := if c.code.isVararg then args.extract c.code.params args.size else #[] }

/-- What a frame takes of the stack that all running functions share. -/
def size (f : Frame) : Nat := f.slots.size + f.extra.size + 2

end Frame

namespace Exec

def modifyFrame (change : Frame → Frame) : Exec Unit :=
  modify fun m => { m with current := change m.current }

def push (v : Value) : Exec Unit := modifyFrame (·.push v)

def top : Exec Value := return (← get).current.top

def pop : Exec Value := modifyGet fun m => (m.current.top, { m with current := m.current.drop 1 })

def fetch : Exec (Option Instr) := modifyGet fun m =>
  (m.current.code.instrs[m.current.pc]?,
    { m with current := { m.current with pc := m.current.pc + 1 }, steps := m.steps + 1 })

def jump (target : Nat) : Exec Unit := modifyFrame (·.jump target)

/-! Variables -/

def slotValue (i : Nat) : Exec Value := do
  let m ← get
  match m.current.slots.getD i (.plain .nil) with
  | .plain v => return v
  | .shared c => return m.heap.cell c

def setSlot (i : Nat) (v : Value) : Exec Unit := do
  match (← get).current.slots.getD i (.plain .nil) with
  | .plain _ => modifyFrame (·.setSlot i (.plain v))
  | .shared c => setCell c v

def declare (i : Nat) (v : Value) : Exec Unit := modifyFrame (·.setSlot i (.plain v))

def share (i : Nat) : Exec Nat := do
  match (← get).current.slots.getD i (.plain .nil) with
  | .shared c => return c
  | .plain v =>
    let c ← newCell v
    modifyFrame (·.setSlot i (.shared c))
    return c

def outerCell (i : Nat) : Exec Nat := return (← get).current.cells.getD i 0

def capture : Capture → Exec Nat
  | .ofSlot i => share i
  | .ofOuter i => outerCell i

def makeClosure (p : Program) (function : Nat) : Exec Value := do
  let code := p.getD function {}
  let cells ← code.captures.mapM capture
  return .function (.closure (← newClosure { code, cells }))

/-! Calls and returns -/

def maxDepth : Nat := 1000000

def frameBytes (f : Frame) : Nat := 64 + 16 * f.size

/-- Makes room for a function that is about to start. -/
def reserve (f : Frame) : Exec Unit := do
  let m ← get
  if maxDepth < m.depth + f.size then
    if m.hosts.isEmpty then fail "stack overflow".toUTF8 else raiseText "stack overflow"
  charge (frameBytes f)
  modify fun m => { m with depth := m.depth + f.size }

def release (f : Frame) : Exec Unit := modify fun m =>
  { m with depth := m.depth - f.size, memory := m.memory - frameBytes f }

def padTo (count : Nat) (vs : Array Value) : Array Value :=
  vs.extract 0 count ++ Array.replicate (count - vs.size) .nil

def deliver (wanted : Option Nat) (vs : Array Value) : Exec Unit :=
  match wanted with
  | none => modify fun m => { m with opened := vs }
  | some 0 => return
  | some 1 => push (vs.getD 0 .nil)
  | some n => modifyFrame (·.pushAll (padTo n vs))

def takeValues (count : Nat) (isOpen : Bool) : Exec (Array Value) := modifyGet fun m =>
  let vs := m.current.topmost count
  let vs := if isOpen then vs ++ m.opened else vs
  (vs, { m with current := m.current.drop count, opened := if isOpen then #[] else m.opened })

def callFail {α : Type} (v : Value) (callee : Option Origin) : Exec α := typeError "call" v callee

def inHost {α : Type} (h : Host) (x : Exec α) : Exec α := do
  modify fun m => { m with hosts := h :: m.hosts }
  let r ← x
  modify fun m => { m with hosts := m.hosts.tail }
  return r

def callFrom (call : Invocation.Caller) (f : Value) (args : Array Value) (wanted : Option Nat)
    (callee : Option Origin) : Exec Unit := do
  match f with
  | .function (.closure a) =>
    let next := Frame.start (← get).heap a args false
    reserve next
    modify fun m => { m with current := next, below := .script m.current wanted :: m.below }
  | .function (.builtin b) =>
    deliver wanted (← inHost (.function b) (Invocation.answer { callee, builtin := b, args } call))
  | v => callFail v callee

/-- A call in the place of the running function. A host function answers to the running function, which
then returns. -/
def tailCallFrom (call : Invocation.Caller) (f : Value) (args : Array Value) (callee : Option Origin) : Exec Unit := do
  match f with
  | .function (.closure a) =>
    let next := Frame.start (← get).heap a args true
    release (← get).current
    reserve next
    modifyFrame fun _ => next
  | f => callFrom call f args none callee

def returnFrom (vs : Array Value) : Exec (Option (Array Value)) := do
  release (← get).current
  match (← get).below with
  | .script f wanted :: rest =>
    modify fun m => { m with current := f, below := rest }
    deliver wanted vs
    return none
  | _ => return some vs

/-! Loops -/

def forProblem {α : Type} (what : String) (v : Value) : Exec α :=
  fail ("bad 'for' " ++ what ++ " (number expected, got " ++ v.typeName ++ ")").toUTF8

def forFloat (what : String) (v : Value) : Exec Float := do
  match v.toFloat? with
  | some x => return x
  | none => forProblem what v

/-- The last integer that a loop with an integer start and step may reach; `none` if that is beyond all
integers on the wrong side. -/
def forLimit (step : Int64) (limit : Value) : Exec (Option Int64) := do
  match limit.toNumber? with
  | some (.int n) => return some n
  | some (.float x) =>
    match exactInt? (if step < 0 then x.ceil else x.floor) with
    | some n => return some n
    | none =>
      if 0.0 < x then return if step < 0 then none else some Int64.maxValue
      else return if 0 < step then none else some Int64.minValue
  | _ => forProblem "limit" limit

def roundsAfter (start stop step : Int64) : Nat :=
  (stop.toInt - start.toInt).natAbs / step.toInt.natAbs

def forPrepareInt (slot exit : Nat) (start step : Int64) (limit : Value) : Exec Unit := do
  if step = 0 then fail "'for' step is zero".toUTF8
  match ← forLimit step limit with
  | none => jump exit
  | some stop =>
    if (if 0 < step then stop < start else start < stop) then jump exit
    else
      declare slot (.int start)
      declare (slot + 1) (.int (Int64.ofNat (roundsAfter start stop step)))
      declare (slot + 2) (.int step)
      declare (slot + 3) (.int start)

def forPrepareFloat (slot exit : Nat) (start limit step : Float) : Exec Unit := do
  if step == 0.0 then fail "'for' step is zero".toUTF8
  if (if 0.0 < step then limit < start else start < limit) then jump exit
  else
    declare slot (.float start)
    declare (slot + 1) (.float limit)
    declare (slot + 2) (.float step)
    declare (slot + 3) (.float start)

/-- Sets up a numeric loop: in three slots the value of the round, the number of rounds to come or the
limit, and the step; behind them the variable of the first round. -/
def forPrepare (slot exit : Nat) : Exec Unit := do
  let step ← pop
  let limit ← pop
  let start ← pop
  match start, step with
  | .int i, .int s => forPrepareInt slot exit i s limit
  | _, _ =>
    let y ← forFloat "limit" limit
    let s ← forFloat "step" step
    forPrepareFloat slot exit (← forFloat "initial value" start) y s

def forLoop (slot body : Nat) : Exec Unit := do
  match ← slotValue slot, ← slotValue (slot + 1), ← slotValue (slot + 2) with
  | .int i, .int rounds, .int step =>
    if rounds ≠ 0 then
      let next := Value.int (i + step)
      declare slot next
      declare (slot + 1) (.int (rounds - 1))
      declare (slot + 3) next
      jump body
  | .float x, .float limit, .float step =>
    let next := x + step
    if (if 0.0 < step then next ≤ limit else limit ≤ next) then
      declare slot (.float next)
      declare (slot + 3) (.float next)
      jump body
  | _, _, _ => return

def iterTest (slot count exit : Nat) : Exec Unit := do
  let vs ← takeValues count false
  match vs.getD 0 .nil with
  | .nil => jump exit
  | v =>
    declare (slot + 2) v
    for i in List.range count do declare (slot + 4 + i) (vs.getD i .nil)

/-! Instructions -/

/-- One instruction; `call` calls back. The results of the running function come out if it returns to a
host function. -/
def step (p : Program) (call : Invocation.Caller) : Exec (Option (Array Value)) := do
  match ← fetch with
  | none => returnFrom #[]
  | some i =>
    match i with
    | .push v => push v; return none
    | .drop n => modifyFrame (·.drop n); return none
    | .load s => push (← slotValue s); return none
    | .store s => setSlot s (← pop); return none
    | .declare s => declare s (← pop); return none
    | .loadOuter i =>
      let c ← outerCell i
      push ((← get).heap.cell c)
      return none
    | .storeOuter i =>
      let c ← outerCell i
      let v ← pop
      setCell c v
      return none
    | .index origin =>
      let key ← pop
      let object ← pop
      push (← index object key origin)
      return none
    | .assign depth origin =>
      let v ← pop
      let f := (← get).current
      let object := f.below (depth + 1)
      let key := f.below depth
      setIndex object key v origin
      return none
    | .method name origin =>
      let object ← pop
      push (← index object (.string name) origin)
      push object
      return none
    | .unary op origin => push (← unary op (← pop) origin); return none
    | .binary op left right =>
      let b ← pop
      let a ← pop
      push (← arithmetic op a b left right)
      return none
    | .compare op =>
      let b ← pop
      let a ← pop
      push (.bool (← compare op a b))
      return none
    | .concat origins =>
      let vs ← takeValues origins.length false
      push (← concat (vs.toList.zip origins).reverse)
      return none
    | .jump t => jump t; return none
    | .jumpIfFalse t =>
      if !(← pop).isTruthy then jump t
      return none
    | .jumpKeepFalse t =>
      if (← top).isTruthy then modifyFrame (·.drop 1) else jump t
      return none
    | .jumpKeepTrue t =>
      if (← top).isTruthy then jump t else modifyFrame (·.drop 1)
      return none
    | .newTable items keys =>
      push (.table (← newTable (Table.sized items keys)))
      return none
    | .addField depth =>
      let v ← pop
      let key ← pop
      let object := (← get).current.below depth
      setIndex object key v none
      return none
    | .addItems count first isOpen =>
      let vs ← takeValues count isOpen
      match ← top with
      | .table a =>
        for (v, i) in vs.toList.zipIdx do setEntry a (.int (Int64.ofNat (first + i))) v
      | _ => pure ()
      return none
    | .call count isOpen wanted callee =>
      let args ← takeValues count isOpen
      let f ← pop
      callFrom call f args wanted callee
      return none
    | .tailCall count isOpen callee =>
      let args ← takeValues count isOpen
      let f ← pop
      tailCallFrom call f args callee
      return none
    | .ret count isOpen => returnFrom (← takeValues count isOpen)
    | .varargs wanted =>
      deliver wanted (← get).current.extra
      return none
    | .closure n => push (← makeClosure p n); return none
    | .forPrepare slot exit => forPrepare slot exit; return none
    | .forLoop slot body => forLoop slot body; return none
    | .iterCall slot wanted =>
      let f ← slotValue slot
      let state ← slotValue (slot + 1)
      let control ← slotValue (slot + 2)
      callFrom call f #[state, control] (some wanted) (some .iterator)
      return none
    | .iterTest slot count exit => iterTest slot count exit; return none
    | .closable slot name =>
      match ← slotValue slot with
      | .nil | .bool false => return none
      | _ => fail ("variable '" ++ name ++ "' got a non-closable value").toUTF8

end Exec

end SlideDeck.Script
