import SlideDeck.Script.Reading

/-!
Expressions, read into code that leaves one value on the stack. The last step of an expression is held
back until it is known what becomes of it: whether it is read, assigned to or called, and how many
values of it are wanted.
-/

namespace SlideDeck.Script

/-- An expression whose last step is held back. -/
inductive Operand where
  | constant (v : Value)
  | slot (slot : Nat) (name : String) (isConst : Bool)
  | outer (index : Nat) (name : String) (isConst : Bool)
  /-- An object and a key on the stack. -/
  | indexed (object result : Option Origin)
  /-- A call, the last instruction so far. -/
  | call
  /-- The extra arguments, the last instruction so far. -/
  | varargs
  /-- A concatenation, the last instruction so far. -/
  | joined (operands : List (Option Origin))
  | value (origin : Option Origin)
  deriving Inhabited

namespace Parse

structure Inner where
  /-- An expression whose operators bind more tightly than `limit`. -/
  expr : (limit : Nat) → Parse Operand
  statement : Parse Unit

/-- Puts the value on the stack and answers how messages name it. -/
def discharge : Operand → Parse (Option Origin)
  | .constant v => do
    emit (.push v)
    match v with
    | .string s => return some ⟨.constant, s⟩
    | _ => return none
  | .slot i n _ => do
    emit (.load i)
    return some (.ofName .ownVariable n)
  | .outer i n _ => do
    emit (.loadOuter i)
    return some (.ofName .upvalue n)
  | .indexed object result => do
    emit (.index object)
    return result
  | .call | .varargs | .joined _ => return none
  | .value origin => return origin

def discharge' (e : Operand) : Parse Unit := do let _ ← discharge e

def Operand.isOpen : Operand → Bool
  | .call | .varargs => true
  | _ => false

def want (count : Option Nat) : Parse Unit :=
  modifyScope fun s => { s with instrs := s.instrs.modify (s.here - 1) fun i => match i with
    | .call args isOpen _ callee => .call args isOpen count callee
    | .varargs _ => .varargs count
    | i => i }

/-- How messages name a field of an object. -/
def fieldOrigin (object : Option Origin) (field : ByteArray) : Origin :=
  match object with
  | some o =>
    if (o.kind = .ownVariable ∨ o.kind = .upvalue) ∧ o.name = "_ENV".toUTF8 then ⟨.global, field⟩
    else ⟨.field, field⟩
  | none => ⟨.field, field⟩

def keyOrigin (object : Option Origin) : Operand → Origin
  | .constant (.string s) => fieldOrigin object s
  | .constant (.int n) =>
    if 0 ≤ n ∧ n < 256 then .ofName .field "integer index" else .ofName .field "?"
  | _ => .ofName .field "?"

def field (object : Operand) (key : String) : Parse Operand := do
  let o ← discharge object
  emit (.push (.ofString key))
  return .indexed o (some (fieldOrigin o key.toUTF8))

def ofBinding (name : String) : Binding → Operand
  | .slot i c => .slot i name c
  | .outer i c => .outer i name c

def named (name : String) : Parse Operand := do
  match ← resolve name with
  | some b => return ofBinding name b
  | none =>
    match ← resolve "_ENV" with
    | some b => field (ofBinding "_ENV" b) name
    | none => return .constant .nil

def exprList (r : Inner) : Parse (Nat × Operand) := do
  let first ← r.expr 0
  loopFrom (1, first) fun (count, e) => do
    if ← accept "," then
      discharge' e
      let e ← r.expr 0
      return some (count + 1, e)
    else return none

/-- A list of expressions up to `mark`, all on the stack: how many there are, and whether behind them
the last one leaves all of its values. -/
def closedList (e : Nat × Operand) : Parse (Nat × Bool) := do
  if Operand.isOpen e.2 then
    want none
    return (e.1 - 1, true)
  else
    discharge' e.2
    return (e.1, false)

/-! Functions -/

def params : Parse Unit := do
  if !(← sees ")") then
    let more : Parse Bool := do
      match ← token with
      | .name s =>
        next
        let _ ← addLocal s false
        accept ","
      | t =>
        if t.isMark "..." then
          next
          modifyScope fun s => { s with isVararg := true }
          return false
        else failNear "<name> or '...' expected"
    loop more
  modifyScope fun s => { s with params := s.active }

def statements (r : Inner) : Parse Unit := do
  let body : Parse Bool := do
    let t ← token
    match t with
    | .eof => return false
    | _ =>
      if ["else", "elseif", "end", "until"].any t.isMark then return false
      else if t.isMark "return" then
        r.statement
        return false
      else
        r.statement
        return true
  loop body

def finish : Parse Nat := do
  emit (.ret 0 false)
  leaveBlock
  let code := (← scope).toCode
  modify fun r => { r with scopes := r.scopes.drop 1, program := r.program.push code }
  return (← get).program.size - 1

def body (r : Inner) (isMethod : Bool) (start : Nat) : Parse Operand := do
  modify fun r => { r with scopes := ({ line := start } : Scope).enter false :: r.scopes }
  expect "("
  if isMethod then
    let _ ← addLocal "self" false
  params
  expect ")"
  statements r
  close "end" "function" start
  let number ← finish
  emit (.closure number)
  return .value none

/-! Tables -/

structure TableItems where
  /-- List items on the stack or held back, not stored yet. -/
  waiting : Nat := 0
  stored : Nat := 0
  keys : Nat := 0
  held : Option Operand := none

/-- Puts a list item that was held back on the stack; fifty at a time are stored. -/
def settleItem (t : TableItems) : Parse TableItems := do
  match t.held with
  | none => return t
  | some e =>
    discharge' e
    if t.waiting = 50 then
      emit (.addItems 50 (t.stored + 1) false)
      return { t with held := none, waiting := 0, stored := t.stored + 50 }
    else return { t with held := none }

def recordField (r : Inner) (t : TableItems) : Parse TableItems := do
  match ← token with
  | .name s =>
    next
    emit (.push (.ofString s))
  | _ =>
    next
    discharge' (← r.expr 0)
    expect "]"
  expect "="
  discharge' (← r.expr 0)
  emit (.addField t.waiting)
  return { t with keys := t.keys + 1 }

def listItem (r : Inner) (t : TableItems) : Parse TableItems := do
  let e ← r.expr 0
  return { t with held := some e, waiting := t.waiting + 1 }

def tableField (r : Inner) (t : TableItems) : Parse TableItems := do
  match ← token with
  | .name _ =>
    if (← peek).isMark "=" then recordField r t else listItem r t
  | k => if k.isMark "[" then recordField r t else listItem r t

def finishItems (t : TableItems) : Parse TableItems := do
  match t.held with
  | none =>
    if t.waiting ≠ 0 then emit (.addItems t.waiting (t.stored + 1) false)
    return { t with stored := t.stored + t.waiting }
  | some e =>
    if Operand.isOpen e then
      want none
      emit (.addItems (t.waiting - 1) (t.stored + 1) true)
      return { t with stored := t.stored + t.waiting - 1 }
    else
      discharge' e
      emit (.addItems t.waiting (t.stored + 1) false)
      return { t with stored := t.stored + t.waiting }

def table (r : Inner) : Parse Operand := do
  let start ← line
  let site ← here
  emit (.newTable 0 0)
  expect "\x7b"
  let fields : TableItems × Bool → Parse (Option (TableItems × Bool)) := fun (t, more) => do
    if !more || (← sees "\x7d") then return none
    let t ← tableField r (← settleItem t)
    if ← accept "," then return some (t, true)
    return some (t, ← accept ";")
  let (t, _) ← loopFrom ({}, true) fields
  close "\x7d" "\x7b" start
  let t ← finishItems t
  modifyScope fun s => s.replace site (.newTable t.stored t.keys)
  return .value none

/-! Calls and fields -/

def arguments (r : Inner) (callee : Option Origin) (extra : Nat) : Parse Operand := do
  let start ← line
  let (count, isOpen) ← match ← token with
    | .string s _ => do
      next
      emit (.push (.string s))
      pure (1, false)
    | t =>
      if t.isMark "\x7b" then do
        discharge' (← table r)
        pure (1, false)
      else if t.isMark "(" then do
        next
        if ← accept ")" then pure (0, false)
        else
          let es ← exprList r
          if Operand.isOpen es.2 then want none
          close ")" "(" start
          closedList es
      else failNear "function arguments expected"
  emitAt start (.call (count + extra) isOpen (some 1) callee)
  return .call

def primary (r : Inner) : Parse Operand := do
  match ← token with
  | .name s =>
    next
    named s
  | t =>
    if t.isMark "(" then
      let start ← line
      next
      let e ← r.expr 0
      close ")" "(" start
      match e with
      | .constant v => return .constant v
      | e => return .value (← discharge e)
    else failNear "unexpected symbol"

def suffix (r : Inner) (e : Operand) : Parse (Option Operand) := do
  match ← token with
  | .string _ _ =>
    let f ← discharge e
    return some (← arguments r f 0)
  | t =>
    if t.isMark "." then
      let o ← discharge e
      next
      let key ← name
      emit (.push (.ofString key))
      return some (.indexed o (some (fieldOrigin o key.toUTF8)))
    else if t.isMark "[" then
      let o ← discharge e
      next
      let key ← r.expr 0
      let origin := keyOrigin o key
      expect "]"
      let found ← discharge key
      let origin := match found with
        | some ⟨.constant, s⟩ => fieldOrigin o s
        | _ => origin
      return some (.indexed o (some origin))
    else if t.isMark ":" then
      next
      let o ← discharge e
      let key ← name
      emit (.method key.toUTF8 o)
      return some (← arguments r (some (.ofName .method key)) 1)
    else if t.isMark "(" || t.isMark "\x7b" then
      let f ← discharge e
      return some (← arguments r f 0)
    else return none

def suffixed (r : Inner) : Parse Operand := do loopFrom (← primary r) (suffix r)

def literal? : Token → Option Value
  | .number v _ => some v
  | .string s _ => some (.string s)
  | .mark "nil" => some .nil
  | .mark "true" => some (.bool true)
  | .mark "false" => some (.bool false)
  | _ => none

def simple (r : Inner) : Parse Operand := do
  let t ← token
  match literal? t with
  | some v =>
    next
    return .constant v
  | none =>
    if t.isMark "..." then
      if !(← scope).isVararg then failNear "cannot use '...' outside a vararg function"
      emit (.varargs (some 1))
      next
      return .varargs
    else if t.isMark "\x7b" then table r
    else if t.isMark "function" then
      let start ← line
      next
      body r false start
    else suffixed r

/-! Operators -/

inductive BinaryForm where
  | arith (op : Operator)
  | compare (op : Comparison)
  | concat
  | and
  | or

/-- A binary operator with how tightly it binds on its left and on its right. -/
def binaryForms : List (String × BinaryForm × Nat × Nat) :=
  [("or", .or, 1, 1), ("and", .and, 2, 2),
    ("<", .compare .lt, 3, 3), (">", .compare .gt, 3, 3), ("<=", .compare .le, 3, 3),
    (">=", .compare .ge, 3, 3), ("~=", .compare .ne, 3, 3), ("==", .compare .eq, 3, 3),
    ("|", .arith .bor, 4, 4), ("~", .arith .bxor, 5, 5), ("&", .arith .band, 6, 6),
    ("<<", .arith .shiftLeft, 7, 7), (">>", .arith .shiftRight, 7, 7), ("..", .concat, 9, 8),
    ("+", .arith .add, 10, 10), ("-", .arith .sub, 10, 10), ("*", .arith .mul, 11, 11),
    ("/", .arith .div, 11, 11), ("//", .arith .floorDiv, 11, 11), ("%", .arith .mod, 11, 11),
    ("^", .arith .pow, 14, 13)]

def unaryForms : List (String × UnaryOperator) :=
  [("not", .not), ("-", .negate), ("~", .complement), ("#", .length)]

def unaryLimit : Nat := 12

def unaryForm? : Token → Option UnaryOperator
  | .mark m => unaryForms.lookup m
  | _ => none

def binaryForm? : Token → Option (BinaryForm × Nat × Nat)
  | .mark m => binaryForms.lookup m
  | _ => none

/-- The right operand of an operator on line `start` whose left operand is `left`. -/
def rightOperand (r : Inner) (form : BinaryForm) (limit start : Nat) (left : Operand) : Parse Operand := do
  match form with
  | .and =>
    discharge' left
    let site ← emitJump (.jumpKeepFalse 0)
    discharge' (← r.expr limit)
    patchHere site
    return .value none
  | .or =>
    discharge' left
    let site ← emitJump (.jumpKeepTrue 0)
    discharge' (← r.expr limit)
    patchHere site
    return .value none
  | .concat =>
    let o ← discharge left
    match ← r.expr limit with
    | .joined os =>
      let os := o :: os
      modifyScope fun s => s.replace (s.here - 1) (.concat os)
      return .joined os
    | e =>
      let os := [o, ← discharge e]
      emitAt start (.concat os)
      return .joined os
  | .arith op =>
    let o ← discharge left
    let p ← discharge (← r.expr limit)
    emitAt start (.binary op o p)
    return .value none
  | .compare op =>
    discharge' left
    discharge' (← r.expr limit)
    emit (.compare op)
    return .value none

def binaryStep (r : Inner) (limit : Nat) (e : Operand) : Parse (Option Operand) := do
  match binaryForm? (← token) with
  | none => return none
  | some (form, left, right) =>
    if limit < left then
      let start ← line
      next
      return some (← rightOperand r form right start e)
    else return none

def expression (r : Inner) (limit : Nat) : Parse Operand := do
  match unaryForm? (← token) with
  | some op =>
    let start ← line
    next
    let o ← discharge (← r.expr unaryLimit)
    emitAt start (.unary op o)
    loopFrom (.value none) (binaryStep r limit)
  | none => loopFrom (← simple r) (binaryStep r limit)

end Parse

end SlideDeck.Script
