import SlideDeck.Script.Machine

/-!
What the operators of scripts do with their operands, with the messages of their errors.
-/

namespace SlideDeck.Script.Exec

/-! Text -/

/-- The text of an address; which one is not part of the meaning of a script. -/
def addressText (kind : String) (n : Nat) : String :=
  kind ++ ": 0x" ++ String.ofList (List.replicate 14 '0') ++ toString n

def displayBytes : Value → ByteArray
  | .nil => "nil".toUTF8
  | .bool b => (if b then "true" else "false").toUTF8
  | .int n => (intText n).toUTF8
  | .float x => (floatText x).toUTF8
  | .string s => s
  | .table a => (addressText "table" a).toUTF8
  | .function (.closure a) => (addressText "function" a).toUTF8
  | .function (.builtin _) => (addressText "function: builtin" 0).toUTF8
  | .foreign k a => (addressText (Value.foreign k a).typeName a).toUTF8
  | .fault f => f.text.toUTF8

/-! Fields -/

def undefinedHosts : List Host := [.function .error, .guard]

/-- Reading a name that is not bound. The position is that of the script, unless a host function reads
the environment. -/
def undefined {α : Type} (key : Key) (byScript : Bool) : Exec α := do
  let line ← line?
  let message := "undefined variable '".toUTF8 ++ displayBytes key.toValue ++ "'".toUTF8
  modify fun m => { m with hosts := undefinedHosts ++ m.hosts }
  raise (.string ((if byScript then position line else "").toUTF8 ++ message))

def tableGet (a : Nat) (key : Value) (byScript : Bool) : Exec Value := do
  match Key.ofValue key with
  | .error _ => return .nil
  | .ok k =>
    let t ← table a
    match t.get k with
    | .nil => if t.strict then undefined k byScript else return .nil
    | v => return v

def index (object key : Value) (origin : Option Origin) : Exec Value := do
  match object with
  | .table a => tableGet a key true
  | .string _ => tableGet (← get).stringMethods key true
  | v => typeError "index" v origin

def setIndex (object key value : Value) (origin : Option Origin) : Exec Unit := do
  match object with
  | .table a =>
    match Key.ofValue key with
    | .ok k => setEntry a k value
    | .error e => fail e.message.toUTF8
  | v => typeError "index" v origin

/-! Arithmetic -/

/-- Operands that are not numbers. If one of them is a string, a function for strings fails, whose message
names the first. -/
def arithmeticFail {α : Type} (op : Operator) (a b : Value) (p q : Option Origin) : Exec α := do
  let isString (v : Value) : Bool := v.typeName == "string"
  if op.isBitwise then
    if a.isNumber then typeError "perform bitwise operation on" b q
    else typeError "perform bitwise operation on" a p
  else if isString a || isString b then
    modify fun m => { m with hosts := .helper :: m.hosts }
    typeError "perform arithmetic on" a none
  else if a.isNumber then typeError "perform arithmetic on" b q
  else typeError "perform arithmetic on" a p

def arithmetic (op : Operator) (a b : Value) (p q : Option Origin) : Exec Value := do
  match arith op a b with
  | .ok v => return v
  | .error .divisionByZero => fail "attempt to divide by zero".toUTF8
  | .error .remainderByZero => fail "attempt to perform 'n%0'".toUTF8
  | .error .notWhole =>
    let origin := if (a.toInt?).isSome then q else p
    fail ("number".toUTF8 ++ describe origin ++ " has no integer representation".toUTF8)
  | .error .notNumbers => arithmeticFail op a b p q

def unary (op : UnaryOperator) (v : Value) (origin : Option Origin) : Exec Value := do
  match op with
  | .not => return .bool (!v.isTruthy)
  | .negate =>
    match negate v with
    | .ok r => return r
    | .error _ => arithmeticFail .sub v v origin origin
  | .complement =>
    match complement v with
    | .ok r => return r
    | .error .notWhole =>
      fail ("number".toUTF8 ++ describe origin ++ " has no integer representation".toUTF8)
    | .error _ => typeError "perform bitwise operation on" v origin
  | .length =>
    match v with
    | .string s => return .int (Int64.ofNat s.size)
    | .table a => return .int (Int64.ofNat (← table a).length)
    | v => typeError "get length of" v origin

/-! Order -/

def compareFail {α : Type} (a b : Value) : Exec α :=
  if a.typeName = b.typeName then
    fail ("attempt to compare two " ++ a.typeName ++ " values").toUTF8
  else fail ("attempt to compare " ++ a.typeName ++ " with " ++ b.typeName).toUTF8

def less (a b : Value) : Exec Bool := do
  match less? a b with
  | some r => return r
  | none => compareFail a b

def lessEq (a b : Value) : Exec Bool := do
  match lessEq? a b with
  | some r => return r
  | none => compareFail a b

def compare (op : Comparison) (a b : Value) : Exec Bool := do
  match op with
  | .eq => return a.equals b
  | .ne => return !a.equals b
  | .lt => less a b
  | .le => lessEq a b
  | .gt => less b a
  | .ge => lessEq b a

/-! Concatenation -/

/-- Joins operands from the last to the first; given in that order, with what they are called. -/
def concat : List (Value × Option Origin) → Exec Value
  | [] => return .ofString ""
  | [(v, _)] => return v
  | (b, q) :: rest => do
    match b.toBytes? with
    | some last => go last q rest
    | none =>
      match rest with
      | (a, p) :: _ =>
        if (a.toBytes?).isSome then typeError "concatenate" b q else typeError "concatenate" a p
      | [] => return b
where
  go (acc : ByteArray) (_q : Option Origin) : List (Value × Option Origin) → Exec Value
    | [] => text acc
    | (a, p) :: rest => do
      match a.toBytes? with
      | some s => go (s ++ acc) p rest
      | none => typeError "concatenate" a p

end SlideDeck.Script.Exec
