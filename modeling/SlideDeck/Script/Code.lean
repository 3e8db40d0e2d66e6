import SlideDeck.Script.Number

/-!
The code of script functions, for a machine with a stack of operands and numbered variables. Jumps name
their target absolutely.
-/

namespace SlideDeck.Script

def upToZero (bytes : ByteArray) : ByteArray := ⟨bytes.data.takeWhile (· != 0)⟩

structure Origin where
  kind : OriginKind
  name : ByteArray
  deriving DecidableEq, Inhabited

namespace Origin

def ofName (kind : OriginKind) (name : String) : Origin := ⟨kind, name.toUTF8⟩

def text (o : Origin) : ByteArray := upToZero o.name

def iterator : Origin := .ofName .iterator "for iterator"

def event (name : String) : Origin := .ofName .metamethod name

end Origin

inductive Comparison where
  | eq | ne | lt | le | gt | ge
  deriving DecidableEq, Repr, Inhabited

inductive UnaryOperator where
  | negate | not | length | complement
  deriving DecidableEq, Repr, Inhabited

inductive Instr where
  | push (v : Value)
  | drop (count : Nat)
  /-- The value of a variable of this function. -/
  | load (slot : Nat)
  | store (slot : Nat)
  /-- The top becomes the value of a fresh variable. -/
  | declare (slot : Nat)
  /-- The value of a variable of an enclosing function. -/
  | loadOuter (index : Nat)
  | storeOuter (index : Nat)
  /-- From an object and a key to the value under it. -/
  | index (object : Option Origin)
  /-- Stores the top under an object and a key that stand `depth` below it. -/
  | assign (depth : Nat) (object : Option Origin)
  /-- From an object to its method and itself. -/
  | method (name : ByteArray) (object : Option Origin)
  | unary (op : UnaryOperator) (operand : Option Origin)
  | binary (op : Operator) (left right : Option Origin)
  | compare (op : Comparison)
  /-- Joins the topmost operands, from the last to the first. -/
  | concat (operands : List (Option Origin))
  | jump (target : Nat)
  | jumpIfFalse (target : Nat)
  /-- Jumps and keeps the top if it is false; otherwise drops it. -/
  | jumpKeepFalse (target : Nat)
  | jumpKeepTrue (target : Nat)
  | newTable (items keys : Nat)
  /-- Stores the top under the key below it in the table `depth` below them. -/
  | addField (depth : Nat)
  /-- Stores the topmost `count` values, and open ones behind them, as a table's positions. -/
  | addItems (count first : Nat) (isOpen : Bool)
  /-- Calls what stands below the arguments; `wanted` is how many results to keep, none for all. -/
  | call (args : Nat) (isOpen : Bool) (wanted : Option Nat) (callee : Option Origin)
  | tailCall (args : Nat) (isOpen : Bool) (callee : Option Origin)
  | ret (count : Nat) (isOpen : Bool)
  | varargs (wanted : Option Nat)
  | closure (function : Nat)
  /-- Takes start, limit and step off the stack; leaves the loop if it has no round. -/
  | forPrepare (slot exit : Nat)
  | forLoop (slot body : Nat)
  | iterCall (slot wanted : Nat)
  | iterTest (slot count exit : Nat)
  /-- Refuses a variable to be closed that cannot be. -/
  | closable (slot : Nat) (name : String)
  deriving Inhabited

def Operator.event : Operator → String
  | .add => "add" | .sub => "sub" | .mul => "mul" | .div => "div" | .floorDiv => "idiv" | .mod => "mod"
  | .pow => "pow" | .band => "band" | .bor => "bor" | .bxor => "bxor" | .shiftLeft => "shl"
  | .shiftRight => "shr"

def UnaryOperator.event? : UnaryOperator → Option String
  | .negate => some "unm" | .complement => some "bnot" | .length => some "len" | .not => none

def Comparison.event : Comparison → String
  | .eq | .ne => "eq" | .lt | .gt => "lt" | .le | .ge => "le"

def Instr.callee? : Instr → Option Origin
  | .call _ _ _ callee | .tailCall _ _ callee => callee
  | .iterCall _ _ => some .iterator
  | .index _ | .method _ _ => some (.event "index")
  | .assign _ _ | .addField _ => some (.event "newindex")
  | .unary op _ => op.event?.map .event
  | .binary op _ _ => some (.event op.event)
  | .compare op => some (.event op.event)
  | .concat _ => some (.event "concat")
  | _ => none

/-- Where a function finds a variable of an enclosing function when it is made. -/
inductive Capture where
  | ofSlot (slot : Nat)
  | ofOuter (index : Nat)
  deriving DecidableEq, Repr, Inhabited

structure Code where
  instrs : Array Instr := #[]
  /-- The line of each instruction. -/
  lines : Array Nat := #[]
  params : Nat := 0
  isVararg : Bool := false
  slots : Nat := 0
  captures : Array Capture := #[]
  /-- The line where the function begins; zero for the body of the script. -/
  definedAt : Nat := 0
  deriving Inhabited

/-- The functions of a script; the last one is its body. -/
abbrev Program := Array Code

/-! Memory -/

def Instr.bytes : Instr → Nat
  | .push (.string s) => 45 + s.size
  | .push _ => 21
  | _ => 5

def Code.bytes (c : Code) : Nat := c.instrs.foldl (fun n i => n + i.bytes) (128 + 16 * c.captures.size)

def Program.bytes (p : Program) : Nat := p.foldl (fun n c => n + c.bytes) 0

end SlideDeck.Script
