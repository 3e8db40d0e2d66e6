import SlideDeck.Script.Code

/-!
A function while it is being read: its code so far, the variables in scope, and the labels and jumps of
its open blocks.
-/

namespace SlideDeck.Script

structure LocalVar where
  name : String
  slot : Nat
  isConst : Bool := false
  deriving Inhabited

structure OuterVar where
  name : String
  capture : Capture
  isConst : Bool
  deriving Inhabited

structure Label where
  name : String
  target : Nat
  line : Nat
  /-- How many variables are in scope at the label. -/
  active : Nat

structure PendingJump where
  name : String
  site : Nat
  line : Nat
  active : Nat

structure Block where
  isLoop : Bool := false
  /-- Whether some variable to be closed is in scope. -/
  closing : Bool := false
  /-- How many variables were in scope before the block. -/
  active : Nat := 0
  labels : List Label := []
  jumps : List PendingJump := []
  deriving Inhabited

structure Scope where
  instrs : Array Instr := #[]
  lines : Array Nat := #[]
  params : Nat := 0
  isVararg : Bool := false
  /-- Zero for the body of the script. -/
  line : Nat := 0
  /-- The variables in scope, the newest first. -/
  locals : List LocalVar := []
  slots : Nat := 0
  outers : Array OuterVar := #[]
  /-- The open blocks, the innermost first. -/
  blocks : List Block := []
  deriving Inhabited

inductive Binding where
  | slot (slot : Nat) (isConst : Bool)
  | outer (index : Nat) (isConst : Bool)

namespace Scope

def here (s : Scope) : Nat := s.instrs.size

def emit (s : Scope) (i : Instr) (line : Nat) : Scope :=
  { s with instrs := s.instrs.push i, lines := s.lines.push line }

def replace (s : Scope) (site : Nat) (i : Instr) : Scope := { s with instrs := s.instrs.set! site i }

def patch (s : Scope) (site target : Nat) : Scope :=
  { s with instrs := s.instrs.modify site fun i => match i with
    | .jump _ => .jump target
    | .jumpIfFalse _ => .jumpIfFalse target
    | .jumpKeepFalse _ => .jumpKeepFalse target
    | .jumpKeepTrue _ => .jumpKeepTrue target
    | .forPrepare slot _ => .forPrepare slot target
    | .iterTest slot count _ => .iterTest slot count target
    | i => i }

def active (s : Scope) : Nat := s.locals.length

def addLocal (s : Scope) (name : String) (isConst : Bool) : Scope :=
  let slot := s.active
  { s with locals := ⟨name, slot, isConst⟩ :: s.locals, slots := max s.slots (slot + 1) }

def outerIndex (name : String) (vars : List OuterVar) : Option (Nat × Bool) :=
  (vars.zipIdx.find? fun v => v.1.name == name).map fun v => (v.2, v.1.isConst)

def find? (s : Scope) (name : String) : Option Binding :=
  match s.locals.find? fun v => v.name == name with
  | some v => some (.slot v.slot v.isConst)
  | none => (outerIndex name s.outers.toList).map fun (i, c) => .outer i c

/-- What `name` refers to in the innermost of nested functions. A variable of an enclosing function is
handed down through all functions between. -/
def resolve (name : String) : List Scope → Option (Binding × List Scope)
  | [] => none
  | s :: rest =>
    match s.find? name with
    | some b => some (b, s :: rest)
    | none =>
      match resolve name rest with
      | none => none
      | some (b, rest) =>
        let (capture, isConst) : Capture × Bool := match b with
          | .slot slot c => (.ofSlot slot, c)
          | .outer i c => (.ofOuter i, c)
        some (.outer s.outers.size isConst,
          { s with outers := s.outers.push ⟨name, capture, isConst⟩ } :: rest)

def enter (s : Scope) (isLoop : Bool) : Scope :=
  let closing := (s.blocks.head?.map (·.closing)).getD false
  { s with blocks := { isLoop, closing, active := s.active } :: s.blocks }

def markClosing (s : Scope) : Scope :=
  match s.blocks with
  | [] => s
  | b :: rest => { s with blocks := { b with closing := true } :: rest }

def isClosing (s : Scope) : Bool := (s.blocks.head?.map (·.closing)).getD false

def label? (s : Scope) (name : String) : Option Label :=
  s.blocks.findSome? fun b => b.labels.find? fun l => l.name == name

def addJump (s : Scope) (j : PendingJump) : Scope :=
  match s.blocks with
  | [] => s
  | b :: rest => { s with blocks := { b with jumps := b.jumps ++ [j] } :: rest }

/-- The variable that comes into scope between a jump and its label. -/
def skippedVariable (s : Scope) (j : PendingJump) : String :=
  match s.locals.find? fun v => v.slot = j.active with
  | some v => v.name
  | none => "?"

/-- Lets the pending jumps of the innermost block to `name` go to `target`. Fails with the first that
would come into the scope of a variable. -/
def settle (s : Scope) (name : String) (target active : Nat) : Except (PendingJump × String) Scope :=
  match s.blocks with
  | [] => .ok s
  | b :: rest =>
    let mine := b.jumps.filter fun j => j.name == name
    match mine.find? fun j => j.active < active with
    | some j => .error (j, s.skippedVariable j)
    | none =>
      let s := mine.foldl (fun s j => s.patch j.site target) s
      .ok { s with blocks := { b with jumps := b.jumps.filter fun j => j.name != name } :: rest }

def addLabel (s : Scope) (l : Label) : Scope :=
  match s.blocks with
  | [] => s
  | b :: rest => { s with blocks := { b with labels := l :: b.labels } :: rest }

/-- Leaves the innermost block: its variables and labels go, its pending jumps pass to the block
around it, or fail with the first of them if there is none. -/
def leave (s : Scope) : Except PendingJump Scope :=
  match s.blocks with
  | [] => .ok s
  | b :: rest =>
    let s := { s with locals := s.locals.drop (s.active - b.active), blocks := rest }
    let jumps := if b.isLoop then b.jumps.filter fun j => j.name != "break" else b.jumps
    let breaks := if b.isLoop then b.jumps.filter fun j => j.name == "break" else []
    let s := breaks.foldl (fun s j => s.patch j.site s.here) s
    match rest, jumps with
    | _, [] => .ok s
    | [], j :: _ => .error j
    | outer :: more, jumps =>
      let moved := jumps.map fun j => { j with active := min j.active b.active }
      .ok { s with blocks := { outer with jumps := outer.jumps ++ moved } :: more }

def toCode (s : Scope) : Code :=
  { instrs := s.instrs, lines := s.lines, params := s.params, isVararg := s.isVararg, slots := s.slots,
    captures := s.outers.map (·.capture), definedAt := s.line }

end Scope

end SlideDeck.Script
