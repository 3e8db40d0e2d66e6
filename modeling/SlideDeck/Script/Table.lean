import SlideDeck.Script.Value

/-!
Tables. Entries are kept in the order in which their keys first came; a removed entry keeps its place
with the value nil. `dense` is how many of the positions from one on count as a list: it decides the
border that the length operator finds and the order of a traversal, in which those positions come
first. It is reconsidered whenever the places for other keys are used up.
-/

namespace SlideDeck.Script

structure Table where
  slots : Array (Key × Value) := #[]
  /-- Where each key stands in `slots`. -/
  index : Std.HashMap Key Nat := {}
  dense : Nat := 0
  /-- Places for keys outside of `dense`, and how many of them are taken. -/
  room : Nat := 0
  taken : Nat := 0
  /-- Whether reading an absent key is an error. -/
  strict : Bool := false
  deriving Inhabited

namespace Table

def get (t : Table) (k : Key) : Value :=
  match t.index[k]? with
  | none => .nil
  | some i => match t.slots[i]? with
    | none => .nil
    | some slot => slot.2

def getNat (t : Table) (n : Nat) : Value := t.get (.int (Int64.ofNat n))

def getString (t : Table) (s : String) : Value := t.get (.string s.toUTF8)

def entries (t : Table) : List (Key × Value) := t.slots.toList.filter fun e => !e.2.isNil

/-- The least power of two that is at least `n`; zero for zero. -/
def roomFor (n : Nat) : Nat :=
  if n = 0 then 0 else if n = 1 then 1 else 2 ^ (Nat.log2 (n - 1) + 1)

def countUpTo (keys : List Nat) (n : Nat) : Nat := keys.countP fun k => 0 < k && k ≤ n

/-- The greatest power of two such that more than half of the positions up to it are used. -/
def denseFor (keys : List Nat) : Nat :=
  (List.range 31).foldl
    (fun best e => if 2 ^ e / 2 < countUpTo keys (2 ^ e) && 2 ^ e / 2 < keys.length then 2 ^ e else best) 0

def position? : Key → Option Nat
  | .int n => if 0 < n then some n.toNatClampNeg else none
  | _ => none

def isDense (t : Table) (k : Key) : Bool :=
  match position? k with
  | some n => n ≤ t.dense
  | none => false

def rearrange (t : Table) (fresh : Key) : Table :=
  let keys := fresh :: t.entries.map (·.1)
  let dense := denseFor (keys.filterMap position?)
  let outside := keys.countP fun k =>
    match position? k with
    | some n => dense < n
    | none => true
  { t with dense := dense, room := roomFor outside, taken := outside }

def makeRoom (t : Table) (k : Key) : Table :=
  if t.isDense k then t
  else if t.taken < t.room then { t with taken := t.taken + 1 }
  else t.rearrange k

/-- Storing nil removes. -/
def set (t : Table) (k : Key) (v : Value) : Table :=
  match t.index[k]? with
  | some i => { t with slots := t.slots.modify i fun e => (e.1, v) }
  | none =>
    if v.isNil then t
    else
      let t := t.makeRoom k
      let place := t.slots.size
      { t with index := t.index.insert k place, slots := t.slots.push (k, v) }

def setNat (t : Table) (n : Nat) (v : Value) : Table := t.set (.int (Int64.ofNat n)) v

def setString (t : Table) (s : String) (v : Value) : Table := t.set (.string s.toUTF8) v

def bytes (t : Table) : Nat := 16 * t.dense + 40 * t.room

def sized (items keys : Nat) : Table := { dense := items, room := roomFor keys }

def ofList (vs : List Value) : Table :=
  vs.foldl (fun (t, n) v => (t.setNat n v, n + 1)) (sized vs.length 0, 1) |>.1

/-- Between a used position `low` (or zero) and an unused one `high`: a border, by bisection. -/
def bisect (t : Table) : Nat → Nat → Nat → Nat
  | 0, low, _ => low
  | fuel + 1, low, high =>
    if high ≤ low + 1 then low
    else
      let mid := (low + high) / 2
      if (t.getNat mid).isNil then t.bisect fuel low mid else t.bisect fuel mid high

def widen (t : Table) : Nat → Nat → Nat
  | 0, low => low
  | fuel + 1, low =>
    let high := if low = 0 then 1 else 2 * low
    if (t.getNat high).isNil then t.bisect 64 low high else t.widen fuel high

/-- A border: a used position (or zero) before an unused one. -/
def length (t : Table) : Nat :=
  if 0 < t.dense && (t.getNat t.dense).isNil then
    if 1 < t.dense && !(t.getNat (t.dense - 1)).isNil then t.dense - 1 else t.bisect 64 0 t.dense
  else if (t.getNat (t.dense + 1)).isNil then t.dense
  else t.widen 64 (t.dense + 1)

def denseAfter (t : Table) : Nat → Nat → Option (Key × Value)
  | 0, _ => none
  | fuel + 1, n =>
    match t.getNat (n + 1) with
    | .nil => t.denseAfter fuel (n + 1)
    | v => some (.int (Int64.ofNat (n + 1)), v)

def looseFrom (t : Table) : Nat → Nat → Option (Key × Value)
  | 0, _ => none
  | fuel + 1, i =>
    match t.slots[i]? with
    | none => none
    | some (k, v) => if v.isNil || t.isDense k then t.looseFrom fuel (i + 1) else some (k, v)

def after (t : Table) (n : Nat) : Option (Key × Value) :=
  match t.denseAfter (t.dense - n) n with
  | some e => some e
  | none => t.looseFrom t.slots.size 0

/-- What a traversal meets after a key, or first of all; the outer `none` means that the key was never
in the table. -/
def next (t : Table) : Option Key → Option (Option (Key × Value))
  | none => some (t.after 0)
  | some k =>
    match position? k with
    | some n =>
      if n ≤ t.dense then some (t.after n)
      else (t.index[k]?).map fun i => t.looseFrom (t.slots.size - i) (i + 1)
    | none => (t.index[k]?).map fun i => t.looseFrom (t.slots.size - i) (i + 1)

end Table

end SlideDeck.Script
