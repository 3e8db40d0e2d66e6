import SlideDeck.Script.Library.List

/-!
The functions on numbers.
-/

namespace SlideDeck.Script.Invocation

def pi : Float := 3.141592653589793

def whole (x : Float) : Value :=
  match exactInt? x with
  | some n => .int n
  | none => .float x

def mathRound (c : Invocation) (f : Float → Float) : Answer := do
  match c.arg 0 with
  | .int n => return #[.int n]
  | _ => return #[whole (f (← c.float 0))]

def mathApply (c : Invocation) (f : Float → Float) : Answer := do return #[.float (f (← c.float 0))]

def mathAbs (c : Invocation) : Answer := do
  match c.arg 0 with
  | .int n => return #[.int (if n < 0 then -n else n)]
  | _ => c.mathApply Float.abs

def mathAtan (c : Invocation) : Answer := do
  let y ← c.float 0
  let x ← if c.isAbsent 1 then pure 1.0 else c.float 1
  return #[.float (Float.atan2 y x)]

def mathFmod (c : Invocation) : Answer := do
  match c.arg 0, c.arg 1 with
  | .int m, .int n =>
    if n = 0 then c.argFail 1 "zero"
    else return #[.int (Int64.ofInt (Int.tmod m.toInt n.toInt))]
  | _, _ =>
    let x ← c.float 0
    return #[.float (truncMod x (← c.float 1))]

def mathLog (c : Invocation) : Answer := do
  let x ← c.float 0
  if c.isAbsent 1 then return #[.float x.log]
  else
    let base ← c.float 1
    if base == 2.0 then return #[.float x.log2]
    else if base == 10.0 then return #[.float x.log10]
    else return #[.float (x.log / base.log)]

/-- The argument that wins over all others, one that is `better` taking the place of the best so far. -/
def mathExtreme (c : Invocation) (better : Value → Value → Exec Bool) : Answer := do
  match c.args.toList with
  | [] => c.argFail 0 "value expected"
  | first :: rest =>
    let best ← rest.foldlM (fun best v => do
      return if ← better best v then v else best) first
    return #[best]

def mathMax (c : Invocation) : Answer := c.mathExtreme naturalOrder

def mathMin (c : Invocation) : Answer := c.mathExtreme fun best v => naturalOrder v best

def mathModf (c : Invocation) : Answer := do
  match c.arg 0 with
  | .int n => return #[.int n, .float 0.0]
  | _ =>
    let x ← c.float 0
    let w := if x < 0.0 then x.ceil else x.floor
    return #[.float w, .float (if x == w then 0.0 else x - w)]

def mathTointeger (c : Invocation) : Answer := do
  match (c.arg 0).toInt? with
  | some n => return #[.int n]
  | none =>
    let _ ← c.any 0
    return #[.nil]

def mathType (c : Invocation) : Answer := do
  match c.arg 0 with
  | .int _ => return #[.ofString "integer"]
  | .float _ => return #[.ofString "float"]
  | _ =>
    let _ ← c.any 0
    return #[.nil]

def mathUlt (c : Invocation) : Answer := do
  let a ← c.int 0
  return #[.bool (a.toUInt64 < (← c.int 1).toUInt64)]

def nextWord : Exec UInt64 := modifyGet fun m =>
  let (word, g) := m.random.next
  (word, { m with random := g })

def randomWithin (c : Invocation) (word : UInt64) (low high : Int64) : Answer := do
  if high < low then c.argFail 1 "interval is empty"
  let offset ← modifyGet fun m =>
    let (offset, g) := Generator.below (high.toUInt64 - low.toUInt64) 1000 word m.random
    (offset, { m with random := g })
  return #[.int (low.toUInt64 + offset).toInt64]

def mathRandom (c : Invocation) : Answer := do
  let word ← nextWord
  match c.args.size with
  | 0 => return #[.float (Generator.fraction word)]
  | 1 =>
    let high ← c.int 0
    if high = 0 then return #[.int word.toInt64] else c.randomWithin word 1 high
  | 2 =>
    let low ← c.int 0
    c.randomWithin word low (← c.int 1)
  | _ => c.fail "wrong number of arguments"

def mathRandomseed (c : Invocation) : Answer := do
  let (m, n) ← if c.args.isEmpty then do
      let word ← nextWord
      pure (word, ← nextWord)
    else do
      let seed ← match ← c.number 0 with
        | .int n => pure n.toUInt64
        | v =>
          let x := (v.toFloat?).getD 0.0
          pure (match exactInt? x with
            | some n => n.toUInt64
            | none => x.toBits)
      pure (seed, (← c.intOr 1 0).toUInt64)
  modify fun s => { s with random := .ofSeed m n }
  return #[.int m.toInt64, .int n.toInt64]

end SlideDeck.Script.Invocation
