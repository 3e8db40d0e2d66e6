import SlideDeck.Script.Format
import SlideDeck.Script.Library.Base
import SlideDeck.Script.Pattern

/-!
The functions on byte strings. Positions are counted from one, or from the end if they are negative.
-/

namespace SlideDeck.Script.Invocation

def startPosition (n : Int64) (length : Nat) : Nat :=
  let i := n.toInt
  if 0 < i then i.toNat
  else if i = 0 then 1
  else if i < -(length : Int) then 1
  else (length + i + 1).toNat

def endPosition (n : Int64) (length : Nat) : Nat :=
  let i := n.toInt
  if (length : Int) < i then length
  else if 0 ≤ i then i.toNat
  else if i < -(length : Int) then 0
  else (length + i + 1).toNat

def stringSub (c : Invocation) : Answer := do
  let s ← c.bytes 0
  let i := startPosition (← c.int 1) s.size
  let j := endPosition (← c.intOr 2 (-1)) s.size
  return #[← Exec.text (s.extract (i - 1) j)]

def stringByte (c : Invocation) : Answer := do
  let s ← c.bytes 0
  let first ← c.intOr 1 1
  let i := startPosition first s.size
  let j := endPosition (← c.intOr 2 (Int64.ofNat i)) s.size
  return (s.extract (i - 1) j).data.map fun b => Value.int (Int64.ofNat b.toNat)

def stringChar (c : Invocation) : Answer := do
  let bytes ← (List.range c.args.size).mapM fun i => do
    let n ← c.int i
    if n < 0 ∨ 255 < n then c.argFail i "value out of range"
    return UInt8.ofNat n.toNatClampNeg
  return #[← Exec.text ⟨bytes.toArray⟩]

def stringLen (c : Invocation) : Answer := do return #[.int (Int64.ofNat (← c.bytes 0).size)]

def mapBytes (f : UInt8 → UInt8) (s : ByteArray) : ByteArray := ⟨s.data.map f⟩

def stringLower (c : Invocation) : Answer := do
  return #[← Exec.text (mapBytes Pattern.lowerByte (← c.bytes 0))]

def stringUpper (c : Invocation) : Answer := do
  return #[← Exec.text (mapBytes Pattern.upperByte (← c.bytes 0))]

def stringReverse (c : Invocation) : Answer := do
  return #[← Exec.text ⟨(← c.bytes 0).data.reverse⟩]

def copies (s : ByteArray) : Nat → Nat → ByteArray
  | 0, _ => ByteArray.empty
  | fuel + 1, n =>
    if n = 0 then ByteArray.empty
    else
      let half := copies s fuel (n / 2)
      let both := half ++ half
      if n % 2 = 1 then both ++ s else both

def hugeText : Nat := 2 ^ 31

def stringRep (c : Invocation) : Answer := do
  let s ← c.bytes 0
  let n ← c.int 1
  let separator ← c.bytesOr 2 ByteArray.empty
  if n ≤ 0 then return #[.ofString ""]
  else
    let count := n.toNatClampNeg
    let total := count * s.size + (count - 1) * separator.size
    if 2 ^ 63 - 1 < count * (s.size + separator.size) then c.fail "resulting string too large"
    else if hugeText < total then throw .outOfMemory
    else
      Exec.charge (24 + total)
      return #[.string (copies (s ++ separator) 64 (count - 1) ++ s)]

/-! Patterns -/

def lift {α : Type} (c : Invocation) : Except Pattern.Problem α → Exec α
  | .ok a => return a
  | .error e => c.fail e.message

def isAnchored (pattern : ByteArray) : Bool := pattern[0]? == some 94

def lookFor (c : Invocation) (finds : Bool) : Answer := do
  let s ← c.bytes 0
  let p ← c.bytes 1
  let start := startPosition (← c.intOr 2 1) s.size - 1
  if s.size < start then return #[.nil]
  else if finds && ((c.arg 3).isTruthy || Pattern.isPlain p) then
    match Pattern.findPlain s p (s.size + 1) start with
    | some i => return #[.int (Int64.ofNat (i + 1)), .int (Int64.ofNat (i + p.size))]
    | none => return #[.nil]
  else
    match ← c.lift (Pattern.search s p (isAnchored p) (s.size + 1) start) with
    | none => return #[.nil]
    | some (i, e, captures) =>
      if finds then
        let values ← c.lift (Pattern.captureValues s i e captures false)
        return #[Value.int (Int64.ofNat (i + 1)), .int (Int64.ofNat e)] ++ values
      else c.lift (Pattern.captureValues s i e captures true)

def stringGmatch (c : Invocation) : Answer := do
  let s ← c.bytes 0
  let p ← c.bytes 1
  let start := min (startPosition (← c.intOr 2 1) s.size - 1) (s.size + 1)
  let id := (← get).iterations.size
  modify fun m => { m with
    iterations := m.iterations.push { subject := s, pattern := p, position := start, last := none } }
  return #[.function (.builtin (.stringGmatchStep id))]

/-- The next match that does not end where the last one did. -/
def nextMatch (i : MatchIteration) : Nat → Nat → Except Pattern.Problem (Option (Nat × Pattern.Found))
  | 0, _ => .ok none
  | fuel + 1, s =>
    if i.subject.size < s then .ok none
    else
      match Pattern.matchAt i.subject i.pattern s 0 with
      | .error e => .error e
      | .ok (some (e, captures)) =>
        if some e = i.last then nextMatch i fuel (s + 1) else .ok (some (s, e, captures))
      | .ok none => nextMatch i fuel (s + 1)

def stringGmatchStep (c : Invocation) (id : Nat) : Answer := do
  match (← get).iterations[id]? with
  | none => return #[.nil]
  | some i =>
    match ← c.lift (nextMatch i (i.subject.size + 2) i.position) with
    | none =>
      modify fun m => { m with
        iterations := m.iterations.set! id { i with position := i.subject.size + 1 } }
      return #[.nil]
    | some (s, e, captures) =>
      modify fun m => { m with
        iterations := m.iterations.set! id { i with position := e, last := some e } }
      c.lift (Pattern.captureValues i.subject s e captures true)

/-! Substitution -/

def captureBytes (c : Invocation) (s : ByteArray) (i e : Nat) (captures : Array Pattern.Capture) (n : Nat) :
    Exec ByteArray := do
  match Pattern.captureValue s i e captures n with
  | .ok v => return (v.toBytes?).getD ByteArray.empty
  | .error (.invalidCaptureIndex n) =>
    c.fail ("invalid capture index %" ++ toString n ++ " in replacement string")
  | .error p => c.fail p.message

def expand (c : Invocation) (s : ByteArray) (i e : Nat) (captures : Array Pattern.Capture) :
    List UInt8 → ByteArray → Exec ByteArray
  | [], acc => return acc
  | 37 :: rest, acc => do
    match rest with
    | [] => c.fail "invalid use of '%' in replacement string"
    | d :: more =>
      if d == 37 then expand c s i e captures more (acc.push 37)
      else if d == 48 then expand c s i e captures more (acc ++ s.extract i e)
      else if Pattern.isDigitByte d then
        expand c s i e captures more (acc ++ (← captureBytes c s i e captures (d.toNat - 49)))
      else c.fail "invalid use of '%' in replacement string"
  | b :: rest, acc => expand c s i e captures rest (acc.push b)

abbrev Caller := Value → Array Value → Answer

def replacement (c : Invocation) (call : Caller) (s : ByteArray) (i e : Nat)
    (captures : Array Pattern.Capture) : Exec ByteArray := do
  let whole := s.extract i e
  let keep (v : Value) : Exec ByteArray := do
    if !v.isTruthy then return whole
    else
      match v.toBytes? with
      | some b => return b
      | none => c.fail ("invalid replacement value (a " ++ v.typeName ++ ")")
  match c.arg 2 with
  | .table _ => keep (← fieldOf (c.arg 2) (← c.lift (Pattern.captureValue s i e captures 0)))
  | .function _ =>
    let values ← c.lift (Pattern.captureValues s i e captures true)
    keep ((← call (c.arg 2) values).getD 0 .nil)
  | v => expand c s i e captures ((v.toBytes?).getD ByteArray.empty).data.toList ByteArray.empty

def replaceFrom (c : Invocation) (call : Caller) (s p : ByteArray) (left : Nat) :
    Nat → Nat → Option Nat → ByteArray → Nat → Exec (ByteArray × Nat)
  | 0, _, _, acc, count => return (acc, count)
  | fuel + 1, i, last, acc, count => do
    if left ≤ count then return (acc ++ s.extract i s.size, count)
    else
      let anchored := isAnchored p
      let found ← c.lift (Pattern.matchAt s p i (if anchored then 1 else 0))
      match found.filter fun f => some f.1 ≠ last with
      | some (e, captures) =>
        let r ← replacement c call s i e captures
        if anchored then return (acc ++ r ++ s.extract e s.size, count + 1)
        else replaceFrom c call s p left fuel e (some e) (acc ++ r) (count + 1)
      | none =>
        if s.size ≤ i then return (acc, count)
        else if anchored then return (acc ++ s.extract i s.size, count)
        else replaceFrom c call s p left fuel (i + 1) last (acc.push ((s[i]?).getD 0)) count

def stringGsub (c : Invocation) (call : Caller) : Answer := do
  let s ← c.bytes 0
  let p ← c.bytes 1
  match c.arg 2 with
  | .string _ | .int _ | .float _ | .table _ | .function _ => pure ()
  | _ => c.typeFail 2 "string/function/table"
  let limit ← c.intOr 3 (Int64.ofNat (s.size + 1))
  let (text, count) ←
    replaceFrom c call s p limit.toNatClampNeg (2 * s.size + 2) 0 none ByteArray.empty 0
  return #[← Exec.text text, .int (Int64.ofNat count)]

/-! Formatting -/

def invalidConversion {α : Type} (c : Invocation) (spec : Format.Spec) : Exec α :=
  c.fail ("invalid conversion '" ++ spec.text ++ "' to 'format'")

def literalBytes (c : Invocation) (i : Nat) : Exec ByteArray := do
  match c.arg i with
  | .string s => return Format.quoted s
  | .int n => return (Format.quotedInt n).toUTF8
  | .float x => return (Format.quotedFloat x).toUTF8
  | .nil | .bool _ => return Exec.displayBytes (c.arg i)
  | _ => c.argFail i "value has no literal form"

def textUnder (spec : Format.Spec) (s : ByteArray) : ByteArray :=
  let s := match spec.precision with
    | some p => s.extract 0 p
    | none => s
  let blanks : ByteArray := ⟨Array.replicate (spec.width - s.size) 32⟩
  if spec.flags.left then s ++ blanks else blanks ++ s

def convert (c : Invocation) (spec : Format.Spec) (i : Nat) : Exec ByteArray := do
  let check (flags : String) (precision : Bool) : Exec Unit :=
    if spec.obeys flags precision then return else c.invalidConversion spec
  match spec.letter with
  | some 'c' =>
    check "-" false
    return textUnder spec ⟨#[UInt8.ofNat ((← c.int i).toInt % 256).toNat]⟩
  | some 'd' | some 'i' =>
    let n ← c.int i
    check "-+ 0" true
    return (spec.integer n).toUTF8
  | some 'u' =>
    let n ← c.int i
    check "-0" true
    return (spec.word n 10 "").toUTF8
  | some 'o' =>
    let n ← c.int i
    check "-#0" true
    return (spec.word n 8 "0").toUTF8
  | some 'x' =>
    let n ← c.int i
    check "-#0" true
    return (spec.word n 16 "0x").toUTF8
  | some 'X' =>
    let n ← c.int i
    check "-#0" true
    return (Format.upper (spec.word n 16 "0x")).toUTF8
  | some 'a' | some 'A' =>
    check "-+ #0" true
    return (spec.float (← c.float i)).toUTF8
  | some 'e' | some 'E' | some 'f' | some 'g' | some 'G' =>
    let x ← c.float i
    check "-+ #0" true
    return (spec.float x).toUTF8
  | some 'p' =>
    check "-" false
    match c.arg i with
    | .table a => return (spec.fill (Exec.addressText "" a)).toUTF8
    | _ => return (spec.fill "(null)").toUTF8
  | some 'q' =>
    if spec.modifiers.isEmpty then c.literalBytes i
    else c.fail "specifier '%q' cannot have modifiers"
  | some 's' =>
    let s := Exec.displayBytes (c.arg i)
    if spec.modifiers.isEmpty then return s
    else
      if s.data.contains 0 then c.argFail i "string contains zeros"
      check "-" true
      if spec.precision.isNone && 100 ≤ s.size then return s else return textUnder spec s
  | _ => c.invalidConversion spec

/-- Fills the conversions of a format with the arguments from the `i`-th on. -/
def fillFormat (c : Invocation) : Nat → List Char → Nat → ByteArray → Exec ByteArray
  | 0, _, _, acc => return acc
  | _, [], _, acc => return acc
  | fuel + 1, '%' :: '%' :: rest, i, acc => fillFormat c fuel rest i (acc.push 37)
  | fuel + 1, '%' :: rest, i, acc => do
    if c.args.size ≤ i then c.argFail i "no value"
    match Format.read rest with
    | none => c.fail "invalid format string to 'format'"
    | some (spec, rest) => fillFormat c fuel rest (i + 1) (acc ++ (← c.convert spec i))
  | fuel + 1, ch :: rest, i, acc => fillFormat c fuel rest i (acc.push (UInt8.ofNat ch.toNat))

def stringFormat (c : Invocation) : Answer := do
  let format ← c.bytes 0
  let cs := format.data.toList.map charOfByte
  return #[← Exec.text (← c.fillFormat (cs.length + 1) cs 1 ByteArray.empty)]

end SlideDeck.Script.Invocation
