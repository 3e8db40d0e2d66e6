import SlideDeck.Script.Number

/-!
Patterns of the string functions: character classes, repetitions, captures, balanced and frontier
matches. Matching tries alternatives in order and goes back where one fails.
-/

namespace SlideDeck.Script.Pattern

inductive Problem where
  | endsWithEscape
  | missingBracket
  | missingBalanceArguments
  | missingFrontierSet
  | invalidCaptureIndex (n : Nat)
  | invalidPatternCapture
  | tooManyCaptures
  | unfinishedCapture
  deriving DecidableEq, Repr

def Problem.message : Problem → String
  | endsWithEscape => "malformed pattern (ends with '%')"
  | missingBracket => "malformed pattern (missing ']')"
  | missingBalanceArguments => "malformed pattern (missing arguments to '%b')"
  | missingFrontierSet => "missing '[' after '%f' in pattern"
  | invalidCaptureIndex n => "invalid capture index %" ++ toString n
  | invalidPatternCapture => "invalid pattern capture"
  | tooManyCaptures => "too many captures"
  | unfinishedCapture => "unfinished capture"

inductive Extent where
  | unclosed
  | position
  | closed (length : Nat)
  deriving DecidableEq, Repr, Inhabited

structure Capture where
  start : Nat
  extent : Extent
  deriving DecidableEq, Repr, Inhabited

abbrev Found := Nat × Array Capture

abbrev Result := Except Problem (Option Found)

/-! Bytes and classes -/

def isAlphaByte (c : UInt8) : Bool := (65 ≤ c && c ≤ 90) || (97 ≤ c && c ≤ 122)

def isDigitByte (c : UInt8) : Bool := 48 ≤ c && c ≤ 57

def isUpperByte (c : UInt8) : Bool := 65 ≤ c && c ≤ 90

def isLowerByte (c : UInt8) : Bool := 97 ≤ c && c ≤ 122

def isAlnumByte (c : UInt8) : Bool := isAlphaByte c || isDigitByte c

def isGraphByte (c : UInt8) : Bool := 33 ≤ c && c ≤ 126

def isControlByte (c : UInt8) : Bool := c < 32 || c == 127

def isHexByte (c : UInt8) : Bool := isDigitByte c || (65 ≤ c && c ≤ 70) || (97 ≤ c && c ≤ 102)

def lowerByte (c : UInt8) : UInt8 := if isUpperByte c then c + 32 else c

def upperByte (c : UInt8) : UInt8 := if isLowerByte c then c - 32 else c

/-- Whether `c` is in the class of a letter. A capital stands for the other bytes; what is no class
stands for itself. -/
def inClass (c letter : UInt8) : Bool :=
  let test : Option Bool := match charOfByte (lowerByte letter) with
    | 'a' => some (isAlphaByte c)
    | 'c' => some (isControlByte c)
    | 'd' => some (isDigitByte c)
    | 'g' => some (isGraphByte c)
    | 'l' => some (isLowerByte c)
    | 'p' => some (isGraphByte c && !isAlnumByte c)
    | 's' => some (isSpaceByte c)
    | 'u' => some (isUpperByte c)
    | 'w' => some (isAlnumByte c)
    | 'x' => some (isHexByte c)
    | _ => none
  match test with
  | some r => if isUpperByte letter then !r else r
  | none => letter == c

def escape : UInt8 := 37

def byteAt (b : ByteArray) (i : Nat) : Option UInt8 := b[i]?

/-- The index of the bracket that closes a set, given where to look next. The first byte of the set
cannot close it. -/
def setEnd (pattern : ByteArray) : Nat → Nat → Bool → Except Problem Nat
  | 0, _, _ => .error .missingBracket
  | fuel + 1, i, first =>
    match byteAt pattern i with
    | none => .error .missingBracket
    | some c =>
      if c == 93 && !first then .ok i
      else if c == escape then
        if i + 1 < pattern.size then setEnd pattern fuel (i + 2) false else .error .missingBracket
      else setEnd pattern fuel (i + 1) false

def itemEnd (pattern : ByteArray) (i : Nat) : Except Problem Nat :=
  match byteAt pattern i with
  | none => .ok i
  | some c =>
    if c == escape then
      if i + 1 < pattern.size then .ok (i + 2) else .error .endsWithEscape
    else if c == 91 then
      let start := if byteAt pattern (i + 1) == some 94 then i + 2 else i + 1
      (setEnd pattern (pattern.size + 1) start true).map (· + 1)
    else .ok (i + 1)

/-- Whether `c` is among the members of a set that stand from `i` up to `last`. -/
def memberFrom (pattern : ByteArray) (c : UInt8) (last : Nat) : Nat → Nat → Bool
  | 0, _ => false
  | fuel + 1, i =>
    if last ≤ i then false
    else
      let p := (byteAt pattern i).getD 0
      if p == escape then
        inClass c ((byteAt pattern (i + 1)).getD 0) || memberFrom pattern c last fuel (i + 2)
      else if byteAt pattern (i + 1) == some 45 && i + 2 < last then
        (p ≤ c && c ≤ (byteAt pattern (i + 2)).getD 0) || memberFrom pattern c last fuel (i + 3)
      else p == c || memberFrom pattern c last fuel (i + 1)

def inSet (pattern : ByteArray) (c : UInt8) (i last : Nat) : Bool :=
  if byteAt pattern (i + 1) == some 94 then !memberFrom pattern c last (pattern.size + 1) (i + 2)
  else memberFrom pattern c last (pattern.size + 1) (i + 1)

def matchesItem (subject pattern : ByteArray) (s p e : Nat) : Bool :=
  match byteAt subject s, byteAt pattern p with
  | some c, some q =>
    if q == 46 then true
    else if q == escape then inClass c ((byteAt pattern (p + 1)).getD 0)
    else if q == 91 then inSet pattern c p (e - 1)
    else q == c
  | _, _ => false

/-! Matching -/

def run (subject pattern : ByteArray) (p e : Nat) : Nat → Nat → Nat → Nat
  | 0, _, n => n
  | fuel + 1, s, n =>
    if matchesItem subject pattern s p e then run subject pattern p e fuel (s + 1) (n + 1) else n

def longest (rest : Nat → Result) (s least : Nat) : Nat → Result
  | 0 => if least = 0 then rest s else .ok none
  | n + 1 =>
    if n + 1 < least then .ok none
    else
      match rest (s + (n + 1)) with
      | .ok none => longest rest s least n
      | r => r

def shortest (rest : Nat → Result) (subject pattern : ByteArray) (p e : Nat) : Nat → Nat → Result
  | 0, s => rest s
  | fuel + 1, s =>
    match rest s with
    | .ok none =>
      if matchesItem subject pattern s p e then shortest rest subject pattern p e fuel (s + 1) else .ok none
    | r => r

def balanced (subject : ByteArray) (opening closing : UInt8) : Nat → Nat → Nat → Option Nat
  | 0, _, _ => none
  | fuel + 1, s, depth =>
    match byteAt subject s with
    | none => none
    | some c =>
      if c == closing then if depth ≤ 1 then some (s + 1) else balanced subject opening closing fuel (s + 1) (depth - 1)
      else if c == opening then balanced subject opening closing fuel (s + 1) (depth + 1)
      else balanced subject opening closing fuel (s + 1) depth

def openCapture (captures : Array Capture) : Option Nat :=
  (List.range captures.size).reverse.find? fun i =>
    (captures.getD i default).extent == .unclosed

def repeated (subject : ByteArray) (s : Nat) (c : Capture) : Option Nat :=
  match c.extent with
  | .closed n =>
    if n ≤ subject.size - s && subject.extract c.start (c.start + n) == subject.extract s (s + n) then some n
    else none
  | _ => none

/-- Matches the pattern from `p` against the subject from `s`; `fuel` is more than what remains of the
pattern. -/
def matchFrom (subject pattern : ByteArray) : Nat → Nat → Nat → Array Capture → Result
  | 0, s, _, captures => .ok (some (s, captures))
  | fuel + 1, s, p, captures =>
    match byteAt pattern p with
    | none => .ok (some (s, captures))
    | some c =>
      let next := (byteAt pattern (p + 1)).getD 0
      if c == 40 then
        if 32 ≤ captures.size then .error .tooManyCaptures
        else if next == 41 && p + 1 < pattern.size then
          matchFrom subject pattern fuel s (p + 2) (captures.push ⟨s, .position⟩)
        else matchFrom subject pattern fuel s (p + 1) (captures.push ⟨s, .unclosed⟩)
      else if c == 41 then
        match openCapture captures with
        | none => .error .invalidPatternCapture
        | some i =>
          matchFrom subject pattern fuel s (p + 1)
            (captures.modify i fun c => { c with extent := .closed (s - c.start) })
      else if c == 36 && p + 1 = pattern.size then
        .ok (if s = subject.size then some (s, captures) else none)
      else if c == escape && next == 98 && p + 1 < pattern.size then
        match byteAt pattern (p + 2), byteAt pattern (p + 3) with
        | some a, some b =>
          if byteAt subject s == some a then
            match balanced subject a b (subject.size + 1) (s + 1) 1 with
            | some e => matchFrom subject pattern fuel e (p + 4) captures
            | none => .ok none
          else .ok none
        | _, _ => .error .missingBalanceArguments
      else if c == escape && next == 102 && p + 1 < pattern.size then
        if byteAt pattern (p + 2) != some 91 then .error .missingFrontierSet
        else do
          let e ← itemEnd pattern (p + 2)
          let previous := if s = 0 then 0 else (byteAt subject (s - 1)).getD 0
          let current := (byteAt subject s).getD 0
          if !inSet pattern previous (p + 2) (e - 1) && inSet pattern current (p + 2) (e - 1) then
            matchFrom subject pattern fuel s e captures
          else .ok none
      else if c == escape && isDigitByte next && p + 1 < pattern.size then
        let i := next.toNat - 48
        match captures[i - 1]? with
        | none => .error (.invalidCaptureIndex i)
        | some cap =>
          if i = 0 || cap.extent == .unclosed then .error (.invalidCaptureIndex i)
          else
            match repeated subject s cap with
            | some n => matchFrom subject pattern fuel (s + n) (p + 2) captures
            | none => .ok none
      else do
        let e ← itemEnd pattern p
        let rest (s : Nat) : Result := matchFrom subject pattern fuel s (e + 1) captures
        match byteAt pattern e with
        | some 63 =>
          if matchesItem subject pattern s p e then
            match rest (s + 1) with
            | .ok none => rest s
            | r => r
          else rest s
        | some 42 => longest rest s 0 (run subject pattern p e (subject.size - s) s 0)
        | some 43 => longest rest s 1 (run subject pattern p e (subject.size - s) s 0)
        | some 45 => shortest rest subject pattern p e (subject.size + 1 - s) s
        | _ =>
          if matchesItem subject pattern s p e then matchFrom subject pattern fuel (s + 1) e captures
          else .ok none

def matchAt (subject pattern : ByteArray) (s p : Nat) : Result :=
  matchFrom subject pattern (pattern.size + 1) s p #[]

def search (subject pattern : ByteArray) (anchored : Bool) :
    Nat → Nat → Except Problem (Option (Nat × Found))
  | 0, _ => .ok none
  | fuel + 1, s =>
    match matchAt subject pattern s (if anchored then 1 else 0) with
    | .error e => .error e
    | .ok (some found) => .ok (some (s, found))
    | .ok none =>
      if anchored || subject.size ≤ s then .ok none else search subject pattern anchored fuel (s + 1)

def captureValue (subject : ByteArray) (s e : Nat) (captures : Array Capture) (i : Nat) :
    Except Problem Value :=
  match captures[i]? with
  | none => if i = 0 then .ok (.string (subject.extract s e)) else .error (.invalidCaptureIndex (i + 1))
  | some c =>
    match c.extent with
    | .unclosed => .error .unfinishedCapture
    | .position => .ok (.int (Int64.ofNat (c.start + 1)))
    | .closed n => .ok (.string (subject.extract c.start (c.start + n)))

/-- The values of all captures, or of the whole match if there are none and `whole` holds. -/
def captureValues (subject : ByteArray) (s e : Nat) (captures : Array Capture) (whole : Bool) :
    Except Problem (Array Value) := do
  let count := if captures.size = 0 && whole then 1 else captures.size
  let values ← (List.range count).mapM (captureValue subject s e captures)
  return values.toArray

def isPlain (pattern : ByteArray) : Bool :=
  pattern.data.all fun c => !("^$*+?.([%-".toUTF8.data.contains c)

def findPlain (subject text : ByteArray) : Nat → Nat → Option Nat
  | 0, _ => none
  | fuel + 1, s =>
    if subject.size < s + text.size then none
    else if subject.extract s (s + text.size) == text then some s
    else findPlain subject text fuel (s + 1)

end SlideDeck.Script.Pattern
