import SlideDeck.Json.Basic
import SlideDeck.Decimal.Reading

/-!
Reading JSON text from left to right. The first problem met decides: its cause, and the line and the
byte column where it shows. Nesting is limited, and so is what a number can hold.
-/

namespace SlideDeck.Json

inductive Cause where
  | endOfValue
  | endOfList
  | endOfObject
  | endOfString
  | expectedColon
  | expectedListEnd
  | expectedObjectEnd
  | expectedIdent
  | expectedValue
  | invalidEscape
  | invalidNumber
  | numberOutOfRange
  | controlCharacter
  | keyNotString
  | loneSurrogate
  | halfSurrogate
  | trailingComma
  | trailingCharacters
  | tooDeep
  /-- The text is JSON so far, but not of the wanted shape. -/
  | wrongShape
  deriving DecidableEq, Repr

inductive Category where
  | syntaxError
  | wrongData
  | endOfText
  deriving DecidableEq, Repr

def Cause.category : Cause → Category
  | .endOfValue | .endOfList | .endOfObject | .endOfString => .endOfText
  | .wrongShape => .wrongData
  | _ => .syntaxError

def Cause.text : Cause → String
  | .endOfValue => "EOF while parsing a value"
  | .endOfList => "EOF while parsing a list"
  | .endOfObject => "EOF while parsing an object"
  | .endOfString => "EOF while parsing a string"
  | .expectedColon => "expected \x60:\x60"
  | .expectedListEnd => "expected \x60,\x60 or \x60]\x60"
  | .expectedObjectEnd => "expected \x60,\x60 or \x60\x7d\x60"
  | .expectedIdent => "expected ident"
  | .expectedValue => "expected value"
  | .invalidEscape => "invalid escape"
  | .invalidNumber => "invalid number"
  | .numberOutOfRange => "number out of range"
  | .controlCharacter => "control character (\\u0000-\\u001F) found while parsing a string"
  | .keyNotString => "key must be a string"
  | .loneSurrogate => "lone leading surrogate in hex escape"
  | .halfSurrogate => "unexpected end of hex escape"
  | .trailingComma => "trailing comma"
  | .trailingCharacters => "trailing characters"
  | .tooDeep => "recursion limit exceeded"
  | .wrongShape => "invalid shape"

structure Position where
  line : Nat
  column : Nat
  deriving DecidableEq, Repr

def Position.pass (p : Position) (byte : UInt8) : Position :=
  if byte = 10 then ⟨p.line + 1, 0⟩ else ⟨p.line, p.column + 1⟩

def Position.next (p : Position) (c : Char) : Position :=
  if c = '\n' then ⟨p.line + 1, 0⟩ else ⟨p.line, p.column + c.utf8Size⟩

structure Problem where
  cause : Cause
  position : Position
  deriving DecidableEq, Repr

def Problem.message (p : Problem) : String :=
  p.cause.text ++ " at line " ++ toString p.position.line ++ " column " ++ toString p.position.column

/-- What is left of the text, where it begins, and how many more brackets may open. -/
structure Cursor where
  rest : List Char
  position : Position
  depth : Nat

def Cursor.start (text : List Char) : Cursor := ⟨text, ⟨1, 0⟩, 128⟩

abbrev Reader := StateT Cursor (Except Problem)

namespace Reader

def fail {α : Type} (cause : Cause) : Reader α := fun c => .error ⟨cause, c.position⟩

/-- A problem with the next character; at the end of the text, with the text before it. -/
def failAhead {α : Type} (cause : Cause) : Reader α := fun c =>
  match c.rest with
  | [] => .error ⟨cause, c.position⟩
  | '\n' :: _ => .error ⟨cause, ⟨c.position.line + 1, 0⟩⟩
  | _ :: _ => .error ⟨cause, ⟨c.position.line, c.position.column + 1⟩⟩

def peek : Reader (Option Char) := fun c => .ok (c.rest.head?, c)

def next : Reader (Option Char) := fun c =>
  match c.rest with
  | [] => .ok (none, c)
  | ch :: rest => .ok (some ch, { c with rest, position := c.position.next ch })

def skip : Reader Unit := do let _ ← next

def isSpace (c : Char) : Bool := c = ' ' || c = '\n' || c = '\t' || c = '\r'

def takeWhile (p : Char → Bool) : Reader (List Char) := fun c =>
  let taken := c.rest.takeWhile p
  .ok (taken, { c with rest := c.rest.dropWhile p, position := taken.foldl Position.next c.position })

def peekToken : Reader (Option Char) := do
  let _ ← takeWhile isSpace
  peek

def nested {α : Type} (body : Reader α) : Reader α := fun c =>
  if c.depth ≤ 1 then failAhead .tooDeep c
  else
    match body { c with depth := c.depth - 1 } with
    | .error p => .error p
    | .ok (a, c') => .ok (a, { c' with depth := c.depth })

def word : List Char → Reader Unit
  | [] => pure ()
  | w :: ws => do
    match ← next with
    | none => fail .endOfValue
    | some c => if c = w then word ws else fail .expectedIdent

/-! ### Strings -/

def hexValue (c : Char) : Option Nat :=
  if c.isDigit then some (c.toNat - 48)
  else if 'a'.toNat ≤ c.toNat ∧ c.toNat ≤ 'f'.toNat then some (c.toNat - 87)
  else if 'A'.toNat ≤ c.toNat ∧ c.toNat ≤ 'F'.toNat then some (c.toNat - 55)
  else none

/-- Four hexadecimal digits. A refusal shows after four bytes, whatever characters they belong to. -/
def hexEscape : Reader Nat := fun c =>
  match c.rest with
  | a :: b :: d :: e :: rest =>
    match hexValue a, hexValue b, hexValue d, hexValue e with
    | some w, some x, some y, some z =>
      .ok (((w * 16 + x) * 16 + y) * 16 + z,
        { c with rest, position := [a, b, d, e].foldl Position.next c.position })
    | _, _, _, _ =>
      let bytes := ((String.ofList [a, b, d, e]).toUTF8.toList).take 4
      .error ⟨.invalidEscape, bytes.foldl Position.pass c.position⟩
  | short =>
    let bytes := (String.ofList short).toUTF8.toList
    if 4 ≤ bytes.length then .error ⟨.invalidEscape, (bytes.take 4).foldl Position.pass c.position⟩
    else .error ⟨.endOfString, bytes.foldl Position.pass c.position⟩

/-- The character of a `\u` escape; a leading surrogate wants a trailing one after it. -/
def unicodeEscape : Reader Char := do
  let n ← hexEscape
  if 0xDC00 ≤ n ∧ n ≤ 0xDFFF then fail .loneSurrogate
  else if n < 0xD800 ∨ 0xDBFF < n then return Char.ofNat n
  else
    let want (w : Char) : Reader Unit := do
      match ← peek with
      | none => fail .endOfString
      | some c => if c = w then skip else failAhead .halfSurrogate
    want '\\'
    want 'u'
    let m ← hexEscape
    if m < 0xDC00 ∨ 0xDFFF < m then fail .loneSurrogate
    else return Char.ofNat ((n - 0xD800) * 1024 + (m - 0xDC00) + 0x10000)

def simpleEscape (c : Char) : Option Char :=
  match c with
  | '"' => some '"'
  | '\\' => some '\\'
  | '/' => some '/'
  | 'b' => some (Char.ofNat 8)
  | 'f' => some (Char.ofNat 12)
  | 'n' => some '\n'
  | 'r' => some '\r'
  | 't' => some '\t'
  | _ => none

/-- The string after its opening quote. With `checked` off, `\u` escapes need not be characters. -/
def stringBody (checked : Bool) : Nat → List Char → Reader String
  | 0, _ => fail .endOfString
  | fuel + 1, acc => do
    match ← next with
    | none => fail .endOfString
    | some '"' => return String.ofList acc.reverse
    | some '\\' =>
      match ← next with
      | none => fail .endOfString
      | some 'u' =>
        if checked then
          let c ← unicodeEscape
          stringBody checked fuel (c :: acc)
        else
          let _ ← hexEscape
          stringBody checked fuel acc
      | some c =>
        match simpleEscape c with
        | some e => stringBody checked fuel (e :: acc)
        | none => fail .invalidEscape
    | some c => if c.toNat < 32 then fail .controlCharacter else stringBody checked fuel (c :: acc)

def string : Reader String := fun c => stringBody true (c.rest.length + 1) [] c

/-! ### Numbers -/

def tenTo (n : Nat) : Float := Float.ofScientific 1 false n

/-- Significand times a power of ten, scaled step by step; too large a number is refused. -/
def scaled (negative : Bool) (significand : Nat) (exponent : Int) : Reader Json :=
  let finish (x : Float) : Json := .float (if negative then -x else x)
  let x := Float.ofNat significand
  if 308 < exponent then
    if significand = 0 then return finish x else fail .numberOutOfRange
  else if 0 ≤ exponent then
    let y := x * tenTo exponent.toNat
    if y.isInf then fail .numberOutOfRange else return finish y
  else
    let k := (-exponent).toNat
    let steps := (k - 1) / 308
    if 3 < steps then return finish 0.0
    else
      let y := Nat.fold steps (fun _ _ y => y / tenTo 308) x
      return finish (y / tenTo (k - 308 * steps))

def isMark (c : Option Char) : Bool := c = some 'e' || c = some 'E'

def exponentPart (negative : Bool) (significand : Nat) (base : Int) : Reader Json := do
  skip
  let down ← match ← peek with
    | some '-' => skip; pure true
    | some '+' => skip; pure false
    | _ => pure false
  match ← next with
  | none => fail .endOfValue
  | some c =>
    if !c.isDigit then fail .invalidNumber
    else
      let digits ← takeWhile Char.isDigit
      let e := Decimal.natOfDigits (c :: digits)
      if 2147483647 < e then
        if significand ≠ 0 ∧ !down then fail .numberOutOfRange
        else return .float (if negative then -0.0 else 0.0)
      else scaled negative significand (if down then base - e else base + e)

/-- Digits are kept while they fit 64 bits; what they cannot hold is dropped. -/
def absorb (significand : Nat) : List Char → Nat × Nat
  | [] => (significand, 0)
  | d :: ds =>
    let n := significand * 10 + Decimal.digitValue d
    if n < 2 ^ 64 then
      let (m, k) := absorb n ds
      (m, k + 1)
    else (significand, 0)

def numberTail (negative : Bool) (significand : Nat) (base : Int) (integer : Reader Json) : Reader Json := do
  match ← peek with
  | some '.' =>
    skip
    let digits ← takeWhile Char.isDigit
    if digits.isEmpty then
      match ← peek with
      | none => failAhead .endOfValue
      | some _ => failAhead .invalidNumber
    else
      let (m, kept) := absorb significand digits
      let e := base - kept
      if isMark (← peek) then exponentPart negative m e else scaled negative m e
  | c => if isMark c then exponentPart negative significand base else integer

/-- A number from its first digit on; the sign was read. -/
def number (negative : Bool) : Reader Json := do
  match ← next with
  | none => fail .endOfValue
  | some '0' =>
    match ← peek with
    | some c => if c.isDigit then failAhead .invalidNumber else numberTail negative 0 0 (pure (zero 0))
    | none => numberTail negative 0 0 (pure (zero 0))
  | some c =>
    if !c.isDigit then fail .invalidNumber
    else
      let digits ← takeWhile Char.isDigit
      let first := Decimal.digitValue c
      let (n, kept) := absorb first digits
      if kept = digits.length then
        numberTail negative n 0 (pure (integer n))
      else
        let e : Int := (digits.length - kept : Nat)
        numberTail negative n e (scaled negative n e)
where
  zero (n : Nat) : Json := if negative then .float (-0.0) else .int n
  integer (n : Nat) : Json :=
    if !negative then .int n
    else if n ≤ 2 ^ 63 then .int (-(n : Int))
    else .float (-(Float.ofNat n))

/-! ### Lists and objects -/

def moreItems (first : Bool) : Reader Bool := do
  match ← peekToken with
  | none => failAhead .endOfList
  | some ']' => return false
  | some c =>
    if first then return true
    else if c = ',' then
      skip
      match ← peekToken with
      | none => failAhead .endOfValue
      | some ']' => failAhead .trailingComma
      | some _ => return true
    else failAhead .expectedListEnd

def endList : Reader Unit := do
  match ← peekToken with
  | none => failAhead .endOfList
  | some ']' => skip
  | some ',' =>
    skip
    match ← peekToken with
    | some ']' => failAhead .trailingComma
    | _ => failAhead .trailingCharacters
  | some _ => failAhead .trailingCharacters

def nextKey (key : Reader String) (first : Bool) : Reader (Option String) := do
  match ← peekToken with
  | none => failAhead .endOfObject
  | some '}' => return none
  | some c =>
    if first then
      if c = '"' then skip; return some (← key) else failAhead .keyNotString
    else if c = ',' then
      skip
      match ← peekToken with
      | none => failAhead .endOfValue
      | some '"' => skip; return some (← key)
      | some '}' => failAhead .trailingComma
      | some _ => failAhead .keyNotString
    else failAhead .expectedObjectEnd

def colon : Reader Unit := do
  match ← peekToken with
  | none => failAhead .endOfObject
  | some ':' => skip
  | some _ => failAhead .expectedColon

def items {α : Type} (item : Reader α) : Nat → Bool → List α → Reader (List α)
  | 0, _, acc => pure acc.reverse
  | fuel + 1, first, acc => do
    if ← moreItems first then
      let a ← item
      items item fuel false (a :: acc)
    else return acc.reverse

/-- Folds `field` over the fields up to the closing brace, which is left. -/
def fields {σ : Type} (key : Reader String) (field : σ → String → Reader σ) :
    Nat → Bool → σ → Reader σ
  | 0, _, s => pure s
  | fuel + 1, first, s => do
    match ← nextKey key first with
    | none => return s
    | some name => fields key field fuel false (← field s name)

def listOf {α : Type} (item : Reader α) : Reader (List α) := do
  let all ← nested (do skip; let c ← get; items item (c.rest.length + 1) true [])
  endList
  return all

def objectWith {σ : Type} (start : σ) (field : σ → String → Reader σ) : Reader σ := do
  let s ← nested (do skip; let c ← get; fields string field (c.rest.length + 1) true start)
  match ← peekToken with
  | none => failAhead .endOfObject
  | some '}' => skip
  | some ',' => failAhead .trailingComma
  | some _ => failAhead .trailingCharacters
  return s

/-! ### Values -/

def scalar (c : Char) : Reader Json := do
  if c = 'n' then skip; word ['u', 'l', 'l']; return .null
  else if c = 't' then skip; word ['r', 'u', 'e']; return .bool true
  else if c = 'f' then skip; word ['a', 'l', 's', 'e']; return .bool false
  else if c = '-' then skip; number true
  else if c.isDigit then number false
  else if c = '"' then skip; return .string (← string)
  else failAhead .expectedValue

def value : Nat → Reader Json
  | 0 => failAhead .tooDeep
  | depth + 1 => do
    match ← peekToken with
    | none => failAhead .endOfValue
    | some '[' => return .array (← listOf (value depth))
    | some '{' =>
      let fields ← objectWith [] fun acc key => do
        colon
        return (key, ← value depth) :: acc
      return .object fields.reverse
    | some c => scalar c

def anyValue : Reader Json := value 128

def skipNumber : Reader Unit := do
  match ← next with
  | some '0' =>
    match ← peek with
    | some c => if c.isDigit then failAhead .invalidNumber else pure ()
    | none => pure ()
  | some c => if c.isDigit then let _ ← takeWhile Char.isDigit else fail .invalidNumber
  | none => fail .invalidNumber
  if (← peek) = some '.' then
    skip
    if (← takeWhile Char.isDigit).isEmpty then failAhead .invalidNumber
  if isMark (← peek) then
    skip
    match ← peek with
    | some '+' | some '-' => skip
    | _ => pure ()
    match ← next with
    | some c => if c.isDigit then let _ ← takeWhile Char.isDigit else fail .invalidNumber
    | none => fail .invalidNumber

def skipString : Reader String := fun c => stringBody false (c.rest.length + 1) [] c

def skipScalar (c : Char) : Reader Unit := do
  if c = '-' then skip; skipNumber
  else if c.isDigit then skipNumber
  else if c = '"' then
    skip
    let _ ← skipString
  else
    let _ ← scalar c

/-- A value that nobody looks at. Its nesting is not limited, and its `\u` escapes and numbers need
only be well formed. -/
def ignored : Nat → Reader Unit
  | 0 => failAhead .tooDeep
  | fuel + 1 => do
    match ← peekToken with
    | none => failAhead .endOfValue
    | some '[' =>
      skip
      let c ← get
      let _ ← items (ignored fuel) (c.rest.length + 1) true []
      endList
    | some '{' =>
      skip
      let c ← get
      fields skipString (fun _ _ => do colon; ignored fuel) (c.rest.length + 1) true ()
      skip
    | some c => skipScalar c

def ignoredValue : Reader Unit := fun c => ignored (c.rest.length + 1) c

def finish : Reader Unit := do
  match ← peekToken with
  | none => pure ()
  | some _ => failAhead .trailingCharacters

def run {α : Type} (r : Reader α) (text : List Char) : Except Problem α :=
  match (do let a ← r; finish; return a : Reader α) (.start text) with
  | .ok (a, _) => .ok a
  | .error p => .error p

end Reader

/-- Reads a whole text; objects come out sorted. -/
def parse (text : String) : Except Problem Json :=
  (Reader.run Reader.anyValue text.toList).map canonical

end SlideDeck.Json
