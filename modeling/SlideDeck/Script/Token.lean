import SlideDeck.Script.Number
import SlideDeck.Text.Utf8

/-!
Tokens of script text. They are read one at a time, so that a mistake of grammar is found before any
malformed token behind it.
-/

namespace SlideDeck.Script

inductive Token where
  | name (s : String)
  /-- A reserved word or an operator. -/
  | mark (s : String)
  | number (v : Value) (text : String)
  | string (bytes : ByteArray) (text : String)
  /-- A character that belongs to no token; its first byte. -/
  | stray (byte : Nat)
  | eof
  deriving Inhabited

namespace Token

def shown : Token → String
  | name s | mark s | number _ s | string _ s => "'" ++ s ++ "'"
  | stray b => if 32 ≤ b && b < 127 then "'" ++ (Char.ofNat b).toString ++ "'" else "'<\\" ++ toString b ++ ">'"
  | eof => "<eof>"

def isMark (t : Token) (s : String) : Bool :=
  match t with
  | mark m => m == s
  | _ => false

end Token

/-- What is wrong with a script text, and the line that had been reached. -/
structure Complaint where
  message : String
  line : Nat
  deriving DecidableEq, Repr

def reservedNames : List String :=
  ["and", "break", "do", "else", "elseif", "end", "false", "for", "function", "goto", "if", "in",
    "local", "nil", "not", "or", "repeat", "return", "then", "true", "until", "while"]

structure Cursor where
  rest : List Char
  line : Nat

namespace Cursor

def isNameStart (c : Char) : Bool := c.isAlpha || c == '_'

def isNamePart (c : Char) : Bool := c.isAlphanum || c == '_'

def charBytes (c : Char) : List UInt8 := String.utf8EncodeChar c

def pushAll (acc : ByteArray) (bs : List UInt8) : ByteArray := bs.foldl ByteArray.push acc

/-- The text that a message quotes, which ends before the first zero. -/
def shownBytes (bytes : ByteArray) : String :=
  Text.Utf8.lossy ⟨(bytes.data.toList.takeWhile (· != 0)).toArray⟩

def near {α : Type} (message shown : String) (line : Nat) : Except Complaint α :=
  .error ⟨message ++ " near " ++ shown, line⟩

def nearBytes {α : Type} (message : String) (bytes : ByteArray) (line : Nat) : Except Complaint α :=
  near message ("'" ++ shownBytes bytes ++ "'") line

def longOpening (cs : List Char) : Option (Nat × List Char) :=
  let marks := cs.takeWhile (· == '=')
  match cs.dropWhile (· == '=') with
  | '[' :: rest => some (marks.length, rest)
  | _ => none

def longClosing (level : Nat) (cs : List Char) : Option (List Char) :=
  if (cs.takeWhile (· == '=')).length = level then
    match cs.dropWhile (· == '=') with
    | ']' :: rest => some rest
    | _ => none
  else none

def dropBreak : List Char → Option (List Char)
  | '\r' :: '\n' :: rest | '\n' :: '\r' :: rest | '\n' :: rest | '\r' :: rest => some rest
  | _ => none

def readLong (level : Nat) : List Char → Nat → ByteArray → Option (ByteArray × Cursor)
  | [], _, _ => none
  | '\r' :: '\n' :: rest, line, acc | '\n' :: '\r' :: rest, line, acc =>
    readLong level rest (line + 1) (acc.push 10)
  | c :: rest, line, acc =>
    if c = '\n' ∨ c = '\r' then readLong level rest (line + 1) (acc.push 10)
    else if c = ']' then
      match longClosing level rest with
      | some after => some (acc, ⟨after, line⟩)
      | none => readLong level rest line (acc.push 93)
    else readLong level rest line (pushAll acc (charBytes c))

/-- A line break directly after the opening is not part of the content. -/
def readLongBody (level : Nat) (c : Cursor) : Option (ByteArray × Cursor) :=
  match dropBreak c.rest with
  | some rest => readLong level rest (c.line + 1) ByteArray.empty
  | none => readLong level c.rest c.line ByteArray.empty

def lastLine : List Char → Nat → Nat
  | [], line => line
  | '\r' :: '\n' :: rest, line | '\n' :: '\r' :: rest, line => lastLine rest (line + 1)
  | c :: rest, line => lastLine rest (if c = '\n' ∨ c = '\r' then line + 1 else line)

def unfinishedLong {α : Type} (what : String) (start : Nat) (c : Cursor) : Except Complaint α :=
  near ("unfinished long " ++ what ++ " (starting at line " ++ toString start ++ ")") "<eof>"
    (lastLine c.rest c.line)

def isBreak (c : Char) : Bool := c == '\n' || c == '\r'

def skip : Nat → Cursor → Except Complaint Cursor
  | 0, c => .ok c
  | fuel + 1, c =>
    match c.rest with
    | '-' :: '-' :: '[' :: rest =>
      match longOpening rest with
      | some (level, body) =>
        match readLongBody level ⟨body, c.line⟩ with
        | some (_, after) => skip fuel after
        | none => unfinishedLong "comment" c.line ⟨body, c.line⟩
      | none => skip fuel ⟨rest.dropWhile (!isBreak ·), c.line⟩
    | '-' :: '-' :: rest => skip fuel ⟨rest.dropWhile (!isBreak ·), c.line⟩
    | a :: rest =>
      match dropBreak c.rest with
      | some after => skip fuel ⟨after, c.line + 1⟩
      | none =>
        if a = ' ' ∨ a = '\t' ∨ a.toNat = 11 ∨ a.toNat = 12 then skip fuel ⟨rest, c.line⟩ else .ok c
    | [] => .ok c

def isExponentMark (hexadecimal : Bool) (c : Char) : Bool :=
  if hexadecimal then c == 'p' || c == 'P' else c == 'e' || c == 'E'

/-- The characters of a numeral: digits, points, and a sign only behind an exponent mark. -/
def numeralChars (hexadecimal afterMark : Bool) : List Char → List Char × List Char
  | [] => ([], [])
  | c :: rest =>
    if isExponentMark hexadecimal c || isHexDigit c || c == '.' || (afterMark && (c == '-' || c == '+')) then
      let (text, after) := numeralChars hexadecimal (isExponentMark hexadecimal c) rest
      (c :: text, after)
    else ([], c :: rest)

def readNumber (cs : List Char) (line : Nat) : Except Complaint (Token × Cursor) :=
  let (start, more, hexadecimal) := match cs with
    | '0' :: 'x' :: rest => (['0', 'x'], rest, true)
    | '0' :: 'X' :: rest => (['0', 'X'], rest, true)
    | cs => ([], cs, false)
  let (text, rest) := numeralChars hexadecimal false more
  let (text, rest) := match rest with
    | c :: after => if isNameStart c then (text ++ [c], after) else (text, rest)
    | [] => (text, rest)
  let text := start ++ text
  match readNumeral false text with
  | some v => .ok (.number v (String.ofList text), ⟨rest, line⟩)
  | none => near "malformed number" ("'" ++ String.ofList text ++ "'") line

/-- UTF-8 in its first form, which has up to six bytes and reaches `2 ^ 31`. -/
def extendedUtf8 (n : Nat) : List UInt8 :=
  let tail (k : Nat) : List UInt8 :=
    (List.range k).reverse.map fun i => UInt8.ofNat (0x80 + n / 64 ^ i % 64)
  if n < 0x80 then [UInt8.ofNat n]
  else if n < 0x800 then UInt8.ofNat (0xC0 + n / 64) :: tail 1
  else if n < 0x10000 then UInt8.ofNat (0xE0 + n / 64 ^ 2) :: tail 2
  else if n < 0x200000 then UInt8.ofNat (0xF0 + n / 64 ^ 3) :: tail 3
  else if n < 0x4000000 then UInt8.ofNat (0xF8 + n / 64 ^ 4) :: tail 4
  else UInt8.ofNat (0xFC + n / 64 ^ 5) :: tail 5

inductive Escape where
  | bytes (bs : List UInt8) (after : Cursor)
  | bad (message : String) (consumed : List Char)

def simpleEscapes : List (Char × UInt8) :=
  [('a', 7), ('b', 8), ('f', 12), ('n', 10), ('r', 13), ('t', 9), ('v', 11), ('\\', 92), ('"', 34),
    ('\'', 39)]

def skipBlanks : List Char → Nat → Cursor
  | [], line => ⟨[], line⟩
  | '\r' :: '\n' :: rest, line | '\n' :: '\r' :: rest, line => skipBlanks rest (line + 1)
  | c :: rest, line =>
    if isBreak c then skipBlanks rest (line + 1)
    else if c = ' ' ∨ c = '\t' ∨ c.toNat = 11 ∨ c.toNat = 12 then skipBlanks rest line
    else ⟨c :: rest, line⟩

def hexEscape (cs : List Char) (line : Nat) : Escape :=
  match cs.take 2 with
  | [a, b] =>
    if !isHexDigit a then .bad "hexadecimal digit expected" ['x', a]
    else if !isHexDigit b then .bad "hexadecimal digit expected" ['x', a, b]
    else .bytes [UInt8.ofNat (natOfHexDigits [a, b])] ⟨cs.drop 2, line⟩
  | few => .bad "hexadecimal digit expected" ('x' :: few)

def decimalEscape (cs : List Char) (line : Nat) : Escape :=
  let digits := (cs.take 3).takeWhile Char.isDigit
  let rest := cs.drop digits.length
  let n := Decimal.natOfDigits digits
  if n < 256 then .bytes [UInt8.ofNat n] ⟨rest, line⟩
  else .bad "decimal escape too large" (digits ++ rest.take 1)

def numberDigits (seen : List Char) (n : Nat) : List Char → Except (List Char) (Nat × List Char × List Char)
  | [] => .ok (n, seen.reverse, [])
  | c :: rest =>
    if isHexDigit c then
      if 0x7FFFFFF < n then .error (seen.reverse ++ [c])
      else numberDigits (c :: seen) (16 * n + hexDigitValue c) rest
    else .ok (n, seen.reverse, c :: rest)

def unicodeEscape (cs : List Char) (line : Nat) : Escape :=
  match cs with
  | '\x7b' :: rest =>
    match numberDigits [] 0 rest with
    | .error text => .bad "UTF-8 value too large" ('u' :: '\x7b' :: text)
    | .ok (n, digits, after) =>
      if digits.isEmpty then .bad "hexadecimal digit expected" ('u' :: '\x7b' :: after.take 1)
      else
        match after with
        | '\x7d' :: after => .bytes (extendedUtf8 n) ⟨after, line⟩
        | _ => .bad "missing '\x7d'" ('u' :: '\x7b' :: digits ++ after.take 1)
  | _ => .bad "missing '\x7b'" ('u' :: cs.take 1)

def readEscape (cs : List Char) (line : Nat) : Option Escape :=
  match cs with
  | [] => none
  | c :: rest =>
    match simpleEscapes.lookup c with
    | some b => some (.bytes [b] ⟨rest, line⟩)
    | none =>
      match dropBreak cs with
      | some after => some (.bytes [10] ⟨after, line + 1⟩)
      | none =>
        if c = 'x' then some (hexEscape rest line)
        else if c = 'z' then some (.bytes [] (skipBlanks rest line))
        else if c = 'u' then some (unicodeEscape rest line)
        else if c.isDigit then some (decimalEscape cs line)
        else some (.bad "invalid escape sequence" [c])

def quotedText (quote : Char) (acc : ByteArray) : ByteArray := pushAll ⟨#[]⟩ (charBytes quote) ++ acc

def readQuoted (quote : Char) : Nat → Cursor → ByteArray → Except Complaint (Token × Cursor)
  | 0, c, _ => near "unfinished string" "<eof>" c.line
  | fuel + 1, c, acc =>
    match c.rest with
    | [] => near "unfinished string" "<eof>" c.line
    | '\\' :: rest =>
      match readEscape rest c.line with
      | none => near "unfinished string" "<eof>" c.line
      | some (.bytes bs after) => readQuoted quote fuel after (pushAll acc bs)
      | some (.bad message consumed) =>
        nearBytes message
          (pushAll (quotedText quote acc) (('\\' :: consumed).flatMap charBytes)) c.line
    | a :: rest =>
      if a = quote then
        let text := shownBytes (pushAll (quotedText quote acc) (charBytes quote))
        .ok (.string acc text, ⟨rest, c.line⟩)
      else if isBreak a then nearBytes "unfinished string" (quotedText quote acc) c.line
      else readQuoted quote fuel ⟨rest, c.line⟩ (pushAll acc (charBytes a))

/-- Operators of more than one character, each before its beginnings. -/
def longOperators : List String := ["...", "..", "==", "~=", "<=", ">=", "<<", ">>", "//", "::"]

def isOperator (c : Char) : Bool := "+-*/%^#&~|<>=(){}[];:,.".toList.contains c

def readOperator (cs : List Char) (line : Nat) : Token × Cursor :=
  match longOperators.find? fun op => op.toList.isPrefixOf cs with
  | some op => (.mark op, ⟨cs.drop op.length, line⟩)
  | none =>
    match cs with
    | [] => (.eof, ⟨[], line⟩)
    | c :: rest =>
      if isOperator c then (.mark c.toString, ⟨rest, line⟩)
      else (.stray ((charBytes c).headD 0).toNat, ⟨rest, line⟩)

def readLongString (cs : List Char) (line : Nat) : Option (Except Complaint (Token × Cursor)) :=
  (longOpening cs).map fun (level, body) =>
    match readLongBody level ⟨body, line⟩ with
    | none => unfinishedLong "string" line ⟨body, line⟩
    | some (bytes, after) =>
      let bar := String.ofList (List.replicate level '=')
      let text := shownBytes (("[" ++ bar ++ "[").toUTF8 ++ bytes ++ ("]" ++ bar ++ "]").toUTF8)
      .ok (.string bytes text, after)

def scan (fuel : Nat) (c : Cursor) : Except Complaint (Token × Cursor) :=
  match skip fuel c with
  | .error e => .error e
  | .ok c =>
    match c.rest with
    | [] => .ok (.eof, c)
    | a :: rest =>
      if isNameStart a then
        let word := String.ofList (c.rest.takeWhile isNamePart)
        let after : Cursor := ⟨c.rest.dropWhile isNamePart, c.line⟩
        .ok (if reservedNames.contains word then .mark word else .name word, after)
      else if a.isDigit || (a == '.' && (rest.head?.map Char.isDigit).getD false) then
        readNumber c.rest c.line
      else if a = '"' ∨ a = '\'' then readQuoted a fuel ⟨rest, c.line⟩ ByteArray.empty
      else if a = '[' then
        match readLongString rest c.line with
        | some r => r
        | none =>
          let marks := rest.takeWhile (· == '=')
          if marks.isEmpty then .ok (readOperator c.rest c.line)
          else nearBytes "invalid long string delimiter"
            (String.ofList ('[' :: marks)).toUTF8 c.line
      else .ok (readOperator c.rest c.line)

end Cursor

end SlideDeck.Script
