import SlideDeck.Formula.Error
import SlideDeck.Decimal.Reading

/-!
The arithmetic that formulas come down to.

    expr    := term (('+' | '-') term)*
    term    := factor (('*' | '/') factor)*
    factor  := ('+' | '-')* primary
    primary := number | '(' expr ')'
    number  := digits ('.' digits)? | '.' digits

Blanks may stand between tokens. A text is cut into tokens whole before any of them is parsed.
-/

namespace SlideDeck.Formula

abbrev Item := Token × Nat

def isAsciiBlank (c : Char) : Bool :=
  c = ' ' || c = '\t' || c = '\n' || c = '\r' || c = Char.ofNat 12

def symbol? (c : Char) : Option Token :=
  match c with
  | '+' => some .plus
  | '-' => some .minus
  | '*' => some .star
  | '/' => some .slash
  | '(' => some .opening
  | ')' => some .closing
  | _ => none

/-- The digits of a number that starts here, whole and after the point, and what follows. A point
without digits after it is no number. -/
def splitNumber (cs : List Char) : Option (List Char × List Char × List Char) :=
  let whole := cs.takeWhile Char.isDigit
  match cs.dropWhile Char.isDigit with
  | '.' :: rest =>
    let fraction := rest.takeWhile Char.isDigit
    if fraction.isEmpty then none else some (whole, fraction, rest.dropWhile Char.isDigit)
  | rest => some (whole, [], rest)

/-- The tokens in `acc`, last one first, and those of `cs`, which stands at `offset`; `fuel` is at
least the length of `cs`. -/
def tokensFrom : Nat → List Item → Nat → List Char → Except GrammarError (List Item)
  | 0, acc, _, _ => .ok acc.reverse
  | _, acc, _, [] => .ok acc.reverse
  | fuel + 1, acc, offset, c :: rest =>
    if isAsciiBlank c then tokensFrom fuel acc (offset + 1) rest
    else if c.isDigit || c = '.' then
      match splitNumber (c :: rest) with
      | none => .error (.malformedNumber offset)
      | some (whole, fraction, after) =>
        let value := Decimal.Scientific.toFloat
          ⟨Decimal.natOfDigits (whole ++ fraction), -(fraction.length : Int)⟩
        let width := (c :: rest).length - after.length
        tokensFrom fuel ((.number value, offset) :: acc) (offset + width) after
    else
      match symbol? c with
      | none => .error (.unexpectedChar c offset)
      | some t => tokensFrom fuel ((t, offset) :: acc) (offset + 1) rest

def tokens (text : List Char) : Except GrammarError (List Item) := tokensFrom text.length [] 0 text

abbrev Parsed := Except GrammarError (Float × List Item)

def unexpected : List Item → GrammarError
  | [] => .unexpectedEnd
  | (t, offset) :: _ => .unexpectedToken t offset

/-- Operands joined by operators that `op` knows, folded to the left; `fuel` is at least the number
of tokens. -/
def foldLeft (op : Token → Option (Float → Float → Float)) (operand : List Item → Parsed) :
    Nat → Float → List Item → Parsed
  | 0, acc, items => .ok (acc, items)
  | _, acc, [] => .ok (acc, [])
  | fuel + 1, acc, (t, offset) :: rest =>
    match op t with
    | none => .ok (acc, (t, offset) :: rest)
    | some f =>
      match operand rest with
      | .error e => .error e
      | .ok (x, rest') => foldLeft op operand fuel (f acc x) rest'

def chain (op : Token → Option (Float → Float → Float)) (operand : List Item → Parsed)
    (items : List Item) : Parsed :=
  match operand items with
  | .error e => .error e
  | .ok (x, rest) => foldLeft op operand rest.length x rest

def multiplicative : Token → Option (Float → Float → Float)
  | .star => some (· * ·)
  | .slash => some (· / ·)
  | _ => none

def additive : Token → Option (Float → Float → Float)
  | .plus => some (· + ·)
  | .minus => some (· - ·)
  | _ => none

def factor (primary : List Item → Parsed) (negate : Bool) : List Item → Parsed
  | (.plus, _) :: rest => factor primary negate rest
  | (.minus, _) :: rest => factor primary (!negate) rest
  | items =>
    match primary items with
    | .error e => .error e
    | .ok (x, rest) => .ok (if negate then -x else x, rest)

def expression (primary : List Item → Parsed) : List Item → Parsed :=
  chain additive (chain multiplicative (factor primary false))

/-- A number or a group; `depth` more groups may open. -/
def primary : Nat → List Item → Parsed
  | _, (.number x, _) :: rest => .ok (x, rest)
  | 0, (.opening, _) :: _ => .error .tooDeep
  | depth + 1, (.opening, _) :: rest =>
    match expression (primary depth) rest with
    | .error e => .error e
    | .ok (x, (.closing, _) :: rest') => .ok (x, rest')
    | .ok (_, items) => .error (unexpected items)
  | _, items => .error (unexpected items)

def maxDepth : Nat := 256

/-- The value of a text that is one expression as a whole. Dividing by zero is no error here. -/
def evaluate (text : List Char) : Except GrammarError Float :=
  match tokens text with
  | .error e => .error e
  | .ok [] => .error .empty
  | .ok items =>
    match expression (primary maxDepth) items with
    | .error e => .error e
    | .ok (x, []) => .ok x
    | .ok (_, rest) => .error (unexpected rest)

end SlideDeck.Formula
