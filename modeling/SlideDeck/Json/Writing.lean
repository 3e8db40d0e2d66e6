import SlideDeck.Json.Basic
import SlideDeck.Decimal.Layout

/-!
JSON text, compact on one line or indented by two blanks.
-/

namespace SlideDeck.Json

def hexDigit (n : Nat) : Char :=
  if n < 10 then Char.ofNat (48 + n) else Char.ofNat (87 + n)

def escapeChar (c : Char) : List Char :=
  if c = '"' then ['\\', '"']
  else if c = '\\' then ['\\', '\\']
  else if 32 ≤ c.toNat then [c]
  else if c = '\n' then ['\\', 'n']
  else if c = '\t' then ['\\', 't']
  else if c = '\r' then ['\\', 'r']
  else if c.toNat = 8 then ['\\', 'b']
  else if c.toNat = 12 then ['\\', 'f']
  else ['\\', 'u', '0', '0', hexDigit (c.toNat / 16), hexDigit (c.toNat % 16)]

def quote (s : String) : String :=
  "\"" ++ s.foldl (fun acc c => if 32 ≤ c.toNat ∧ c ≠ '"' ∧ c ≠ '\\' then acc.push c
    else acc ++ String.ofList (escapeChar c)) "" ++ "\""

def scalarText : Json → String
  | .null => "null"
  | .bool b => if b then "true" else "false"
  | .int n => toString n
  | .float x => Decimal.jsonText x
  | .string s => quote s
  | _ => ""

mutual

def compact : Json → String
  | .array items => "[" ++ compactItems items ++ "]"
  | .object fields => "\x7b" ++ compactFields fields ++ "\x7d"
  | scalar => scalarText scalar

def compactItems : List Json → String
  | [] => ""
  | [j] => compact j
  | j :: rest => compact j ++ "," ++ compactItems rest

def compactFields : List (String × Json) → String
  | [] => ""
  | [(k, j)] => quote k ++ ":" ++ compact j
  | (k, j) :: rest => quote k ++ ":" ++ compact j ++ "," ++ compactFields rest

end

def indentation (depth : Nat) : String := String.ofList (List.replicate (2 * depth) ' ')

mutual

/-- Indented text whose inner lines stand at `depth + 1`. -/
def pretty (depth : Nat) : Json → String
  | .array [] => "[]"
  | .object [] => "\x7b\x7d"
  | .array (j :: rest) =>
    "[\n" ++ indentation (depth + 1) ++ pretty (depth + 1) j ++ prettyItems (depth + 1) rest ++
      "\n" ++ indentation depth ++ "]"
  | .object ((k, j) :: rest) =>
    "\x7b\n" ++ indentation (depth + 1) ++ quote k ++ ": " ++ pretty (depth + 1) j ++
      prettyFields (depth + 1) rest ++ "\n" ++ indentation depth ++ "\x7d"
  | scalar => scalarText scalar

def prettyItems (depth : Nat) : List Json → String
  | [] => ""
  | j :: rest => ",\n" ++ indentation depth ++ pretty depth j ++ prettyItems depth rest

def prettyFields (depth : Nat) : List (String × Json) → String
  | [] => ""
  | (k, j) :: rest =>
    ",\n" ++ indentation depth ++ quote k ++ ": " ++ pretty depth j ++ prettyFields depth rest

end

end SlideDeck.Json
