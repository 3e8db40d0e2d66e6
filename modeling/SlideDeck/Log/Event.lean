import SlideDeck.Json.Writing

/-!
What a program reports about its own work, and the two ways in which it is written: a line of text and
a JSON object on one line.
-/

namespace SlideDeck.Log

inductive Level where
  | error
  | warn
  | info
  | debug
  | trace
  deriving DecidableEq, Repr

/-- The more detailed, the higher. -/
def Level.rank : Level → Nat
  | error => 1
  | warn => 2
  | info => 3
  | debug => 4
  | trace => 5

def Level.name : Level → String
  | error => "ERROR"
  | warn => "WARN"
  | info => "INFO"
  | debug => "DEBUG"
  | trace => "TRACE"

inductive Detail where
  /-- Text that stands as it is in a line. -/
  | bare (s : String)
  | quoted (s : String)
  | count (n : Nat)
  | float (x : Float)

def Detail.text : Detail → String
  | bare s => s
  | quoted s => Json.quote s
  | count n => toString n
  | float x => Decimal.pointed x

def Detail.toJson : Detail → Json
  | bare s | quoted s => .string s
  | count n => .int n
  | float x => .float x

structure Event where
  level : Level
  /-- The part of the program that reports. -/
  target : String
  message : String
  fields : List (String × Detail) := []

/-- Characters that steer a terminal are spelled out. -/
def harmless (c : Char) : String :=
  let n := c.toNat
  if n = 0x1b || n = 0x7f then "\\x" ++ String.ofList (Nat.toDigits 16 n)
  else if n = 7 || n = 8 || n = 12 then "\\x0" ++ String.ofList (Nat.toDigits 16 n)
  else if 0x80 ≤ n && n ≤ 0x9f then "\\u\x7b" ++ String.ofList (Nat.toDigits 16 n) ++ "\x7d"
  else c.toString

def Event.text (e : Event) : String :=
  String.ofList (List.replicate (5 - e.level.name.length) ' ') ++ e.level.name ++ " " ++ e.target ++ ": " ++
    String.join (e.message.toList.map harmless) ++
    String.join (e.fields.map fun f => " " ++ f.1 ++ "=" ++ f.2.text)

def Event.toJson (e : Event) : Json :=
  .object [("level", .string e.level.name),
    ("fields", .object (("message", .string e.message) :: e.fields.map fun f => (f.1, f.2.toJson))),
    ("target", .string e.target)]

def Event.line (asJson : Bool) (e : Event) : String := if asJson then e.toJson.compact else e.text

end SlideDeck.Log
