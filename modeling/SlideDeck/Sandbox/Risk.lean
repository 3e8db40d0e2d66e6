import SlideDeck.Text.Blank
import SlideDeck.Text.Word

/-!
Marks of scripts that may never finish or that reach around their environment. They are reported and
stop nothing. A mark is looked for at every position, given the character before it.
-/

namespace SlideDeck.Risk

/-- Whether something stands at a position: the character before it and the text from it on. -/
abbrev Test := Option Char → List Char → Bool

/-- What follows `word`, which must be whole on both sides. -/
def wordAt (word : String) (before : Option Char) (cs : List Char) : Option (List Char) :=
  match word.toList.isPrefixOf? cs with
  | none => none
  | some rest =>
    if Text.isBoundary before cs.head? && Text.isBoundary word.toList.getLast? rest.head? then some rest
    else none

def blanks (cs : List Char) : Option (List Char) :=
  match cs with
  | c :: rest => if Text.isBlank c then some (rest.dropWhile Text.isBlank) else none
  | [] => none

def somewhere (p : Char → Bool) (test : Test) (before : Option Char) : List Char → Bool
  | [] => test before []
  | c :: rest => test before (c :: rest) || (p c && somewhere p test (some c) rest)

def phrase : List String → Test
  | [], _, _ => true
  | [w], before, cs => (wordAt w before cs).isSome
  | w :: ws, before, cs =>
    match (wordAt w before cs).bind blanks with
    | none => false
    | some rest => phrase ws (some ' ') rest

def endlessRepeat : Test := fun before cs =>
  match wordAt "repeat" before cs with
  | none => false
  | some rest => somewhere (fun _ => true) (phrase ["until", "false"]) (some 't') rest

/-- On one line only. -/
def hugeLoop : Test := fun before cs =>
  match wordAt "for" before cs with
  | none => false
  | some rest =>
    somewhere (· != '\n') (fun b cs => (wordAt "math.huge" b cs).isSome) (some 'r') rest

def anyWord (words : List String) : Test := fun before cs =>
  words.any fun w => (wordAt w before cs).isSome

/-- One of the words, whole on its left, then an opening parenthesis. -/
def calls (words : List String) : Test := fun before cs =>
  words.any fun w =>
    match w.toList.isPrefixOf? cs with
    | none => false
    | some rest =>
      Text.isBoundary before cs.head? && (rest.dropWhile Text.isBlank).head? == some '('

def dumps : Test := fun before cs =>
  (wordAt "string.dump" before cs).isSome ||
    match ":dump".toList.isPrefixOf? cs with
    | none => false
    | some rest => (rest.dropWhile Text.isBlank).head? == some '('

def debugging : Test := fun before cs =>
  "debug.".toList.isPrefixOf cs && Text.isBoundary before cs.head?

structure Marker where
  test : Test
  message : String

def markers : List Marker :=
  [⟨phrase ["while", "true", "do"], "possible unbounded loop 'while true do'"⟩,
    ⟨endlessRepeat, "possible unbounded loop 'repeat ... until false'"⟩,
    ⟨hugeLoop, "loop bounded by math.huge"⟩,
    ⟨anyWord ["getmetatable", "setmetatable", "rawget", "rawset", "rawequal", "rawlen"],
      "metatable or raw table access"⟩,
    ⟨anyWord ["_G", "_ENV"], "direct access to the global environment"⟩,
    ⟨calls ["load", "loadstring", "loadfile", "dofile", "require"], "dynamic code loading"⟩,
    ⟨dumps, "bytecode dump"⟩,
    ⟨debugging, "debug library access"⟩]

def findLine (test : Test) (line : Nat) (before : Option Char) : List Char → Option Nat
  | [] => if test before [] then some line else none
  | c :: rest =>
    if test before (c :: rest) then some line
    else findLine test (if c = '\n' then line + 1 else line) (some c) rest

def scan (source : String) : List String :=
  let cs := source.toList
  markers.filterMap fun m =>
    (findLine m.test 1 none cs).map fun line => m.message ++ " (line " ++ toString line ++ ")"

end SlideDeck.Risk
