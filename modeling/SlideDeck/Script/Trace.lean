/-!
Traces of the functions that were running when an error was raised (Lua 5.4). A function is shown with
where it was and with what it is known as.
-/

namespace SlideDeck.Script

inductive OriginKind where
  | ownVariable
  | upvalue
  | global
  | constant
  | method
  | field
  | iterator
  | metamethod
  deriving DecidableEq, Hashable, Repr, Inhabited

def OriginKind.text : OriginKind → String
  | ownVariable => "local"
  | upvalue => "upvalue"
  | global => "global"
  | constant => "constant"
  | method => "method"
  | field => "field"
  | iterator => "for iterator"
  | metamethod => "metamethod"

inductive Chunk where
  | host
  | script
  /-- What answers where a script reads a name that is not bound. -/
  | guard
  deriving DecidableEq, Hashable, Repr, Inhabited

def chunkName : String := "[string \"script\"]"

inductive Naming where
  | unknown
  | mainChunk
  /-- A function of a library. -/
  | library (name : String)
  /-- What the function was called as that waits for it. -/
  | called (kind : OriginKind) (name : String)
  /-- A script function by the line where it begins. -/
  | defined (line : Nat)
  | guard
  deriving DecidableEq, Hashable, Repr, Inhabited

namespace Naming

def text : Naming → String
  | unknown => "?"
  | mainChunk => "main chunk"
  | library name => "function '" ++ name ++ "'"
  | called kind name => kind.text ++ " '" ++ name ++ "'"
  | defined line => "function <" ++ chunkName ++ ":" ++ toString line ++ ">"
  | guard => "function <strict:4>"

/-- A name that the script gave. -/
def word? : Naming → Option String
  | library name | called _ name => some name
  | _ => none

end Naming

structure Activation where
  chunk : Chunk := .host
  line : Option Nat := none
  name : Naming := .unknown
  /-- Whether it took the place of the function that called it. -/
  isTail : Bool := false
  deriving DecidableEq, Hashable, Repr, Inhabited

namespace Activation

/-- Where the function was. The guard fails on one line only. -/
def place (a : Activation) : String :=
  match a.chunk with
  | .host => "[C]"
  | .guard => "strict:5"
  | .script =>
    match a.line with
    | some n => chunkName ++ ":" ++ toString n
    | none => chunkName

def text (a : Activation) : String :=
  "\n\t" ++ a.place ++ ": in " ++ a.name.text ++ if a.isTail then "\n\t(...tail calls...)" else ""

end Activation

def traceFirst : Nat := 10

def traceLast : Nat := 11

def traceMost : Nat := traceFirst + traceLast + 1

/-- A trace as text, from the innermost function on. It counts one function less than it leaves out. -/
def traceText (trace : List Activation) : String :=
  let lines (as : List Activation) : String := String.join (as.map (·.text))
  "stack traceback:" ++
    if trace.length ≤ traceMost then lines trace
    else
      lines (trace.take traceFirst) ++
        "\n\t...\t(skipping " ++ toString (trace.length - traceMost) ++ " levels)" ++
        lines (trace.drop (trace.length - traceLast))

end SlideDeck.Script
