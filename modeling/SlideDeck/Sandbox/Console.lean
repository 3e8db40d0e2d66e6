/-!
The lines that a run of a script writes. They are kept up to a number of lines and of bytes; the first
line that does not fit is replaced by a marker, and nothing is kept after it.
-/

namespace SlideDeck

structure Console where
  lines : Array String := #[]
  bytes : Nat := 0
  truncated : Bool := false
  deriving Inhabited, Repr

namespace Console

def maxLines : Nat := 1000

def maxBytes : Nat := 1048576

def truncationMark : String := "[console output truncated]"

def push (c : Console) (line : String) : Console :=
  if c.truncated then c
  else if maxLines ≤ c.lines.size || maxBytes < c.bytes + line.utf8ByteSize then
    { c with lines := c.lines.push truncationMark, truncated := true }
  else { c with lines := c.lines.push line, bytes := c.bytes + line.utf8ByteSize }

end Console

inductive ConsoleWriter where
  | print
  | log
  | info
  | warn
  | error
  deriving DecidableEq, Hashable, Repr, Inhabited

namespace ConsoleWriter

def separator : ConsoleWriter → String
  | print => "\t"
  | _ => " "

def mark : ConsoleWriter → String
  | warn => "[warn] "
  | error => "[error] "
  | _ => ""

def line (w : ConsoleWriter) (texts : List String) : String := w.mark ++ w.separator.intercalate texts

end ConsoleWriter

end SlideDeck
