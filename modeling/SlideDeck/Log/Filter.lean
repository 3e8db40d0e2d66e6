import SlideDeck.Decimal.Count
import SlideDeck.Log.Event
import SlideDeck.Text.Blank
import SlideDeck.Text.Word

/-!
Which events are shown. A filter is a list of directives `target[{field}]=level`, each part optional,
with commas between them; of those that concern an event the most specific decides.
-/

namespace SlideDeck.Log

structure Directive where
  /-- What the target of an event begins with. -/
  target : Option String := none
  /-- A field that the event has. -/
  field : Option String := none
  /-- The highest rank that is shown. -/
  rank : Nat
  deriving DecidableEq, Repr

namespace Directive

def concerns (d : Directive) (e : Event) : Bool :=
  d.target.all (fun t => e.target.startsWith t) && d.field.all fun f => e.fields.any (·.1 == f)

/-- A longer target is more specific, then a field. -/
def specificity (d : Directive) : Nat :=
  2 * (d.target.map String.utf8ByteSize).getD 0 + if d.field.isSome then 1 else 0

def rankNames : List (String × Nat) :=
  [("off", 0), ("error", 1), ("warn", 2), ("info", 3), ("debug", 4), ("trace", 5)]

def rank? (text : List Char) : Option Nat :=
  match readCount text with
  | .ok n => if n ≤ 5 then some n else none
  | .error _ => rankNames.lookup (String.ofList text).toLower

/-- The part in brackets, and what follows it: the name of a field, or `none` where the part asks for
more than events can have. -/
def bracket? (text : List Char) : Option (Option String × List Char) :=
  let span := text.takeWhile fun c => c ≠ ']' && c ≠ '\x7b'
  match text.drop span.length with
  | ']' :: rest => some (none, rest)
  | '\x7b' :: rest =>
    let field := rest.takeWhile (· ≠ '\x7d')
    match rest.drop field.length with
    | '\x7d' :: ']' :: rest =>
      if field.isEmpty then none
      else if span.isEmpty && !field.contains '=' then some (some (String.ofList field), rest)
      else some (none, rest)
    | _ => none
  | _ => none

def level? : List Char → Option Nat
  | [] => some Level.trace.rank
  | text => rank? text

/-- A directive without blanks in front; the inner `none` is one that concerns no event. -/
def parseBody? (text : List Char) : Option (Option Directive) :=
  let head := text.takeWhile fun c => c ≠ '=' && c ≠ '['
  let target := if head.isEmpty then none else some (String.ofList head)
  match text.drop head.length with
  | [] => some (some (match rank? head with
    | some rank => { rank }
    | none => { target, rank := Level.trace.rank }))
  | '=' :: level => do return some { target, rank := ← level? level }
  | _ :: inner => do
    let (field, rest) ← bracket? inner
    let rank ← match rest with
      | '=' :: level => level? level
      | rest => if rest.all Text.isBlank then some Level.trace.rank else none
    return field.map fun f => { target, field := some f, rank }

def isStart (c : Char) : Bool := Text.isWord c || c = '-' || c = ':' || c = '['

/-- A directive; with blanks in front it can have no level and concerns no event. -/
def parse? (text : List Char) : Option (Option Directive) :=
  let body := text.dropWhile Text.isBlank
  if !body.head?.any isStart then none
  else if body.length = text.length then parseBody? body
  else if body.contains '=' then none
  else (parseBody? body).map fun _ => none

end Directive

abbrev Filter := List Directive

namespace Filter

def upTo (l : Level) : Filter := [{ rank := l.rank }]

/-- Without any directive, errors alone are shown. -/
def parse? (text : String) : Option Filter :=
  match (text.splitOn ",").filter (· ≠ "") with
  | [] => some (upTo .error)
  | parts => (parts.mapM fun part => Directive.parse? part.toList).map (·.filterMap id)

def ofSetting (setting : Option String) (default : Level) : Filter :=
  (setting.bind parse?).getD (upTo default)

/-- The most specific directive that concerns an event; of two alike, the later. -/
def decisive? (f : Filter) (e : Event) : Option Directive :=
  f.foldl (fun best d =>
    if d.concerns e && best.all (fun b => b.specificity ≤ d.specificity) then some d else best) none

def shows (f : Filter) (e : Event) : Bool := (f.decisive? e).any fun d => e.level.rank ≤ d.rank

end Filter

end SlideDeck.Log
