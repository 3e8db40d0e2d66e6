import SlideDeck.Formula.Reference

/-!
Which formulas read which names, and the cycles among them.
-/

namespace SlideDeck.Formula

/-- Every name that reads or is read, with the names it reads, most recently added first. -/
structure Dependencies where
  nodes : List (String × List String)
  deriving DecidableEq, Repr

namespace Dependencies

def empty : Dependencies := ⟨[]⟩

def successors (d : Dependencies) (name : String) : List String := (d.nodes.lookup name).getD []

def contains (d : Dependencies) (name : String) : Bool := d.nodes.any (·.1 == name)

def addNode (d : Dependencies) (name : String) : Dependencies :=
  if d.contains name then d else ⟨d.nodes ++ [(name, [])]⟩

/-- An edge that is there already keeps its place. -/
def addEdge (d : Dependencies) (reader name : String) : Dependencies :=
  ⟨(d.addNode name).nodes.map fun (n, out) =>
    if n = reader ∧ ¬ out.contains name then (n, name :: out) else (n, out)⟩

def add (d : Dependencies) (name text : String) : Dependencies :=
  (uniqueReferences text).foldl (fun d dep => d.addEdge name dep) (d.addNode name)

def closing (path : List String) (name : String) : List String :=
  path.dropWhile (· != name) ++ [name]

abbrev Walk := Except (List String) (List String)

/-- Depth first from `name`, below `path`, passing by the names in `cleared`. The path repeats no
name, so `fuel` need not exceed the number of names. -/
def walk (d : Dependencies) : Nat → List String → List String → String → Walk
  | 0, _, cleared, _ => .ok cleared
  | fuel + 1, path, cleared, name =>
    if path.contains name then .error (closing path name)
    else if cleared.contains name then .ok cleared
    else
      match (d.successors name).foldlM (fun cleared next => walk d fuel (path ++ [name]) cleared next)
          cleared with
      | .error chain => .error chain
      | .ok cleared => .ok (name :: cleared)

def findFrom (d : Dependencies) (name : String) : Option (List String) :=
  match d.walk (d.nodes.length + 1) [] [] name with
  | .error chain => some chain
  | .ok _ => none

/-- Whether there is a cycle anywhere. What one walk cleared, the next one passes by. -/
def hasCycle (d : Dependencies) : Bool :=
  match d.nodes.foldlM (fun cleared n => d.walk (d.nodes.length + 1) [] cleared n.1) [] with
  | .error _ => true
  | .ok _ => false

/-- As `findCycle`, where `cyclic` says whether there is a cycle anywhere. -/
def findGiven (d : Dependencies) (cyclic : Bool) (name : String) : Option (List String) :=
  if cyclic then d.findFrom name else none

def findCycle (d : Dependencies) (name : String) : Option (List String) := d.findGiven d.hasCycle name

end Dependencies

end SlideDeck.Formula
