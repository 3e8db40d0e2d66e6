import SlideDeck.Formula.Dependency

/-!
The dependencies of formulas as they are asked about. Whether there is a cycle is found out once for each
set of formulas, when it is first asked for.
-/

namespace SlideDeck.Formula

/-- `verdict` says whether there is a cycle, if that has been asked for since the last formula came. -/
structure Index where
  dependencies : Dependencies
  verdict : Option Bool
  deriving DecidableEq, Repr

namespace Index

def empty : Index := ⟨.empty, none⟩

def add (i : Index) (name text : String) : Index := ⟨i.dependencies.add name text, none⟩

def ofFormulas (formulas : List (String × String)) : Index :=
  formulas.foldl (fun i f => i.add f.1 f.2) .empty

def hasCycle (i : Index) : Bool × Index :=
  match i.verdict with
  | some cyclic => (cyclic, i)
  | none =>
    let cyclic := i.dependencies.hasCycle
    (cyclic, { i with verdict := some cyclic })

/-- The first cycle met from `name`. Looking for it asks for the verdict first. -/
def findCycle (i : Index) (name : String) : Option (List String) × Index :=
  let (cyclic, i) := i.hasCycle
  (i.dependencies.findGiven cyclic name, i)

inductive Request where
  | add (name text : String)
  | hasCycle
  | findCycle (name : String)
  | dependencies (name : String)
  /-- A second index like this one. -/
  | clone
  deriving DecidableEq, Repr

inductive Answer where
  | done
  | verdict (cyclic : Bool)
  | chain (found : Option (List String))
  | names (names : List String)
  deriving DecidableEq, Repr

/-- The answer to a request, and the index afterwards. -/
def serve (i : Index) : Request → Answer × Index
  | .add name text => (.done, i.add name text)
  | .hasCycle => let (cyclic, i) := i.hasCycle; (.verdict cyclic, i)
  | .findCycle name => let (found, i) := i.findCycle name; (.chain found, i)
  | .dependencies name => (.names (i.dependencies.successors name), i)
  | .clone => (.done, i)

end Index

end SlideDeck.Formula
