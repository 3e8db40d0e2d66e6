import SlideDeck.Project.Basic

/-!
Which names formulas and scripts can use, and what is wrong with the names in a project.
-/

namespace SlideDeck

def isNameStart (c : Char) : Bool := c.isAlpha || c = '_'

def isNameChar (c : Char) : Bool := c.isAlphanum || c = '_'

/-- Matches `[a-zA-Z_][a-zA-Z0-9_]*`. -/
def isIdentifier (name : String) : Bool :=
  match name.toList with
  | [] => false
  | c :: rest => isNameStart c && rest.all isNameChar

def reservedWords : List String :=
  ["and", "break", "do", "else", "elseif", "end", "false", "for", "function", "goto", "if", "in",
    "local", "nil", "not", "or", "repeat", "return", "then", "true", "until", "while"]

/-- Variables that every script gets and no value or parameter can take. -/
def contextNames : List String := ["page_current", "page_total", "values", "params"]

/-- Whether a value can be seen by scripts under its own name. -/
def isBindable (name : String) : Bool :=
  isIdentifier name && !reservedWords.contains name && !contextNames.contains name

inductive NameProblem where
  | duplicate (name : String)
  | invalid (name : String)
  deriving DecidableEq, Repr

def NameProblem.message : NameProblem → String
  | .duplicate name => "duplicate value name '" ++ name ++ "'"
  | .invalid name => "value name '" ++ name ++ "' is not a valid identifier"

def nameProblems (seen : List String) (name : String) : List NameProblem :=
  (if isIdentifier name then [] else [.invalid name]) ++
    (if seen.contains name then [.duplicate name] else [])

def problemsAfter (seen : List String) : List String → List NameProblem
  | [] => []
  | name :: rest => nameProblems seen name ++ problemsAfter (name :: seen) rest

namespace Project

def problems (p : Project) : List NameProblem := problemsAfter [] (p.values.map (·.name))

def problem? (p : Project) : Option NameProblem := p.problems.head?

end Project

end SlideDeck
