import SlideDeck.Decimal.Reading

/-!
Whole numbers of 64 bits, as they are given in settings and arguments.
-/

namespace SlideDeck

inductive CountProblem where
  | empty
  | invalidDigit
  | tooLarge
  deriving DecidableEq, Repr

def CountProblem.message : CountProblem → String
  | .empty => "cannot parse integer from empty string"
  | .invalidDigit => "invalid digit found in string"
  | .tooLarge => "number too large to fit in target type"

def readDigits (n : Nat) : List Char → Except CountProblem Nat
  | [] => .ok n
  | c :: rest =>
    if !c.isDigit then .error .invalidDigit
    else
      let n := 10 * n + Decimal.digitValue c
      if 2 ^ 64 ≤ n then .error .tooLarge else readDigits n rest

/-- A whole number, a plus sign in front allowed. -/
def readCount : List Char → Except CountProblem Nat
  | [] => .error .empty
  | ['+'] => .error .invalidDigit
  | '+' :: rest => readDigits 0 rest
  | cs => readDigits 0 cs

end SlideDeck
