import SlideDeck.Decimal.Whole
import SlideDeck.Project.Basic
import SlideDeck.Formula.Error

/-!
Effective values, as they are shown and as scripts get them.
-/

namespace SlideDeck

inductive Resolved where
  | number (x : Float)
  | text (s : String)
  | error (e : Formula.Error)

/-- Integral numbers below nine quadrillion become integers, and what is not finite becomes null. -/
def Json.ofFloat (x : Float) : Json :=
  match Decimal.whole? x with
  | some n => if n.natAbs < 9000000000000000 then .int n else .float x
  | none => if x.isFinite then .float x else .null

namespace Resolved

def isError : Resolved → Bool
  | .error _ => true
  | _ => false

def asNumber : Resolved → Option Float
  | .number x => some x
  | _ => none

def display : Resolved → String
  | .number x => Decimal.format x
  | .text s => s
  | .error _ => Formula.sentinel

def toJson : Resolved → Json
  | .number x => Json.ofFloat x
  | .text s => .string s
  | .error _ => .string Formula.sentinel

end Resolved

end SlideDeck
