import SlideDeck.Resolve.Value
import SlideDeck.Text.Blank

/-!
What a script parameter may be bound to, and how a bound value is fitted to the parameter's type.
-/

namespace SlideDeck

inductive BindingSource where
  | pageCurrent
  | pageTotal
  | namedValue (name : String)
  | unresolved
  deriving DecidableEq, Repr

namespace BindingSource

def classify (source : String) (values : List (String × Json)) : BindingSource :=
  if source = "page_current" then .pageCurrent
  else if source = "page_total" then .pageTotal
  else if (values.lookup source).isSome then .namedValue source
  else .unresolved

def value? (pageCurrent pageTotal : Nat) (values : List (String × Json)) : BindingSource → Option Json
  | .pageCurrent => some (.int pageCurrent)
  | .pageTotal => some (.int pageTotal)
  | .namedValue name => values.lookup name
  | .unresolved => none

end BindingSource

/-- Numbers, flags and text turn into each other where the value fits; anything else stays. -/
def coerce : ParamType → Json → Json
  | .number, .string s =>
    match Decimal.read (Text.trim s.toList) with
    | some x => if x.isFinite then .ofFloat x else .string s
    | none => .string s
  | .number, .bool b => .int (if b then 1 else 0)
  | .string, .int n | .color, .int n => .string (Decimal.format (Float.ofInt n))
  | .string, .float x | .color, .float x => .string (Decimal.format x)
  | .string, .bool b | .color, .bool b => .string (if b then "true" else "false")
  | .boolean, .int n => .bool (n ≠ 0)
  | .boolean, .float x => .bool (x != 0.0)
  | .boolean, .string s =>
    if s = "true" then .bool true else if s = "false" then .bool false else .string s
  | _, v => v

end SlideDeck
