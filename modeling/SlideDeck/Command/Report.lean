import SlideDeck.Log.Filter

/-!
What a request answers, before it is printed.
-/

namespace SlideDeck.Command

structure Report where
  events : List Log.Event := []
  output : List String := []
  /-- Remarks that are no part of the output. -/
  remarks : List String := []
  /-- Why the request failed. -/
  failure : Option String := none

namespace Report

def fail (r : Report) (message : String) : Report := { r with failure := some message }

def exitCode (r : Report) : Nat := if r.failure.isSome then 1 else 0

def errorOutput (r : Report) (filter : Log.Filter) (asJson : Bool) : List String :=
  (r.events.filter filter.shows).map (·.line asJson) ++ r.remarks ++
    (r.failure.map ("Error: " ++ ·)).toList

end Report

end SlideDeck.Command
