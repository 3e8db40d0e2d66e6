import SlideDeck.Log.Event
import SlideDeck.Resolve.Resolver

/-!
The events of resolving: every formula that was evaluated, also for the sake of another, and every
formula value that failed.
-/

namespace SlideDeck.Resolver

def evaluated (text expanded : String) (x : Float) : Log.Event :=
  { level := .debug, target := "deckscript_lib::formula::eval", message := "evaluated formula"
    fields := [("formula", .bare text), ("expanded", .bare expanded), ("value", .float x)] }

def failed (name : String) (page : Nat) (e : Formula.Error) : Log.Event :=
  { level := .debug, target := "deckscript_lib::resolve", message := "formula evaluation failed"
    fields := [("entity", .bare name), ("page", .count page), ("error", .bare e.message)] }

abbrev Traced (α : Type) := α × List Log.Event

def traceTexts (r : Resolver) (f : PageFormulas) (resolve : NamedValue → Traced Resolved) :
    List String → Traced (Except Formula.Error (List (String × String)))
  | [] => (.ok [], [])
  | name :: rest =>
    match r.project.lookup name with
    | none => (.error (.unknownReference name), [])
    | some v =>
      match (if v.kind = .formula then f.cycleFrom name else none) with
      | some chain => (.error (.circularReference chain), [])
      | none =>
        match resolve v with
        | (.error e, events) => (.error e, events)
        | (shown, events) =>
          let (values, more) := traceTexts r f resolve rest
          (values.map ((name, shown.display) :: ·), events ++ more)

def traceText (r : Resolver) (f : PageFormulas) (page : Nat) (resolve : NamedValue → Traced Resolved)
    (text : String) : Traced (Except Formula.Error Float) :=
  match r.traceTexts f resolve (Formula.uniqueReferences text) with
  | (.error e, events) => (.error e, events)
  | (.ok values, events) =>
    let expanded := r.expand values page text
    match evaluateExpanded expanded with
    | .error e => (.error e, events)
    | .ok x => (.ok x, events ++ [evaluated text expanded x])

def traceWith (r : Resolver) (f : PageFormulas) (page : Nat) : Nat → NamedValue → Traced Resolved
  | 0, v => (.error (.circularReference [v.name, v.name]), [])
  | fuel + 1, v =>
    let raw := r.raw v page
    match v.kind with
    | .number => (.number raw.toNumber, [])
    | .string => (.text raw.toText, [])
    | .formula =>
      match f.cycleFrom v.name with
      | some chain =>
        (.error (.circularReference chain), [failed v.name page (.circularReference chain)])
      | none =>
        match r.traceText f page (traceWith r f page fuel) raw.toText with
        | (.ok x, events) => (.number x, events)
        | (.error e, events) => (.error e, events ++ [failed v.name page e])

def pageEvents (r : Resolver) (page : Nat) : List Log.Event :=
  let f := r.formulas page
  r.project.values.flatMap fun v => (r.traceWith f page r.fuel v).2

def textEvents (r : Resolver) (text : String) (page : Nat) : List Log.Event :=
  let f := r.formulas page
  (r.traceText f page (r.traceWith f page r.fuel) text).2

end SlideDeck.Resolver
