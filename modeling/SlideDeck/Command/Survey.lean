import SlideDeck.Command.Report
import SlideDeck.Project.Name
import SlideDeck.Resolve.Trace
import SlideDeck.Sandbox.Risk
import SlideDeck.Sandbox.Rendering

/-!
Questions about a whole project: the values on its pages, formula text evaluated on a page, and what is
wrong with it.
-/

namespace SlideDeck.Command

/-- A project without pages still answers for one. -/
def pages (p : Project) : List Nat := List.range (max p.pageCount 1)

def pageOutOfRange (number total : Nat) : String :=
  "Page " ++ toString number ++ " is out of range (project has " ++ toString total ++ " page(s))"

def page? (p : Project) (number : Nat) : Except String Nat :=
  if number = 0 || max p.pageCount 1 < number then .error (pageOutOfRange number p.pageCount)
  else .ok (number - 1)

def valueLine (v : NamedValue) (shown : Resolved) : String :=
  "  " ++ v.name ++ " = " ++ shown.display ++ match shown with
    | .error e => " (" ++ e.message ++ ")"
    | _ => ""

def valueLines (r : Resolver) (page : Nat) : List String :=
  ("Page " ++ toString (page + 1) ++ "/" ++ toString r.project.pageCount) ::
    (r.resolvePage page).map fun v => valueLine v.1 v.2

def values (p : Project) (chosen : List Nat) : Report :=
  let r := Resolver.ofProject p
  { events := chosen.flatMap r.pageEvents, output := chosen.flatMap (valueLines r) }

def formula (p : Project) (text : String) (page : Nat) : Report :=
  let r := Resolver.ofProject p
  let events := r.textEvents text page
  match r.evaluate text page with
  | .ok x => { events, output := [Decimal.format x] }
  | .error e => { events, output := [Formula.sentinel], failure := some e.message }

/-! Checking -/

def formulaProblems (r : Resolver) (page : Nat) : List String :=
  (r.check page).map fun (v, e) =>
    "page " ++ toString (page + 1) ++ ": '" ++ v.name ++ "': " ++ e.message

def placementProblems (p : Project) : List String :=
  p.pages.zipIdx.flatMap fun (pg, page) =>
    (pg.instances.filter fun i => (p.script? i.scriptId).isNone).map fun i =>
      "page " ++ toString (page + 1) ++ ": " ++ Context.unknownScript i.id i.scriptId

def problems (p : Project) : List String :=
  p.problems.map NameProblem.message ++ (pages p).flatMap (formulaProblems (Resolver.ofProject p)) ++
    placementProblems p

def scripts (p : Project) : List ScriptAsset :=
  p.assets.filterMap fun
    | (_, .script s) => some s
    | _ => none

def riskWarnings (p : Project) : List String :=
  (scripts p).flatMap fun s => (Risk.scan s.source).map fun risk =>
    "warning: script '" ++ s.name ++ "': " ++ risk

/-- Risks are listed, but only problems make a check fail. -/
def check (p : Project) : Report :=
  let r := Resolver.ofProject p
  let found := problems p
  let report : Report := {
    events := (pages p).flatMap r.pageEvents
    output := riskWarnings p ++ found.map ("error: " ++ ·) }
  if found.isEmpty then { report with output := report.output ++ ["✓ No problems found"] }
  else report.fail (toString found.length ++ " problem(s) found")

end SlideDeck.Command
