import SlideDeck.Command.Arguments
import SlideDeck.Command.Survey
import SlideDeck.Command.Trial
import SlideDeck.Project.Snapshot

/-!
The answer to a request: the project is read, the page is found, and then the request is carried out.
The files, the settings and the time are given.
-/

namespace SlideDeck.Command

structure Settings where
  timeout : Option String := none
  memory : Option String := none
  /-- The filter of events. -/
  log : Option String := none

/-- Why a project cannot be read, the outermost cause first. -/
inductive LoadProblem where
  | unreadable (path reason : String)
  | malformed (p : Json.Problem)

def LoadProblem.causes : LoadProblem → List String
  | unreadable path reason => ["failed to read project '" ++ path ++ "': " ++ reason, reason]
  | malformed p => ["malformed project snapshot: " ++ p.message, p.message]

def LoadProblem.message (path : String) (p : LoadProblem) : String :=
  "Failed to load project: " ++ path ++ "\n\nCaused by:\n" ++
    String.intercalate "\n" (p.causes.zipIdx.map fun (cause, i) => "    " ++ toString i ++ ": " ++ cause)

def load (path : String) : Except String String → Except LoadProblem Project
  | .error reason => .error (.unreadable path reason)
  | .ok text =>
    match Project.parse text with
    | .error p => .error (.malformed p)
    | .ok p => .ok p

def loaded (path : String) (p : Project) : Log.Event :=
  { level := .debug, target := "deck::cmd", message := "loaded project"
    fields := [("path", .bare path), ("pages", .count p.pageCount), ("assets", .count p.assets.length)] }

/-- Goes on with the page of a number counted from one. -/
def onPage (p : Project) (number : Nat) (k : Nat → Report) : Report :=
  match page? p number with
  | .error message => { failure := some message }
  | .ok page => k page

def ask (p : Project) (settings : Settings) (now : Int) : Request → Report
  | .values none => values p (pages p)
  | .values (some number) => onPage p number fun page => values p [page]
  | .formula text number => onPage p number (formula p text)
  | .check => check p
  | .run inst number timeoutMs asJson =>
    onPage p number fun page => run p page inst timeoutMs asJson settings.timeout settings.memory now

def answer (i : Invocation) (settings : Settings) (file : Except String String) (now : Int) : Report :=
  match load i.path file with
  | .error e => { failure := some (e.message i.path) }
  | .ok p =>
    let r := ask p settings now i.request
    { r with events := loaded i.path p :: r.events }

/-- Which events are shown; without a setting, warnings, or much more if that was asked for. -/
def Invocation.filter (i : Invocation) (settings : Settings) : Log.Filter :=
  .ofSetting settings.log (if i.verbose then .debug else .warn)

end SlideDeck.Command
