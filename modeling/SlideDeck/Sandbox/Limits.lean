import SlideDeck.Decimal.Count
import SlideDeck.Text.Blank

/-!
The limits of one run of a script, and the settings that may replace the default ones.
-/

namespace SlideDeck

structure Limits where
  /-- A run that takes longer is warned about. -/
  timeoutMs : Nat := 5000
  /-- The nanoseconds of the time limit beyond whole milliseconds. -/
  timeoutNs : Nat := 0
  /-- In bytes; zero for no limit. -/
  memory : Nat := 33554432
  deriving DecidableEq, Repr

structure InvalidSetting where
  name : String
  value : String
  problem : CountProblem
  deriving DecidableEq, Repr

namespace Limits

/-- The time limit in nanoseconds. -/
def timeout (l : Limits) : Nat := l.timeoutMs * 1000000 + l.timeoutNs

def timeoutSetting : String := "DECKSCRIPT_SCRIPT_TIMEOUT_MS"

def memorySetting : String := "DECKSCRIPT_SCRIPT_MEMORY_LIMIT"

/-- The value of a setting, blanks around it ignored; its default if it is absent or invalid. -/
def setting (name : String) (default : Nat) : Option String → Nat × List InvalidSetting
  | none => (default, [])
  | some text =>
    match readCount (Text.trim text.toList) with
    | .ok n => (n, [])
    | .error e => (default, [⟨name, text, e⟩])

def ofSettings (timeout memory : Option String) : Limits × List InvalidSetting :=
  let default : Limits := {}
  let (t, bad) := setting timeoutSetting default.timeoutMs timeout
  let (m, worse) := setting memorySetting default.memory memory
  ({ timeoutMs := t, memory := m }, bad ++ worse)

end Limits

end SlideDeck
