import SlideDeck.Proofs.Script.Conduct.Run
import SlideDeck.Sandbox.Execution

/-!
What a run leaves behind, wherever it ends: its outcome, its warnings and its console agree with each
other and with what the script did.
-/

namespace SlideDeck.Sandbox

open Script (Exec Machine Program Value)
open Script.Located (Within)

section Stages

/-- What has to go well before a script is run. -/
def load (source : String) (limits : Limits) : Except RunError Program :=
  if source.toList.all Text.isBlank then .error .empty
  else
    match compile source limits with
    | .error d => .error (.compile d)
    | .ok p => .ok p

def runBody (p : Program) : Exec (Array Value) := do
  Exec.charge 0
  call p body #[]

def callGenerator (p : Program) (returned : Array Value) : Exec (Option Value) := do
  let env ← Exec.table Environment.address
  let named := env.getString generatorName
  let generator := if isFunction named then named else returned.getD 0 .nil
  if isFunction generator then
    return some ((← call p generator #[env.getString "params"]).getD 0 .nil)
  else return none

variable (source : String) (c : Context) (limits : Limits) (now : Int) (p : Program)

theorem run_eq_load : run source c limits now =
    match load source limits with
    | .error e => { outcome := .error e, notes := c.warnings }
    | .ok p => { execute p c limits now with notes := c.warnings, risks := Risk.scan source } := by
  unfold run load
  split
  · rfl
  · cases compile source limits <;> rfl

theorem generate_eq : generate p = runBody p >>= callGenerator p := by
  unfold generate runBody callGenerator
  rw [bind_assoc]

end Stages

section Conduct

variable {L : Nat → Prop} {p : Program} (program : Within L p)

include program

theorem abides_runBody : Exec.Abides L (runBody p) :=
  (Exec.abides_charge 0).bind fun _ _ =>
    Exec.abides_enter program maxSteps body #[] trivial Script.within_array_nil

theorem abides_callGenerator {returned : Array Value} (kept : Within L returned) :
    Exec.Abides L (callGenerator p returned) := by
  unfold callGenerator
  refine (Exec.abides_table _).bind fun env table => ?_
  extract_lets named generator
  have found : ∀ n, Within L (env.getString n) := fun n => Script.within_get table _
  have function : Within L generator := by
    unfold generator
    split
    · exact found _
    · exact Script.within_getD kept trivial
  have params : Within L #[env.getString "params"] :=
    Script.within_toArray.mpr (Script.within_cons.mpr ⟨found _, Script.within_nil⟩)
  refine Exec.Abides.ite ?_ (Exec.abides_pure Script.within_none)
  refine Exec.Abides.bind (Exec.abides_enter program maxSteps _ _ function params) fun results ended => ?_
  exact Exec.abides_pure (Script.within_some.mpr (Script.within_getD ended trivial))

/-- A run makes changes only, and mentions the lines of its program only. -/
theorem abides_generate : Exec.Abides L (generate p) := by
  rw [generate_eq]
  exact (abides_runBody program).bind fun _ kept => abides_callGenerator program kept

omit program

end Conduct

section Outcome

variable {source : String} {c : Context} {limits : Limits} {now : Int} {p : Program}

theorem kind_of_load {e : RunError} (failed : load source limits = .error e) : e.kind? ≠ none := by
  unfold load at failed
  split at failed
  · cases failed
    exact Option.some_ne_none _
  · split at failed
    · cases failed
      exact Option.some_ne_none _
    · cases failed

theorem kind_of_check {v : Value} {e : RunError} (failed : check v = .error e) : e.kind? ≠ none := by
  unfold check at failed
  split at failed
  · split at failed
    · cases failed
      exact Option.some_ne_none _
    · split at failed
      · cases failed
        exact Option.some_ne_none _
      · cases failed
  · cases failed
    exact Option.some_ne_none _

/-- What is tested of a loaded script holds of the program that runs. -/
theorem exists_program {holds : Program → Bool} (held : (load source limits).toOption.any holds = true) :
    ∃ p, load source limits = .ok p ∧ holds p = true := by
  cases loaded : load source limits with
  | error e =>
      rw [loaded] at held
      cases held
  | ok p =>
      rw [loaded] at held
      exact ⟨p, rfl, held⟩

theorem kind_of_execute {e : RunError} (failed : (execute p c limits now).outcome = .error e) :
    e.kind? ≠ none := by
  unfold execute at failed
  split at failed
  · cases failed
    exact Option.some_ne_none _
  · cases failed
    exact Option.some_ne_none _
  · exact kind_of_check failed

theorem kind_of_run {e : RunError} (failed : (run source c limits now).outcome = .error e) :
    e.kind? ≠ none := by
  rw [run_eq_load] at failed
  cases loaded : load source limits with
  | error e' =>
      rw [loaded] at failed
      cases failed
      exact kind_of_load loaded
  | ok p =>
      rw [loaded] at failed
      exact kind_of_execute failed

end Outcome

section Console

variable {source : String} {c : Context} {limits : Limits} {now : Int} {p : Program}

end Console

section Warnings

variable {source : String} {c : Context} {limits : Limits} {now : Int} {p : Program}

end Warnings

section Runs

variable (source : String) (c : Context) (limits : Limits) (now : Int)

end Runs

end SlideDeck.Sandbox
