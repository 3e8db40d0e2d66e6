import SlideDeck.Proofs.Sandbox.Environment
import SlideDeck.Proofs.Sandbox.Execution
import SlideDeck.Proofs.Sandbox.Location
import SlideDeck.Proofs.Sandbox.Raise
import SlideDeck.Proofs.Script.Lines.Statement

/-!
The line that a failed run is reported with. Where the functions of the script were running, and what the
machine puts in front of a message, are lines of the script; words of the script itself may name any line.
-/

namespace SlideDeck

open Script (Activation Exec Heap Machine OnText Program Table Value)
open Script.Located (Within)

variable {L : Nat → Prop}

namespace Environment

theorem within_bindAll {t : Table} (within : Within L t) {bindings : List (String × Value)}
    (bound : Within L bindings) : Within L (bindAll t bindings) :=
  bindAll_keeps (fun b member _ old => Script.within_setString old (bound b member).2 b.1) within

theorem within_bindings {bindings : List (String × Value)}
    (sound : bindings.all (fun b => match b.2 with | .fault _ => false | _ => true) = true) :
    Within L bindings := by
  intro b member
  have sound' := List.all_eq_true.mp sound b member
  refine ⟨trivial, Script.within_value fun f fault => ?_⟩
  rw [fault] at sound'
  cases sound'

theorem within_libraries : ∀ l ∈ libraries, Within L l.2 := by
  have sound : libraries.all (fun l => l.2.all fun b => match b.2 with | .fault _ => false | _ => true) = true :=
    rfl
  exact fun l member => within_bindings (List.all_eq_true.mp sound l member)

theorem within_tables_build (vars : List (String × Json)) : Within L (build vars).tables := by
  have libraries' : Within L (libraries.map fun l => bindAll {} l.2) := by
    intro t member
    obtain ⟨l, inside, rfl⟩ := List.mem_map.mp member
    exact within_bindAll Script.within_empty (within_libraries l inside)
  have host : Within L hostHeap := by
    refine ⟨Script.within_array_append.mpr ⟨Script.within_toArray.mpr ?_, ?_⟩, Script.within_array_nil,
      Script.within_array_nil⟩
    · exact Script.within_cons.mpr ⟨Script.within_empty, Script.within_nil⟩
    · exact Script.within_toArray.mpr libraries'
  have bound : Within L hostTable := within_bindAll Script.within_empty (within_bindings rfl)
  obtain ⟨env, heap⟩ := Script.within_ofFields vars hostHeap hostTable host bound
  rw [tables_build]
  refine Script.within_setIfInBounds heap.1 ?_ _
  exact env

end Environment

namespace Sandbox

variable {p : Program} {vars : List (String × Json)} {memoryLimit : Nat} {now : Int}

theorem within_start (program : Within L p) : Within L (start p vars memoryLimit now) := by
  have tables : Within L (Environment.build vars).tables := Environment.within_tables_build vars
  have nothing : Within L ({} : Script.Code) := ⟨Script.within_array_nil, nofun⟩
  have body' : Within L (p.back?.getD {}) := Script.within_option_getD (Script.within_back? program) nothing
  have idle : Within L ({} : Script.Frame) :=
    ⟨nothing, Script.within_array_nil, Script.within_array_nil, Script.within_array_nil⟩
  refine ⟨idle, Script.within_nil, Script.within_array_nil, tables, ?_, ?_⟩
  · exact Script.within_toArray.mpr (Script.within_cons.mpr ⟨body', Script.within_nil⟩)
  · exact Script.within_toArray.mpr (Script.within_cons.mpr ⟨trivial, Script.within_nil⟩)

section Runs

variable {source : String} {c : Context} {limits : Limits} {v : Value} {m : Machine} {n : Nat}

theorem ofSource_of_compile (compiled : compile source limits = .ok p) : Program.ofSource source = .ok p := by
  unfold compile at compiled
  dsimp only at compiled
  split at compiled
  · cases compiled
  · split at compiled
    · cases compiled
    · rename_i read
      split at compiled
      · cases compiled
      · cases compiled
        exact read

theorem compile_of_load (loaded : load source limits = .ok p) : compile source limits = .ok p := by
  unfold load at loaded
  split at loaded
  · cases loaded
  · split at loaded
    · cases loaded
    · rename_i compiled
      cases loaded
      exact compiled

/-- What is wrong with the grammar of a text is at one of its lines. -/
theorem onText_of_compile {d : Diagnostic} (failed : compile source limits = .error d) (placed : d.line = some n) :
    OnText source.toList n := by
  unfold compile at failed
  dsimp only at failed
  split at failed
  · cases failed
    cases placed
  · split at failed
    · rename_i mistake read
      cases failed
      have within := Script.within_ofSource source
      rw [read] at within
      cases mistake with
      | malformed complaint =>
          have text : OnText source.toList complaint.line := within
          have shown := Diagnostic.lineIn_position complaint.line complaint.message.toList
          rw [← String.toList_append] at shown
          rw [Diagnostic.ofCompileError, shown] at placed
          split at placed
          · exact Option.some.inj placed ▸ text
          · cases placed
      | tooDeep => cases placed
      | binary f => cases placed
    · split at failed
      · cases failed
        cases placed
      · cases failed

theorem onText_of_load {e : RunError} (failed : load source limits = .error e) {d : Diagnostic}
    (diagnostic : e.diagnostic? = some d) (placed : d.line = some n) : OnText source.toList n := by
  unfold load at failed
  split at failed
  · cases failed
    cases diagnostic
  · split at failed
    · rename_i compiled
      cases failed
      cases diagnostic
      exact onText_of_compile compiled placed
    · cases failed

/-- What a raised error carries, and the machine that it leaves behind, mention lines of the text only. -/
theorem within_of_raised (loaded : load source limits = .ok p)
    (raised : generate p (start p c.«variables» limits.memory now) = .error (.raised v) m) :
    Within (OnText source.toList) v ∧ Within (OnText source.toList) m := by
  have program : Within (OnText source.toList) p := by
    have read := Script.within_ofSource source
    rwa [ofSource_of_compile (compile_of_load loaded)] at read
  have ended := abides_generate program (start p c.«variables» limits.memory now) (within_start program)
  rw [raised] at ended
  exact ended.2

/-- The functions that the trace of a failed run is about: those that the error noted, or those that the machine
was running, with what collects the trace on top. -/
def tracedBy (v : Value) (m : Machine) : List Activation := Diagnostic.callersOf v (m.trace [.helper])

theorem within_tracedBy (value : Within L v) (machine : Within L m) : Within L (tracedBy v m) := by
  cases v with
  | fault f => exact value
  | _ => exact Script.within_trace machine _

theorem line_of_raised (loaded : load source limits = .ok p)
    (raised : generate p (start p c.«variables» limits.memory now) = .error (.raised v) m) :
    (run source c limits now).line? = (Diagnostic.ofRaised v (m.trace [.helper])).line := by
  rw [run_eq_load, loaded]
  dsimp only
  rw [execute, raised]
  rfl

theorem raised_of_line (loaded : load source limits = .ok p) (placed : (run source c limits now).line? = some n) :
    ∃ v m, generate p (start p c.«variables» limits.memory now) = .error (.raised v) m := by
  rw [run_eq_load, loaded] at placed
  dsimp only at placed
  unfold execute at placed
  split at placed
  · rename_i f m ended
    cases f with
    | raised v => exact ⟨v, m, ended⟩
    | _ => cases placed
  · cases placed
  · unfold check at placed
    split at placed
    · split at placed
      · cases placed
      · split at placed <;> cases placed
    · cases placed

structure Places (source : String) (e : Execution) (v : Value) (m : Machine) : Prop where
  /-- It is the line of the first location in the message or, if that tells none, of the first in the trace. The
  trace begins with what the text of the error has for one; then its functions follow. -/
  line : e.line? = (Diagnostic.lineIn (Diagnostic.words v).1).or
    ((((Diagnostic.words v).2.bind (Diagnostic.locationFrom none)).or
      ((Diagnostic.shown (tracedBy v m)).findSome? Diagnostic.locationOf)).bind Diagnostic.lineOf)
  /-- Functions of the script are at its lines. -/
  traced : ∀ a ∈ tracedBy v m, a.chunk = .script → ∀ n, a.line = some n → OnText source.toList n
  /-- So is any position that the machine puts in front of a message, at whatever level. -/
  positions : ∀ level, ∃ line, Exec.levelPosition level m = .ok (Exec.position line) m ∧
    ∀ n, line = some n → OnText source.toList n
  /-- A position in front of a message decides, whatever the message says. -/
  positioned : ∀ n message, n < 2 ^ 32 → v = .string ((Exec.position (some n)).toUTF8 ++ message) →
    e.line? = some n

theorem places_of_raised (loaded : load source limits = .ok p)
    (raised : generate p (start p c.«variables» limits.memory now) = .error (.raised v) m) :
    Places source (run source c limits now) v m := by
  obtain ⟨value, machine⟩ := within_of_raised loaded raised
  have line := (line_of_raised loaded raised).trans (Diagnostic.line_ofRaised v _)
  refine ⟨line, within_tracedBy value machine, Exec.levelPosition_eq machine, ?_⟩
  intro n message small same
  rw [line, same, Diagnostic.told_of_position small, Option.some_or]

/-- The line that a failed run is reported with is a line of the script, unless words of the script tell it: those
of the error that stopped it, with no position of a line of the script in front of them, or the name of
a function that was running. -/
theorem run_reports_line (source : String) (c : Context) (limits : Limits) (now : Int) :
    (∀ n, (run source c limits now).line? = some n → OnText source.toList n ∨
      ∃ p v m, load source limits = .ok p ∧
        generate p (start p c.«variables» limits.memory now) = .error (.raised v) m ∧
        Diagnostic.Tells v (m.trace [.helper]) n ∧
        ∀ k message, OnText source.toList k → k < 2 ^ 32 →
          v ≠ .string ((Exec.position (some k)).toUTF8 ++ message)) ∧
    ∀ p v m, load source limits = .ok p →
      generate p (start p c.«variables» limits.memory now) = .error (.raised v) m →
      Places source (run source c limits now) v m := by
  refine ⟨fun n reported => ?_, fun p v m => places_of_raised⟩
  by_cases text : OnText source.toList n
  · exact Or.inl text
  · right
    cases loaded : load source limits with
    | error e =>
        rw [run_eq_load, loaded] at reported
        obtain ⟨d, diagnostic, placed⟩ := Option.bind_eq_some_iff.mp reported
        exact absurd (onText_of_load loaded diagnostic placed) text
    | ok p =>
        obtain ⟨v, m, raised⟩ := raised_of_line loaded reported
        have places : Places source (run source c limits now) v m := places_of_raised loaded raised
        refine ⟨p, v, m, rfl, raised, ?_, ?_⟩
        · rcases Diagnostic.tells_or_runs ((line_of_raised loaded raised).symm.trans reported) with
            told | ⟨a, member, script, place⟩
          · exact told
          · exact absurd (places.traced a member script n place) text
        · intro k message here small same
          have line := places.positioned k message small same
          rw [reported] at line
          exact text (Option.some.inj line ▸ here)

/-- With its position in front the same message is about the second line, where it was raised. -/
theorem run_reports_line_of_position :
    let source := "\nerror('script:99: boom', 1)"
    let e := run source (.ofPage 1 1) { memory := 0 } 0
    ∃ p v m, load source { memory := 0 } = .ok p ∧
      generate p (start p (Context.ofPage 1 1).«variables» 0 0) = .error (.raised v) m ∧
      Places source e v m ∧ e.line? = some 2 ∧ OnText source.toList 2 := by
  intro source e
  have tested : (load source { memory := 0 }).toOption.any (fun p =>
      callsError (p.back?.getD {}) "script:99: boom".toUTF8 1 && (p.back?.getD {}).lines[5]? == some 2) = true := by
    decide +kernel
  obtain ⟨p, loaded, found⟩ := exists_program tested
  obtain ⟨calls, line⟩ := Bool.and_eq_true_iff.mp found
  let v : Value := .string ((Exec.position (some 2)).toUTF8 ++ "script:99: boom".toUTF8)
  obtain ⟨m, raised⟩ : ∃ m, generate p (start p (Context.ofPage 1 1).«variables» 0 0) = .error (.raised v) m := by
    refine generate_of_callsError calls rfl fun callee call m code pc hosts => ?_
    have place : m.current.line? = some 2 := by
      rw [Script.Frame.line?, code, pc]
      exact beq_iff_eq.mp line
    have level : Exec.levelPosition 1 m = .ok (Exec.position (some 2)) m := by
      simp only [Exec.levelPosition, bind, EStateM.bind, get, getThe, MonadStateOf.get, EStateM.get, hosts, place]
      rfl
    change EStateM.bind (Exec.levelPosition 1) _ m = _
    rw [EStateM.bind, level]
    rfl
  have reported := run_reports_line source (.ofPage 1 1) { memory := 0 } 0
  have places : Places source e v m := reported.2 p v m loaded raised
  have second : e.line? = some 2 := places.positioned 2 _ (by decide) rfl
  have text : OnText source.toList 2 := ⟨by decide, by decide +kernel⟩
  exact ⟨p, v, m, loaded, raised, places, second, text⟩

/-- A script of one line that tells a line of its own. -/
theorem run_reports_foreign_line :
    let source := "error('script:99: boom', 0)"
    (run source (.ofPage 1 1) { memory := 0 } 0).line? = some 99 ∧ ¬ OnText source.toList 99 := by
  intro source
  have tested : (load source { memory := 0 }).toOption.any (fun p =>
      callsError (p.back?.getD {}) "script:99: boom".toUTF8 0) = true := by decide +kernel
  obtain ⟨p, loaded, calls⟩ := exists_program tested
  let v : Value := .string "script:99: boom".toUTF8
  obtain ⟨m, raised⟩ : ∃ m, generate p (start p (Context.ofPage 1 1).«variables» 0 0) = .error (.raised v) m :=
    generate_of_callsError calls rfl fun _ _ _ _ _ _ => rfl
  have told : Diagnostic.lineIn (Diagnostic.words v).1 = some 99 := by decide +kernel
  refine ⟨?_, ?_⟩
  · rw [line_of_raised loaded raised, Diagnostic.line_ofRaised, told, Option.some_or]
  · rintro ⟨-, most⟩
    have one : Script.breaks source.toList = 0 := by decide +kernel
    rw [one] at most
    exact absurd most (by decide)

end Runs

end Sandbox

end SlideDeck
