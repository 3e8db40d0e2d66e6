import SlideDeck.Proofs.Sandbox.Binding
import SlideDeck.Proofs.Sandbox.Execution

/-!
Scripts that call `error` at once, followed instruction by instruction: their runs fail as that call does.
-/

namespace SlideDeck.Script

def Machine.behind (m : Machine) (stack : Array Value) : Machine :=
  { m with current := { m.current with pc := m.current.pc + 1, stack }, steps := m.steps + 1 }

namespace Exec

variable {p : Program} {call : Invocation.Caller} {m m' : Machine} {fuel : Nat} {u v w : Value} {e : Failure}
  {o : Option Origin}

theorem run_of_step (stepped : step p (fun f args => enter p fuel f args) m = .ok none m') :
    run p (fuel + 1) m = run p fuel m' := by
  rw [run]
  simp only [bind, EStateM.bind, stepped]

theorem run_of_error (stepped : step p (fun f args => enter p fuel f args) m = .error e m') :
    run p (fuel + 1) m = .error e m' := by
  rw [run]
  simp only [bind, EStateM.bind, stepped]

theorem fetch_of_next {i : Instr} (next : m.current.code.instrs[m.current.pc]? = some i) :
    fetch m = .ok (some i) (m.behind m.current.stack) := by
  simp only [fetch, modifyGet, MonadStateOf.modifyGet, EStateM.modifyGet, next]
  rfl

theorem step_push (next : m.current.code.instrs[m.current.pc]? = some (.push v)) :
    step p call m = .ok none (m.behind (m.current.stack.push v)) := by
  simp only [step, bind, EStateM.bind, fetch_of_next next]
  rfl

theorem step_loadOuter {i : Nat} (next : m.current.code.instrs[m.current.pc]? = some (.loadOuter i)) :
    step p call m = .ok none (m.behind (m.current.stack.push (m.heap.cell (m.current.cells.getD i 0)))) := by
  simp only [step, bind, EStateM.bind, fetch_of_next next]
  rfl

theorem step_index (next : m.current.code.instrs[m.current.pc]? = some (.index o))
    (operands : m.current.stack = #[v, w]) {r : Value} (found : index v w o (m.behind #[]) = .ok r (m.behind #[])) :
    step p call m = .ok none (m.behind #[r]) := by
  have key : pop (m.behind m.current.stack) = .ok w (m.behind #[v]) := by
    rw [operands]
    rfl
  have object : pop (m.behind #[v]) = .ok v (m.behind #[]) := rfl
  simp only [step, bind, EStateM.bind, fetch_of_next next, key, object, found]
  rfl

theorem step_call_error {b : Builtin} {wanted : Option Nat}
    (next : m.current.code.instrs[m.current.pc]? = some (.call 2 false wanted o))
    (operands : m.current.stack = #[.function (.builtin b), v, w])
    (failed : Invocation.answer { callee := o, builtin := b, args := #[v, w] } call
      { m.behind #[] with hosts := .function b :: m.hosts } = .error e m') : step p call m = .error e m' := by
  have args : takeValues 2 false (m.behind m.current.stack) = .ok #[v, w] (m.behind #[.function (.builtin b)]) := by
    rw [operands]
    rfl
  have callee : pop (m.behind #[.function (.builtin b)]) = .ok (.function (.builtin b)) (m.behind #[]) := rfl
  have answered : inHost (.function b) (Invocation.answer { callee := o, builtin := b, args := #[v, w] } call)
      (m.behind #[]) = .error e m' := by
    change EStateM.bind (Invocation.answer _ call) _ { m.behind #[] with hosts := .function b :: m.hosts } = _
    rw [EStateM.bind, failed]
  simp only [step, bind, EStateM.bind, fetch_of_next next, args, callee, callFrom, answered]

theorem charge_of_unlimited (unlimited : m.memoryLimit = 0) (bytes : Nat) :
    charge bytes m = .ok () { m with memory := m.memory + bytes } := by
  have free : (decide (m.memoryLimit ≠ 0) && decide (m.memoryLimit < m.memory + bytes)) = false := by
    simp [unlimited]
  unfold charge
  simp only [EStateM.bind, modify, modifyGet, MonadStateOf.modifyGet, EStateM.modifyGet, bind, get, getThe,
    MonadStateOf.get, EStateM.get, free]
  rfl

theorem startFrom_of_room {a : Nat} {args : Array Value}
    (room : m.depth + (Frame.start m.heap a args false).size ≤ maxDepth) (unlimited : m.memoryLimit = 0) :
    ∃ m₁, startFrom a args m = .ok () m₁ ∧ m₁.current = Frame.start m.heap a args false ∧ m₁.hosts = [] ∧
      m₁.heap = m.heap := by
  have charged := charge_of_unlimited unlimited (frameBytes (Frame.start m.heap a args false))
  simp only [startFrom, reserve, bind, EStateM.bind, get, getThe, MonadStateOf.get, EStateM.get,
    if_neg (Nat.not_lt.mpr room), charged]
  exact ⟨_, rfl, rfl, rfl, rfl⟩

theorem enter_of_error {a : Nat} {args : Array Value} (idle : m.nesting < maxHostNesting)
    (room : m.depth + (Frame.start m.heap a args false).size ≤ maxDepth) (unlimited : m.memoryLimit = 0)
    (failed : ∀ m₁ : Machine, m₁.current = Frame.start m.heap a args false → m₁.hosts = [] → m₁.heap = m.heap →
      ∃ m', run p fuel m₁ = .error (.raised v) m') :
    ∃ m', enter p (fuel + 1) (.function (.closure a)) args m = .error (.raised v) m' := by
  obtain ⟨m₁, started, current, hosts, heap⟩ :=
    startFrom_of_room (m := { m with nesting := m.nesting + 1 }) room unlimited
  obtain ⟨m', ended⟩ := failed m₁ current hosts heap
  refine ⟨m', ?_⟩
  rw [enter]
  simp only [bind, EStateM.bind, get, getThe, MonadStateOf.get, EStateM.get, if_neg (Nat.not_le.mpr idle), pure,
    modify, modifyGet, MonadStateOf.modifyGet, EStateM.modifyGet, started, ended]

theorem run_of_error_call {a : Nat} {o' : Option Origin} {wanted : Option Nat} {rest : List Instr}
    (begins : m.current.pc = 0 ∧ m.current.stack = #[] ∧ m.hosts = [])
    (instrs : m.current.code.instrs.toList = .loadOuter 0 :: .push (.ofString "error") :: .index o :: .push v ::
      .push w :: .call 2 false wanted o' :: rest)
    (environment : m.heap.cell (m.current.cells.getD 0 0) = .table a)
    (bound : (m.heap.table a).getString "error" = .function (.builtin .error))
    (failed : ∀ call m', m'.current.code = m.current.code → m'.current.pc = 6 → m'.hosts = [.function .error] →
      Invocation.answer { callee := o', builtin := .error, args := #[v, w] } call m' = .error (.raised u) m') :
    ∃ m', run p (fuel + 6) m = .error (.raised u) m' := by
  obtain ⟨m₀, rfl⟩ : ∃ m₀ : Machine,
      m = { m₀ with current := { m₀.current with pc := 0, stack := #[] }, hosts := [] } := by
    obtain ⟨pc, stack, hosts⟩ := begins
    exact ⟨m, by rw [← pc, ← stack, ← hosts]⟩
  have next : ∀ k, m₀.current.code.instrs[k]? = m₀.current.code.instrs.toList[k]? := fun k =>
    Array.getElem?_toList.symm
  rw [instrs] at next
  let m : Machine := { m₀ with current := { m₀.current with pc := 0, stack := #[] }, hosts := [] }
  let m₁ := m.behind #[.table a]
  let m₂ := m₁.behind #[.table a, .ofString "error"]
  let m₃ := m₂.behind #[.function (.builtin .error)]
  let m₄ := m₃.behind #[.function (.builtin .error), v]
  let m₅ := m₄.behind #[.function (.builtin .error), v, w]
  let m₆ := m₅.behind #[]
  have named : index (.table a) (.ofString "error") o (m₂.behind #[]) =
      .ok (.function (.builtin .error)) (m₂.behind #[]) :=
    Sandbox.index_of_getString (m := m₂.behind #[]) bound rfl o
  refine ⟨{ m₆ with hosts := [.function .error] }, ?_⟩
  have first : step p (fun f args => enter p (fuel + 5) f args) m = .ok none m₁ := by
    have cell : m.heap.cell (m.current.cells.getD 0 0) = .table a := environment
    have operand : m₁ = m.behind (m.current.stack.push (m.heap.cell (m.current.cells.getD 0 0))) := by
      rw [cell]
      rfl
    rw [operand]
    exact step_loadOuter (next 0)
  have second : step p (fun f args => enter p (fuel + 4) f args) m₁ = .ok none m₂ := step_push (next 1)
  have third : step p (fun f args => enter p (fuel + 3) f args) m₂ = .ok none m₃ := step_index (next 2) rfl named
  have fourth : step p (fun f args => enter p (fuel + 2) f args) m₃ = .ok none m₄ := step_push (next 3)
  have fifth : step p (fun f args => enter p (fuel + 1) f args) m₄ = .ok none m₅ := step_push (next 4)
  rw [run_of_step first, run_of_step second, run_of_step third, run_of_step fourth, run_of_step fifth]
  exact run_of_error (step_call_error (next 5) rfl (failed _ _ rfl rfl rfl))

end Exec

end SlideDeck.Script

namespace SlideDeck.Sandbox

open Script (Closure Code Exec Frame Invocation Machine Program Value)

/-- Whether code calls `error` at once, with a text and a level. -/
def callsError (code : Code) (text : ByteArray) (level : Int64) : Bool :=
  code.slots == 0 &&
  match code.instrs.toList with
  | .loadOuter 0 :: .push (.string name) :: .index _ :: .push (.string s) :: .push (.int n) ::
      .call 2 false _ _ :: _ => name = "error".toUTF8 && s = text && n = level
  | _ => false

variable {p : Program} {c : Context} {now : Int} {text : ByteArray} {level : Int64} {u : Value}

theorem instrs_of_callsError {code : Code} (calls : callsError code text level = true) :
    code.slots = 0 ∧ ∃ o wanted callee rest, code.instrs.toList = .loadOuter 0 :: .push (.ofString "error") ::
      .index o :: .push (.string text) :: .push (.int level) :: .call 2 false wanted callee :: rest := by
  obtain ⟨slots, begins⟩ := Bool.and_eq_true_iff.mp calls
  refine ⟨beq_iff_eq.mp slots, ?_⟩
  split at begins
  · rename_i name o s n wanted callee rest instrs
    simp only [Bool.and_eq_true, decide_eq_true_eq] at begins
    obtain ⟨⟨rfl, rfl⟩, rfl⟩ := begins
    exact ⟨o, wanted, callee, rest, instrs⟩
  · cases begins

theorem generate_of_body {m : Machine} (idle : m.nesting = 0) (empty : m.depth = 0) (unlimited : m.memoryLimit = 0)
    (room : (Frame.start m.heap 0 #[] false).size ≤ Exec.maxDepth)
    (failed : ∀ m₁ : Machine, m₁.current = Frame.start m.heap 0 #[] false → m₁.hosts = [] → m₁.heap = m.heap →
      ∃ m', Exec.run p 999999999999 m₁ = .error (.raised u) m') :
    ∃ m', generate p m = .error (.raised u) m' := by
  have charged : Exec.charge 0 m = .ok () m := Exec.charge_of_unlimited unlimited 0
  obtain ⟨m', ended⟩ : ∃ m', call p body #[] m = .error (.raised u) m' := by
    refine Exec.enter_of_error ?_ ?_ unlimited failed
    · rw [idle]
      decide
    · rwa [empty, Nat.zero_add]
  refine ⟨m', ?_⟩
  rw [generate_eq]
  change EStateM.bind (EStateM.bind (Exec.charge 0) fun _ => call p body #[]) (callGenerator p) m = _
  simp only [EStateM.bind, charged, ended]

/-- A script that calls `error` at once fails as that call does. -/
theorem generate_of_callsError (calls : callsError (p.back?.getD {}) text level = true)
    (unnamed : c.last? "error" = none)
    (failed : ∀ callee call m', m'.current.code = p.back?.getD {} → m'.current.pc = 6 →
      m'.hosts = [.function .error] →
      Invocation.answer { callee, builtin := .error, args := #[.string text, .int level] } call m' =
        .error (.raised u) m') :
    ∃ m', generate p (start p c.«variables» 0 now) = .error (.raised u) m' := by
  obtain ⟨slots, o, wanted, callee, rest, instrs⟩ := instrs_of_callsError calls
  have bound : ((start p c.«variables» 0 now).heap.table Environment.address).getString "error" =
      .function (.builtin .error) := by
    rw [table_start]
    exact Environment.getString_of_unnamed unnamed
  let f : Closure := { code := p.back?.getD {}, cells := #[0] }
  have body' : (start p c.«variables» 0 now).heap.closures.getD 0 default = f := rfl
  have size : (Frame.start (start p c.«variables» 0 now).heap 0 #[] false).size ≤ Exec.maxDepth := by
    simp [Frame.start, Frame.size, body', f, slots, Exec.maxDepth]
  refine generate_of_body rfl rfl rfl size fun m₁ current hosts heap => ?_
  have code : m₁.current.code = p.back?.getD {} := by rw [current]; rfl
  refine Exec.run_of_error_call (a := Environment.address) (o := o) ⟨?_, ?_, hosts⟩ (code ▸ instrs) ?_ ?_ ?_
  · rw [current]
    rfl
  · rw [current]
    rfl
  · rw [current, heap]
    rfl
  · rw [heap]
    exact bound
  · rw [code]
    exact failed callee

end SlideDeck.Sandbox
