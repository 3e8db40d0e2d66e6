import Mathlib
import SlideDeck.Command.Answer
import SlideDeck.Proofs.Project.Naming
import SlideDeck.Proofs.Resolve.Circularity
import SlideDeck.Proofs.Resolve.Locality
import SlideDeck.Proofs.Sandbox.Execution

/-!
What a check of a project finds, and what the other requests can count on once it has found nothing.
-/

namespace SlideDeck.Command

/-- Nothing is wrong with a project. -/
structure Sound (p : Project) : Prop where
  identifiers : ∀ v ∈ p.values, Identifier v.name
  distinct : (p.values.map (·.name)).Nodup
  resolved : ∀ page < max p.pageCount 1, ∀ v ∈ p.values,
    ((Resolver.ofProject p).resolve v page).isError = false
  scripted : ∀ pg ∈ p.pages, ∀ i ∈ pg.instances, (p.script? i.scriptId).isSome = true

def failures (p : Project) : List (Nat × NamedValue) :=
  (pages p ×ˢ p.values).filter fun f => ((Resolver.ofProject p).resolve f.2 f.1).isError

def unscripted (p : Project) : List ScriptInstance :=
  (p.pages.flatMap (·.instances)).filter fun i => (p.script? i.scriptId).isNone

/-- The lines of a page without the reason why a value has failed. -/
def plainLines (p : Project) (page : Nat) : List String :=
  ("Page " ++ toString (page + 1) ++ "/" ++ toString p.pageCount) :: p.values.map fun v =>
    "  " ++ v.name ++ " = " ++ ((Resolver.ofProject p).resolve v page).display

/-- What is printed: each text, and a line feed behind it. -/
def printed (r : Report) : List Char := r.output.flatMap fun text => text.toList ++ ['\n']

def lines (r : Report) : List (List Char) := ((printed r).splitOn '\n').dropLast

/-- The lines that begin within the texts, behind their line feeds. -/
def innerLines (r : Report) : List (List Char) := r.output.flatMap fun text => (text.toList.splitOn '\n').tail

def isErrorLine (line : List Char) : Bool := "error:".toList.isPrefixOf line

section Problems

variable {p : Project}

theorem length_check (r : Resolver) (page : Nat) :
    (r.check page).length = r.project.values.countP fun v => (r.resolve v page).isError := by
  unfold Resolver.check
  rw [Resolver.resolvePage_eq, List.length_filterMap_eq_countP, List.countP_map]
  congr 1
  funext v
  simp only [Function.comp]
  cases r.resolve v page <;> rfl

theorem length_failures (p : Project) :
    (failures p).length = ((pages p).flatMap (formulaProblems (Resolver.ofProject p))).length := by
  have each (page : Nat) : (formulaProblems (Resolver.ofProject p) page).length =
      ((p.values.map (Prod.mk page)).filter fun f =>
        ((Resolver.ofProject p).resolve f.2 f.1).isError).length := by
    rw [formulaProblems, List.length_map, length_check, ← List.countP_eq_length_filter, List.countP_map]
    rfl
  unfold failures
  rw [List.length_flatMap, funext each, ← List.length_flatMap, ← List.filter_flatMap]
  rfl

theorem length_unscripted (p : Project) : (unscripted p).length = (placementProblems p).length := by
  have flat : p.pages.flatMap (·.instances) = p.pages.zipIdx.flatMap (·.1.instances) := by
    rw [← List.flatMap_map Prod.fst Page.instances, List.zipIdx_map_fst]
  unfold unscripted placementProblems
  rw [flat, List.filter_flatMap, List.length_flatMap, List.length_flatMap]
  simp only [List.length_map]

theorem length_problems (p : Project) :
    (problems p).length = p.problems.length + (failures p).length + (unscripted p).length := by
  rw [problems, List.length_append, List.length_append, List.length_map, length_failures, length_unscripted]

theorem failures_eq_nil_iff : failures p = [] ↔ ∀ page < max p.pageCount 1, ∀ v ∈ p.values,
    ((Resolver.ofProject p).resolve v page).isError = false := by
  unfold failures pages
  simp only [List.filter_eq_nil_iff, Prod.forall, List.mem_product, List.mem_range, and_imp,
    Bool.not_eq_true]
  exact forall_congr' fun page => forall_comm

theorem unscripted_eq_nil_iff : unscripted p = [] ↔
    ∀ pg ∈ p.pages, ∀ i ∈ pg.instances, (p.script? i.scriptId).isSome = true := by
  unfold unscripted
  simp only [List.filter_eq_nil_iff, List.mem_flatMap, forall_exists_index, and_imp,
    Option.isNone_iff_eq_none, ← ne_eq, ← Option.isSome_iff_ne_none]
  exact ⟨fun all pg inside i placed => all i pg inside placed,
    fun all i pg inside placed => all pg inside i placed⟩

theorem problems_eq_nil_iff : problems p = [] ↔ Sound p := by
  rw [← List.length_eq_zero_iff, length_problems, Nat.add_eq_zero_iff, Nat.add_eq_zero_iff,
    List.length_eq_zero_iff, List.length_eq_zero_iff, List.length_eq_zero_iff, failures_eq_nil_iff,
    unscripted_eq_nil_iff, p.problems_eq_nil_iff]
  constructor
  · rintro ⟨⟨⟨identifiers, distinct⟩, resolved⟩, scripted⟩
    exact ⟨identifiers, distinct, resolved, scripted⟩
  · rintro ⟨identifiers, distinct, resolved, scripted⟩
    exact ⟨⟨⟨identifiers, distinct⟩, resolved⟩, scripted⟩

end Problems

section Lines

variable {p : Project}

theorem splitOn_append_cons (xs ys : List Char) :
    (xs ++ '\n' :: ys).splitOn '\n' = xs.splitOn '\n' ++ ys.splitOn '\n' :=
  List.splitOnP_append_cons xs ys (beq_self_eq_true '\n')

theorem lines_eq (r : Report) : lines r = r.output.flatMap fun text => text.toList.splitOn '\n' := by
  have split : ∀ texts : List String, (texts.flatMap fun text => text.toList ++ ['\n']).splitOn '\n' =
      (texts.flatMap fun text => text.toList.splitOn '\n') ++ [[]] := by
    intro texts
    induction texts with
    | nil => rfl
    | cons text rest ih =>
        rw [List.flatMap_cons, List.append_assoc, List.singleton_append, splitOn_append_cons, ih,
          List.flatMap_cons, List.append_assoc]
  rw [lines, printed, split, List.dropLast_concat]

theorem splitOn_unbroken {text : List Char} (unbroken : '\n' ∉ text) : text.splitOn '\n' = [text] :=
  List.splitOnP_eq_singleton fun c member => beq_eq_false_iff_ne.mpr fun same : c = '\n' => unbroken (same ▸ member)

theorem innerLines_of_unbroken {r : Report} (unbroken : ∀ text ∈ r.output, '\n' ∉ text.toList) :
    innerLines r = [] :=
  List.flatMap_eq_nil_iff.mpr fun text member => by rw [splitOn_unbroken (unbroken text member), List.tail_cons]

/-- Whether a text is marked shows on its first line. -/
theorem splitOn_eq_cons (text : List Char) : ∃ first,
    text.splitOn '\n' = first :: (text.splitOn '\n').tail ∧ isErrorLine first = isErrorLine text := by
  by_cases broken : '\n' ∈ text
  · obtain ⟨first, rest, rfl, whole⟩ := List.eq_append_cons_of_mem broken
    refine ⟨first, by rw [splitOn_append_cons, splitOn_unbroken whole]; rfl, ?_⟩
    -- no line feed is in the mark, so that it cannot go on behind one
    have marked : "error:".toList <+: first ++ '\n' :: rest ↔ "error:".toList <+: first := by
      refine ⟨fun mark => ?_, fun mark => mark.trans (List.prefix_append _ _)⟩
      have line : first ++ ['\n'] <+: first ++ '\n' :: rest := ⟨rest, by simp⟩
      rcases List.prefix_or_prefix_of_prefix mark line with shorter | longer
      · rcases List.prefix_concat_iff.mp shorter with same | inside
        · have feed : '\n' ∈ "error:".toList := same ▸ by simp
          exact absurd feed (by decide)
        · exact inside
      · have feed : '\n' ∈ "error:".toList := longer.subset (by simp)
        exact absurd feed (by decide)
    rw [isErrorLine, isErrorLine, Bool.eq_iff_iff, List.isPrefixOf_iff_prefix, List.isPrefixOf_iff_prefix, marked]
  · exact ⟨text, by rw [splitOn_unbroken broken]; rfl, rfl⟩

/-- The marked lines are the marked texts, and the marked lines within texts. -/
theorem countP_lines (r : Report) : (lines r).countP isErrorLine =
    (r.output.countP fun text => isErrorLine text.toList) + (innerLines r).countP isErrorLine := by
  rw [lines_eq, innerLines]
  induction r.output with
  | nil => rfl
  | cons text rest ih =>
      obtain ⟨first, shape, marked⟩ := splitOn_eq_cons text.toList
      rw [List.flatMap_cons, List.flatMap_cons, List.countP_append, List.countP_append, ih, shape, List.countP_cons,
        List.countP_cons, marked, List.tail_cons]
      omega

theorem isErrorLine_error (text : String) : isErrorLine ("error: " ++ text).toList = true := by
  rw [String.toList_append]
  rfl

theorem isErrorLine_riskWarnings {text : String} (listed : text ∈ riskWarnings p) :
    isErrorLine text.toList = false := by
  obtain ⟨s, -, found⟩ := List.mem_flatMap.mp listed
  obtain ⟨risk, -, rfl⟩ := List.mem_map.mp found
  rw [String.toList_append, String.toList_append, String.toList_append]
  rfl

theorem countP_check (p : Project) :
    ((check p).output.countP fun text => isErrorLine text.toList) = (problems p).length := by
  have risks : ((riskWarnings p).countP fun text => isErrorLine text.toList) = 0 :=
    List.countP_eq_zero.mpr fun text listed => by rw [isErrorLine_riskWarnings listed]; decide
  have marked : (((problems p).map ("error: " ++ ·)).countP fun text => isErrorLine text.toList) =
      (problems p).length := by
    rw [List.countP_map, List.countP_eq_length]
    exact fun text _ => isErrorLine_error text
  have closing : (["✓ No problems found"].countP fun text => isErrorLine text.toList) = 0 := rfl
  unfold check
  extract_lets r found report
  have listed : (report.output.countP fun text => isErrorLine text.toList) = found.length := by
    rw [List.countP_append, risks, marked, Nat.zero_add]
  split
  · rw [List.countP_append, listed, closing, Nat.add_zero]
  · exact listed

theorem failure_check (p : Project) : (check p).failure =
    if problems p = [] then none else some (toString (problems p).length ++ " problem(s) found") := by
  unfold check
  simp only [List.isEmpty_iff]
  split <;> rfl

theorem exitCode_check (p : Project) : (check p).exitCode = 0 ↔ Sound p := by
  rw [Report.exitCode, failure_check, ← problems_eq_nil_iff]
  split <;> simp [*]

theorem length_problems_congr {q : Project} (values : q.values = p.values) (pages : q.pages = p.pages)
    (scripts : ∀ id, (q.script? id).isSome = (p.script? id).isSome) :
    (problems q).length = (problems p).length := by
  have agree := Resolver.Agree.ofProject values pages
  have named : q.problems = p.problems := by rw [Project.problems, Project.problems, values]
  have asked : Command.pages q = Command.pages p := by
    rw [Command.pages, Command.pages, Project.pageCount, Project.pageCount, pages]
  have failing : failures q = failures p := by
    rw [failures, failures, asked, values]
    exact List.filter_congr fun f _ => by rw [agree.resolve]
  have missing : unscripted q = unscripted p := by
    rw [unscripted, unscripted, pages]
    exact List.filter_congr fun i _ => by
      rw [← Option.not_isSome, ← Option.not_isSome, scripts]
  rw [length_problems, length_problems, named, failing, missing]

end Lines

section Requests

variable {p : Project} {text : String} {i : Invocation} {settings : Settings} {now : Int}

theorem answer_loaded (loads : Project.parse text = .ok p) :
    answer i settings (.ok text) now =
      { ask p settings now i.request with
        events := loaded i.path p :: (ask p settings now i.request).events } := by
  have read : load i.path (.ok text) = .ok p := by simp only [load, loads]
  unfold answer
  rw [read]

theorem valueLines_of_sound (sound : Sound p) {page : Nat} (inside : page < max p.pageCount 1) :
    valueLines (Resolver.ofProject p) page = plainLines p page := by
  unfold valueLines plainLines
  rw [Resolver.resolvePage_eq, List.map_map]
  refine congrArg _ (List.map_congr_left fun v member => ?_)
  have fine := sound.resolved page inside v member
  simp only [Function.comp, valueLine]
  cases shown : (Resolver.ofProject p).resolve v page with
  | number x => exact String.append_empty
  | text s => exact String.append_empty
  | error e => rw [shown] at fine; cases fine

theorem values_of_sound (sound : Sound p) {chosen : List Nat}
    (inside : ∀ page ∈ chosen, page < max p.pageCount 1) :
    (values p chosen).output = chosen.flatMap (plainLines p) := by
  unfold values
  exact List.flatMap_congr fun page listed => valueLines_of_sound sound (inside page listed)

theorem onPage_inside {number : Nat} (first : 0 < number) (last : number ≤ max p.pageCount 1)
    (k : Nat → Report) : onPage p number k = k (number - 1) := by
  have valid : page? p number = .ok (number - 1) := by
    unfold page?
    rw [if_neg]
    simp only [Bool.or_eq_true, decide_eq_true_eq, not_or, Nat.not_lt]
    exact ⟨Nat.ne_of_gt first, last⟩
  unfold onPage
  rw [valid]

theorem answer_values_of_sound (loads : Project.parse text = .ok p) (sound : Sound p) :
    (i.request = .values none → (answer i settings (.ok text) now).exitCode = 0 ∧
      (answer i settings (.ok text) now).output = (pages p).flatMap (plainLines p)) ∧
    ∀ number, i.request = .values (some number) → 0 < number → number ≤ max p.pageCount 1 →
      (answer i settings (.ok text) now).exitCode = 0 ∧
        (answer i settings (.ok text) now).output = plainLines p (number - 1) := by
  constructor
  · intro all
    have every : ∀ page ∈ pages p, page < max p.pageCount 1 := fun page => List.mem_range.mp
    simp only [answer_loaded loads, all, ask, values_of_sound sound every]
    exact ⟨rfl, trivial⟩
  · intro number one first last
    have every : ∀ page ∈ [number - 1], page < max p.pageCount 1 := by
      simp only [List.mem_singleton, forall_eq]
      omega
    simp only [answer_loaded loads, one, ask, onPage_inside first last, values_of_sound sound every]
    exact ⟨rfl, List.flatMap_singleton (plainLines p) (number - 1)⟩

/-- The first instance of an id stands for all of them; its script exists as well. -/
theorem placement_of_sound (sound : Sound p) {page : Nat} {pg : Page} (here : p.pages[page]? = some pg)
    {inst : ScriptInstance} (placed : inst ∈ pg.instances) :
    ∃ found script, found ∈ pg.instances ∧ found.id = inst.id ∧
      p.script? found.scriptId = some script ∧ Sandbox.placement p page inst.id = .ready found script := by
  have some_found : (pg.instances.find? (·.id == inst.id)).isSome := by
    rw [List.find?_isSome]
    exact ⟨inst, placed, beq_self_eq_true inst.id⟩
  obtain ⟨found, first⟩ := Option.isSome_iff_exists.mp some_found
  have member := List.mem_of_find?_eq_some first
  have same : found.id = inst.id := by simpa using List.find?_some first
  obtain ⟨script, known⟩ :=
    Option.isSome_iff_exists.mp (sound.scripted pg (List.mem_of_getElem? here) found member)
  refine ⟨found, script, member, same, known, ?_⟩
  unfold Sandbox.placement Project.instance?
  rw [here, Option.bind_some, first]
  simp only [known]

theorem render_of_sound (sound : Sound p) {page : Nat} {pg : Page} (here : p.pages[page]? = some pg)
    {inst : ScriptInstance} (placed : inst ∈ pg.instances) (limits : Limits) :
    (∃ first ∈ pg.instances, ∃ script, first.id = inst.id ∧ p.script? first.scriptId = some script ∧
      Sandbox.render p page inst.id limits now =
        Sandbox.run script.source (Context.build first p page) limits now) ∧
    ∀ reason, (Sandbox.render p page inst.id limits now).error? ≠ some (.unavailable reason) := by
  obtain ⟨first, script, member, name, known, ready⟩ := placement_of_sound sound here placed
  have runs : Sandbox.render p page inst.id limits now =
      Sandbox.run script.source (Context.build first p page) limits now := by
    rw [Sandbox.render, ready]
  refine ⟨⟨first, member, script, name, known, runs⟩, fun reason missing => ?_⟩
  rw [runs, Execution.error?] at missing
  split at missing
  · cases missing
  · rename_i e failed
    cases missing
    exact Sandbox.kind_of_run failed rfl

theorem exists_parsed {α : Type} {f : Project → α} {a : α}
    (found : (Project.parse text).toOption.map f = some a) : ∃ p, Project.parse text = .ok p ∧ f p = a := by
  cases outcome : Project.parse text with
  | error e =>
      rw [outcome] at found
      cases found
  | ok p =>
      rw [outcome] at found
      exact ⟨p, rfl, Option.some.inj found⟩

/-- A check passes exactly if nothing is wrong; otherwise it says how many problems there are: one for each
problem with a name, for each formula and page where it fails, and for each instance without script. It
prints a text for each of them that is marked as an error, and no other marked text; so many marked lines
there are, and beside them only those that a text shows behind a line feed of its own. What the sources of
the scripts look like makes no difference. After a check that passed every page that is asked for shows all
its values, and every instance is run. -/
theorem check_exact {p : Project} {text : String} (loads : Project.parse text = .ok p) {i : Invocation}
    (asked : i.request = .check) (settings : Settings) (now : Int) :
    let r := answer i settings (.ok text) now
    let found := p.problems.length + (failures p).length + (unscripted p).length
    (r.exitCode = 0 ↔ Sound p) ∧
    (¬ Sound p → r.exitCode = 1 ∧ r.failure = some (toString found ++ " problem(s) found")) ∧
    (lines r).countP isErrorLine = found + (innerLines r).countP isErrorLine ∧
    ((∀ text ∈ r.output, '\n' ∉ text.toList) → innerLines r = []) ∧
    (∀ text' q, Project.parse text' = .ok q → q.values = p.values → q.pages = p.pages →
      (∀ id, (q.script? id).isSome = (p.script? id).isSome) →
        (answer i settings (.ok text') now).failure = r.failure) ∧
    (r.exitCode = 0 → ∀ j : Invocation,
      let s := answer j settings (.ok text) now
      (j.request = .values none → s.exitCode = 0 ∧ s.output = (pages p).flatMap (plainLines p)) ∧
      ∀ number, j.request = .values (some number) → 0 < number → number ≤ max p.pageCount 1 →
        s.exitCode = 0 ∧ s.output = plainLines p (number - 1)) ∧
    (r.exitCode = 0 → ∀ page pg, p.pages[page]? = some pg → ∀ inst ∈ pg.instances, ∀ limits,
      (∃ first ∈ pg.instances, ∃ script, first.id = inst.id ∧ p.script? first.scriptId = some script ∧
        Sandbox.render p page inst.id limits now =
          Sandbox.run script.source (Context.build first p page) limits now) ∧
      ∀ reason, (Sandbox.render p page inst.id limits now).error? ≠ some (.unavailable reason)) := by
  intro r found
  have same : r.failure = (check p).failure := by simp only [r, answer_loaded loads, asked, ask]
  have output : r.output = (check p).output := by simp only [r, answer_loaded loads, asked, ask]
  have passes : r.exitCode = 0 ↔ Sound p := by
    rw [← exitCode_check, Report.exitCode, Report.exitCode, same]
  refine ⟨passes, ?_, ?_, innerLines_of_unbroken, ?_, ?_, ?_⟩
  · intro unsound
    have failed : r.failure = some (toString found ++ " problem(s) found") := by
      rw [same, failure_check, if_neg (mt problems_eq_nil_iff.mp unsound), length_problems]
    exact ⟨by rw [Report.exitCode, failed]; rfl, failed⟩
  · rw [countP_lines, output, countP_check, length_problems]
  · intro text' q loads' values pages scripts
    have many := length_problems_congr values pages scripts
    have nothing : problems q = [] ↔ problems p = [] := by
      rw [← List.length_eq_zero_iff, ← List.length_eq_zero_iff, many]
    rw [same, answer_loaded loads', asked]
    simp only [ask, failure_check, many, nothing]
  · exact fun passed j => answer_values_of_sound loads (passes.mp passed)
  · exact fun passed page pg here inst placed limits => render_of_sound (passes.mp passed) here placed limits

/-- Two decks whose records are written as lists. In the first a name is wrong, a script is missing and an
override breaks the formula on the second page; in the other there is nothing to find, though its script
never ends. -/
theorem check_exact_of_override :
    let deck (name pages : String) := "[\x7b\"a\": [\"value\", \"\", \"" ++ name ++
      "\", \"formula\", \"1 + 1\"], \"b\": [\"script\", \"\", \"bar\", \"while true do end\"]\x7d, [" ++ pages ++ "]]"
    let broken := deck "2nd" "[\"\", \x7b\x7d], [\"\", \x7b\"a\": [\"1 +\"]\x7d, [[\"i\", \"c\"]]]"
    let whole := deck "second" "[\"\", \x7b\x7d, [[\"i\", \"b\"]]]"
    let i : Invocation := { path := "deck.json", request := .check }
    (answer i {} (.ok broken) 0).failure = some "3 problem(s) found" ∧
    (answer i {} (.ok whole) 0).exitCode = 0 ∧
    (answer { i with request := .values none } {} (.ok whole) 0).output = ["Page 1/1", "  second = 2"] ∧
    ∃ p, Project.parse whole = .ok p ∧
      ∀ reason, (Sandbox.render p 0 "i" {} 0).error? ≠ some (.unavailable reason) := by
  intro deck broken whole i
  constructor
  · have count : (Project.parse broken).toOption.map (fun p => (problems p).length) = some 3 := by decide +kernel
    obtain ⟨p, loads, count⟩ := exists_parsed count
    have unsound : ¬ Sound p := fun sound => by
      rw [problems_eq_nil_iff.mpr sound] at count
      cases count
    have failed := ((check_exact loads (i := i) rfl {} 0).2.1 unsound).2
    rw [failed, ← length_problems, count]
    rfl
  · have found : (Project.parse whole).toOption.map
        (fun p => (problems p, (p.instance? 0 "i").isSome, (pages p).flatMap (plainLines p))) =
        some ([], true, ["Page 1/1", "  second = 2"]) := by decide +kernel
    obtain ⟨p, loads, found⟩ := exists_parsed found
    simp only [Prod.mk.injEq] at found
    obtain ⟨nothing, placed, lines⟩ := found
    have laws := check_exact loads (i := i) rfl {} 0
    have passed := laws.1.mpr (problems_eq_nil_iff.mp nothing)
    have shown := ((laws.2.2.2.2.2.1 passed { i with request := .values none }).1 rfl).2
    obtain ⟨inst, found⟩ := Option.isSome_iff_exists.mp placed
    obtain ⟨pg, here, first⟩ := Option.bind_eq_some_iff.mp found
    have name : inst.id = "i" := by simpa using List.find?_some first
    have ran := (laws.2.2.2.2.2.2 passed 0 pg here inst (List.mem_of_find?_eq_some first) {}).2
    rw [name] at ran
    exact ⟨passed, shown.trans lines, p, loads, ran⟩

/-- One formula fails, and two marked lines are printed: its own text begins a line with the mark. -/
theorem check_miscounts_lines :
    let text := "[\x7b\"a\": [\"value\", \"\", \"n\", \"formula\", \"1\\nerror:\"]\x7d, [[\"\", \x7b\x7d]]]"
    let r := answer { path := "deck.json", request := .check } {} (.ok text) 0
    r.failure = some "1 problem(s) found" ∧ (lines r).countP isErrorLine = 2 := by
  decide +kernel

end Requests

end SlideDeck.Command
