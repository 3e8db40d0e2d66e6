import Mathlib
import SlideDeck.Proofs.Context.Values
import SlideDeck.Proofs.Resolve.Substitution
import SlideDeck.Proofs.Script.Change
import SlideDeck.Sandbox.Execution

/-!
What a script finds of the values of a project: numbers are finite and arrive with the value that they
have, and nothing is missing under a name that scripts can use.
-/

namespace SlideDeck

theorem Json.split_of_lookup {α : Type} {fields : List (String × α)} (ordered : Ordered fields)
    {n : String} {a : α} (found : fields.lookup n = some a) :
    ∃ before after, fields = before ++ (n, a) :: after ∧ n ∉ after.map (·.1) := by
  obtain ⟨before, after, rfl, -⟩ := List.lookup_eq_some_iff.mp found
  refine ⟨before, after, rfl, fun member => ?_⟩
  obtain ⟨f, later, rfl⟩ := List.mem_map.mp member
  have tail := (List.pairwise_append.mp ordered).2.1
  exact String.lt_irrefl _ ((List.pairwise_cons.mp tail).1 f later)

namespace Script

section Number

def Value.rational? : Value → Option ℚ
  | .int n => some n.toInt
  | .float x => Decimal.value? x
  | _ => none

variable {x : Float} {q : ℚ}

theorem ofNumber_small {n : Int} (small : n.natAbs < 2 ^ 53) :
    ofNumber (.int n) = .int (Int64.ofInt n) := by
  simp only [ofNumber]
  rw [if_pos (by omega)]

theorem rational_small {n : Int} (small : n.natAbs < 2 ^ 53) :
    (Value.int (Int64.ofInt n)).rational? = some (n : ℚ) := by
  rw [Value.rational?, Int64.toInt_ofInt_of_le (by omega) (by omega)]

theorem abs_lt_iff_natAbs {n : Int} : |(n : ℚ)| < 2 ^ 53 ↔ n.natAbs < 2 ^ 53 := by
  rw [← Int.cast_abs, Int.abs_eq_natAbs]
  norm_cast

/-- An integer among those that floats hold without gaps. -/
def SurelyExact (q : ℚ) : Prop := (∃ n : Int, q = n) ∧ |q| < 2 ^ 53

theorem ofNumber_ofFloat (value : Decimal.value? x = some q) :
    (ofNumber (Json.ofFloat x)).rational? = some q ∧
      (SurelyExact q → ∃ n, ofNumber (Json.ofFloat x) = .int n) ∧
      (¬ SurelyExact q → ofNumber (Json.ofFloat x) = .float x) := by
  cases whole : Decimal.whole? x with
  | none =>
      have fraction : ¬ ∃ n : Int, q = n := by
        rintro ⟨n, rfl⟩
        rw [Decimal.whole?_eq_some_iff.mpr value] at whole
        cases whole
      have finite : x.isFinite = true := (Decimal.isFinite_iff x).mpr ⟨q, value⟩
      have kept : ofNumber (Json.ofFloat x) = .float x := by simp [Json.ofFloat, ofNumber, whole, finite]
      rw [kept]
      exact ⟨value, fun surely => absurd surely.1 fraction, fun _ => rfl⟩
  | some n =>
      obtain rfl : (n : ℚ) = q := Option.some.inj ((Decimal.whole?_eq_some_iff.mp whole).symm.trans value)
      by_cases small : n.natAbs < 2 ^ 53
      · have exact' : ofNumber (Json.ofFloat x) = .int (Int64.ofInt n) := by
          simp only [Json.ofFloat, whole]
          -- the two bounds on what is exact differ, but lead to the same integer
          split
          · exact ofNumber_small small
          · simp only [ofNumber, whole, if_pos small]
        rw [exact']
        exact ⟨rational_small small, fun _ => ⟨_, rfl⟩,
          fun not => absurd ⟨⟨n, rfl⟩, abs_lt_iff_natAbs.mpr small⟩ not⟩
      · have kept : ofNumber (Json.ofFloat x) = .float x := by
          simp only [Json.ofFloat, whole]
          rw [if_neg (by omega)]
          simp only [ofNumber, whole, if_neg small]
        rw [kept]
        exact ⟨value, fun surely => absurd (abs_lt_iff_natAbs.mp surely.2) small, fun _ => rfl⟩

end Number

section Fields

variable {h : Heap} {t : Table} {n : String}

theorem ofFields_append (xs ys : List (String × Json)) (h : Heap) (t : Table) :
    ofFields h t (xs ++ ys) = ofFields (ofFields h t xs).2 (ofFields h t xs).1 ys := by
  induction xs generalizing h t with
  | nil => rfl
  | cons f rest ih => exact ih _ _

theorem getString_ofFields_other (coherent : t.Coherent) {fields : List (String × Json)}
    (other : n ∉ fields.map (·.1)) (h : Heap) : (ofFields h t fields).1.getString n = t.getString n := by
  induction fields generalizing h t with
  | nil => rfl
  | cons f rest ih =>
      rw [List.map_cons, List.mem_cons, not_or] at other
      have differs : nameKey n ≠ nameKey f.1 := fun same => other.1 (nameKey_injective same)
      exact (ih (coherent.set _ _) other.2 _).trans (Table.get_set_other coherent differs _)

theorem getString_ofFields_last (coherent : t.Coherent) (before : List (String × Json)) (j : Json)
    {after : List (String × Json)} (last : n ∉ after.map (·.1)) (h : Heap) :
    ∃ h', h.Extends h' ∧ (ofJson h' j).2.Extends (ofFields h t (before ++ (n, j) :: after)).2 ∧
      (ofFields h t (before ++ (n, j) :: after)).1.getString n = (ofJson h' j).1 := by
  refine ⟨(ofFields h t before).2, extends_ofFields before h t, ?_, ?_⟩
  · rw [ofFields_append]
    exact extends_ofFields after _ _
  · have kept := coherent_ofFields before coherent h
    rw [ofFields_append]
    exact (getString_ofFields_other (kept.set _ _) last _).trans (Table.get_set_self kept _ _)

end Fields

end Script

namespace Resolved

open Script (Value Heap)

def taken (x : Resolved) : Value := (Script.ofJson {} x.toJson).1

theorem ofJson_toJson (h : Heap) (x : Resolved) : Script.ofJson h x.toJson = (x.taken, h) := by
  cases x with
  | number y =>
      simp only [taken, toJson, Json.ofFloat]
      split
      · split <;> rfl
      · split <;> rfl
  | text s => rfl
  | error e => rfl

theorem taken_number (y : Float) : (number y).taken = Script.ofNumber (Json.ofFloat y) := by
  simp only [taken, toJson, Json.ofFloat]
  split
  · split <;> rfl
  · split <;> rfl

theorem isNil_taken {x : Resolved} (finite : ∀ y, x = .number y → y.isFinite = true) :
    x.taken.isNil = false := by
  cases x with
  | number y =>
      obtain ⟨q, value⟩ := (Decimal.isFinite_iff y).mp (finite y rfl)
      have number := (Script.ofNumber_ofFloat value).1
      rw [taken_number]
      cases shape : Script.ofNumber (Json.ofFloat y) with
      | nil =>
          rw [shape] at number
          cases number
      | _ => rfl
  | text s => rfl
  | error e => rfl

end Resolved

namespace Context

theorem ordered_addValue {c : Context} (ordered : Json.Ordered c.values) (v : NamedValue)
    (shown : Resolved) : Json.Ordered (c.addValue v shown).values := by
  unfold addValue
  split
  · exact Json.ordered_insert ordered _ _
  · exact ordered

theorem ordered_values (inst : ScriptInstance) (p : Project) (page : Nat) :
    Json.Ordered (build inst p page).values := by
  rw [values_build, ofValues]
  refine List.foldlRecOn (motive := fun c : Context => Json.Ordered c.values) _ _ ?_
    fun c ordered (v : NamedValue × Resolved) _ => ordered_addValue ordered v.1 v.2
  split <;> exact List.Pairwise.nil

end Context

namespace Environment

open Script (Value Table Heap)

variable {vars : List (String × Json)} {n : String}

theorem overlay_eq_ofFields (h : Heap) (t : Table) (vars : List (String × Json)) :
    overlay h t vars = Script.ofFields h t vars := by
  induction vars generalizing h t with
  | nil => rfl
  | cons v rest ih => exact ih _ _

def hostHeap : Heap := { tables := #[{}] ++ (libraries.map fun l => bindAll {} l.2).toArray }

def hostTable : Table := bindAll {} hostBindings

section Tables

variable {P : Table → Prop}

/-- What storing under names keeps, binding names keeps. -/
theorem bindAll_keeps {bindings : List (String × Value)} {t : Table}
    (set : ∀ b ∈ bindings, ∀ t, P t → P (t.setString b.1 b.2)) (before : P t) : P (bindAll t bindings) := by
  induction bindings generalizing t with
  | nil => exact before
  | cons b rest ih =>
      exact ih (fun c member => set c (List.mem_cons_of_mem b member)) (set b List.mem_cons_self t before)

theorem forall_tables_hostHeap (empty : P {})
    (set : ∀ (t : Table) (n : String) (v : Value), P t → P (t.setString n v)) :
    ∀ (a : Nat) (t : Table), hostHeap.tables[a]? = some t → P t := by
  intro a t found
  obtain first | library := Array.mem_append.mp (Array.mem_of_getElem? found)
  · rw [Array.mem_singleton.mp first]
    exact empty
  · obtain ⟨l, -, rfl⟩ := List.mem_map.mp (List.mem_toArray.mp library)
    exact bindAll_keeps (fun b _ t => set t b.1 b.2) empty

end Tables

theorem coherent_hostTable : hostTable.Coherent :=
  bindAll_keeps (fun _ _ _ old => old.set _ _) Table.coherent_empty

theorem stored_hostTable : hostTable.Stored :=
  bindAll_keeps (fun _ _ _ old => old.set (Script.Key.stored_string _) _) (Table.stored_of_empty rfl)

theorem coherent_hostHeap : hostHeap.Coherent :=
  forall_tables_hostHeap Table.coherent_empty fun _ _ _ old => old.set _ _

theorem stored_hostHeap : hostHeap.Stored :=
  forall_tables_hostHeap (Table.stored_of_empty rfl) fun _ _ _ old => old.set (Script.Key.stored_string _) _

theorem tables_build (vars : List (String × Json)) :
    (build vars).tables = (Script.ofFields hostHeap hostTable vars).2.tables.setIfInBounds address
      { (Script.ofFields hostHeap hostTable vars).1 with strict := true } := by
  rw [← overlay_eq_ofFields, ← Array.set!_eq_setIfInBounds]
  rfl

theorem forall_tables_build {P : Table → Prop}
    (given : ∀ (a : Nat) (t : Table), (Script.ofFields hostHeap hostTable vars).2.tables[a]? = some t → P t)
    (env : P { (Script.ofFields hostHeap hostTable vars).1 with strict := true }) :
    ∀ (a : Nat) (t : Table), (build vars).tables[a]? = some t → P t := by
  intro a t found
  rw [tables_build, Array.getElem?_setIfInBounds] at found
  split at found
  · split at found
    · exact Option.some.inj found ▸ env
    · cases found
  · exact given a t found

theorem coherent_build (vars : List (String × Json)) : (build vars).Coherent :=
  forall_tables_build ((Script.reaches_ofFields vars hostHeap hostTable).coherent coherent_hostHeap)
    (Script.coherent_ofFields vars coherent_hostTable hostHeap)

theorem stored_build (vars : List (String × Json)) : (build vars).Stored :=
  forall_tables_build ((Script.reaches_ofFields vars hostHeap hostTable).stored stored_hostHeap)
    (Script.stored_ofFields vars stored_hostTable hostHeap)

theorem table_build_other {a : Nat} (other : a ≠ address) :
    (build vars).table a = (Script.ofFields hostHeap hostTable vars).2.table a := by
  rw [Heap.table, Heap.table, tables_build, Array.getD_eq_getD_getElem?, Array.getElem?_setIfInBounds,
    if_neg (Ne.symm other), Array.getD_eq_getD_getElem?]

theorem address_lt_size {h : Heap} (more : hostHeap.Extends h) : address < h.tables.size := by
  have first : hostHeap.tables[address]? = some {} := rfl
  exact (Array.getElem?_eq_some_iff.mp (more address _ first)).1

theorem table_build_address (vars : List (String × Json)) :
    (build vars).table address = { (Script.ofFields hostHeap hostTable vars).1 with strict := true } := by
  rw [Heap.table, tables_build, Array.getD_eq_getD_getElem?, Array.getElem?_setIfInBounds, if_pos rfl,
    if_pos (address_lt_size (Script.extends_ofFields vars _ _))]
  rfl

theorem getString_build (before after : List (String × Json)) (j : Json)
    (variables' : vars = before ++ (n, j) :: after) (last : n ∉ after.map (·.1)) :
    ∃ h, hostHeap.Extends h ∧
      (Script.ofJson h j).2.Extends (Script.ofFields hostHeap hostTable vars).2 ∧
      ((build vars).table address).getString n = (Script.ofJson h j).1 := by
  rw [table_build_address, variables']
  exact Script.getString_ofFields_last coherent_hostTable before j last hostHeap

end Environment

namespace Sandbox

open Script (Value Heap Machine Program Origin Exec)

variable {m : Machine} {a : Nat} {n : String} {w : Value}

theorem index_of_getString (found : (m.heap.table a).getString n = w) (present : w.isNil = false)
    (origin : Option Origin) : Exec.index (.table a) (.ofString n) origin m = .ok w m := by
  have read : (m.heap.table a).get (.string n.toUTF8) = w := found
  have looked : Exec.table a m = .ok (m.heap.table a) m := rfl
  change Exec.tableGet a (.string n.toUTF8) true m = .ok w m
  simp only [Exec.tableGet, Script.Key.ofValue, bind, EStateM.bind, looked, read]
  cases w <;> first | rfl | cases present

theorem table_start (prog : Program) (vars : List (String × Json)) (memoryLimit : Nat) (now : Int)
    (a : Nat) : (start prog vars memoryLimit now).heap.table a = (Environment.build vars).table a := rfl

/-- In every machine that a run comes to, the keys of a table are found where they stand, and are as tables
store them. -/
theorem tables_of_reaches {p : Program} {vars : List (String × Json)} {memoryLimit : Nat} {now : Int}
    (reaches : (start p vars memoryLimit now).Reaches m) :
    m.heap.Coherent ∧ ∀ (a : Nat), ∀ k ∈ (m.heap.table a).entries.map (·.1), k.Stored :=
  ⟨reaches.continues.coherent (Environment.coherent_build vars), fun a =>
    ((reaches.continues.stored (Environment.stored_build vars)).table a).entries⟩

section Values

variable {c : Context} {x : Resolved}

theorem getString_values (ordered : Json.Ordered c.values) (found : c.values.lookup n = some x.toJson) :
    ∃ a, ((Environment.build c.variables).table Environment.address).getString "values" = .table a ∧
      ((Environment.build c.variables).table a).getString n = x.taken := by
  have variables' : c.variables = c.globals ++ [("page_current", .int c.pageCurrent),
      ("page_total", .int c.pageTotal)] ++ ("values", .object c.values) :: [("params", .object c.params)] := by
    simp [Context.variables]
  obtain ⟨h, more, later, read⟩ := Environment.getString_build _ _ _ variables' (by simp)
  refine ⟨_, read, ?_⟩
  -- the members of the object, in the table that was added behind them
  obtain ⟨before, after, split, last⟩ := Json.split_of_lookup ordered found
  obtain ⟨h', -, -, member⟩ := Script.getString_ofFields_last Script.Table.coherent_empty
    before x.toJson last h
  rw [← split, Resolved.ofJson_toJson] at member
  have members := more.trans (Script.extends_ofFields c.values h {})
  have apart : (Script.ofFields h {} c.values).2.tables.size ≠ Environment.address :=
    (Environment.address_lt_size members).ne'
  have placed : (Script.ofJson h (.object c.values)).2.tables[(Script.ofFields h {} c.values).2.tables.size]? =
      some (Script.ofFields h {} c.values).1 := by simp [Script.ofJson, Heap.addTable]
  rw [Environment.table_build_other apart, later.table placed]
  exact member

theorem getString_global (ordered : Json.Ordered c.globals) (found : c.globals.lookup n = some x.toJson)
    (free : n ∉ contextNames) :
    ((Environment.build c.variables).table Environment.address).getString n = x.taken := by
  obtain ⟨before, after, split, last⟩ := Json.split_of_lookup ordered found
  have variables' : c.variables = before ++ (n, x.toJson) :: (after ++ [("page_current", .int c.pageCurrent),
      ("page_total", .int c.pageTotal), ("values", .object c.values), ("params", .object c.params)]) := by
    simp [Context.variables, split]
  obtain ⟨h, -, -, read⟩ := Environment.getString_build before _ _ variables' <| by
    rw [List.map_append, List.mem_append, not_or]
    exact ⟨last, free⟩
  rw [read, Resolved.ofJson_toJson]

end Values

/-- Numbers that values have are finite, and scripts get them as integers where that is surely exact and
unchanged elsewhere. No value that scripts can name is missing from their table of values, or from the
environment if values are injected: reading it gives the last value of that name. -/
theorem values_reach_script (inst : ScriptInstance) (p : Project) (page : Nat) :
    let r := Resolver.ofProject p
    (∀ v x, r.resolve v page = .number x → x.isFinite = true ∧ Json.ofFloat x ≠ .null ∧
      ∃ q, Decimal.value? x = some q ∧ ∀ h,
        (Script.ofJson h (Json.ofFloat x)).1.rational? = some q ∧
        (Script.SurelyExact q → ∃ n, (Script.ofJson h (Json.ofFloat x)).1 = .int n) ∧
        (¬ Script.SurelyExact q → (Script.ofJson h (Json.ofFloat x)).1 = .float x)) ∧
    ∀ v ∈ p.values, isBindable v.name = true → ∀ prog memoryLimit now origin,
      let m := start prog (Context.build inst p page).variables memoryLimit now
      ∃ u a, p.lastNamed v.name = some u ∧ (r.resolve u page).taken.isNil = false ∧
        Exec.index (.table Environment.address) (.ofString "values") origin m = .ok (.table a) m ∧
        Exec.index (.table a) (.ofString v.name) origin m = .ok (r.resolve u page).taken m ∧
        (inst.injectValues = true →
          Exec.index (.table Environment.address) (.ofString v.name) origin m =
            .ok (r.resolve u page).taken m) := by
  intro r
  refine ⟨fun v x number => ?_, fun v member bindable prog memoryLimit now origin => ?_⟩
  · have finite := Resolver.isFinite_of_resolve number
    obtain ⟨q, value⟩ := (Decimal.isFinite_iff x).mp finite
    have carried := Script.ofNumber_ofFloat value
    refine ⟨finite, fun null => ?_, q, value, fun h => ?_⟩
    · rw [null] at carried
      cases carried.1
    · have shown : Json.ofFloat x = (Resolved.number x).toJson := rfl
      rwa [shown, Resolved.ofJson_toJson, Resolved.taken_number]
  · obtain ⟨u, last⟩ : ∃ u, p.lastNamed v.name = some u := by
      rw [← Option.isSome_iff_exists, Project.lastNamed, List.find?_isSome]
      exact ⟨v, List.mem_reverse.mpr member, by simp⟩
    have present : (r.resolve u page).taken.isNil = false :=
      Resolved.isNil_taken fun y => Resolver.isFinite_of_resolve
    have found := Context.lookup_values_build inst p page v.name
    rw [if_pos bindable, last, Option.map_some] at found
    have ordered := Context.ordered_values inst p page
    have free : v.name ∉ contextNames := by
      simp only [isBindable, Bool.and_eq_true, Bool.not_eq_true'] at bindable
      simpa using bindable.2
    obtain ⟨a, table, read⟩ := getString_values ordered found
    have tables := table_start prog (Context.build inst p page).variables memoryLimit now
    dsimp only
    generalize start prog (Context.build inst p page).variables memoryLimit now = m at tables ⊢
    rw [← tables] at read
    rw [← tables] at table
    refine ⟨u, a, last, present, index_of_getString table rfl origin, index_of_getString read present origin,
      fun injected => ?_⟩
    have same := Context.globals_build inst p page injected
    have global := getString_global (same ▸ ordered) (same ▸ found) free
    rw [← tables] at global
    exact index_of_getString global present origin

/-- A value whose text is no finite number, injected: scripts read zero. -/
theorem values_reach_script_of_infinite :
    let v : NamedValue := { id := "a", name := "n", kind := .number, initial := .text "inf" }
    let p := Project.ofValues [v]
    let inst : ScriptInstance := { id := "i", scriptId := "s", injectValues := true }
    let m := start #[] (Context.build inst p 0).variables 0 0
    (0.0 : Float).isFinite = true ∧ Json.ofFloat 0.0 ≠ .null ∧
      Exec.index (.table Environment.address) (.ofString "n") none m = .ok (.int 0) m := by
  intro v p inst m
  obtain ⟨numbers, readable⟩ := values_reach_script inst p 0
  have number : (Resolver.ofProject p).resolve v 0 = .number 0.0 := rfl
  obtain ⟨finite, notNull, -⟩ := numbers v 0.0 number
  obtain ⟨u, a, last, -, -, -, injected⟩ :=
    readable v (by simp [p, Project.values_ofValues]) (by decide +kernel) #[] 0 0 none
  obtain rfl : v = u := Option.some.inj last
  have zero : (Resolved.number 0.0).taken = .int 0 := rfl
  rw [number, zero] at injected
  exact ⟨finite, notNull, injected rfl⟩

end Sandbox

end SlideDeck
