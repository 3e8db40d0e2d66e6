import Mathlib
import SlideDeck.Proofs.Calendar.Civil
import SlideDeck.Proofs.Script.Codec
import SlideDeck.Proofs.Script.Conduct.Library

/-!
The clock of scripts: tables that name a date and a time, and seconds. Each is turned into the other
and back without a loss, and what names no moment of the calendar is refused, never moved to one that
it could have meant.
-/

namespace SlideDeck.Script

open Calendar (Moment)

section Integers

theorem toInt_ofInt_of_natAbs {n : Int} (small : n.natAbs < 2 ^ 63) : (Int64.ofInt n).toInt = n :=
  Int64.toInt_ofInt_of_le (by omega) (by omega)

theorem nonneg_ofInt {n : Nat} (small : n < 2 ^ 63) : 0 ≤ Int64.ofInt n := by
  rw [Int64.le_iff_toInt_le, toInt_ofInt_of_natAbs (by omega)]
  exact Int.natCast_nonneg n

theorem toNatClampNeg_ofInt {n : Nat} (small : n < 2 ^ 63) : (Int64.ofInt n).toNatClampNeg = n := by
  rw [Int64.toNatClampNeg, toInt_ofInt_of_natAbs (by omega), Int.toNat_natCast]

theorem ofInt_toNatClampNeg {n : Int64} (natural : 0 ≤ n) : Int64.ofInt n.toNatClampNeg = n := by
  rw [Int64.le_iff_toInt_le] at natural
  rw [Int64.toNatClampNeg, Int.toNat_of_nonneg natural, Int64.ofInt_toInt]

end Integers

namespace Table

/-- What is stored under a name is read under it, and nothing changes under other names. -/
theorem getString_setString {t : Table} (coherent : t.Coherent) (name : String) (v : Value) (name' : String) :
    (t.setString name v).getString name' = if name' = name then v else t.getString name' := by
  have keys : Key.string name'.toUTF8 = Key.string name.toUTF8 ↔ name' = name :=
    ⟨nameKey_injective, congrArg nameKey⟩
  simp only [getString, setString, get_set coherent, keys]

theorem get_setAll_of_mem {t : Table} (coherent : t.Coherent) {entries : List (Key × Value)} {k : Key} {v : Value}
    (distinct : (entries.map (·.1)).Nodup) (member : (k, v) ∈ entries) : (t.setAll entries).get k = v := by
  obtain ⟨before, after, rfl⟩ := List.append_of_mem member
  rw [List.map_append, List.map_cons] at distinct
  exact get_setAll_last coherent before v (List.nodup_cons.mp distinct.of_append_right).1

/-- The table gives a number under a name, or has nothing there and there is a default; a strict table
has no defaults. -/
def Gives (t : Table) (name : String) (default : Option Int64) (n : Int64) : Prop :=
  t.getString name = .int n ∨ t.getString name = .nil ∧ t.strict = false ∧ default = some n

theorem gives_none {t : Table} {name : String} {n : Int64} :
    t.Gives name none n ↔ t.getString name = .int n := by
  simp [Gives]

theorem not_gives_of_absent {t : Table} {name : String} {n : Int64} (absent : t.getString name = .nil) :
    ¬ t.Gives name none n := by
  simp [gives_none, absent]

def requiredNames : List String := ["year", "month", "day"]

def fieldNames : List String := requiredNames ++ ["hour", "min", "sec"]

def Plain (t : Table) (name : String) : Prop := t.getString name = .nil ∨ ∃ n, t.getString name = .int n

/-- The fields of the table name the moment: noon, if they leave the time open. -/
structure Names (t : Table) (m : Moment) : Prop where
  year : t.Gives "year" none (.ofInt m.date.year)
  month : t.Gives "month" none (.ofInt m.date.month)
  day : t.Gives "day" none (.ofInt m.date.day)
  hour : t.Gives "hour" (some 12) (.ofInt m.hour)
  minute : t.Gives "min" (some 0) (.ofInt m.minute)
  second : t.Gives "sec" (some 0) (.ofInt m.second)

/-- The table has every field of the moment, with the weekday from Sunday on, and the day of the year. -/
structure Spells (t : Table) (m : Moment) : Prop where
  year : t.getString "year" = .int (.ofInt m.date.year)
  month : t.getString "month" = .int (.ofInt m.date.month)
  day : t.getString "day" = .int (.ofInt m.date.day)
  hour : t.getString "hour" = .int (.ofInt m.hour)
  minute : t.getString "min" = .int (.ofInt m.minute)
  second : t.getString "sec" = .int (.ofInt m.second)
  weekday : t.getString "wday" = .int (.ofInt (m.date.dayNumber % 7 + 1))
  yearDay : t.getString "yday" = .int (.ofInt m.date.yearDay)

theorem Spells.names {t : Table} {m : Moment} (spells : t.Spells m) : t.Names m :=
  ⟨.inl spells.year, .inl spells.month, .inl spells.day, .inl spells.hour, .inl spells.minute,
    .inl spells.second⟩

end Table

namespace Invocation

section DateFields

variable {m : Machine} {a : Nat} {name : String} {default : Option Int64} {n : Int64}

def Refuses {α : Type} (x : Exec α) (m : Machine) : Prop :=
  ∃ isRuntime message, x m = Exec.hostFail isRuntime message m

theorem Refuses.bind {α β : Type} {x : Exec α} (refuses : Refuses x m) (f : α → Exec β) :
    Refuses (x >>= f) m := by
  obtain ⟨isRuntime, message, failed⟩ := refuses
  refine ⟨isRuntime, message, ?_⟩
  change EStateM.bind x f m = _
  rw [EStateM.bind, failed]
  rfl

theorem refuses_or {α β : Type} {x : Exec α} {f : α → Exec β} {holds : α → Prop}
    (first : (∃ n, x m = .ok n m) ∨ Refuses x m)
    (next : ∀ n, x m = .ok n m → Refuses (f n) m ∨ holds n) :
    Refuses (x >>= f) m ∨ ∃ n, x m = .ok n m ∧ holds n := by
  obtain ⟨n, read⟩ | refused := first
  · obtain refused | held := next n read
    · left
      unfold Refuses
      rwa [bind_apply read]
    · exact .inr ⟨n, read, held⟩
  · exact .inl (refused.bind f)

theorem dateField_absent (absent : (m.heap.table a).getString name = .nil) :
    dateField a name default m = (if (m.heap.table a).strict then missingField name true
      else match default with
        | some n => return n
        | none => missingField name false : Exec Int64) m := by
  have looked : Exec.table a m = .ok (m.heap.table a) m := rfl
  rw [dateField, bind_apply looked, absent]
  cases default with
  | some n => rfl
  | none => rfl

theorem dateField_present {v : Value} (found : (m.heap.table a).getString name = v) (present : v.isNil = false) :
    dateField a name default m = (match asInteger v with
      | .ok n => return n
      | .error e => Exec.hostFail false e.message : Exec Int64) m := by
  have looked : Exec.table a m = .ok (m.heap.table a) m := rfl
  rw [dateField, bind_apply looked, found]
  cases v <;> first | rfl | cases present

theorem dateField_given (gives : (m.heap.table a).Gives name default n) :
    dateField a name default m = .ok n m := by
  obtain here | ⟨absent, lenient, rfl⟩ := gives
  · rw [dateField_present here rfl]
    rfl
  · rw [dateField_absent absent, lenient]
    rfl

theorem dateField_cases (a : Nat) (name : String) (default : Option Int64) (m : Machine) :
    (∃ n, dateField a name default m = .ok n m) ∨ Refuses (dateField a name default) m := by
  unfold Refuses
  by_cases absent : (m.heap.table a).getString name = .nil
  · rw [dateField_absent absent]
    split
    · exact .inr ⟨_, _, rfl⟩
    · cases default with
      | some n => exact .inl ⟨n, rfl⟩
      | none => exact .inr ⟨_, _, rfl⟩
  · have present : ((m.heap.table a).getString name).isNil = false := by
      cases found : (m.heap.table a).getString name <;> simp_all [Value.isNil]
    rw [dateField_present rfl present]
    cases asInteger ((m.heap.table a).getString name) with
    | ok n => exact .inl ⟨n, rfl⟩
    | error e => exact .inr ⟨_, _, rfl⟩

/-- Of a number or nothing, no more is read than the table gives. -/
theorem gives_of_dateField (plain : (m.heap.table a).Plain name)
    (read : dateField a name default m = .ok n m) : (m.heap.table a).Gives name default n := by
  obtain absent | ⟨k, here⟩ := plain
  · rw [dateField_absent absent] at read
    cases lenient : (m.heap.table a).strict with
    | true =>
        rw [lenient] at read
        cases read
    | false =>
        rw [lenient] at read
        cases default with
        | none => cases read
        | some k =>
            cases read
            exact .inr ⟨absent, lenient, rfl⟩
  · rw [dateField_given (.inl here)] at read
    cases read
    exact .inl here

end DateFields

section Time

variable {m : Machine} {a : Nat} {c : Invocation} {mo : Moment}

theorem hostArg?_table (given : c.arg 0 = .table a) (m : Machine) :
    c.hostArg? 0 asTable m = .ok (some a) m := by
  have present : c.isAbsent 0 = false := by rw [isAbsent, given]; rfl
  have read : c.hostArg 0 asTable = (pure a : Exec Nat) := by rw [hostArg, given]; rfl
  rw [hostArg?, present, read]
  rfl

def momentOf (year month day hour minute second : Int64) : Moment :=
  { date := ⟨year.toInt, month.toNatClampNeg, day.toNatClampNeg⟩
    hour := hour.toNatClampNeg, minute := minute.toNatClampNeg, second := second.toNatClampNeg }

theorem osTime_read {year month day hour minute second : Int64} (given : c.arg 0 = .table a)
    (years : dateField a "year" none m = .ok year m) (months : dateField a "month" none m = .ok month m)
    (days : dateField a "day" none m = .ok day m) (hours : dateField a "hour" (some 12) m = .ok hour m)
    (minutes : dateField a "min" (some 0) m = .ok minute m)
    (seconds : dateField a "sec" (some 0) m = .ok second m) :
    osTime c m = (if [month, day, hour, minute, second].all (0 ≤ ·) &&
        (momentOf year month day hour minute second).isValid then
      return #[.int (Int64.ofInt (momentOf year month day hour minute second).toSeconds)]
    else Exec.hostFail true "date table out of range" : Answer) m := by
  unfold osTime
  rw [bind_apply (hostArg?_table given m)]
  dsimp only
  rw [bind_apply years, bind_apply months, bind_apply days, bind_apply hours, bind_apply minutes,
    bind_apply seconds]
  rfl

theorem momentOf_ofInt (valid : mo.isValid = true) :
    momentOf (.ofInt mo.date.year) (.ofInt mo.date.month) (.ofInt mo.date.day) (.ofInt mo.hour)
        (.ofInt mo.minute) (.ofInt mo.second) = mo ∧
      ∀ n ∈ [mo.date.month, mo.date.day, mo.hour, mo.minute, mo.second], 0 ≤ Int64.ofInt n := by
  obtain ⟨⟨first, last⟩, inMonth, hour, minute, second⟩ := Moment.isValid_iff.mp valid
  have month := inMonth.month
  have day := inMonth.day_le
  simp only [Calendar.minYear, Calendar.maxYear] at first last
  constructor
  · rw [momentOf, toInt_ofInt_of_natAbs (by omega), toNatClampNeg_ofInt (by omega),
      toNatClampNeg_ofInt (by omega), toNatClampNeg_ofInt (by omega), toNatClampNeg_ofInt (by omega),
      toNatClampNeg_ofInt (by omega)]
  · intro n member
    apply nonneg_ofInt
    simp only [List.mem_cons, List.not_mem_nil, or_false] at member
    omega

theorem osTime_names (given : c.arg 0 = .table a) (valid : mo.isValid = true)
    (names : (m.heap.table a).Names mo) : osTime c m = .ok #[.int (Int64.ofInt mo.toSeconds)] m := by
  obtain ⟨same, natural⟩ := momentOf_ofInt valid
  rw [osTime_read given (dateField_given names.year) (dateField_given names.month)
    (dateField_given names.day) (dateField_given names.hour) (dateField_given names.minute)
    (dateField_given names.second), same, if_pos]
  · rfl
  · simp only [valid, Bool.and_true, List.all_eq_true, decide_eq_true_eq]
    simpa using natural

theorem osTime_cases (given : c.arg 0 = .table a) (m : Machine) : Refuses (osTime c) m ∨
    ∃ year, dateField a "year" none m = .ok year m ∧ ∃ month, dateField a "month" none m = .ok month m ∧
      ∃ day, dateField a "day" none m = .ok day m ∧ ∃ hour, dateField a "hour" (some 12) m = .ok hour m ∧
        ∃ minute, dateField a "min" (some 0) m = .ok minute m ∧
          ∃ second, dateField a "sec" (some 0) m = .ok second m ∧
            (∀ n ∈ [month, day, hour, minute, second], 0 ≤ n) ∧
              (momentOf year month day hour minute second).isValid = true := by
  unfold osTime
  unfold Refuses
  rw [bind_apply (hostArg?_table given m)]
  refine refuses_or (dateField_cases a "year" none m) fun year years => ?_
  refine refuses_or (dateField_cases a "month" none m) fun month months => ?_
  refine refuses_or (dateField_cases a "day" none m) fun day days => ?_
  refine refuses_or (dateField_cases a "hour" (some 12) m) fun hour hours => ?_
  refine refuses_or (dateField_cases a "min" (some 0) m) fun minute minutes => ?_
  refine refuses_or (dateField_cases a "sec" (some 0) m) fun second seconds => ?_
  by_cases accepted : ([month, day, hour, minute, second].all (0 ≤ ·) &&
      (momentOf year month day hour minute second).isValid) = true
  · right
    rw [Bool.and_eq_true, List.all_eq_true] at accepted
    exact ⟨fun n member => of_decide_eq_true (accepted.1 n member), accepted.2⟩
  · left
    exact ⟨_, _, congrFun (if_neg accepted) m⟩

/-- Numbers that name no moment are refused, and so is a table without a year, a month or a day. -/
theorem osTime_refuses (given : c.arg 0 = .table a)
    (plain : (∀ name ∈ Table.fieldNames, (m.heap.table a).Plain name) ∨
      ∃ name ∈ Table.requiredNames, (m.heap.table a).getString name = .nil)
    (nameless : ¬ ∃ mo : Moment, mo.isValid = true ∧ (m.heap.table a).Names mo) :
    Refuses (osTime c) m := by
  obtain refused | ⟨year, years, month, months, day, days, hour, hours, minute, minutes, second, seconds,
    natural, valid⟩ := osTime_cases given m
  · exact refused
  · exfalso
    obtain plain | ⟨name, member, absent⟩ := plain
    · simp only [Table.fieldNames, Table.requiredNames, List.cons_append, List.nil_append,
        List.forall_mem_cons] at plain natural
      obtain ⟨years', months', days', hours', minutes', seconds', -⟩ := plain
      obtain ⟨month_nonneg, day_nonneg, hour_nonneg, minute_nonneg, second_nonneg, -⟩ := natural
      refine nameless ⟨momentOf year month day hour minute second, valid, ?_⟩
      constructor
      · rw [momentOf, Int64.ofInt_toInt]
        exact gives_of_dateField years' years
      · rw [momentOf, ofInt_toNatClampNeg month_nonneg]
        exact gives_of_dateField months' months
      · rw [momentOf, ofInt_toNatClampNeg day_nonneg]
        exact gives_of_dateField days' days
      · rw [momentOf, ofInt_toNatClampNeg hour_nonneg]
        exact gives_of_dateField hours' hours
      · rw [momentOf, ofInt_toNatClampNeg minute_nonneg]
        exact gives_of_dateField minutes' minutes
      · rw [momentOf, ofInt_toNatClampNeg second_nonneg]
        exact gives_of_dateField seconds' seconds
    · simp only [Table.requiredNames, List.mem_cons, List.not_mem_nil, or_false] at member
      obtain rfl | rfl | rfl := member
      · exact Table.not_gives_of_absent absent (gives_of_dateField (.inl absent) years)
      · exact Table.not_gives_of_absent absent (gives_of_dateField (.inl absent) months)
      · exact Table.not_gives_of_absent absent (gives_of_dateField (.inl absent) days)

end Time

section Date

variable {m : Machine} {c : Invocation} {mo : Moment} {format : String} {t : Int64}

def tableFormats : List String := ["*t", "!*t"]

def dateEntries (mo : Moment) : List (String × Value) :=
  [("year", .int (.ofInt mo.date.year)), ("month", .int (.ofInt mo.date.month)), ("day", .int (.ofInt mo.date.day)),
    ("hour", .int (.ofInt mo.hour)), ("min", .int (.ofInt mo.minute)), ("sec", .int (.ofInt mo.second)),
    ("wday", .int (.ofInt (mo.date.sinceSunday + 1))), ("yday", .int (.ofInt mo.date.ordinal)),
    ("isdst", .bool false)]

theorem getString_dateTable {name : String} {v : Value} (field : (name, v) ∈ dateEntries mo) :
    (dateTable mo).getString name = v := by
  have built : dateTable mo = ({} : Table).setAll ((dateEntries mo).map fun e => (nameKey e.1, e.2)) := by
    simp only [dateTable, dateEntries, Table.setAll, Table.setString, nameKey, List.map_cons, List.map_nil,
      List.foldl_cons, List.foldl_nil]
  have names : ((dateEntries mo).map (·.1)).Nodup := by
    change ["year", "month", "day", "hour", "min", "sec", "wday", "yday", "isdst"].Nodup
    decide
  have keys : (((dateEntries mo).map fun e => (nameKey e.1, e.2)).map (·.1)).Nodup := by
    rw [List.map_map]
    have distinct := names.map fun a b => nameKey_injective (a := a) (b := b)
    rwa [List.map_map] at distinct
  rw [built]
  exact Table.get_setAll_of_mem Table.coherent_empty keys (List.mem_map_of_mem field)

theorem spells_dateTable (inMonth : mo.date.InMonth) : (dateTable mo).Spells mo := by
  have weekday : ((mo.date.sinceSunday : Int) + 1) = mo.date.dayNumber % 7 + 1 :=
    congrArg (· + 1) (Calendar.Date.sinceSunday_eq inMonth)
  have yearDay : mo.date.ordinal = mo.date.yearDay := Calendar.Date.ordinal_eq inMonth
  constructor <;> apply getString_dateTable <;> simp [dateEntries, weekday, yearDay]

/-- The answer is a new table, unless the memory in use is beyond a limit with it. -/
def AnswersTable (x : Answer) (m : Machine) (t : Table) : Prop :=
  (∃ m', x m = .ok #[.table m.heap.tables.size] m' ∧ m'.heap = (m.heap.addTable t).2) ∨
    m.memoryLimit ≠ 0 ∧ ∃ used, m.memoryLimit < used ∧ x m = .error .outOfMemory { m with memory := used }

theorem answersTable_newTable (t : Table) (m : Machine) :
    AnswersTable (do return #[.table (← Exec.newTable t)]) m t := by
  obtain ⟨used, charged | ⟨limited, beyond, charged⟩⟩ := affords_charge (56 + t.bytes) m
  · refine .inl ⟨{ m with heap := (m.heap.addTable t).2, memory := used }, ?_, rfl⟩
    rw [Exec.newTable, bind_assoc, bind_apply charged]
    rfl
  · refine .inr ⟨limited, used, beyond, ?_⟩
    change EStateM.bind (EStateM.bind (Exec.charge (56 + t.bytes)) _) _ m = _
    rw [EStateM.bind, EStateM.bind, charged]

theorem osDate_table (table : format ∈ tableFormats) (given : c.args = #[.string format.toUTF8, .int t])
    (m : Machine) :
    osDate c m = (match Moment.ofSeconds? t.toInt with
      | none => Exec.hostFail true "time out of range"
      | some mo => do return #[.table (← Exec.newTable (dateTable mo))] : Answer) m := by
  have first : c.arg 0 = .string format.toUTF8 := by rw [arg, given]; rfl
  have second : c.arg 1 = .int t := by rw [arg, given]; rfl
  have asked : c.hostArg? 0 asText = (pure (some format) : Exec (Option String)) := by
    have read : asText (.string format.toUTF8) = .ok format := by
      simp only [asText, Value.toBytes?, decode_toUTF8]
    simp only [hostArg?, isAbsent, hostArg, first, read]
    rfl
  have timed : c.hostArg? 1 asInteger = (pure (some t) : Exec (Option Int64)) := by
    simp only [hostArg?, isAbsent, hostArg, second]
    rfl
  have looked (m : Machine) : (get : Exec Machine) m = .ok m m := rfl
  unfold osDate
  rw [asked, timed]
  simp only [pure_bind, Option.map_some, Option.getD_some]
  rw [bind_apply (looked m)]
  cases Moment.ofSeconds? t.toInt with
  | none => rfl
  | some mo =>
      simp only [tableFormats, List.mem_cons, List.not_mem_nil, or_false] at table
      obtain rfl | rfl := table
      · exact congrFun (if_pos (by decide +kernel)) m
      · exact congrFun (if_pos (by decide +kernel)) m

end Date

section Inverse

theorem table_addTable (h : Heap) (t : Table) : (h.addTable t).2.table h.tables.size = t := by
  simp [Heap.addTable, Heap.table, Array.getD_eq_getD_getElem?]

/-- Clock and calendar are inverse to each other, for local dates as for those of the prime meridian. A
time that the calendar has is turned into a table from which the same time is read; a table that names
a date and a time is turned into a time that spells them out, with weekday and day of the year. Numbers
that name none are refused, and so is a table without a year, a month or a day, and, since nothing is
absent from a strict table, a strict one without a field. -/
theorem osTime_inverts_osDate {format : String} (table : format ∈ tableFormats) :
    (∀ (t : Int64) (c : Invocation) (m : Machine), c.args = #[.string format.toUTF8, .int t] →
      if Moment.minSeconds ≤ t.toInt ∧ t.toInt ≤ Moment.maxSeconds then
        ∃ fields, AnswersTable (osDate c) m fields ∧
          ∀ (d : Invocation) (n : Machine) (a : Nat), d.args = #[.table a] → n.heap.table a = fields →
            osTime d n = .ok #[.int t] n
      else Refuses (osDate c) m) ∧
    ∀ (d : Invocation) (m : Machine) (a : Nat), d.args = #[.table a] →
      (∀ mo : Moment, mo.isValid = true → (m.heap.table a).Names mo →
        ∃ t, t.toInt = mo.toSeconds ∧ osTime d m = .ok #[.int t] m ∧
          ∀ (c : Invocation) (n : Machine), c.args = #[.string format.toUTF8, .int t] →
            ∃ fields, AnswersTable (osDate c) n fields ∧ fields.Spells mo) ∧
      ((∀ name ∈ Table.fieldNames, (m.heap.table a).Plain name) ∨
          (∃ name ∈ Table.requiredNames, (m.heap.table a).getString name = .nil) →
        (¬ ∃ mo : Moment, mo.isValid = true ∧ (m.heap.table a).Names mo) → Refuses (osTime d) m) := by
  refine ⟨fun t c m given => ?_, fun d m a given => ?_⟩
  · split
    · rename_i known
      obtain ⟨mo, accepted⟩ := Option.isSome_iff_exists.mp (Moment.isSome_ofSeconds?.mpr known)
      obtain ⟨valid, seconds⟩ := Moment.ofSeconds?_eq_some_iff.mp accepted
      refine ⟨dateTable mo, ?_, ?_⟩
      · unfold AnswersTable
        rw [osDate_table table given, accepted]
        exact answersTable_newTable _ m
      · intro d n a given' fields
        have first : d.arg 0 = .table a := by rw [arg, given']; rfl
        have names : (n.heap.table a).Names mo := by
          rw [fields]
          exact (spells_dateTable (Moment.isValid_iff.mp valid).2.1).names
        rw [osTime_names first valid names, seconds, Int64.ofInt_toInt]
    · rename_i unknown
      have refused : Moment.ofSeconds? t.toInt = none := by
        rwa [← Moment.isSome_ofSeconds?, Bool.not_eq_true, Option.isSome_eq_false_iff,
          Option.isNone_iff_eq_none] at unknown
      unfold Refuses
      rw [osDate_table table given, refused]
      exact ⟨_, _, rfl⟩
  · have first : d.arg 0 = .table a := by rw [arg, given]; rfl
    refine ⟨fun mo valid names => ?_, osTime_refuses first⟩
    have accepted := Moment.ofSeconds?_eq_some_iff.mpr ⟨valid, rfl⟩
    have known := Moment.isSome_ofSeconds?.mp (Option.isSome_of_eq_some accepted)
    have same : (Int64.ofInt mo.toSeconds).toInt = mo.toSeconds := by
      simp only [Moment.minSeconds, Moment.maxSeconds] at known
      exact toInt_ofInt_of_natAbs (by omega)
    refine ⟨_, same, osTime_names first valid names, fun c n given' => ⟨dateTable mo, ?_, ?_⟩⟩
    · unfold AnswersTable
      rw [osDate_table table given', same, accepted]
      exact answersTable_newTable _ n
    · exact spells_dateTable (Moment.isValid_iff.mp valid).2.1

def dateOnly (year month day : Int64) : Table :=
  ((({} : Table).setString "year" (.int year)).setString "month" (.int month)).setString "day" (.int day)

theorem getString_dateOnly (year month day : Int64) (name : String) :
    (dateOnly year month day).getString name = if name = "day" then .int day
      else if name = "month" then .int month else if name = "year" then .int year else .nil := by
  have first : (({} : Table).setString "year" (.int year)).Coherent := Table.coherent_empty.set _ _
  have second : ((({} : Table).setString "year" (.int year)).setString "month" (.int month)).Coherent :=
    first.set _ _
  have empty : ({} : Table).getString name = .nil := Table.get_absent Std.HashMap.getElem?_empty
  rw [dateOnly, Table.getString_setString second, Table.getString_setString first,
    Table.getString_setString Table.coherent_empty, empty]

theorem plain_dateOnly (year month day : Int64) (name : String) : (dateOnly year month day).Plain name := by
  unfold Table.Plain
  rw [getString_dateOnly]
  split_ifs
  · exact .inr ⟨day, rfl⟩
  · exact .inr ⟨month, rfl⟩
  · exact .inr ⟨year, rfl⟩
  · exact .inl rfl

theorem names_dateOnly {t : Table} {year month day : Int64} (lenient : t.strict = false)
    (fields : t.getString = (dateOnly year month day).getString) (natural : 0 ≤ month ∧ 0 ≤ day) :
    t.Names (momentOf year month day 12 0 0) := by
  constructor <;>
    simp [Table.Gives, fields, getString_dateOnly, momentOf, ofInt_toNatClampNeg, natural, lenient]

theorem strict_dateOnly (year month day : Int64) : (dateOnly year month day).strict = false := by
  simp [dateOnly, Table.setString]

def holding (t : Table) : Machine := { heap := { tables := #[t] } }

/-- The last second before 1970 and back, a leap day at noon, and one that its year does not have. -/
theorem osTime_inverts_osDate_of_leap_day :
    "!*t" ∈ tableFormats ∧
    (∃ m', osDate ⟨none, .osDate, #[.string "!*t".toUTF8, .int (-1)]⟩ {} = .ok #[.table 0] m' ∧
      osTime ⟨none, .osTime, #[.table 0]⟩ m' = .ok #[.int (-1)] m') ∧
    osTime ⟨none, .osTime, #[.table 0]⟩ (holding (dateOnly 2000 2 29)) =
      .ok #[.int 951825600] (holding (dateOnly 2000 2 29)) ∧
    Refuses (osTime ⟨none, .osTime, #[.table 0]⟩) (holding (dateOnly 2001 2 29)) := by
  have table : "!*t" ∈ tableFormats := by decide
  obtain ⟨dates, times⟩ := osTime_inverts_osDate table
  refine ⟨table, ?_, ?_, ?_⟩
  · have back := dates (-1) ⟨none, .osDate, #[.string "!*t".toUTF8, .int (-1)]⟩ {} rfl
    rw [if_pos (by decide)] at back
    obtain ⟨fields, ⟨m', answered, grown⟩ | ⟨limited, -⟩, same⟩ := back
    · refine ⟨m', answered, same _ m' 0 rfl ?_⟩
      rw [grown]
      exact table_addTable {} fields
    · exact absurd rfl limited
  · obtain ⟨named, -⟩ := times ⟨none, .osTime, #[.table 0]⟩ (holding (dateOnly 2000 2 29)) 0 rfl
    obtain ⟨t, seconds, answered, -⟩ := named (momentOf 2000 2 29 12 0 0) (by decide)
      (names_dateOnly (strict_dateOnly 2000 2 29) rfl (by decide))
    obtain rfl : t = 951825600 := Int64.toInt_inj.mp (seconds.trans (by decide))
    exact answered
  · obtain ⟨-, nameless⟩ := times ⟨none, .osTime, #[.table 0]⟩ (holding (dateOnly 2001 2 29)) 0 rfl
    apply nameless
    · exact .inl fun name _ => plain_dateOnly 2001 2 29 name
    · rintro ⟨mo, valid, names⟩
      have read := getString_dateOnly 2001 2 29
      have year := Value.int.inj ((read "year").symm.trans (Table.gives_none.mp names.year))
      have month := Value.int.inj ((read "month").symm.trans (Table.gives_none.mp names.month))
      have day := Value.int.inj ((read "day").symm.trans (Table.gives_none.mp names.day))
      have same := (momentOf_ofInt valid).1
      rw [← year, ← month, ← day] at same
      have last := (Moment.isValid_iff.mp valid).2.1.2
      rw [← same] at last
      have short : ¬ (29 : Int64).toNatClampNeg ≤
          Calendar.monthLength (2001 : Int64).toInt (2 : Int64).toNatClampNeg := by decide
      exact short last

/-- A strict table of a date without a time is refused. -/
theorem osTime_refuses_strict : ¬ ∀ (d : Invocation) (m : Machine) (a : Nat) (mo : Moment), d.args = #[.table a] →
    mo.isValid = true → ({ m.heap.table a with strict := false }).Names mo → ∃ t, osTime d m = .ok #[.int t] m := by
  intro always
  obtain ⟨t, answered⟩ := always ⟨none, .osTime, #[.table 0]⟩
    (holding { dateOnly 2000 2 29 with strict := true }) 0 (momentOf 2000 2 29 12 0 0) rfl
    (by decide) (names_dateOnly rfl rfl (by decide))
  obtain ⟨isRuntime, message, refused⟩ : Refuses (osTime ⟨none, .osTime, #[.table 0]⟩)
      (holding { dateOnly 2000 2 29 with strict := true }) := by
    apply osTime_refuses (a := 0) rfl
    · exact .inl fun name _ => plain_dateOnly 2000 2 29 name
    · rintro ⟨mo, -, names⟩
      obtain here | ⟨-, lenient, -⟩ := names.hour
      · exact Value.noConfusion ((getString_dateOnly 2000 2 29 "hour").symm.trans here)
      · cases lenient
  rw [refused] at answered
  cases answered

end Inverse

end Invocation

end SlideDeck.Script
