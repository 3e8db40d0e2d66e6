import SlideDeck.Calendar.Format
import SlideDeck.Json.Reader
import SlideDeck.Json.Writing
import SlideDeck.Script.Library.Arguments

/-!
The functions that the host adds to the language: clock and calendar, JSON, and lines of output. Their
errors are values of the host, and name an argument by its number alone.
-/

namespace SlideDeck.Script

structure Mismatch where
  source : String
  target : String
  reason : Option String
  deriving DecidableEq, Repr

namespace Mismatch

def message (m : Mismatch) : String :=
  "error converting Lua " ++ m.source ++ " to " ++ m.target ++
    (match m.reason with
    | some r => " (" ++ r ++ ")"
    | none => "")

end Mismatch

def truncated? (x : Float) : Option Int64 :=
  exactInt? (if x < 0.0 then x.ceil else x.floor)

/-- A number, or text that reads as one; a fraction is dropped. -/
def asInteger (v : Value) : Except Mismatch Int64 :=
  match v.toNumber? with
  | some (.int n) => .ok n
  | some (.float x) =>
    match truncated? x with
    | some n => .ok n
    | none => .error ⟨v.hostType, "i64", some "out of range"⟩
  | _ => .error ⟨v.hostType, "i64", some "expected number or string coercible to number"⟩

def asText (v : Value) : Except Mismatch String :=
  match v.toBytes? with
  | some s =>
    match Text.Utf8.decode s with
    | .ok s => .ok s
    | .error f => .error ⟨"string", "String", some f.message⟩
  | none => .error ⟨v.hostType, "String", some "expected string or number"⟩

def asTable (v : Value) : Except Mismatch Nat :=
  match v with
  | .table a => .ok a
  | v => .error ⟨v.hostType, "table", none⟩

namespace Invocation

def hostArg {α : Type} (c : Invocation) (i : Nat) (convert : Value → Except Mismatch α) : Exec α := do
  match convert (c.arg i) with
  | .ok a => return a
  | .error m => Exec.hostFail false ("bad argument #" ++ toString (i + 1) ++ ": " ++ m.message)

def hostArg? {α : Type} (c : Invocation) (i : Nat) (convert : Value → Except Mismatch α) :
    Exec (Option α) := do
  if c.isAbsent i then return none else return some (← c.hostArg i convert)

/-! JSON -/

def jsonEncode (c : Invocation) : Answer := do
  match toJson (← get).heap (c.arg 0) with
  | .ok j => return #[← Exec.text j.compact.toUTF8]
  | .error e => Exec.hostFail false e.message

def jsonDecode (c : Invocation) : Answer := do
  match Json.parse (← c.hostArg 0 asText) with
  | .error e => Exec.hostFail false e.message
  | .ok j => return #[← Exec.adopt j]

/-! Clock and calendar -/

def speed : Float := 50000000.0

def osClock (_ : Invocation) : Answer := do return #[.float ((← get).steps.toFloat / speed)]

/-- A field that a date table must have but has not. In the environment reading it is an error, which is
caught with its trace. -/
def missingField {α : Type} (name : String) (strict : Bool) : Exec α := do
  if strict then
    let trace := (← get).trace ([.helper] ++ Exec.undefinedHosts ++ [.helper])
    Exec.hostFail true ("undefined variable '" ++ name ++ "'\n" ++ traceText trace)
  else Exec.hostFail true ("field '" ++ name ++ "' missing in date table")

def dateField (a : Nat) (name : String) (default : Option Int64) : Exec Int64 := do
  let t ← Exec.table a
  match t.getString name, default with
  | .nil, some n => if t.strict then missingField name true else return n
  | .nil, none => missingField name t.strict
  | v, _ =>
    match asInteger v with
    | .ok n => return n
    | .error m => Exec.hostFail false m.message

def osTime (c : Invocation) : Answer := do
  match ← c.hostArg? 0 asTable with
  | none => return #[.int (Int64.ofInt (← get).now)]
  | some a =>
    let year ← dateField a "year" none
    let month ← dateField a "month" none
    let day ← dateField a "day" none
    let hour ← dateField a "hour" (some 12)
    let minute ← dateField a "min" (some 0)
    let second ← dateField a "sec" (some 0)
    let isNatural := [month, day, hour, minute, second].all (0 ≤ ·)
    let moment : Calendar.Moment :=
      { date := ⟨year.toInt, month.toNatClampNeg, day.toNatClampNeg⟩
        hour := hour.toNatClampNeg, minute := minute.toNatClampNeg, second := second.toNatClampNeg }
    if isNatural && moment.isValid then return #[.int (Int64.ofInt moment.toSeconds)]
    else Exec.hostFail true "date table out of range"

def dateTable (m : Calendar.Moment) : Table :=
  let field (t : Table) (name : String) (n : Int) : Table := t.setString name (.int (Int64.ofInt n))
  let t := field {} "year" m.date.year
  let t := field (field t "month" m.date.month) "day" m.date.day
  let t := field (field (field t "hour" m.hour) "min" m.minute) "sec" m.second
  let t := field (field t "wday" (m.date.sinceSunday + 1)) "yday" m.date.ordinal
  t.setString "isdst" (.bool false)

def osDate (c : Invocation) : Answer := do
  let format := (← c.hostArg? 0 asText).getD "%c"
  let seconds := ((← c.hostArg? 1 asInteger).map (·.toInt)).getD (← get).now
  match Calendar.Moment.ofSeconds? seconds with
  | none => Exec.hostFail true "time out of range"
  | some m =>
    let (zone, format) := match format.toList with
      | '!' :: rest => ("UTC", String.ofList rest)
      | _ => ("+00:00", format)
    if format.startsWith "*t" then return #[.table (← Exec.newTable (dateTable m))]
    else
      match Calendar.pattern? format with
      | some items => return #[← Exec.text (Calendar.write items zone m).toUTF8]
      | none => Exec.hostFail true ("invalid conversion specifier in '" ++ format ++ "'")

/-! Lines of output -/

def lineText (v : Value) : Except ConversionProblem String :=
  match v with
  | .float x => .ok (Decimal.display x)
  | .string s => decodeText s
  | v => .ok (Text.Utf8.lossy (Exec.displayBytes v))

/-- Once the console is full, arguments are not looked at. -/
def write (c : Invocation) (w : ConsoleWriter) : Answer := do
  if (← get).console.truncated then return #[]
  else
    match c.args.toList.mapM lineText with
    | .error e => Exec.hostFail false e.message
    | .ok texts =>
      modify fun m => { m with console := m.console.push (w.line texts) }
      return #[]

end Invocation

end SlideDeck.Script
