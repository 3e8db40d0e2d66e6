import SlideDeck.Script.Conversion

/-!
The names that a script finds bound: functions and libraries of the host, overlaid by the variables of
its context, of which null unbinds. Reading any other name is an error.
-/

namespace SlideDeck.Environment

open Script (Builtin Value Table Heap)

def function (b : Builtin) : Value := .function (.builtin b)

def functions (fs : List (String × Builtin)) : List (String × Value) :=
  fs.map fun f => (f.1, function f.2)

def globalFunctions : List (String × Value) := functions [
  ("tostring", .tostring), ("tonumber", .tonumber), ("type", .type), ("pairs", .pairs),
  ("ipairs", .ipairs), ("next", .next), ("select", .select), ("error", .error), ("pcall", .pcall),
  ("assert", .assert), ("unpack", .tableUnpack), ("print", .write .print)]

/-- The functions on strings, which are the methods of strings too. -/
def stringLibrary : List (String × Value) := functions [
  ("byte", .stringByte), ("char", .stringChar), ("find", .stringFind), ("format", .stringFormat),
  ("gmatch", .stringGmatch), ("gsub", .stringGsub), ("len", .stringLen), ("lower", .stringLower),
  ("match", .stringMatch), ("rep", .stringRep), ("reverse", .stringReverse), ("sub", .stringSub),
  ("upper", .stringUpper)]

def mathLibrary : List (String × Value) :=
  functions [
    ("abs", .mathAbs), ("acos", .mathAcos), ("asin", .mathAsin), ("atan", .mathAtan),
    ("ceil", .mathCeil), ("cos", .mathCos), ("deg", .mathDeg), ("exp", .mathExp), ("floor", .mathFloor),
    ("fmod", .mathFmod), ("log", .mathLog), ("max", .mathMax), ("min", .mathMin), ("modf", .mathModf),
    ("rad", .mathRad), ("random", .mathRandom), ("randomseed", .mathRandomseed), ("sin", .mathSin),
    ("sqrt", .mathSqrt), ("tan", .mathTan), ("tointeger", .mathTointeger), ("type", .mathType),
    ("ult", .mathUlt)] ++
  [("pi", .float 3.141592653589793), ("huge", .float (1.0 / 0.0)), ("maxinteger", .int Int64.maxValue),
    ("mininteger", .int Int64.minValue)]

def tableLibrary : List (String × Value) := functions [
  ("concat", .tableConcat), ("insert", .tableInsert), ("move", .tableMove), ("pack", .tablePack),
  ("remove", .tableRemove), ("sort", .tableSort), ("unpack", .tableUnpack)]

def codepointPattern : ByteArray :=
  ⟨#[91, 0, 45, 0x7F, 0xC2, 45, 0xFD, 93, 91, 0x80, 45, 0xBF, 93, 42]⟩

def codepointLibrary : List (String × Value) :=
  functions [("char", .utf8Char), ("codepoint", .utf8Codepoint), ("codes", .utf8Codes),
    ("len", .utf8Len), ("offset", .utf8Offset)] ++
  [("charpattern", .string codepointPattern)]

def clockLibrary : List (String × Value) :=
  functions [("clock", .osClock), ("time", .osTime), ("date", .osDate)]

def jsonLibrary : List (String × Value) := functions [("encode", .jsonEncode), ("decode", .jsonDecode)]

def consoleLibrary : List (String × Value) := functions [
  ("log", .write .log), ("info", .write .info), ("warn", .write .warn), ("error", .write .error)]

/-- The libraries; those of strings come first. -/
def libraries : List (String × List (String × Value)) := [
  ("string", stringLibrary), ("math", mathLibrary), ("table", tableLibrary), ("utf8", codepointLibrary),
  ("os", clockLibrary), ("json", jsonLibrary), ("console", consoleLibrary)]

def address : Nat := 0

def stringAddress : Nat := 1

def languageLibraries : List (String × Nat) :=
  (libraries.zipIdx.take 4).map fun l => (l.1.1, stringAddress + l.2)

def hostBindings : List (String × Value) :=
  globalFunctions ++ libraries.zipIdx.map fun l => (l.1.1, .table (stringAddress + l.2))

/-- Binds names, each one shadowing the same name bound before. -/
def bindAll (t : Table) (bindings : List (String × Value)) : Table :=
  bindings.foldl (fun t b => t.setString b.1 b.2) t

def overlay (h : Heap) (t : Table) : List (String × Json) → Table × Heap
  | [] => (t, h)
  | (name, j) :: rest =>
    let (v, h) := Script.ofJson h j
    overlay h (t.setString name v) rest

def build (vars : List (String × Json)) : Heap :=
  let h : Heap := { tables := #[{}] ++ (libraries.map fun l => bindAll {} l.2).toArray }
  let (env, h) := overlay h (bindAll {} hostBindings) vars
  { h with tables := h.tables.set! address { env with strict := true } }

end SlideDeck.Environment
