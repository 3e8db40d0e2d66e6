import SlideDeck.Decimal.Count

/-!
What the program is asked to do, as its arguments say it: options that count for every request, the
request, then its options and operands in any order.
-/

namespace SlideDeck.Command

inductive Request where
  /-- The effective values of a page, or of every page. -/
  | values (page : Option Nat)
  | formula (text : String) (page : Nat)
  /-- Everything that is wrong with the project. -/
  | check
  | run (inst : String) (page : Nat) (timeoutMs : Option Nat) (asJson : Bool)
  deriving DecidableEq, Repr

/-- Pages are counted from one, as given. -/
structure Invocation where
  verbose : Bool := false
  logJson : Bool := false
  /-- The path of the project. -/
  path : String
  request : Request
  deriving DecidableEq, Repr

inductive Stop where
  | help
  | version
  | refused
  deriving DecidableEq, Repr

inductive Switch where
  | verbose
  | logJson
  | asJson
  | page
  | timeoutMs
  | help
  | version
  deriving DecidableEq, Repr

def Switch.takesNumber : Switch → Bool
  | page | timeoutMs => true
  | _ => false

structure Spelling where
  switch : Switch
  long : String
  short : Option Char := none

structure Usage where
  spellings : List Spelling
  operands : Nat

def general : List Spelling :=
  [⟨.verbose, "verbose", some 'v'⟩, ⟨.logJson, "log-json", none⟩, ⟨.help, "help", some 'h'⟩]

def pageSpelling : Spelling := ⟨.page, "page", some 'p'⟩

def leading : List Spelling := ⟨.version, "version", some 'V'⟩ :: general

def requests : List (String × Usage) :=
  [("values", ⟨pageSpelling :: general, 1⟩), ("formula", ⟨pageSpelling :: general, 2⟩),
    ("check", ⟨general, 1⟩),
    ("run", ⟨pageSpelling :: ⟨.timeoutMs, "timeout-ms", none⟩ :: ⟨.asJson, "json", none⟩ :: general, 2⟩)]

structure Given where
  switches : List (Switch × Nat) := []
  operands : List String := []

namespace Given

def has (g : Given) (s : Switch) : Bool := (g.switches.lookup s).isSome

def number? (g : Given) (s : Switch) : Option Nat := g.switches.lookup s

/-- No switch can be given twice; help and version end the reading. -/
def add (g : Given) (s : Switch) (n : Nat) : Except Stop Given :=
  match s with
  | .help => .error .help
  | .version => .error .version
  | s => if g.has s then .error .refused else .ok { g with switches := g.switches ++ [(s, n)] }

def addNumber (g : Given) (s : Switch) (text : List Char) : Except Stop Given :=
  match readCount text with
  | .ok n => g.add s n
  | .error _ => .error .refused

/-- The first operand is a path and cannot be empty. -/
def addOperand (g : Given) (limit : Nat) (text : String) : Except Stop Given :=
  if limit ≤ g.operands.length || (g.operands.isEmpty && text.isEmpty) then .error .refused
  else .ok { g with operands := g.operands ++ [text] }

end Given

def isOption (arg : List Char) : Bool :=
  match arg with
  | '-' :: _ :: _ => true
  | _ => false

/-- The number of a switch: what is attached to it, else the next argument. -/
def withNumber (g : Given) (s : Switch) (attached : Option (List Char)) (rest : List String) :
    Except Stop (Given × List String) :=
  match attached, rest with
  | some text, rest => (g.addNumber s text).map (·, rest)
  | none, arg :: rest =>
    if isOption arg.toList then .error .refused else (g.addNumber s arg.toList).map (·, rest)
  | none, [] => .error .refused

def addLong (spellings : List Spelling) (g : Given) (arg : List Char) (rest : List String) :
    Except Stop (Given × List String) :=
  let name := arg.takeWhile (· ≠ '=')
  let attached := (arg.drop name.length).tail?
  match spellings.find? (·.long.toList == name) with
  | none => .error .refused
  | some p =>
    if p.switch.takesNumber then withNumber g p.switch attached rest
    else if attached.isSome then .error .refused
    else (g.add p.switch 0).map (·, rest)

/-- Switches by their letters; the first that takes a number takes what follows it, a `=` between them
left out. -/
def addShort (spellings : List Spelling) (g : Given) (letters : List Char) (rest : List String) :
    Except Stop (Given × List String) :=
  match letters with
  | [] => .ok (g, rest)
  | c :: more =>
    match spellings.find? (·.short == some c) with
    | none => .error .refused
    | some p =>
      if p.switch.takesNumber then
        withNumber g p.switch (match more with
          | [] => none
          | '=' :: text => some text
          | text => some text) rest
      else
        match g.add p.switch 0 with
        | .error e => .error e
        | .ok g => addShort spellings g more rest

def addOption (spellings : List Spelling) (g : Given) (arg : String) (rest : List String) :
    Except Stop (Given × List String) :=
  match arg.toList with
  | '-' :: '-' :: name => addLong spellings g name rest
  | letters => addShort spellings g letters.tail rest

/-- The arguments of a request. Behind `--` there are operands only; `fuel` is at least the number of
arguments. -/
def readGiven (usage : Usage) : Nat → Given → List String → Except Stop Given
  | _, g, [] => .ok g
  | 0, _, _ :: _ => .error .refused
  | fuel + 1, g, arg :: rest =>
    if arg = "--" then rest.foldlM (fun g a => g.addOperand usage.operands a) g
    else if isOption arg.toList then
      match addOption usage.spellings g arg rest with
      | .error e => .error e
      | .ok (g, rest) => readGiven usage fuel g rest
    else
      match g.addOperand usage.operands arg with
      | .error e => .error e
      | .ok g => readGiven usage fuel g rest

def readHelp : List String → Stop
  | [] => .help
  | [name] => if name = "help" || (requests.lookup name).isSome then .help else .refused
  | _ => .refused

def request? (name : String) (g : Given) : Option Request :=
  let page := (g.number? .page).getD 1
  match name, g.operands with
  | "values", [_] => some (.values (g.number? .page))
  | "formula", [_, text] => some (.formula text page)
  | "check", [_] => some .check
  | "run", [_, inst] => some (.run inst page (g.number? .timeoutMs) (g.has .asJson))
  | _, _ => none

def readRequest (before : Given) (name : String) (args : List String) : Except Stop Invocation :=
  match requests.lookup name with
  | none => .error .refused
  | some usage =>
    match readGiven usage args.length {} args with
    | .error e => .error e
    | .ok g =>
      match request? name g with
      | none => .error .refused
      | some request => .ok {
          verbose := before.has .verbose || g.has .verbose
          logJson := before.has .logJson || g.has .logJson
          path := g.operands.headD ""
          request }

def readFrom (g : Given) : List String → Except Stop Invocation
  | [] => .error .refused
  | arg :: rest =>
    if isOption arg.toList then
      match addOption leading g arg [] with
      | .error e => .error e
      | .ok (g, _) => readFrom g rest
    else if arg = "help" then .error (readHelp rest)
    else readRequest g arg rest

def Invocation.ofArguments (args : List String) : Except Stop Invocation := readFrom {} args

end SlideDeck.Command
