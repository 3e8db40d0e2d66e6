import SlideDeck.Script.Library.Codepoint
import SlideDeck.Script.Library.Host

/-!
Calls of host functions: every one of them with its answer. Those that call back are given the way to do
so. A protected call takes the machine back to the function that made it, whatever went wrong inside;
what was written and stored stays.
-/

namespace SlideDeck.Script

def Machine.recover (before after : Machine) : Machine :=
  { after with
    current := before.current, hosts := before.hosts, below := before.below, opened := #[]
    depth := before.depth, nesting := before.nesting }

def memoryMessage : String := "not enough memory"

namespace Invocation

def pcall (c : Invocation) (call : Caller) : Answer := do
  match c.args.toList with
  | [] => Exec.raiseText "not enough arguments to pcall"
  | f :: _ =>
    let before ← get
    try
      return #[Value.bool true] ++ (← call f (c.args.extract 1 c.args.size))
    catch
      | .raised v =>
        modify before.recover
        return #[.bool false, v]
      | .outOfMemory =>
        modify before.recover
        return #[.bool false, .ofString memoryMessage]
      | .unfinished => throw .unfinished

def answer (c : Invocation) (call : Caller) : Answer :=
  match c.builtin with
  | .tostring => c.tostring
  | .tonumber => c.tonumber
  | .type => c.type
  | .pairs => c.pairs
  | .ipairs => c.ipairs
  | .next => c.next
  | .select => c.select
  | .error => c.error
  | .pcall => c.pcall call
  | .assert => c.assert
  | .ipairsStep => c.ipairsStep
  | .stringByte => c.stringByte
  | .stringChar => c.stringChar
  | .stringFind => c.lookFor true
  | .stringFormat => c.stringFormat
  | .stringGmatch => c.stringGmatch
  | .stringGmatchStep n => c.stringGmatchStep n
  | .stringGsub => c.stringGsub call
  | .stringLen => c.stringLen
  | .stringLower => c.stringLower
  | .stringMatch => c.lookFor false
  | .stringRep => c.stringRep
  | .stringReverse => c.stringReverse
  | .stringSub => c.stringSub
  | .stringUpper => c.stringUpper
  | .tableConcat => c.tableConcat
  | .tableInsert => c.tableInsert
  | .tableMove => c.tableMove
  | .tablePack => c.tablePack
  | .tableRemove => c.tableRemove
  | .tableSort => c.tableSort call
  | .tableUnpack => c.tableUnpack
  | .mathAbs => c.mathAbs
  | .mathAcos => c.mathApply Float.acos
  | .mathAsin => c.mathApply Float.asin
  | .mathAtan => c.mathAtan
  | .mathCeil => c.mathRound Float.ceil
  | .mathCos => c.mathApply Float.cos
  | .mathDeg => c.mathApply (· * (180.0 / pi))
  | .mathExp => c.mathApply Float.exp
  | .mathFloor => c.mathRound Float.floor
  | .mathFmod => c.mathFmod
  | .mathLog => c.mathLog
  | .mathMax => c.mathMax
  | .mathMin => c.mathMin
  | .mathModf => c.mathModf
  | .mathRad => c.mathApply (· * (pi / 180.0))
  | .mathRandom => c.mathRandom
  | .mathRandomseed => c.mathRandomseed
  | .mathSin => c.mathApply Float.sin
  | .mathSqrt => c.mathApply Float.sqrt
  | .mathTan => c.mathApply Float.tan
  | .mathTointeger => c.mathTointeger
  | .mathType => c.mathType
  | .mathUlt => c.mathUlt
  | .utf8Char => c.utf8Char
  | .utf8Codepoint => c.utf8Codepoint
  | .utf8Codes => c.utf8Codes
  | .utf8CodesStep lax => c.utf8CodesStep lax
  | .utf8Len => c.utf8Len
  | .utf8Offset => c.utf8Offset
  | .osClock => c.osClock
  | .osTime => c.osTime
  | .osDate => c.osDate
  | .jsonEncode => c.jsonEncode
  | .jsonDecode => c.jsonDecode
  | .write w => c.write w

end Invocation

end SlideDeck.Script
