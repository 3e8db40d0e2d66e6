import SlideDeck.Decimal.Layout

/-!
Why a formula has no value.
-/

namespace SlideDeck.Formula

inductive Token where
  | number (x : Float)
  | plus
  | minus
  | star
  | slash
  | opening
  | closing

def Token.text : Token → String
  | .number x => "number " ++ Decimal.display x
  | .plus => "'+'"
  | .minus => "'-'"
  | .star => "'*'"
  | .slash => "'/'"
  | .opening => "'('"
  | .closing => "')'"

/-- Offsets count bytes. -/
inductive GrammarError where
  | empty
  | unexpectedChar (ch : Char) (offset : Nat)
  | malformedNumber (offset : Nat)
  | unexpectedToken (found : Token) (offset : Nat)
  | unexpectedEnd
  | tooDeep

def GrammarError.message : GrammarError → String
  | .empty => "empty expression"
  | .unexpectedChar ch offset =>
    "unexpected character '" ++ ch.toString ++ "' at offset " ++ toString offset
  | .malformedNumber offset => "malformed number at offset " ++ toString offset
  | .unexpectedToken found offset => "unexpected " ++ found.text ++ " at offset " ++ toString offset
  | .unexpectedEnd => "unexpected end of expression"
  | .tooDeep => "expression nested too deeply"

inductive Error where
  | unknownReference (name : String)
  | circularReference (chain : List String)
  /-- The text after substitution is not in the grammar. -/
  | notArithmetic (text : String) (cause : GrammarError)
  | notFinite (text : String)

def Error.message : Error → String
  | .unknownReference name => "unknown reference '%\x7b" ++ name ++ "\x7d'"
  | .circularReference chain => "circular reference: " ++ String.intercalate " -> " chain
  | .notArithmetic text cause => "invalid expression '" ++ text ++ "': " ++ cause.message
  | .notFinite text => "expression '" ++ text ++ "' does not evaluate to a finite number"

/-- Shown in place of a value whose formula failed. -/
def sentinel : String := "#ERROR"

end SlideDeck.Formula
