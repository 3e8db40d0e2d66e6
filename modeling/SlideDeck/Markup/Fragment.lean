import SlideDeck.Markup.Element
import SlideDeck.Markup.Handler
import SlideDeck.Markup.Uri

/-!
What a script may return: text with some SVG element and no active content.
-/

namespace SlideDeck.Markup

inductive Violation where
  | notText (type : String)
  | empty
  | noMarkup
  | scriptElement
  | eventHandler (name : String)
  | scriptUri (scheme : String)
  deriving DecidableEq, Repr

def Violation.message : Violation → String
  | .notText type => "expected a string, got " ++ type
  | .empty => "output is empty"
  | .noMarkup => "output contains no recognized SVG element"
  | .scriptElement => "output contains a <script> element"
  | .eventHandler name => "output contains an inline event handler '" ++ name ++ "'"
  | .scriptUri scheme => "output contains a '" ++ scheme ++ "' URI"

/-- The first violation in the order of the checks. -/
def violation? (output : String) : Option Violation :=
  let cs := output.toList
  if cs.all Text.isBlank then some .empty
  else if !hasElement svgNames cs then some .noMarkup
  else if hasElement ["script"] cs then some .scriptElement
  else
    match handler? cs with
    | some name => some (.eventHandler name)
    | none => (scriptUri? cs).map .scriptUri

end SlideDeck.Markup
