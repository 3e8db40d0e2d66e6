import SlideDeck.Text.Blank
import SlideDeck.Text.Caseless

/-!
Inline event handlers: attributes of a tag whose name is `on` and letters, given a value with `=`.
A quoted value is passed over whole, so nothing in it ends the tag or counts as an attribute.
-/

namespace SlideDeck.Markup

def handlerName (cs : List Char) : Option (List Char) :=
  match Text.stripFolded ['o', 'n'] cs with
  | none => none
  | some rest =>
    let letters := rest.takeWhile Text.foldsToLetter
    if letters.isEmpty then none
    else if (((rest.dropWhile Text.foldsToLetter).dropWhile Text.isBlank).head? == some '=') then
      some (cs.take 2 ++ letters)
    else none

def isQuote (c : Char) : Bool := c = '"' || c = '\''

def afterQuote (quote : Char) (cs : List Char) : Option (List Char) :=
  match cs.dropWhile (· != quote) with
  | [] => none
  | _ :: rest => some rest

/-- The first handler in the rest of a tag. It follows a blank, a slash or a quoted value; the tag
ends at `>` or at a quote that is never closed. `fuel` is at least the length. -/
def handlerInTag : Nat → List Char → Option (List Char)
  | 0, _ => none
  | _, [] => none
  | fuel + 1, c :: rest =>
    if isQuote c then
      match afterQuote c rest with
      | none => none
      | some after => (handlerName after).or (handlerInTag fuel after)
    else if c = '>' then none
    else if Text.isBlank c || c = '/' then (handlerName rest).or (handlerInTag fuel rest)
    else handlerInTag fuel rest

/-- The first handler of a text, with its letters in lower case. A tag may start at any angle. -/
def handler? : List Char → Option String
  | [] => none
  | c :: rest =>
    if c = '<' then
      match handlerInTag rest.length rest with
      | some name => some (String.ofList (name.map Text.lower))
      | none => handler? rest
    else handler? rest

end SlideDeck.Markup
