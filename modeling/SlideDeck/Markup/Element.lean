import SlideDeck.Text.Blank
import SlideDeck.Text.Caseless
import SlideDeck.Text.Word

/-!
Start tags of given elements, as a checker sees them: an opening angle, blanks, and a name up to case
that no word character follows.
-/

namespace SlideDeck.Markup

def svgNames : List String :=
  ["svg", "g", "defs", "symbol", "use", "rect", "circle", "ellipse", "line", "polyline", "polygon",
    "path", "text", "tspan", "textpath", "image", "clippath", "mask", "pattern", "lineargradient",
    "radialgradient", "stop", "filter", "marker", "foreignobject"]

def namedAt (name : List Char) (cs : List Char) : Bool :=
  match Text.stripFolded name cs with
  | some rest => !rest.head?.any Text.isWord
  | none => false

def opensElement (names : List String) (afterAngle : List Char) : Bool :=
  let cs := afterAngle.dropWhile Text.isBlank
  names.any fun n => namedAt n.toList cs

def hasElement (names : List String) : List Char → Bool
  | [] => false
  | c :: rest => (c == '<' && opensElement names rest) || hasElement names rest

end SlideDeck.Markup
