import SlideDeck.Text.Blank
import SlideDeck.Text.Caseless
import SlideDeck.Text.Word

/-!
Addresses that run code: the schemes `javascript` and `vbscript`, and HTML inside `data`.
-/

namespace SlideDeck.Markup

/-- What follows blanks and `c`. -/
def afterBlanks (c : Char) (cs : List Char) : Option (List Char) :=
  match cs.dropWhile Text.isBlank with
  | [] => none
  | d :: rest => if d = c then some rest else none

def schemeAt (scheme : String) (cs : List Char) : Option (List Char) :=
  match Text.stripFolded scheme.toList cs with
  | none => none
  | some rest => (afterBlanks ':' rest).map fun _ => cs.take scheme.length

def htmlDataAt (cs : List Char) : Option (List Char) :=
  match Text.stripFolded "data".toList cs with
  | none => none
  | some rest =>
    match afterBlanks ':' rest with
    | none => none
    | some body =>
      (Text.stripFolded "text/html".toList (body.dropWhile Text.isBlank)).map fun _ => cs.take 4

def uriAt (cs : List Char) : Option (List Char) :=
  (schemeAt "javascript" cs).or ((schemeAt "vbscript" cs).or (htmlDataAt cs))

/-- The first such scheme with no word character before it, in lower case. -/
def scriptUriAfter (before : Option Char) : List Char → Option String
  | [] => none
  | c :: rest =>
    match (if before.any Text.isWord then none else uriAt (c :: rest)) with
    | some scheme => some (String.ofList (scheme.map Text.lower))
    | none => scriptUriAfter (some c) rest

def scriptUri? (cs : List Char) : Option String := scriptUriAfter none cs

end SlideDeck.Markup
