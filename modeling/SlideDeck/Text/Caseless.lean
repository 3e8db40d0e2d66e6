/-!
Letters compared without regard to case. Besides its capital, a long s folds to `s` and the Kelvin
sign to `k`; no other character beyond ASCII folds to an ASCII letter.
-/

namespace SlideDeck.Text

def longS : Char := Char.ofNat 0x17F

def kelvin : Char := Char.ofNat 0x212A

def foldsTo (p c : Char) : Bool :=
  c.toLower = p || (p = 's' && c = longS) || (p = 'k' && c = kelvin)

def foldsToLetter (c : Char) : Bool := c.isAlpha || c = longS || c = kelvin

def stripFolded : List Char → List Char → Option (List Char)
  | [], cs => some cs
  | _ :: _, [] => none
  | p :: ps, c :: cs => if foldsTo p c then stripFolded ps cs else none

/-- The long s is lower case already. -/
def lower (c : Char) : Char := if c = kelvin then 'k' else c.toLower

end SlideDeck.Text
