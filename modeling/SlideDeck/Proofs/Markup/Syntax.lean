import Mathlib
import SlideDeck.Markup.Fragment

/-!
Well-formed markup: text without angles, and tags whose attributes have values in quotes.
-/

namespace SlideDeck.Markup

def isNameChar (c : Char) : Bool := c.isAlphanum || c = '-' || c = '_' || c = '.' || c = ':'

structure Name where
  chars : List Char
  nonempty : chars ≠ []
  named : ∀ c ∈ chars, isNameChar c = true

structure Blanks where
  chars : List Char
  blank : ∀ c ∈ chars, Text.isBlank c = true

inductive Quote where
  | double
  | single

def Quote.char : Quote → Char
  | .double => '"'
  | .single => '\''

structure Attribute where
  space : Blanks
  name : Name
  beforeSign : Blanks
  afterSign : Blanks
  quote : Quote
  value : List Char
  closed : quote.char ∉ value
  plain : '<' ∉ value

/-- The first attribute is set apart from the name, the others may follow a quote at once. -/
structure Tag where
  closing : Bool
  name : Name
  attributes : List Attribute
  apart : ∀ a ∈ attributes.head?, a.space.chars ≠ []
  space : Blanks
  empty : Bool

inductive Piece where
  | text (run : List Char) (plain : '<' ∉ run)
  | tag (t : Tag)

section Rendering

def Attribute.valued (a : Attribute) : List Char :=
  a.beforeSign.chars ++ '=' :: (a.afterSign.chars ++ a.quote.char :: (a.value ++ [a.quote.char]))

def Attribute.render (a : Attribute) : List Char := a.space.chars ++ (a.name.chars ++ a.valued)

def slash (present : Bool) : List Char := if present then ['/'] else []

def Tag.ending (t : Tag) : List Char := t.space.chars ++ (slash t.empty ++ ['>'])

def Tag.body (t : Tag) : List Char :=
  slash t.closing ++ (t.name.chars ++ (t.attributes.flatMap Attribute.render ++ t.ending))

def Piece.render : Piece → List Char
  | .text run _ => run
  | .tag t => '<' :: t.body

def render (pieces : List Piece) : List Char := pieces.flatMap Piece.render

def Piece.attributes : Piece → List Attribute
  | .text _ _ => []
  | .tag t => t.attributes

def attributes (pieces : List Piece) : List Attribute := pieces.flatMap Piece.attributes

def text (pieces : List Piece) : String := String.ofList (render pieces)

theorem mem_attributes {pieces : List Piece} {a : Attribute} :
    a ∈ attributes pieces ↔ ∃ t, .tag t ∈ pieces ∧ a ∈ t.attributes := by
  rw [attributes, List.mem_flatMap]
  constructor
  · rintro ⟨piece, member, inside⟩
    cases piece with
    | text run plain => cases inside
    | tag t => exact ⟨t, member, inside⟩
  · rintro ⟨t, member, inside⟩
    exact ⟨.tag t, member, inside⟩

end Rendering

section Characters

variable {c d : Char}

theorem ne_of_kind {kind : Char → Bool} (member : kind c = true) (other : kind d = false) : c ≠ d := by
  rintro rfl
  exact Bool.false_ne_true (other.symm.trans member)

theorem not_quote_of_kind {kind : Char → Bool} (member : kind c = true)
    (none : ∀ q : Quote, kind q.char = false) : isQuote c = false := by
  have double : c ≠ '"' := ne_of_kind member (none .double)
  have single : c ≠ '\'' := ne_of_kind member (none .single)
  simp [isQuote, double, single]

theorem isNameChar_bounds (named : isNameChar c = true) : 33 ≤ c.toNat ∧ c.toNat ≤ 122 := by
  simp only [isNameChar, Char.isAlphanum, Char.isAlpha, Char.isUpper, Char.isLower, Char.isDigit,
    Bool.or_eq_true, Bool.and_eq_true, decide_eq_true_eq, UInt32.le_iff_toNat_le, ge_iff_le,
    Char.toNat_val] at named
  rcases named with (((letter | rfl) | rfl) | rfl) | rfl
  · have upper : 'A'.toNat = 65 ∧ 'Z'.toNat = 90 := ⟨rfl, rfl⟩
    have lower : 'a'.toNat = 97 ∧ 'z'.toNat = 122 := ⟨rfl, rfl⟩
    have digit : '0'.toNat = 48 ∧ '9'.toNat = 57 := ⟨rfl, rfl⟩
    omega
  all_goals decide

theorem not_blank_of_isNameChar (named : isNameChar c = true) : Text.isBlank c = false := by
  have bounds := isNameChar_bounds named
  by_contra blank
  simp only [Text.isBlank, Bool.not_eq_false, Bool.or_eq_true, Bool.and_eq_true, decide_eq_true_eq,
    beq_iff_eq] at blank
  omega

end Characters

section Angles

theorem Attribute.no_angle (a : Attribute) : '<' ∉ a.render := by
  have spaces (b : Blanks) : '<' ∉ b.chars := fun member => ne_of_kind (b.blank _ member) rfl rfl
  have name : '<' ∉ a.name.chars := fun member => ne_of_kind (a.name.named _ member) rfl rfl
  have quote : '<' ≠ a.quote.char := by cases a.quote <;> decide
  simp [render, valued, spaces, name, quote, a.plain]

theorem Tag.no_angle (t : Tag) : '<' ∉ t.body := by
  have name : '<' ∉ t.name.chars := fun member => ne_of_kind (t.name.named _ member) rfl rfl
  have space : '<' ∉ t.space.chars := fun member => ne_of_kind (t.space.blank _ member) rfl rfl
  have mark (present : Bool) : '<' ∉ slash present := by cases present <;> decide
  simp [body, ending, name, space, mark, Attribute.no_angle]

end Angles

end SlideDeck.Markup
