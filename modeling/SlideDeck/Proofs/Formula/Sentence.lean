import Mathlib
import SlideDeck.Formula.Grammar
import SlideDeck.Proofs.Decimal.Plain

/-!
The sentences of the arithmetic and their values: which texts spell which tokens, and which tokens
derive from the grammar.
-/

namespace SlideDeck.Formula

open Decimal (Digits)

/-- `Numeral w i f`: the number `w` has the digits `i` before its point and `f` behind it. -/
inductive Numeral : List Char → List Char → List Char → Prop
  | whole {i : List Char} (digits : Digits i) : Numeral i i []
  | decimal {i f : List Char} (digits : Digits i) (fraction : Digits f) : Numeral (i ++ '.' :: f) i f
  | fraction {f : List Char} (fraction : Digits f) : Numeral ('.' :: f) [] f

inductive Mark : Char → Token → Prop
  | plus : Mark '+' .plus
  | minus : Mark '-' .minus
  | star : Mark '*' .star
  | slash : Mark '/' .slash
  | opening : Mark '(' .opening
  | closing : Mark ')' .closing

/-- `Spells cs ts`: the text `cs` is the tokens `ts` one after another, with blanks around them but
not inside. -/
inductive Spells : List Char → List Token → Prop
  | done : Spells [] []
  | blank {c : Char} {cs : List Char} {ts : List Token}
      (between : c ∈ [' ', '\t', '\n', '\r', '\x0c']) (rest : Spells cs ts) : Spells (c :: cs) ts
  | mark {c : Char} {t : Token} {cs : List Char} {ts : List Token}
      (mark : Mark c t) (rest : Spells cs ts) : Spells (c :: cs) (t :: ts)
  | number {w i f cs : List Char} {x : Float} {ts : List Token}
      (numeral : Numeral w i f) (value : Decimal.read w = some x) (rest : Spells cs ts) :
      Spells (w ++ cs) (.number x :: ts)

inductive Category where
  | primary
  | factor
  | term
  | expr

/-- `Phrase k n ts v`: the tokens `ts` derive from `k` with the value `v`, and parentheses nest at
most `n` deep in them. -/
inductive Phrase : Category → Nat → List Token → Float → Prop
  | number {n : Nat} {x : Float} : Phrase .primary n [.number x] x
  | group {n : Nat} {ts : List Token} {v : Float} (inner : Phrase .expr n ts v) :
      Phrase .primary (n + 1) (.opening :: ts ++ [.closing]) v
  | unsigned {n : Nat} {ts : List Token} {v : Float} (body : Phrase .primary n ts v) :
      Phrase .factor n ts v
  | plus {n : Nat} {ts : List Token} {v : Float} (body : Phrase .factor n ts v) :
      Phrase .factor n (.plus :: ts) v
  | minus {n : Nat} {ts : List Token} {v : Float} (body : Phrase .factor n ts v) :
      Phrase .factor n (.minus :: ts) (-v)
  | factor {n : Nat} {ts : List Token} {v : Float} (body : Phrase .factor n ts v) :
      Phrase .term n ts v
  | product {n : Nat} {ts us : List Token} {x y : Float} (left : Phrase .term n ts x)
      (right : Phrase .factor n us y) : Phrase .term n (ts ++ .star :: us) (x * y)
  | quotient {n : Nat} {ts us : List Token} {x y : Float} (left : Phrase .term n ts x)
      (right : Phrase .factor n us y) : Phrase .term n (ts ++ .slash :: us) (x / y)
  | term {n : Nat} {ts : List Token} {v : Float} (body : Phrase .term n ts v) : Phrase .expr n ts v
  | sum {n : Nat} {ts us : List Token} {x y : Float} (left : Phrase .expr n ts x)
      (right : Phrase .term n us y) : Phrase .expr n (ts ++ .plus :: us) (x + y)
  | difference {n : Nat} {ts us : List Token} {x y : Float} (left : Phrase .expr n ts x)
      (right : Phrase .term n us y) : Phrase .expr n (ts ++ .minus :: us) (x - y)

theorem symbol_eq_some_iff {c : Char} {t : Token} : symbol? c = some t ↔ Mark c t := by
  constructor
  · intro known
    unfold symbol? at known
    split at known <;> cases known
    · exact .plus
    · exact .minus
    · exact .star
    · exact .slash
    · exact .opening
    · exact .closing
  · rintro (_ | _ | _ | _ | _ | _) <;> rfl

theorem isAsciiBlank_iff {c : Char} :
    isAsciiBlank c = true ↔ c ∈ [' ', '\t', '\n', '\r', '\x0c'] := by
  simp [isAsciiBlank, or_assoc]

def Token.isNumber : Token → Bool
  | .number _ => true
  | _ => false

def Spaced (ts : List Token) : Prop := ts.IsChain fun a b => ¬ (a.isNumber ∧ b.isNumber)

section Spaced

theorem Spaced.cons {t : Token} {ts : List Token} (other : t.isNumber = false) (spaced : Spaced ts) :
    Spaced (t :: ts) :=
  List.IsChain.cons spaced (by simp [other])

theorem Spaced.joined {t : Token} {ts us : List Token} (other : t.isNumber = false)
    (left : Spaced ts) (right : Spaced us) : Spaced (ts ++ t :: us) := by
  apply List.IsChain.append left (right.cons other)
  simp [other]

theorem Phrase.spaced {k : Category} {n : Nat} {ts : List Token} {v : Float}
    (phrase : Phrase k n ts v) : Spaced ts := by
  induction phrase with
  | number => exact .singleton _
  | group inner ih => exact (ih.joined rfl .nil).cons rfl
  | unsigned body ih => exact ih
  | plus body ih => exact ih.cons rfl
  | minus body ih => exact ih.cons rfl
  | factor body ih => exact ih
  | product left right ihl ihr => exact ihl.joined rfl ihr
  | quotient left right ihl ihr => exact ihl.joined rfl ihr
  | term body ih => exact ih
  | sum left right ihl ihr => exact ihl.joined rfl ihr
  | difference left right ihl ihr => exact ihl.joined rfl ihr

end Spaced

end SlideDeck.Formula
