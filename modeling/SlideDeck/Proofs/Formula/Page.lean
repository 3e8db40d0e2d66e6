import Mathlib
import SlideDeck.Proofs.Formula.Template

/-!
Page numbers and page counts are put into a text one after the other, and it is as if they were put in
together, in one pass over the text: the digits of a page number begin no token and end none.
-/

namespace SlideDeck.Formula

inductive Piece where
  | copied (c : Char)
  | pageNumber
  | pageCount
  deriving DecidableEq, Repr

namespace Piece

def put (page total : List Char) : Piece → List Char
  | copied c => [c]
  | pageNumber => page
  | pageCount => total

def written : Piece → List Char := put ['%', 'p'] ['%', 'P']

end Piece

/-- One pass over a text: tokens are taken where they stand, and any other character is copied. -/
def pieces : List Char → List Piece
  | [] => []
  | '%' :: 'p' :: rest => .pageNumber :: pieces rest
  | '%' :: 'P' :: rest => .pageCount :: pieces rest
  | c :: rest => .copied c :: pieces rest

def Copied (c : Char) (cs : List Char) : Prop :=
  c = '%' → cs.head? ≠ some 'p' ∧ cs.head? ≠ some 'P'

section Passes

variable {c : Char} {cs value : List Char}

theorem pieces_copied (copied : Copied c cs) : pieces (c :: cs) = .copied c :: pieces cs := by
  rw [pieces]
  · rintro rest rfl rfl
    exact (copied rfl).1 rfl
  · rintro rest rfl rfl
    exact (copied rfl).2 rfl

theorem copied_of_ne (plain : c ≠ '%') (cs : List Char) : Copied c cs := fun same => absurd same plain

theorem pieces_literal {literal : List Char} (plain : '%' ∉ literal) (cs : List Char) :
    pieces (literal ++ cs) = literal.map .copied ++ pieces cs := by
  induction literal with
  | nil => rfl
  | cons c literal ih =>
      rw [List.mem_cons, not_or] at plain
      rw [List.cons_append, pieces_copied (copied_of_ne (Ne.symm plain.1) _), ih plain.2]
      rfl

theorem pieces_induction {motive : List Char → Prop} (nil : motive [])
    (pageNumber : ∀ cs, motive cs → motive ('%' :: 'p' :: cs))
    (pageCount : ∀ cs, motive cs → motive ('%' :: 'P' :: cs))
    (copied : ∀ c cs, Copied c cs → motive cs → motive (c :: cs)) (cs : List Char) : motive cs := by
  fun_induction pieces cs with
  | case1 => exact nil
  | case2 cs ih => exact pageNumber cs ih
  | case3 cs ih => exact pageCount cs ih
  | case4 c cs notNumber notCount ih =>
      refine copied c cs (fun same => ⟨?_, ?_⟩) ih
      · intro head
        obtain ⟨rest, rfl⟩ := List.head?_eq_some_iff.mp head
        exact notNumber rest same rfl
      · intro head
        obtain ⟨rest, rfl⟩ := List.head?_eq_some_iff.mp head
        exact notCount rest same rfl

/-- The pieces are the text. -/
theorem written_pieces (cs : List Char) : (pieces cs).flatMap Piece.written = cs := by
  induction cs using pieces_induction with
  | nil => rfl
  | pageNumber cs ih => rw [pieces, List.flatMap_cons, ih]; rfl
  | pageCount cs ih => rw [pieces, List.flatMap_cons, ih]; rfl
  | copied c cs copied ih => rw [pieces_copied copied, List.flatMap_cons, ih]; rfl

theorem replaceToken_copied {token : Char} (copied : c = '%' → cs.head? ≠ some token) :
    replaceToken token value (c :: cs) = c :: replaceToken token value cs := by
  cases cs with
  | nil => rfl
  | cons d rest =>
      rw [replaceToken, if_neg]
      rintro ⟨same, rfl⟩
      exact copied same rfl

theorem replaceToken_pageNumber (value cs : List Char) :
    replaceToken 'p' value cs = (pieces cs).flatMap (Piece.put value ['%', 'P']) := by
  induction cs using pieces_induction with
  | nil => rfl
  | pageNumber cs ih => rw [pieces, List.flatMap_cons, replaceToken_hit, ih]; rfl
  | pageCount cs ih =>
      rw [pieces, List.flatMap_cons, replaceToken_other (by decide) (by decide), ih]
      rfl
  | copied c cs copied ih =>
      rw [pieces_copied copied, List.flatMap_cons, replaceToken_copied fun same => (copied same).1, ih]
      rfl

theorem replaceToken_pageCount (value cs : List Char) :
    replaceToken 'P' value cs = (pieces cs).flatMap (Piece.put ['%', 'p'] value) := by
  induction cs using pieces_induction with
  | nil => rfl
  | pageNumber cs ih =>
      rw [pieces, List.flatMap_cons, replaceToken_other (by decide) (by decide), ih]
      rfl
  | pageCount cs ih => rw [pieces, List.flatMap_cons, replaceToken_hit, ih]; rfl
  | copied c cs copied ih =>
      rw [pieces_copied copied, List.flatMap_cons, replaceToken_copied fun same => (copied same).2, ih]
      rfl

end Passes

section Values

variable {value cs : List Char}

/-- Text that neither begins a page token nor ends one. -/
structure Neutral (value : List Char) : Prop where
  begins : ∃ c, value.head? = some c ∧ c ≠ 'p' ∧ c ≠ 'P'
  plain : '%' ∉ value

theorem neutral_of_digits (digits : Decimal.Digits value) : Neutral value := by
  obtain ⟨c, rest, rfl⟩ := List.exists_cons_of_ne_nil digits.1
  have other {d : Char} (sign : d.isDigit = false) : c ≠ d := digits.ne List.mem_cons_self d sign
  refine ⟨⟨c, rfl, other rfl, other rfl⟩, ?_⟩
  intro member
  exact digits.ne member '%' rfl rfl

def Piece.numbered (page : List Char) : Piece → List Piece
  | .pageNumber => page.map .copied
  | p => [p]

/-- A token behind the value was one before it was put in. -/
theorem Neutral.copied (neutral : Neutral value) {c : Char} (copied : Copied c cs) :
    Copied c (replaceToken 'p' value cs) := by
  intro same
  have here := copied same
  rw [replaceToken_pageNumber]
  induction cs using pieces_induction with
  | nil => exact here
  | pageNumber cs =>
      obtain ⟨d, head, number, count⟩ := neutral.begins
      obtain ⟨rest, rfl⟩ := List.head?_eq_some_iff.mp head
      rw [pieces, List.flatMap_cons]
      exact ⟨fun h => number (Option.some.inj h), fun h => count (Option.some.inj h)⟩
  | pageCount cs =>
      rw [pieces, List.flatMap_cons]
      change some '%' ≠ some 'p' ∧ some '%' ≠ some 'P'
      decide
  | copied d cs next =>
      rw [pieces_copied next, List.flatMap_cons]
      exact here

/-- The value adds no token and takes none away: the pieces stay what they were and keep their order,
with the characters of the value in place of the page numbers. -/
theorem Neutral.pieces (neutral : Neutral value) (cs : List Char) :
    pieces (replaceToken 'p' value cs) = (Formula.pieces cs).flatMap (Piece.numbered value) := by
  induction cs using pieces_induction with
  | nil => rfl
  | pageNumber cs ih =>
      rw [replaceToken_hit, pieces_literal neutral.plain, ih, Formula.pieces, List.flatMap_cons]
      rfl
  | pageCount cs ih =>
      rw [replaceToken_other (by decide) (by decide), Formula.pieces, ih, Formula.pieces, List.flatMap_cons]
      rfl
  | copied c cs copied ih =>
      rw [replaceToken_copied fun same => (copied same).1, pieces_copied (neutral.copied copied), ih,
        pieces_copied copied, List.flatMap_cons]
      rfl

theorem put_numbered (page total : List Char) (p : Piece) :
    (p.numbered page).flatMap (Piece.put ['%', 'p'] total) = p.put page total := by
  cases p with
  | pageNumber =>
      rw [Piece.numbered, List.flatMap_map]
      exact List.flatMap_singleton' page
  | _ => exact List.append_nil _

end Values

def decimal (n : Nat) : List Char := (toString n).toList

/-- Two passes, one for each token, put in what one pass for both does. -/
theorem put_pieces (page total : Nat) (cs : List Char) :
    replaceToken 'P' (decimal total) (replaceToken 'p' (decimal page) cs) =
      (pieces cs).flatMap (Piece.put (decimal page) (decimal total)) := by
  have neutral : Neutral (decimal page) := neutral_of_digits (Decimal.digits_toString page)
  calc replaceToken 'P' (decimal total) (replaceToken 'p' (decimal page) cs)
      = (pieces (replaceToken 'p' (decimal page) cs)).flatMap (Piece.put ['%', 'p'] (decimal total)) :=
        replaceToken_pageCount _ _
    _ = (pieces cs).flatMap fun p =>
          (p.numbered (decimal page)).flatMap (Piece.put ['%', 'p'] (decimal total)) := by
        rw [neutral.pieces, List.flatMap_assoc]
    _ = (pieces cs).flatMap (Piece.put (decimal page) (decimal total)) := by
        simp only [put_numbered]

/-- Two passes, one for each token, are one pass for both; between them the page counts stand where they
stood. -/
theorem substitutePages_eq_one_pass (page total : Nat) (text : String) :
    substitutePages page total text =
      String.ofList ((pieces text.toList).flatMap (Piece.put (decimal page) (decimal total))) ∧
    (pieces text.toList).flatMap Piece.written = text.toList ∧
    pieces (replaceToken 'p' (decimal page) text.toList) =
      (pieces text.toList).flatMap (Piece.numbered (decimal page)) := by
  have neutral : Neutral (decimal page) := neutral_of_digits (Decimal.digits_toString page)
  exact ⟨congrArg String.ofList (put_pieces page total text.toList), written_pieces text.toList,
    neutral.pieces text.toList⟩

example : substitutePages 2 15 "%%pP %p%P %%P" = "%2P 215 %15" := by decide

end SlideDeck.Formula
