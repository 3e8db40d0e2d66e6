import Mathlib
import SlideDeck.Proofs.Formula.Parsing
import SlideDeck.Proofs.Formula.Template

/-!
Numbers put in as text against numbers put in as leaves. A negative number comes in as a minus sign and
a number; where it does not stand behind an operand, the sign can only be one of its own, so the
derivations are the same.
-/

namespace SlideDeck.Formula

variable {x : String → Float} {page total n : Nat} {k : Category} {ts us : List Token}
  {ss : List Symbol} {v : Float}

section Evaluation

theorem expression_eq_ok_iff {items : List Item} :
    expression (primary n) items = .ok (v, []) ↔ Phrase .expr n (items.map Prod.fst) v := by
  constructor
  · intro read
    obtain ⟨used, shape, phrase⟩ := expression_sound (primary_sound n) _ _ _ read
    rw [List.append_nil] at shape
    rwa [shape]
  · intro phrase
    have read := phrase.accepts items [] rfl (by simp)
    rwa [List.append_nil] at read

theorem Phrase.last (phrase : Phrase k n ts v) :
    ∃ t ∈ ts.getLast?, t.isNumber = true ∨ t = .closing := by
  induction phrase with
  | number => exact ⟨_, rfl, Or.inl rfl⟩
  | group inner ih => exact ⟨.closing, List.getLast?_concat, Or.inr rfl⟩
  | unsigned body ih => exact ih
  | factor body ih => exact ih
  | term body ih => exact ih
  | plus body ih | minus body ih =>
      obtain ⟨t, last, kind⟩ := ih
      exact ⟨t, by simp_all [List.getLast?_cons], kind⟩
  | product left right ihl ihr | quotient left right ihl ihr | sum left right ihl ihr
  | difference left right ihl ihr =>
      obtain ⟨t, last, kind⟩ := ihr
      exact ⟨t, by simp_all [List.getLast?_append, List.getLast?_cons], kind⟩

theorem Cuts.evaluate_iff {cs : List Char} (cuts : Cuts cs ts) :
    evaluate cs = .ok v ↔ Phrase .expr maxDepth ts v := by
  obtain ⟨items, cut, rfl⟩ := cuts cs.length [] 0 (Nat.le_refl _)
  rw [List.reverse_nil, List.nil_append] at cut
  rw [← expression_eq_ok_iff, evaluate, tokens, cut]
  constructor
  · intro done
    split at done
    · cases done
    · cases done
    · rename_i more _ same
      cases same
      split at done
      · cases done
      · rename_i read
        cases done
        exact read
      · cases done
  · intro read
    cases items with
    | nil => cases read
    | cons first rest => simp only [read]

end Evaluation

section Negative

theorem beq_zero_of_neg {y : Float} (negative : y < 0) : (y == 0) = false := by
  have below : (y.toModel.unpack.compare (0 : Float).toModel.unpack == some .lt) = true :=
    of_decide_eq_true negative
  have order := eq_of_beq below
  change (y.toModel.unpack.compare (0 : Float).toModel.unpack == some .eq) = false
  rw [order]
  rfl

theorem settled_of_neg {y : Float} (negative : y < 0) : settled y = y := by
  rw [settled, beq_zero_of_neg negative]
  rfl

theorem spelled_eq (x : String → Float) (page total : Nat) (s : Symbol) :
    s.spelled x page total = [s.leaf x page total] ∨
      ∃ name, s = .reference name ∧ x name < 0 ∧
        s.spelled x page total = [.minus, .number (-x name)] := by
  cases s with
  | token t | pageNumber | pageCount => exact Or.inl rfl
  | reference name =>
      by_cases negative : x name < 0
      · exact Or.inr ⟨name, rfl, negative, if_pos negative⟩
      · exact Or.inl (if_neg negative)

/-- The minus sign that a negative number brings with it makes it a signed operand. -/
theorem factor_spelled {s : Symbol} (number : s.leaf x page total = .number v) :
    Phrase .factor n (s.spelled x page total) v := by
  rcases spelled_eq x page total s with single | ⟨name, rfl, negative, signed⟩
  · rw [single, number]
    exact .unsigned .number
  · cases number
    have negated : Phrase .factor n [.minus, .number (-x name)] (- -x name) :=
      .minus (.unsigned .number)
    rw [Decimal.float_neg_neg] at negated
    rwa [signed, settled_of_neg negative]

end Negative

section Forward

theorem Symbol.eq_token {s : Symbol} {t : Token} (leaf : s.leaf x page total = t)
    (other : t.isNumber = false) : s = .token t := by
  subst leaf
  cases s with
  | token t => rfl
  | reference name => cases other
  | pageNumber => cases other
  | pageCount => cases other

theorem first_leaf {t : Token} (other : t.isNumber = false)
    (same : ss.map (Symbol.leaf x page total) = t :: us) :
    ∃ right, ss = .token t :: right ∧ right.map (Symbol.leaf x page total) = us := by
  obtain ⟨s, right, rfl, leaf, last⟩ := List.map_eq_cons_iff.mp same
  obtain rfl := Symbol.eq_token leaf other
  exact ⟨right, rfl, last⟩

theorem split_leaves {t : Token} (other : t.isNumber = false)
    (same : ss.map (Symbol.leaf x page total) = ts ++ t :: us) :
    ∃ left right, ss = left ++ .token t :: right ∧ left.map (Symbol.leaf x page total) = ts ∧
      right.map (Symbol.leaf x page total) = us := by
  obtain ⟨left, behind, rfl, first, second⟩ := List.map_eq_append_iff.mp same
  obtain ⟨right, rfl, last⟩ := first_leaf other second
  exact ⟨left, right, rfl, first, last⟩

def Category.signed : Category → Category
  | .primary => .factor
  | k => k

theorem Phrase.spell (phrase : Phrase k n ts v) (same : ss.map (Symbol.leaf x page total) = ts) :
    Phrase k.signed n (ss.flatMap (Symbol.spelled x page total)) v := by
  have joined {t : Token} {left right : List Symbol} :
      (left ++ .token t :: right).flatMap (Symbol.spelled x page total) =
        left.flatMap (Symbol.spelled x page total) ++
          t :: right.flatMap (Symbol.spelled x page total) := by
    rw [List.flatMap_append, List.flatMap_cons]
    rfl
  induction phrase generalizing ss with
  | number =>
      obtain ⟨s, rfl, leaf⟩ := List.map_eq_singleton_iff.mp same
      rw [List.flatMap_singleton]
      exact factor_spelled leaf
  | group inner ih =>
      obtain ⟨behind, rfl, inside⟩ := first_leaf rfl same
      obtain ⟨left, last, rfl, body, empty⟩ := split_leaves rfl inside
      obtain rfl := List.map_eq_nil_iff.mp empty
      rw [List.flatMap_cons, joined]
      exact .unsigned (.group (ih body))
  | unsigned body ih => exact ih same
  | plus body ih =>
      obtain ⟨behind, rfl, inside⟩ := first_leaf rfl same
      rw [List.flatMap_cons]
      exact .plus (ih inside)
  | minus body ih =>
      obtain ⟨behind, rfl, inside⟩ := first_leaf rfl same
      rw [List.flatMap_cons]
      exact .minus (ih inside)
  | factor body ih => exact .factor (ih same)
  | term body ih => exact .term (ih same)
  | product left right ihl ihr =>
      obtain ⟨before, behind, rfl, first, second⟩ := split_leaves rfl same
      rw [joined]
      exact .product (ihl first) (ihr second)
  | quotient left right ihl ihr =>
      obtain ⟨before, behind, rfl, first, second⟩ := split_leaves rfl same
      rw [joined]
      exact .quotient (ihl first) (ihr second)
  | sum left right ihl ihr =>
      obtain ⟨before, behind, rfl, first, second⟩ := split_leaves rfl same
      rw [joined]
      exact .sum (ihl first) (ihr second)
  | difference left right ihl ihr =>
      obtain ⟨before, behind, rfl, first, second⟩ := split_leaves rfl same
      rw [joined]
      exact .difference (ihl first) (ihr second)

end Forward

section Backward

def Symbol.endsOperand : Symbol → Bool
  | .token (.number _) | .token .closing => true
  | .token _ => false
  | _ => true

/-- No reference to a negative number stands right behind an operand. -/
def Clear (x : String → Float) (ss : List Symbol) : Prop :=
  ss.IsChain fun a b => ∀ name, b = .reference name → x name < 0 → a.endsOperand = false

theorem Clear.left {left right : List Symbol} (clear : Clear x (left ++ right)) : Clear x left :=
  (List.isChain_append.mp clear).1

theorem Clear.tail {right : List Symbol} {s : Symbol} (clear : Clear x (s :: right)) :
    Clear x right :=
  List.IsChain.tail clear

theorem Clear.behind {left right : List Symbol} {s : Symbol} (clear : Clear x (left ++ s :: right)) :
    Clear x right :=
  (List.isChain_append.mp clear).2.1.tail

/-- What brings a mark into the text that is put in: the mark itself, or a negative number. -/
def Symbol.Brings (x : String → Float) (page total : Nat) (t : Token) (us : List Token) (s : Symbol)
    (right : List Symbol) : Prop :=
  s = .token t ∧ right.flatMap (Symbol.spelled x page total) = us ∨
    t = .minus ∧ ∃ name, s = .reference name ∧ x name < 0 ∧
      .number (-x name) :: right.flatMap (Symbol.spelled x page total) = us

theorem first_spelled {t : Token} (other : t.isNumber = false)
    (same : ss.flatMap (Symbol.spelled x page total) = t :: us) :
    ∃ s right, ss = s :: right ∧ s.Brings x page total t us right := by
  cases ss with
  | nil => cases same
  | cons s rest =>
      refine ⟨s, rest, rfl, ?_⟩
      rw [List.flatMap_cons] at same
      rcases spelled_eq x page total s with single | ⟨name, rfl, negative, signed⟩
      · rw [single] at same
        obtain ⟨leaf, behind⟩ := List.cons.inj same
        exact Or.inl ⟨Symbol.eq_token leaf other, behind⟩
      · rw [signed] at same
        obtain ⟨rfl, behind⟩ := List.cons.inj same
        exact Or.inr ⟨rfl, name, rfl, negative, behind⟩

/-- A mark in the text that is put in was a mark before, or is the sign of a negative number. -/
theorem split_spelled {t : Token} (other : t.isNumber = false)
    (same : ss.flatMap (Symbol.spelled x page total) = ts ++ t :: us) :
    ∃ left s right, ss = left ++ s :: right ∧
      left.flatMap (Symbol.spelled x page total) = ts ∧ s.Brings x page total t us right := by
  induction ss generalizing ts with
  | nil => simp at same
  | cons s rest ih =>
      have later {behind : List Token}
          (shape : s.spelled x page total ++ behind = ts)
          (same : rest.flatMap (Symbol.spelled x page total) = behind ++ t :: us) :
          ∃ left s' right, s :: rest = left ++ s' :: right ∧
            left.flatMap (Symbol.spelled x page total) = ts ∧
            s'.Brings x page total t us right := by
        obtain ⟨left, s', right, rfl, first, brought⟩ := ih same
        exact ⟨s :: left, s', right, rfl, by rw [List.flatMap_cons, first, shape], brought⟩
      cases ts with
      | nil =>
          obtain ⟨s', right, split, brought⟩ := first_spelled other same
          exact ⟨[], s', right, split, rfl, brought⟩
      | cons u ts =>
          rw [List.flatMap_cons] at same
          rcases spelled_eq x page total s with single | ⟨name, rfl, negative, signed⟩
          · rw [single] at same later
            obtain ⟨rfl, behind⟩ := List.cons.inj same
            exact later rfl behind
          · rw [signed] at same later
            obtain ⟨rfl, behind⟩ := List.cons.inj same
            cases ts with
            | nil =>
                -- the number behind the sign is not the mark
                obtain ⟨rfl, -⟩ := List.cons.inj behind
                cases other
            | cons number ts =>
                obtain ⟨rfl, rest_eq⟩ := List.cons.inj behind
                exact later rfl rest_eq

theorem first_mark {t : Token} (other : t.isNumber = false) (unsigned : t ≠ .minus)
    (same : ss.flatMap (Symbol.spelled x page total) = t :: us) :
    ∃ right, ss = .token t :: right ∧ right.flatMap (Symbol.spelled x page total) = us := by
  obtain ⟨s, right, rfl, ⟨rfl, last⟩ | ⟨sign, -⟩⟩ := first_spelled other same
  · exact ⟨right, rfl, last⟩
  · exact absurd sign unsigned

theorem split_mark {t : Token} (other : t.isNumber = false) (unsigned : t ≠ .minus)
    (same : ss.flatMap (Symbol.spelled x page total) = ts ++ t :: us) :
    ∃ left right, ss = left ++ .token t :: right ∧
      left.flatMap (Symbol.spelled x page total) = ts ∧
      right.flatMap (Symbol.spelled x page total) = us := by
  obtain ⟨left, s, right, rfl, first, ⟨rfl, last⟩ | ⟨sign, -⟩⟩ := split_spelled other same
  · exact ⟨left, right, rfl, first, last⟩
  · exact absurd sign unsigned

theorem spelled_eq_nil (empty : ss.flatMap (Symbol.spelled x page total) = []) : ss = [] := by
  cases ss with
  | nil => rfl
  | cons s rest =>
      rw [List.flatMap_cons] at empty
      have nothing := (List.append_eq_nil_iff.mp empty).1
      rcases spelled_eq x page total s with single | ⟨_, _, _, signed⟩
      · cases single.symm.trans nothing
      · cases signed.symm.trans nothing

/-- Behind a phrase an operand has ended. -/
theorem endsOperand_of_phrase {left : List Symbol}
    (phrase : Phrase k n (left.flatMap (Symbol.spelled x page total)) v) :
    ∃ s ∈ left.getLast?, s.endsOperand = true := by
  obtain ⟨t, last, kind⟩ := phrase.last
  rcases List.eq_nil_or_concat left with rfl | ⟨before, s, rfl⟩
  · cases last
  · refine ⟨s, by simp, ?_⟩
    cases s with
    | reference name | pageNumber | pageCount => rfl
    | token u =>
        rw [List.concat_eq_append, List.flatMap_append, List.flatMap_singleton] at last
        obtain rfl : u = t := by simpa [Symbol.spelled, Symbol.leaf] using last
        rcases kind with number | rfl
        · cases u <;> first | rfl | cases number
        · rfl

theorem Clear.no_negative_behind {left right : List Symbol} {name : String}
    (clear : Clear x (left ++ .reference name :: right)) (negative : x name < 0)
    (ended : ∃ s ∈ left.getLast?, s.endsOperand = true) : False := by
  obtain ⟨s, last, operand⟩ := ended
  have beside := (List.isChain_append.mp clear).2.2 s last (.reference name) rfl
  rw [beside name rfl negative] at operand
  cases operand

theorem Phrase.factor_number {y : Float} (phrase : Phrase k n ts v) (factor : k = .primary ∨ k = .factor)
    (number : ts = .number y :: us) : us = [] ∧ v = y := by
  induction phrase with
  | number =>
      cases number
      exact ⟨rfl, rfl⟩
  | unsigned body ih => exact ih (Or.inl rfl) number
  | group | plus | minus => cases number
  | factor | term | product | quotient | sum | difference => rcases factor with factor | factor <;> cases factor

/-- What derives from the text that is put in derives from the leaves, with the same value. -/
theorem Phrase.unspell (phrase : Phrase k n ts v)
    (same : ss.flatMap (Symbol.spelled x page total) = ts) (clear : Clear x ss) :
    Phrase k n (ss.map (Symbol.leaf x page total)) v := by
  have joined {t : Token} {left right : List Symbol} :
      (left ++ .token t :: right).map (Symbol.leaf x page total) =
        left.map (Symbol.leaf x page total) ++ t :: right.map (Symbol.leaf x page total) := by
    rw [List.map_append, List.map_cons]
    rfl
  induction phrase generalizing ss with
  | number =>
      cases ss with
      | nil => cases same
      | cons s rest =>
          rw [List.flatMap_cons] at same
          rcases spelled_eq x page total s with single | ⟨_, _, _, signed⟩
          · rw [single] at same
            obtain ⟨leaf, behind⟩ := List.cons.inj same
            obtain rfl := spelled_eq_nil behind
            rw [List.map_singleton, leaf]
            exact .number
          · rw [signed] at same
            cases same
  | group inner ih =>
      obtain ⟨behind, rfl, inside⟩ := first_mark rfl (by simp) same
      obtain ⟨left, last, rfl, body, empty⟩ := split_mark rfl (by simp) inside
      obtain rfl := spelled_eq_nil empty
      rw [List.map_cons, joined]
      exact .group (ih body clear.tail.left)
  | unsigned body ih => exact .unsigned (ih same clear)
  | plus body ih =>
      obtain ⟨behind, rfl, inside⟩ := first_mark rfl (by simp) same
      rw [List.map_cons]
      exact .plus (ih inside clear.tail)
  | minus body ih =>
      obtain ⟨s, behind, rfl, mark | sign⟩ := first_spelled rfl same
      · obtain ⟨rfl, inside⟩ := mark
        rw [List.map_cons]
        exact .minus (ih inside clear.tail)
      · -- the sign of a negative number, which is then the whole operand
        obtain ⟨-, name, rfl, negative, inside⟩ := sign
        obtain ⟨empty, rfl⟩ := body.factor_number (Or.inr rfl) inside.symm
        obtain rfl := spelled_eq_nil empty
        rw [Decimal.float_neg_neg]
        change Phrase .factor _ [.number (settled (x name))] (x name)
        rw [settled_of_neg negative]
        exact .unsigned .number
  | factor body ih => exact .factor (ih same clear)
  | term body ih => exact .term (ih same clear)
  | product left right ihl ihr =>
      obtain ⟨before, behind, rfl, first, second⟩ := split_mark rfl (by simp) same
      rw [joined]
      exact .product (ihl first clear.left) (ihr second clear.behind)
  | quotient left right ihl ihr =>
      obtain ⟨before, behind, rfl, first, second⟩ := split_mark rfl (by simp) same
      rw [joined]
      exact .quotient (ihl first clear.left) (ihr second clear.behind)
  | sum left right ihl ihr =>
      obtain ⟨before, behind, rfl, first, second⟩ := split_mark rfl (by simp) same
      rw [joined]
      exact .sum (ihl first clear.left) (ihr second clear.behind)
  | difference left right ihl ihr =>
      obtain ⟨before, s, behind, rfl, first, mark | sign⟩ := split_spelled rfl same
      · obtain ⟨rfl, second⟩ := mark
        rw [joined]
        exact .difference (ihl first clear.left) (ihr second clear.behind)
      · obtain ⟨-, name, rfl, negative, -⟩ := sign
        subst first
        exact (clear.no_negative_behind negative (endsOperand_of_phrase left)).elim

end Backward

end SlideDeck.Formula
