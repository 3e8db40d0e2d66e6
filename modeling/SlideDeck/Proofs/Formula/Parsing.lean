import Mathlib
import SlideDeck.Proofs.Formula.Lexing

/-!
The parser against the grammar. What it reads off the front of a token list derives with the value it
computes, and every phrase is read off the front of a list that does not go on with its operators.
-/

namespace SlideDeck.Formula

def Sound (parse : List Item → Parsed) (k : Category) (n : Nat) : Prop :=
  ∀ items v rest, parse items = .ok (v, rest) →
    ∃ used, items = used ++ rest ∧ Phrase k n (used.map Prod.fst) v

def Joins (op : Token → Option (Float → Float → Float)) (k j : Category) (n : Nat) : Prop :=
  ∀ t f ts us x y, op t = some f → Phrase k n ts x → Phrase j n us y →
    Phrase k n (ts ++ t :: us) (f x y)

variable {n : Nat} {op : Token → Option (Float → Float → Float)} {operand : List Item → Parsed}
  {k j : Category}

section Soundness

theorem joins_multiplicative : Joins multiplicative .term .factor n := by
  intro t f ts us x y known left right
  cases t <;> cases known
  · exact left.product right
  · exact left.quotient right

theorem joins_additive : Joins additive .expr .term n := by
  intro t f ts us x y known left right
  cases t <;> cases known
  · exact left.sum right
  · exact left.difference right

theorem foldLeft_sound (sound : Sound operand j n) (joins : Joins op k j n) {fuel : Nat}
    {acc v : Float} {items rest : List Item} {before : List Token} (left : Phrase k n before acc)
    (done : foldLeft op operand fuel acc items = .ok (v, rest)) :
    ∃ used, items = used ++ rest ∧ Phrase k n (before ++ used.map Prod.fst) v := by
  induction fuel generalizing acc items before with
  | zero =>
      cases done
      exact ⟨[], rfl, by simpa using left⟩
  | succ fuel ih =>
      match items with
      | [] =>
          cases done
          exact ⟨[], rfl, by simpa using left⟩
      | (t, offset) :: behind =>
          rw [foldLeft] at done
          split at done
          · cases done
            exact ⟨[], rfl, by simpa using left⟩
          · rename_i f known
            split at done
            · cases done
            · rename_i x behind' read
              obtain ⟨used, rfl, right⟩ := sound _ _ _ read
              obtain ⟨more, rfl, phrase⟩ := ih (joins _ _ _ _ _ _ known left right) done
              exact ⟨(t, offset) :: used ++ more, by simp, by simpa using phrase⟩

theorem chain_sound (sound : Sound operand j n) (joins : Joins op k j n)
    (single : ∀ ts v, Phrase j n ts v → Phrase k n ts v) : Sound (chain op operand) k n := by
  intro items v rest done
  unfold chain at done
  split at done
  · cases done
  · rename_i x behind read
    obtain ⟨first, rfl, phrase⟩ := sound _ _ _ read
    obtain ⟨used, rfl, whole⟩ := foldLeft_sound sound joins (single _ _ phrase) done
    exact ⟨first ++ used, by rw [List.append_assoc], by rwa [List.map_append]⟩

/-- An odd number of minus signs before a primary negates it, as each of them does. -/
theorem factor_sound {parse : List Item → Parsed} (sound : Sound parse .primary n) {negate : Bool}
    {items rest : List Item} {v : Float} (done : factor parse negate items = .ok (v, rest)) :
    ∃ used x, items = used ++ rest ∧ Phrase .factor n (used.map Prod.fst) x ∧
      v = if negate then -x else x := by
  fun_induction factor parse negate items with
  | case1 negate offset behind ih =>
      obtain ⟨used, x, rfl, body, value⟩ := ih done
      exact ⟨(.plus, offset) :: used, x, rfl, body.plus, value⟩
  | case2 negate offset behind ih =>
      obtain ⟨used, x, rfl, body, value⟩ := ih done
      refine ⟨(.minus, offset) :: used, -x, rfl, body.minus, ?_⟩
      rw [value]
      cases negate
      · rfl
      · exact (Decimal.float_neg_neg x).symm
  | case3 negate items other other' e failed => cases done
  | case4 negate items other other' x behind read =>
      cases done
      obtain ⟨used, rfl, body⟩ := sound _ _ _ read
      exact ⟨used, x, rfl, body.unsigned, rfl⟩

theorem factors_sound {parse : List Item → Parsed} (sound : Sound parse .primary n) :
    Sound (factor parse false) .factor n := by
  intro items v rest done
  obtain ⟨used, x, shape, body, rfl⟩ := factor_sound sound done
  exact ⟨used, shape, body⟩

theorem terms_sound {parse : List Item → Parsed} (sound : Sound parse .primary n) :
    Sound (chain multiplicative (factor parse false)) .term n :=
  chain_sound (factors_sound sound) joins_multiplicative fun _ _ => Phrase.factor

theorem expression_sound {parse : List Item → Parsed} (sound : Sound parse .primary n) :
    Sound (expression parse) .expr n :=
  chain_sound (terms_sound sound) joins_additive fun _ _ => Phrase.term

theorem primary_sound (n : Nat) : Sound (primary n) .primary n := by
  induction n with
  | zero =>
      intro items v rest done
      unfold primary at done
      split at done
      · cases done
        exact ⟨[_], rfl, .number⟩
      · cases done
      · rename_i outside
        cases outside
      · cases done
  | succ n ih =>
      intro items v rest done
      unfold primary at done
      split at done
      · cases done
        exact ⟨[_], rfl, .number⟩
      · rename_i none
        cases none
      · rename_i some
        cases some
        split at done
        · cases done
        · rename_i x offset behind read
          cases done
          obtain ⟨used, rfl, inner⟩ := expression_sound ih _ _ _ read
          refine ⟨(.opening, _) :: used ++ [(.closing, offset)], by rw [List.append_assoc]; rfl, ?_⟩
          rw [List.map_append]
          exact inner.group
        · cases done
      · cases done

end Soundness

section Completeness

theorem foldLeft_stop {items : List Item} (stop : ∀ i ∈ items.head?, op i.1 = none) (fuel : Nat)
    (acc : Float) : foldLeft op operand fuel acc items = .ok (acc, items) := by
  match fuel, items with
  | 0, _ => rfl
  | _ + 1, [] => rfl
  | _ + 1, (t, offset) :: rest => rw [foldLeft, stop (t, offset) rfl]

theorem foldLeft_enough (sound : Sound operand j n) {fuel more : Nat} {acc : Float}
    {items : List Item} (enough : items.length ≤ fuel) (enough' : items.length ≤ more) :
    foldLeft op operand fuel acc items = foldLeft op operand more acc items := by
  induction fuel generalizing more acc items with
  | zero =>
      obtain rfl := List.length_eq_zero_iff.mp (Nat.le_zero.mp enough)
      rw [foldLeft_stop (by simp), foldLeft_stop (by simp)]
  | succ fuel ih =>
      match items with
      | [] => rw [foldLeft_stop (by simp), foldLeft_stop (by simp)]
      | (t, offset) :: rest =>
          rw [List.length_cons] at enough enough'
          obtain ⟨more, rfl⟩ : ∃ k, more = k + 1 := ⟨more - 1, by omega⟩
          rw [foldLeft, foldLeft]
          cases known : op t with
          | none => rfl
          | some f =>
              cases read : operand rest with
              | error e => rfl
              | ok pair =>
                  obtain ⟨x, behind⟩ := pair
                  obtain ⟨used, rfl, -⟩ := sound _ _ _ read
                  rw [List.length_append] at enough enough'
                  exact ih (by omega) (by omega)

theorem foldLeft_step (sound : Sound operand j n) {t : Token} {offset : Nat}
    {f : Float → Float → Float} {x y : Float} {right rest : List Item} (known : op t = some f)
    (read : operand (right ++ rest) = .ok (y, rest)) :
    foldLeft op operand ((t, offset) :: (right ++ rest)).length x ((t, offset) :: (right ++ rest)) =
      foldLeft op operand rest.length (f x y) rest := by
  rw [List.length_cons, foldLeft]
  simp only [known, read]
  exact foldLeft_enough sound (by simp) (Nat.le_refl _)

/-- The parser for a category reads such tokens off the front of any list, and has got as far as their
value before it looks at what follows. -/
def Accepts (n : Nat) : Category → List Token → Float → Prop
  | .primary, ts, v => ∀ items rest, items.map Prod.fst = ts →
    primary n (items ++ rest) = .ok (v, rest)
  | .factor, ts, v => ∀ items rest, items.map Prod.fst = ts → ∀ negate,
    factor (primary n) negate (items ++ rest) = .ok (if negate then -v else v, rest)
  | .term, ts, v => ∀ items rest, items.map Prod.fst = ts →
    chain multiplicative (factor (primary n) false) (items ++ rest) =
      foldLeft multiplicative (factor (primary n) false) rest.length v rest
  | .expr, ts, v => ∀ items rest, items.map Prod.fst = ts →
    (∀ i ∈ rest.head?, multiplicative i.1 = none) →
    expression (primary n) (items ++ rest) =
      foldLeft additive (chain multiplicative (factor (primary n) false)) rest.length v rest

theorem Accepts.term_ends {ts : List Token} {v : Float} (accepts : Accepts n .term ts v)
    {items rest : List Item} (same : items.map Prod.fst = ts)
    (stop : ∀ i ∈ rest.head?, multiplicative i.1 = none) :
    chain multiplicative (factor (primary n) false) (items ++ rest) = .ok (v, rest) := by
  rw [accepts items rest same, foldLeft_stop stop]

theorem split_items {items : List Item} {ts us : List Token} {t : Token}
    (same : items.map Prod.fst = ts ++ t :: us) :
    ∃ left offset right, items = left ++ (t, offset) :: right ∧ left.map Prod.fst = ts ∧
      right.map Prod.fst = us := by
  obtain ⟨left, behind, rfl, first, second⟩ := List.map_eq_append_iff.mp same
  obtain ⟨⟨_, offset⟩, right, rfl, rfl, last⟩ := List.map_eq_cons_iff.mp second
  exact ⟨left, offset, right, rfl, first, last⟩

theorem accepts_term_join {ts us : List Token} {x y : Float} {t : Token}
    {f : Float → Float → Float} (known : multiplicative t = some f)
    (left : Accepts n .term ts x) (right : Accepts n .factor us y) :
    Accepts n .term (ts ++ t :: us) (f x y) := by
  intro items rest same
  obtain ⟨before, offset, behind, rfl, first, second⟩ := split_items same
  rw [List.append_assoc, List.cons_append, left before _ first]
  exact foldLeft_step (factors_sound (primary_sound n)) known (right behind rest second false)

theorem accepts_expr_join {ts us : List Token} {x y : Float} {t : Token}
    {f : Float → Float → Float} (known : additive t = some f) (other : multiplicative t = none)
    (left : Accepts n .expr ts x) (right : Accepts n .term us y) :
    Accepts n .expr (ts ++ t :: us) (f x y) := by
  intro items rest same stop
  obtain ⟨before, offset, behind, rfl, first, second⟩ := split_items same
  have here : ∀ i ∈ ((t, offset) :: (behind ++ rest)).head?, multiplicative i.1 = none := by
    rintro _ ⟨⟩
    exact other
  rw [List.append_assoc, List.cons_append, left before _ first here]
  exact foldLeft_step (terms_sound (primary_sound n)) known (right.term_ends second stop)

theorem accepts_group {ts : List Token} {v : Float} (inner : Accepts n .expr ts v) :
    Accepts (n + 1) .primary (.opening :: ts ++ [.closing]) v := by
  intro items rest same
  obtain ⟨⟨_, offset⟩, behind, rfl, rfl, inside⟩ := List.map_eq_cons_iff.mp same
  obtain ⟨left, offset', right, rfl, first, last⟩ := split_items inside
  obtain rfl := List.map_eq_nil_iff.mp last
  have stop : ∀ i ∈ ((Token.closing, offset') :: rest).head?, multiplicative i.1 = none := by
    rintro _ ⟨⟩
    rfl
  have stop' : ∀ i ∈ ((Token.closing, offset') :: rest).head?, additive i.1 = none := by
    rintro _ ⟨⟩
    rfl
  rw [List.cons_append, List.append_assoc, List.singleton_append, primary,
    inner left _ first stop, foldLeft_stop stop']

/-- A primary begins with no sign, or it would not have been read. -/
theorem accepts_unsigned {ts : List Token} {v : Float} (body : Accepts n .primary ts v) :
    Accepts n .factor ts v := by
  intro items rest same negate
  have read := body items rest same
  have unsigned (t : Token) (sign : t = .plus ∨ t = .minus) (offset : Nat) (behind : List Item) :
      items ++ rest = (t, offset) :: behind → False := by
    intro shape
    rw [shape] at read
    rcases sign with rfl | rfl <;> cases n <;> cases read
  rw [Formula.factor.eq_3 _ _ _ (unsigned .plus (.inl rfl)) (unsigned .minus (.inr rfl)), read]

/-- A longer chain is read as the shorter one on its left and then by one more round of the loop. -/
theorem Phrase.accepts {ts : List Token} {v : Float} (phrase : Phrase k n ts v) :
    Accepts n k ts v := by
  induction phrase with
  | number =>
      intro items rest same
      obtain ⟨⟨_, offset⟩, rfl, rfl⟩ := List.map_eq_singleton_iff.mp same
      unfold primary
      rfl
  | group inner ih => exact accepts_group ih
  | unsigned body ih => exact accepts_unsigned ih
  | plus body ih =>
      intro items rest same negate
      obtain ⟨⟨_, offset⟩, behind, rfl, rfl, last⟩ := List.map_eq_cons_iff.mp same
      rw [List.cons_append, Formula.factor]
      exact ih behind rest last negate
  | minus body ih =>
      intro items rest same negate
      obtain ⟨⟨_, offset⟩, behind, rfl, rfl, last⟩ := List.map_eq_cons_iff.mp same
      rw [List.cons_append, Formula.factor, ih behind rest last]
      cases negate
      · rfl
      · simp [Decimal.float_neg_neg]
  | factor body ih =>
      intro items rest same
      rw [chain, ih items rest same false]
      rfl
  | product left right ihl ihr => exact accepts_term_join rfl ihl ihr
  | quotient left right ihl ihr => exact accepts_term_join rfl ihl ihr
  | term body ih =>
      intro items rest same stop
      rw [expression, chain, ih.term_ends same stop]
  | sum left right ihl ihr => exact accepts_expr_join rfl rfl ihl ihr
  | difference left right ihl ihr => exact accepts_expr_join rfl rfl ihl ihr

end Completeness

/-- A text has a value exactly if it is a sentence of the grammar with parentheses nested at most 256
deep, and then that of its derivation. -/
theorem evaluate_eq_ok_iff (text : List Char) (v : Float) :
    evaluate text = .ok v ↔ ∃ ts, Spells text ts ∧ Phrase .expr 256 ts v := by
  constructor
  · intro done
    unfold evaluate at done
    split at done
    · cases done
    · cases done
    · rename_i items cut
      split at done
      · cases done
      · rename_i x read
        cases done
        obtain ⟨used, shape, phrase⟩ := expression_sound (primary_sound maxDepth) _ _ _ read
        rw [List.append_nil] at shape
        rw [← shape] at phrase
        exact ⟨_, tokens_sound cut, phrase⟩
      · cases done
  · rintro ⟨ts, spelled, phrase⟩
    obtain ⟨items, cut, same⟩ := spelled.tokens phrase.spaced
    have read := phrase.accepts items [] same (by simp)
    rw [List.append_nil] at read
    unfold evaluate
    cases items with
    | nil => cases read
    | cons first rest =>
        simp only [cut]
        rw [maxDepth, read]
        rfl

end SlideDeck.Formula
