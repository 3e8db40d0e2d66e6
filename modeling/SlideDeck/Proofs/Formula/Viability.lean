import Mathlib
import SlideDeck.Proofs.Formula.Parsing

/-!
How a sentence may begin. Two things decide how a prefix may go on: how many groups are open in it, and
whether an operand is due. The parser fails at the first token with which no prefix goes on.
-/

namespace SlideDeck.Formula

/-- The tokens go on to a sentence in which parentheses nest at most `n` deep. -/
def Viable (n : Nat) (ts : List Token) : Prop := ∃ us v, Phrase .expr n (ts ++ us) v

/-- What may come after a prefix in which `depth` groups are open: `expecting` where an operand is due,
`complete` where one has just ended. -/
inductive State where
  | expecting (depth : Nat)
  | complete (depth : Nat)

namespace State

/-- The state after one more token, if it may stand here; no more than `limit` groups may be open. -/
def step (limit : Nat) : State → Token → Option State
  | expecting d, .number _ => some (complete d)
  | expecting d, .plus => some (expecting d)
  | expecting d, .minus => some (expecting d)
  | expecting d, .opening => if d < limit then some (expecting (d + 1)) else none
  | complete d, .plus => some (expecting d)
  | complete d, .minus => some (expecting d)
  | complete d, .star => some (expecting d)
  | complete d, .slash => some (expecting d)
  | complete (d + 1), .closing => some (complete d)
  | _, _ => none

def scan (limit : Nat) (s : State) (ts : List Token) : Option State := ts.foldlM (step limit) s

variable {limit : Nat} {s : State} {t : Token} {ts us : List Token}

theorem scan_cons : scan limit s (t :: ts) = (step limit s t).bind fun s' => scan limit s' ts := rfl

theorem scan_append : scan limit s (ts ++ us) = (scan limit s ts).bind fun s' => scan limit s' us :=
  List.foldlM_append

theorem step_opening {d : Nat} (room : d < limit) :
    step limit (expecting d) .opening = some (expecting (d + 1)) := if_pos room

theorem step_opening_full (n : Nat) : step n (expecting n) .opening = none := if_neg (Nat.lt_irrefl n)

theorem step_multiplicative {f : Float → Float → Float} (known : multiplicative t = some f) (d : Nat) :
    step limit (complete d) t = some (expecting d) := by
  cases t <;> first | rfl | cases known

theorem step_additive {f : Float → Float → Float} (known : additive t = some f) (d : Nat) :
    step limit (complete d) t = some (expecting d) := by
  cases t <;> first | rfl | cases known

theorem step_plain {d : Nat} (noSum : additive t = none) (noProduct : multiplicative t = none)
    (unclosed : t = .closing → d = 0) (n : Nat) : step n (complete d) t = none := by
  cases t with
  | number | opening => cases d <;> rfl
  | closing =>
      obtain rfl := unclosed rfl
      rfl
  | plus | minus => cases noSum
  | star | slash => cases noProduct

end State

open State (step step_opening)

theorem Phrase.scan {k : Category} {n : Nat} {ts : List Token} {v : Float} (phrase : Phrase k n ts v)
    {d limit : Nat} (room : d + n ≤ limit) :
    State.scan limit (.expecting d) ts = some (.complete d) := by
  induction phrase generalizing d with
  | number => rfl
  | group inner ih =>
      have inside := @ih (d + 1) (by omega)
      rw [List.cons_append, State.scan_cons, step_opening (by omega), Option.bind_some, State.scan_append,
        inside]
      rfl
  | unsigned body ih => exact ih room
  | plus body ih => exact ih room
  | minus body ih => exact ih room
  | factor body ih => exact ih room
  | product left right ihl ihr =>
      rw [State.scan_append, ihl room]
      exact ihr room
  | quotient left right ihl ihr =>
      rw [State.scan_append, ihl room]
      exact ihr room
  | term body ih => exact ih room
  | sum left right ihl ihr =>
      rw [State.scan_append, ihl room]
      exact ihr room
  | difference left right ihl ihr =>
      rw [State.scan_append, ihl room]
      exact ihr room

inductive Halts (limit : Nat) : State → List Item → GrammarError → Prop
  | atEnd {s : State} (unfinished : s ≠ .complete 0) : Halts limit s [] .unexpectedEnd
  | atToken {s : State} {t : Token} {offset : Nat} {rest : List Item} (never : ∀ n, step n s t = none) :
      Halts limit s ((t, offset) :: rest) (.unexpectedToken t offset)
  | tooDeep {offset : Nat} {rest : List Item} :
      Halts limit (.expecting limit) ((.opening, offset) :: rest) .tooDeep

def Stuck (limit : Nat) (s : State) (items : List Item) (e : GrammarError) : Prop :=
  ∃ used rest s', items = used ++ rest ∧ State.scan limit s (used.map Prod.fst) = some s' ∧
    Halts limit s' rest e

section Stuck

variable {limit : Nat} {s s' : State} {items : List Item} {e : GrammarError}

theorem Halts.stuck (halts : Halts limit s items e) : Stuck limit s items e := ⟨[], items, s, rfl, rfl, halts⟩

theorem Stuck.after (stuck : Stuck limit s' items e) {front : List Item}
    (scanned : State.scan limit s (front.map Prod.fst) = some s') : Stuck limit s (front ++ items) e := by
  obtain ⟨used, rest, s'', rfl, onward, halts⟩ := stuck
  refine ⟨front ++ used, rest, s'', (List.append_assoc front used rest).symm, ?_, halts⟩
  rw [List.map_append, State.scan_append, scanned]
  exact onward

theorem Stuck.later (stuck : Stuck limit s' items e) {t : Token} (offset : Nat)
    (steps : step limit s t = some s') : Stuck limit s ((t, offset) :: items) e := by
  have scanned : State.scan limit s ([(t, offset)].map Prod.fst) = some s' := by
    rw [List.map_singleton, State.scan_cons, steps]
    rfl
  exact stuck.after scanned

end Stuck

def Stops (op : Token → Option (Float → Float → Float)) (parse : List Item → Parsed) : Prop :=
  ∀ items v rest, parse items = .ok (v, rest) → ∀ i ∈ rest.head?, op i.1 = none

/-- Where `parse` fails inside `d` groups, the list stops going on. -/
def Fails (limit d : Nat) (parse : List Item → Parsed) : Prop :=
  ∀ items e, parse items = .error e → Stuck limit (.expecting d) items e

section Chains

variable {limit d n : Nat} {j : Category} {op other : Token → Option (Float → Float → Float)}
  {operand : List Item → Parsed}

theorem foldLeft_stops (sound : Sound operand j n) {fuel : Nat} {acc v : Float} {items rest : List Item}
    (enough : items.length ≤ fuel) (done : foldLeft op operand fuel acc items = .ok (v, rest)) :
    ∀ i ∈ rest.head?, op i.1 = none := by
  induction fuel generalizing acc items with
  | zero =>
      obtain rfl := List.length_eq_zero_iff.mp (Nat.le_zero.mp enough)
      cases done
      simp
  | succ fuel ih =>
      match items with
      | [] =>
          cases done
          simp
      | (t, offset) :: behind =>
          rw [foldLeft] at done
          split at done
          · rename_i unknown
            cases done
            rintro _ ⟨⟩
            exact unknown
          · split at done
            · cases done
            · rename_i x behind' read
              obtain ⟨used, rfl, -⟩ := sound _ _ _ read
              rw [List.length_cons, List.length_append] at enough
              exact ih (by omega) done

theorem chain_stops (sound : Sound operand j n) : Stops op (chain op operand) := by
  intro items v rest done
  unfold chain at done
  split at done
  · cases done
  · exact foldLeft_stops sound (Nat.le_refl _) done

theorem foldLeft_keeps (stops : Stops other operand) {fuel : Nat} {acc v : Float} {items rest : List Item}
    (before : ∀ i ∈ items.head?, other i.1 = none)
    (done : foldLeft op operand fuel acc items = .ok (v, rest)) : ∀ i ∈ rest.head?, other i.1 = none := by
  induction fuel generalizing acc items with
  | zero =>
      cases done
      exact before
  | succ fuel ih =>
      match items with
      | [] =>
          cases done
          exact before
      | (t, offset) :: behind =>
          rw [foldLeft] at done
          split at done
          · cases done
            exact before
          · split at done
            · cases done
            · rename_i read
              exact ih (stops _ _ _ read) done

theorem chain_keeps (stops : Stops other operand) : Stops other (chain op operand) := by
  intro items v rest done
  unfold chain at done
  split at done
  · cases done
  · rename_i read
    exact foldLeft_keeps stops (stops _ _ _ read) done

theorem foldLeft_fails (sound : Sound operand j n) (fails : Fails limit d operand) (room : d + n ≤ limit)
    (joins : ∀ t f, op t = some f → step limit (.complete d) t = some (.expecting d)) {fuel : Nat}
    {acc : Float} {items : List Item} {e : GrammarError}
    (failed : foldLeft op operand fuel acc items = .error e) : Stuck limit (.complete d) items e := by
  induction fuel generalizing acc items with
  | zero => cases failed
  | succ fuel ih =>
      match items with
      | [] => cases failed
      | (t, offset) :: rest =>
          rw [foldLeft] at failed
          split at failed
          · cases failed
          · rename_i f known
            apply Stuck.later _ offset (joins t f known)
            split at failed
            · rename_i failure
              cases failed
              exact fails _ _ failure
            · rename_i x rest' read
              obtain ⟨used, rfl, phrase⟩ := sound _ _ _ read
              exact (ih failed).after (phrase.scan room)

theorem chain_fails (sound : Sound operand j n) (fails : Fails limit d operand) (room : d + n ≤ limit)
    (joins : ∀ t f, op t = some f → step limit (.complete d) t = some (.expecting d)) :
    Fails limit d (chain op operand) := by
  intro items e failed
  unfold chain at failed
  split at failed
  · rename_i failure
    cases failed
    exact fails _ _ failure
  · rename_i x rest read
    obtain ⟨used, rfl, phrase⟩ := sound _ _ _ read
    exact (foldLeft_fails sound fails room joins failed).after (phrase.scan room)

end Chains

section Expressions

variable {limit d n : Nat} {parse : List Item → Parsed}

/-- Signs never make the parser fail, so it fails where the primary behind them does. -/
theorem factor_fails
    (fails : ∀ items e, (∀ i ∈ items.head?, additive i.1 = none) → parse items = .error e →
      Stuck limit (.expecting d) items e)
    (negate : Bool) : Fails limit d (factor parse negate) := by
  intro items e failed
  fun_induction factor parse negate items with
  | case1 negate offset behind ih => exact (ih failed).later offset rfl
  | case2 negate offset behind ih => exact (ih failed).later offset rfl
  | case3 negate items noPlus noMinus e' failure =>
      cases failed
      apply fails items e _ failure
      intro item first
      cases items with
      | nil => cases first
      | cons i rest =>
          obtain ⟨t, offset⟩ := i
          cases first
          cases t with
          | plus => exact (noPlus offset rest rfl).elim
          | minus => exact (noMinus offset rest rfl).elim
          | number | star | slash | opening | closing => rfl
  | case4 => cases failed

theorem expression_fails (sound : Sound parse .primary n) (room : d + n ≤ limit)
    (fails : ∀ items e, (∀ i ∈ items.head?, additive i.1 = none) → parse items = .error e →
      Stuck limit (.expecting d) items e) : Fails limit d (expression parse) := by
  have terms : Fails limit d (chain multiplicative (factor parse false)) :=
    chain_fails (factors_sound sound) (factor_fails fails false) room
      fun t f known => State.step_multiplicative known d
  exact chain_fails (terms_sound sound) terms room fun t f known => State.step_additive known d

theorem expression_stops (sound : Sound parse .primary n) :
    Stops additive (expression parse) ∧ Stops multiplicative (expression parse) :=
  ⟨chain_stops (terms_sound sound), chain_keeps (chain_stops (factors_sound sound))⟩

/-- What an expression leaves cannot go on, unless it ends a group that is open or is nothing and none is. -/
theorem stuck_behind (sound : Sound parse .primary n) (room : d + n ≤ limit) {items rest : List Item} {v : Float}
    (read : expression parse items = .ok (v, rest)) (unfinished : rest = [] → d ≠ 0)
    (unclosed : ∀ i ∈ rest.head?, i.1 = .closing → d = 0) : Stuck limit (.expecting d) items (unexpected rest) := by
  obtain ⟨used, rfl, phrase⟩ := expression_sound sound _ _ _ read
  apply Stuck.after _ (phrase.scan room)
  apply Halts.stuck
  cases rest with
  | nil =>
      apply Halts.atEnd
      rintro ⟨⟩
      exact unfinished rfl rfl
  | cons i behind =>
      obtain ⟨noSum, noProduct⟩ := expression_stops sound
      exact Halts.atToken (State.step_plain (noSum _ _ _ read i rfl) (noProduct _ _ _ read i rfl) (unclosed i rfl))

theorem primary_fails_outside {items : List Item} {e : GrammarError}
    (noSign : ∀ i ∈ items.head?, additive i.1 = none) (noGroup : ∀ i ∈ items.head?, i.1 ≠ .opening)
    (failed : primary n items = .error e) : Halts limit (.expecting d) items e := by
  match items with
  | [] =>
      unfold primary at failed
      cases failed
      exact Halts.atEnd (by simp)
  | (t, offset) :: rest =>
      unfold primary at failed
      cases t with
      | number x => cases failed
      | opening => cases noGroup _ rfl rfl
      | star | slash | closing =>
          cases failed
          exact Halts.atToken fun n => rfl
      | plus | minus => cases noSign _ rfl

theorem opening_or_not (items : List Item) :
    (∃ offset rest, items = (.opening, offset) :: rest) ∨ ∀ i ∈ items.head?, i.1 ≠ .opening := by
  match items with
  | [] => exact Or.inr (by simp)
  | (t, offset) :: rest =>
      by_cases group : t = .opening
      · exact Or.inl ⟨offset, rest, by rw [group]⟩
      · refine Or.inr ?_
        rintro _ ⟨⟩
        exact group

/-- By induction on the groups that may still be opened. -/
theorem primary_fails {n : Nat} (all : d + n = limit) (items : List Item) (e : GrammarError)
    (noSign : ∀ i ∈ items.head?, additive i.1 = none) (failed : primary n items = .error e) :
    Stuck limit (.expecting d) items e := by
  induction n generalizing d items e with
  | zero =>
      obtain ⟨offset, rest, rfl⟩ | noGroup := opening_or_not items
      · obtain rfl : d = limit := all
        cases failed
        exact Halts.tooDeep.stuck
      · exact (primary_fails_outside noSign noGroup failed).stuck
  | succ n ih =>
      obtain ⟨offset, rest, rfl⟩ | noGroup := opening_or_not items
      · apply Stuck.later _ offset (step_opening (by omega))
        have sound := primary_sound n
        have inner : Fails limit (d + 1) (expression (primary n)) :=
          expression_fails sound (by omega) fun items e => ih (by omega) items e
        rw [primary] at failed
        split at failed
        · rename_i failure
          cases failed
          exact inner _ _ failure
        · cases failed
        · rename_i x left unclosed read
          cases failed
          refine stuck_behind sound (by omega) read (fun _ => Nat.succ_ne_zero d) ?_
          rintro ⟨_, offset'⟩ first rfl
          obtain ⟨behind, rfl⟩ := List.head?_eq_some_iff.mp first
          exact (unclosed _ _ rfl).elim
      · exact (primary_fails_outside noSign noGroup failed).stuck

/-- What remains of evaluating once a text is cut: the tokens are one expression as a whole. -/
def sentence (n : Nat) (items : List Item) : Except GrammarError Float :=
  match expression (primary n) items with
  | .error e => .error e
  | .ok (x, []) => .ok x
  | .ok (_, rest) => .error (unexpected rest)

theorem phrase_of_sentence {n : Nat} {items : List Item} {v : Float} (done : sentence n items = .ok v) :
    Phrase .expr n (items.map Prod.fst) v := by
  unfold sentence at done
  split at done
  · cases done
  · rename_i x read
    cases done
    obtain ⟨used, shape, phrase⟩ := expression_sound (primary_sound n) _ _ _ read
    rw [List.append_nil] at shape
    rwa [shape]
  · cases done

theorem Phrase.sentence {n : Nat} {items : List Item} {v : Float}
    (phrase : Phrase .expr n (items.map Prod.fst) v) : Formula.sentence n items = .ok v := by
  have read := phrase.accepts items [] rfl (by simp)
  rw [List.append_nil, foldLeft_stop (by simp)] at read
  rw [Formula.sentence, read]

theorem stuck_of_sentence {n : Nat} {items : List Item} {e : GrammarError}
    (failed : sentence n items = .error e) : Stuck n (.expecting 0) items e := by
  have sound := primary_sound n
  unfold sentence at failed
  split at failed
  · rename_i failure
    cases failed
    exact expression_fails sound (by omega) (fun items e => primary_fails (by omega) items e) _ _ failure
  · cases failed
  · rename_i x left some read
    cases failed
    exact stuck_behind sound (by omega) read (fun nothing => (some nothing).elim) fun _ _ _ => rfl

end Expressions

section Viability

variable {n : Nat} {s : State} {ts : List Token}

theorem Halts.not_complete {items : List Item} {e : GrammarError} (halts : Halts n s items e) :
    State.scan n s (items.map Prod.fst) ≠ some (.complete 0) := by
  intro scanned
  cases halts with
  | atEnd unfinished => exact unfinished (Option.some.inj scanned)
  | atToken never =>
      rw [List.map_cons, State.scan_cons, never n] at scanned
      cases scanned
  | tooDeep =>
      rw [List.map_cons, State.scan_cons, State.step_opening_full] at scanned
      cases scanned

/-- The sentences are the token lists behind which an operand has ended and no group is open. -/
theorem exists_phrase_iff :
    (∃ v, Phrase .expr n ts v) ↔ State.scan n (.expecting 0) ts = some (.complete 0) := by
  constructor
  · rintro ⟨v, phrase⟩
    exact phrase.scan (by omega)
  · intro scanned
    have same : (ts.map fun t => ((t, 0) : Item)).map Prod.fst = ts := by
      rw [List.map_map]
      exact List.map_id ts
    cases result : sentence n (ts.map fun t => (t, 0)) with
    | ok v =>
        have phrase := phrase_of_sentence result
        rw [same] at phrase
        exact ⟨v, phrase⟩
    | error e =>
        obtain ⟨used, rest, s', shape, onward, halts⟩ := stuck_of_sentence result
        rw [shape, List.map_append] at same
        rw [← same, State.scan_append, onward] at scanned
        exact absurd scanned halts.not_complete

theorem exists_completion (n : Nat) (s : State) : ∃ us, State.scan n s us = some (.complete 0) := by
  have closing (d : Nat) : ∃ us, State.scan n (.complete d) us = some (.complete 0) := by
    induction d with
    | zero => exact ⟨[], rfl⟩
    | succ d ih =>
        obtain ⟨us, ended⟩ := ih
        exact ⟨.closing :: us, ended⟩
  cases s with
  | complete d => exact closing d
  | expecting d =>
      obtain ⟨us, ended⟩ := closing d
      exact ⟨.number 0 :: us, ended⟩

/-- A prefix is viable exactly if it can be scanned. -/
theorem viable_iff : Viable n ts ↔ ∃ s, State.scan n (.expecting 0) ts = some s := by
  constructor
  · rintro ⟨us, v, phrase⟩
    have scanned := exists_phrase_iff.mp ⟨v, phrase⟩
    rw [State.scan_append] at scanned
    obtain ⟨s, first, -⟩ := Option.bind_eq_some_iff.mp scanned
    exact ⟨s, first⟩
  · rintro ⟨s, scanned⟩
    obtain ⟨us, ended⟩ := exists_completion n s
    have whole : State.scan n (.expecting 0) (ts ++ us) = some (.complete 0) := by
      rw [State.scan_append, scanned]
      exact ended
    obtain ⟨v, phrase⟩ := exists_phrase_iff.mpr whole
    exact ⟨us, v, phrase⟩

end Viability

end SlideDeck.Formula
