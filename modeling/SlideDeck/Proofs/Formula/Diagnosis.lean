import Mathlib
import SlideDeck.Proofs.Formula.Flaw
import SlideDeck.Proofs.Formula.Viability

/-!
What an error says about the text of an expression: where it cannot be cut into tokens, or else where its
longest viable prefix ends.
-/

namespace SlideDeck.Formula

open State (step)

structure Longest (n : Nat) (ts : List Token) (k : Nat) : Prop where
  within : k ≤ ts.length
  viable : Viable n (ts.take k)
  longest : ∀ j ≤ ts.length, Viable n (ts.take j) → j ≤ k

/-- What there is to report about the tokens of a text, where parentheses may nest `n` deep. -/
inductive Judged (n : Nat) (items : List Item) : Except GrammarError Float → Prop
  | value {v : Float} (phrase : Phrase .expr n (items.map Prod.fst) v) : Judged n items (.ok v)
  | incomplete (longest : Longest n (items.map Prod.fst) items.length)
      (none : ∀ v, ¬ Phrase .expr n (items.map Prod.fst) v) : Judged n items (.error .unexpectedEnd)
  | tooDeep {k : Nat} (longest : Longest n (items.map Prod.fst) k) (short : k < items.length)
      (deeper : ∃ m, Viable m ((items.map Prod.fst).take (k + 1))) : Judged n items (.error .tooDeep)
  | impossible {k : Nat} {t : Token} {offset : Nat} (longest : Longest n (items.map Prod.fst) k)
      (here : items[k]? = some (t, offset)) (never : ∀ m, ¬ Viable m ((items.map Prod.fst).take (k + 1))) :
      Judged n items (.error (.unexpectedToken t offset))

inductive Reports (text : List Char) : Except GrammarError Float → Prop
  | flawed {e : GrammarError} (first : FirstFlaw text e) : Reports text (.error e)
  | empty (lexed : Lexed [] text []) : Reports text (.error .empty)
  | judged {items : List Item} {outcome : Except GrammarError Float} (lexed : Lexed [] text items)
      (some : items ≠ []) (judged : Judged 256 items outcome) : Reports text outcome

namespace State

variable {n m : Nat} {s s' : State} {t : Token} {ts : List Token}

def depth : State → Nat
  | expecting d => d
  | complete d => d

theorem step_complete (n m d : Nat) (t : Token) : step n (complete d) t = step m (complete d) t := by
  cases d <;> cases t <;> rfl

theorem step_mono (steps : step n s t = some s') (le : n ≤ m) : step m s t = some s' := by
  cases s with
  | complete d =>
      rw [step_complete m n]
      exact steps
  | expecting d =>
      cases t with
      | opening =>
          by_cases room : d < n
          · rw [step_opening room] at steps
            rw [step_opening (by omega)]
            exact steps
          · rw [step, if_neg room] at steps
            cases steps
      | number | plus | minus | star | slash | closing => exact steps

theorem scan_mono (scanned : scan n s ts = some s') (le : n ≤ m) : scan m s ts = some s' := by
  induction ts generalizing s with
  | nil => exact scanned
  | cons t ts ih =>
      rw [scan_cons] at scanned ⊢
      obtain ⟨between, steps, onward⟩ := Option.bind_eq_some_iff.mp scanned
      rw [step_mono steps le]
      exact ih onward

theorem scan_agree {s'' : State} (scanned : scan n s ts = some s') (scanned' : scan m s ts = some s'') :
    s' = s'' := by
  have high := scan_mono scanned (Nat.le_max_left n m)
  have high' := scan_mono scanned' (Nat.le_max_right n m)
  exact Option.some.inj (high.symm.trans high')

/-- How many groups may be open matters to nothing but a parenthesis where an operand is due. -/
theorem opening_of_stopped (steps : step m s t = some s') (stopped : step n s t = none) :
    t = .opening ∧ ∃ d, s = expecting d ∧ n ≤ d := by
  cases s with
  | complete d =>
      rw [step_complete n m, steps] at stopped
      cases stopped
  | expecting d =>
      cases t with
      | opening =>
          refine ⟨rfl, d, rfl, ?_⟩
          by_contra room
          rw [step_opening (by omega)] at stopped
          cases stopped
      | number | plus | minus => cases stopped
      | star | slash | closing => cases steps

theorem step_depth (steps : step n s t = some s') (room : s.depth ≤ n) :
    s'.depth ≤ n ∧ s.depth + [t].countP (· matches .opening) = s'.depth + [t].countP (· matches .closing) := by
  unfold step at steps
  split at steps
  case h_4 d =>
    split at steps
    · cases steps
      rename_i fewer
      exact ⟨fewer, rfl⟩
    · cases steps
  case h_10 => cases steps
  case h_9 d =>
    cases steps
    exact ⟨Nat.le_of_succ_le room, rfl⟩
  all_goals
    cases steps
    exact ⟨room, rfl⟩

theorem scan_depth (scanned : scan n s ts = some s') (room : s.depth ≤ n) :
    s'.depth ≤ n ∧ s.depth + ts.countP (· matches .opening) = s'.depth + ts.countP (· matches .closing) := by
  induction ts generalizing s with
  | nil =>
      cases scanned
      exact ⟨room, rfl⟩
  | cons t ts ih =>
      rw [scan_cons] at scanned
      obtain ⟨between, steps, onward⟩ := Option.bind_eq_some_iff.mp scanned
      have first := step_depth steps room
      have later := ih onward first.1
      rw [← List.singleton_append, List.countP_append, List.countP_append]
      exact ⟨later.1, by omega⟩

end State

section Prefixes

variable {n m k : Nat} {s : State} {t : Token} {ts us : List Token}

theorem Viable.of_append (viable : Viable n (ts ++ us)) : Viable n ts := by
  obtain ⟨more, v, phrase⟩ := viable
  rw [List.append_assoc] at phrase
  exact ⟨us ++ more, v, phrase⟩

theorem Viable.of_take {j : Nat} (viable : Viable n (ts.take j)) (le : k ≤ j) : Viable n (ts.take k) := by
  rw [← Nat.add_sub_cancel' le, List.take_add] at viable
  exact viable.of_append

theorem viable_concat_iff (scanned : State.scan n (.expecting 0) ts = some s) :
    Viable m (ts ++ [t]) ↔ (∃ s', State.scan m (.expecting 0) ts = some s') ∧ ∃ s', step m s t = some s' := by
  rw [viable_iff]
  constructor
  · rintro ⟨s', whole⟩
    rw [State.scan_append] at whole
    obtain ⟨between, first, last⟩ := Option.bind_eq_some_iff.mp whole
    rw [State.scan_agree scanned first]
    obtain ⟨s'', steps, -⟩ := Option.bind_eq_some_iff.mp last
    exact ⟨⟨between, first⟩, s'', steps⟩
  · rintro ⟨⟨between, first⟩, s', steps⟩
    rw [State.scan_agree scanned first] at steps
    refine ⟨s', ?_⟩
    rw [State.scan_append, first, Option.bind_some, State.scan_cons, steps]
    rfl

theorem Longest.unique {j : Nat} (longest : Longest n ts k) (longest' : Longest n ts j) : k = j :=
  Nat.le_antisymm (longest'.longest k longest.within longest.viable)
    (longest.longest j longest'.within longest'.viable)

theorem longest_of_viable (viable : Viable n ts) : Longest n ts ts.length where
  within := Nat.le_refl _
  viable := by
    rw [List.take_length]
    exact viable
  longest := fun j within _ => within

theorem take_items (used rest : List Item) (t : Token) (offset : Nat) :
    ((used ++ (t, offset) :: rest).map Prod.fst).take (used.length + 1) = used.map Prod.fst ++ [t] := by
  simp [List.take_append]

theorem longest_of_stop {used rest : List Item} {offset : Nat}
    (scanned : State.scan n (.expecting 0) (used.map Prod.fst) = some s) (stopped : step n s t = none) :
    Longest n ((used ++ (t, offset) :: rest).map Prod.fst) used.length where
  within := by simp
  viable := by
    rw [List.map_append, ← List.length_map Prod.fst, List.take_left]
    exact viable_iff.mpr ⟨s, scanned⟩
  longest := by
    intro j _ viable
    by_contra beyond
    have further := viable.of_take (k := used.length + 1) (by omega)
    rw [take_items] at further
    obtain ⟨-, s', steps⟩ := (viable_concat_iff scanned).mp further
    rw [stopped] at steps
    cases steps

end Prefixes

section Judging

variable {n : Nat} {items : List Item}

theorem judged_sentence (n : Nat) (items : List Item) : Judged n items (sentence n items) := by
  cases result : sentence n items with
  | ok v => exact .value (phrase_of_sentence result)
  | error e =>
      obtain ⟨used, rest, s, rfl, scanned, halts⟩ := stuck_of_sentence result
      cases halts with
      | atEnd unfinished =>
          rw [List.append_nil]
          apply Judged.incomplete
          · have longest := longest_of_viable (viable_iff.mpr ⟨s, scanned⟩)
            rwa [List.length_map] at longest
          · intro v phrase
            have ended := phrase.scan (d := 0) (Nat.le_of_eq (Nat.zero_add n))
            exact unfinished (Option.some.inj (scanned.symm.trans ended))
      | atToken never =>
          apply Judged.impossible (longest_of_stop scanned (never n)) (by simp)
          intro m viable
          rw [take_items] at viable
          obtain ⟨-, s', steps⟩ := (viable_concat_iff scanned).mp viable
          rw [never m] at steps
          cases steps
      | tooDeep =>
          apply Judged.tooDeep (longest_of_stop scanned (State.step_opening_full n)) (by simp)
          refine ⟨n + 1, ?_⟩
          rw [take_items, viable_concat_iff scanned]
          have deeper := State.scan_mono scanned (Nat.le_succ n)
          exact ⟨⟨_, deeper⟩, _, State.step_opening (Nat.lt_succ_self n)⟩

/-- No token list is reported in two ways: the longest viable prefix is one, and decides. -/
theorem Judged.unique {outcome outcome' : Except GrammarError Float} (judged : Judged n items outcome)
    (judged' : Judged n items outcome') : outcome = outcome' := by
  have apart {k : Nat} (whole : Longest n (items.map Prod.fst) items.length)
      (longest : Longest n (items.map Prod.fst) k) (short : k < items.length) : False := by
    rw [whole.unique longest] at short
    exact Nat.lt_irrefl k short
  have whole {v : Float} (phrase : Phrase .expr n (items.map Prod.fst) v) :
      Longest n (items.map Prod.fst) items.length := by
    have viable : Viable n (items.map Prod.fst) := ⟨[], v, by rwa [List.append_nil]⟩
    have longest := longest_of_viable viable
    rwa [List.length_map] at longest
  have inside {k : Nat} {item : Item} (here : items[k]? = some item) : k < items.length :=
    (List.getElem?_eq_some_iff.mp here).1
  cases judged with
  | value phrase =>
      cases judged' with
      | value phrase' => exact phrase.sentence.symm.trans phrase'.sentence
      | incomplete longest none => exact absurd phrase (none _)
      | tooDeep longest short deeper => exact (apart (whole phrase) longest short).elim
      | impossible longest here never => exact (apart (whole phrase) longest (inside here)).elim
  | incomplete longest none =>
      cases judged' with
      | value phrase => exact absurd phrase (none _)
      | incomplete => rfl
      | tooDeep longest' short deeper => exact (apart longest longest' short).elim
      | impossible longest' here never => exact (apart longest longest' (inside here)).elim
  | tooDeep longest short deeper =>
      cases judged' with
      | value phrase => exact (apart (whole phrase) longest short).elim
      | incomplete longest' none => exact (apart longest' longest short).elim
      | tooDeep => rfl
      | impossible longest' here never =>
          obtain ⟨m, viable⟩ := deeper
          rw [longest.unique longest'] at viable
          exact absurd viable (never m)
  | impossible longest here never =>
      cases judged' with
      | value phrase => exact (apart (whole phrase) longest (inside here)).elim
      | incomplete longest' none => exact (apart longest' longest (inside here)).elim
      | tooDeep longest' short deeper =>
          obtain ⟨m, viable⟩ := deeper
          rw [longest'.unique longest] at viable
          exact absurd viable (never m)
      | impossible longest' here' never' =>
          rw [longest.unique longest', here'] at here
          cases here
          rfl

theorem Longest.deeper_iff {ts : List Token} {k : Nat} (longest : Longest n ts k) (short : k < ts.length) :
    (∃ m, Viable m (ts.take (k + 1))) ↔
      ts[k]? = some .opening ∧ (∃ x, Viable n (ts.take k ++ [.number x])) ∧
        (ts.take k).countP (· matches .opening) = (ts.take k).countP (· matches .closing) + n := by
  obtain ⟨s, scanned⟩ := viable_iff.mp longest.viable
  obtain ⟨t, here⟩ : ∃ t, ts[k]? = some t := ⟨_, List.getElem?_eq_getElem short⟩
  have next : ts.take (k + 1) = ts.take k ++ [t] := by rw [List.take_add_one, here, Option.toList_some]
  have stopped : step n s t = none := by
    apply Option.eq_none_iff_forall_ne_some.mpr
    intro s' steps
    have viable : Viable n (ts.take (k + 1)) := by
      rw [next, viable_concat_iff scanned]
      exact ⟨⟨s, scanned⟩, s', steps⟩
    have further := longest.longest (k + 1) short viable
    omega
  have depth := State.scan_depth scanned (Nat.zero_le n)
  rw [next]
  constructor
  · rintro ⟨m, viable⟩
    obtain ⟨-, s', steps⟩ := (viable_concat_iff scanned).mp viable
    obtain ⟨rfl, d, rfl, many⟩ := State.opening_of_stopped steps stopped
    obtain rfl : d = n := Nat.le_antisymm depth.1 many
    refine ⟨here, ⟨0, (viable_concat_iff scanned).mpr ⟨⟨_, scanned⟩, _, rfl⟩⟩, ?_⟩
    simpa [State.depth, Nat.add_comm] using depth.2
  · rintro ⟨opens, ⟨x, operand⟩, full⟩
    obtain rfl : t = .opening := Option.some.inj (here.symm.trans opens)
    obtain ⟨-, s', steps⟩ := (viable_concat_iff scanned).mp operand
    cases s with
    | complete d => cases d <;> cases steps
    | expecting d =>
        obtain rfl : d = n := by
          have balance : 0 + _ = d + _ := depth.2
          omega
        have deeper := State.scan_mono scanned (Nat.le_succ d)
        exact ⟨d + 1, (viable_concat_iff scanned).mpr ⟨⟨_, deeper⟩, _, State.step_opening (Nat.lt_succ_self d)⟩⟩

end Judging

theorem evaluate_eq (text : List Char) :
    evaluate text =
      match tokens text with
      | .error e => .error e
      | .ok [] => .error .empty
      | .ok items => sentence 256 items := by
  rfl

theorem reports_evaluate (text : List Char) : Reports text (evaluate text) := by
  rw [evaluate_eq]
  split
  · rename_i e failed
    exact .flawed (tokens_eq_error_iff.mp failed)
  · rename_i cut
    exact .empty (tokens_eq_ok_iff.mp cut)
  · rename_i items some cut
    exact .judged (tokens_eq_ok_iff.mp cut) some (judged_sentence 256 items)

theorem Reports.evaluate {text : List Char} {outcome : Except GrammarError Float}
    (reports : Reports text outcome) : Formula.evaluate text = outcome := by
  rw [evaluate_eq]
  cases reports with
  | flawed first => rw [tokens_eq_error_iff.mpr first]
  | empty lexed => rw [tokens_eq_ok_iff.mpr lexed]
  | @judged items outcome lexed some judged =>
      rw [tokens_eq_ok_iff.mpr lexed]
      split
      · rename_i failed
        cases failed
      · rename_i nothing
        cases nothing
        exact absurd rfl some
      · rename_i cut
        cases cut
        exact (judged_sentence 256 items).unique judged

/-- An error names the first place at which a text goes wrong: the leftmost flaw, if it has one, and otherwise
the token behind the longest prefix that goes on to a sentence. -/
theorem evaluate_reports (text : List Char) :
    (∀ outcome, evaluate text = outcome ↔ Reports text outcome) ∧
      ∀ items k, Lexed [] text items → Longest 256 (items.map Prod.fst) k → k < items.length →
        ((∃ m, Viable m ((items.map Prod.fst).take (k + 1))) ↔
          (items.map Prod.fst)[k]? = some .opening ∧
            (∃ x, Viable 256 ((items.map Prod.fst).take k ++ [.number x])) ∧
              ((items.map Prod.fst).take k).countP (· matches .opening) =
                ((items.map Prod.fst).take k).countP (· matches .closing) + 256) := by
  constructor
  · intro outcome
    constructor
    · rintro rfl
      exact reports_evaluate text
    · exact Reports.evaluate
  · intro items k _ longest short
    exact longest.deeper_iff (by rwa [List.length_map])

/-- A number that lacks the digits after its point is reported whatever stands before it. -/
example : evaluate "(3 + ) 4".toList = .error (.unexpectedToken .closing 5) ∧
    evaluate "(3 + ) 4.".toList = .error (.malformedNumber 7) := ⟨rfl, rfl⟩

end SlideDeck.Formula
