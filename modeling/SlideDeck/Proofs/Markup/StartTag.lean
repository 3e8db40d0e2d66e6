import Mathlib
import SlideDeck.Proofs.Markup.Handler

/-!
Start tags as an HTML tokenizer reads them, in any text. The check for event handlers takes every quote
in a tag for the beginning of a quoted value; as long as all quotes are, no handler gets past it.
-/

namespace SlideDeck.Markup

open Text

namespace Html

def isSpace (c : Char) : Bool := c = ' ' || c = '\t' || c = '\n' || c = '\r' || c = '\x0c'

deriving instance DecidableEq for Quote

inductive Value where
  | quoted (q : Quote) (text : List Char)
  | bare (text : List Char)
  deriving DecidableEq

structure Attribute where
  name : List Char
  /-- What is given with an equals sign. -/
  value : Option Value
  deriving DecidableEq

structure StartTag where
  name : List Char
  attributes : List Attribute
  deriving DecidableEq

inductive State where
  /-- Where an attribute may begin. -/
  | between
  | name (name : List Char)
  | behindName (name : List Char)
  | behindSign (name : List Char)
  | quoted (name : List Char) (q : Quote) (text : List Char)
  | bare (name text : List Char)

/-- What a character does: it may end an attribute, and then the tag goes on or is over. -/
inductive Step where
  | next (ended : Option Attribute) (s : State)
  | last (ended : Option Attribute)

def State.step : State → Char → Step
  | .between, c =>
    if c = '>' then .last none
    else if isSpace c || c = '/' then .next none .between
    else .next none (.name [c])
  | .name n, c =>
    if c = '>' then .last (some ⟨n, none⟩)
    else if c = '=' then .next none (.behindSign n)
    else if c = '/' then .next (some ⟨n, none⟩) .between
    else if isSpace c then .next none (.behindName n)
    else .next none (.name (n ++ [c]))
  | .behindName n, c =>
    if c = '>' then .last (some ⟨n, none⟩)
    else if c = '=' then .next none (.behindSign n)
    else if c = '/' then .next (some ⟨n, none⟩) .between
    else if isSpace c then .next none (.behindName n)
    else .next (some ⟨n, none⟩) (.name [c])
  | .behindSign n, c =>
    if c = '>' then .last (some ⟨n, some (.bare [])⟩)
    else if isSpace c then .next none (.behindSign n)
    else if c = '"' then .next none (.quoted n .double [])
    else if c = '\'' then .next none (.quoted n .single [])
    else .next none (.bare n [c])
  | .quoted n q text, c =>
    if c = q.char then .next (some ⟨n, some (.quoted q text)⟩) .between
    else .next none (.quoted n q (text ++ [c]))
  | .bare n text, c =>
    if c = '>' then .last (some ⟨n, some (.bare text)⟩)
    else if isSpace c then .next (some ⟨n, some (.bare text)⟩) .between
    else .next none (.bare n (text ++ [c]))

def attributes? : State → List Char → Option (List Attribute)
  | _, [] => none
  | s, c :: cs =>
    match s.step c with
    | .last ended => some ended.toList
    | .next ended s => (attributes? s cs).map (ended.toList ++ ·)

def endsName (c : Char) : Bool := isSpace c || c = '/' || c = '>'

def startTag? (cs : List Char) : Option StartTag :=
  if cs.head?.any Char.isAlpha then
    (attributes? .between (cs.dropWhile (!endsName ·))).map fun attributes =>
      { name := cs.takeWhile (!endsName ·), attributes }
  else none

def Attribute.IsHandler (a : Attribute) : Prop := isHandler a.name = true ∧ a.value.isSome = true

/-- Without a quote in its name or in a value that is not quoted. -/
def Attribute.IsPlain (a : Attribute) : Prop :=
  a.name.any isQuote = false ∧ ∀ text, a.value = some (.bare text) → text.any isQuote = false

end Html

section Clear

variable {c : Char} {cs before rest : List Char}

def Clear (cs : List Char) : Prop := ∃ fuel, cs.length ≤ fuel ∧ handlerInTag fuel cs = none

def Free (cs : List Char) : Prop := Clear cs ∧ handlerName cs = none

theorem Clear.step (clear : Clear (c :: cs)) :
    ∃ fuel, cs.length ≤ fuel ∧ handlerInTag (fuel + 1) (c :: cs) = none := by
  obtain ⟨fuel, enough, nothing⟩ := clear
  cases fuel with
  | zero => exact absurd enough (Nat.not_succ_le_zero _)
  | succ fuel => exact ⟨fuel, Nat.le_of_succ_le_succ enough, nothing⟩

theorem Clear.separated (clear : Clear (c :: cs)) (separator : isBlank c = true ∨ c = '/') : Free cs := by
  obtain ⟨fuel, enough, nothing⟩ := clear.step
  obtain ⟨quote, inside⟩ := plain_of_separator separator
  rw [handlerInTag, if_neg (by simp [quote]), if_neg inside, if_pos (by simpa using separator),
    Option.or_eq_none_iff] at nothing
  exact ⟨⟨fuel, enough, nothing.2⟩, nothing.1⟩

theorem Clear.tail (clear : Clear (c :: cs)) (quote : isQuote c = false) (inside : c ≠ '>') : Clear cs := by
  by_cases separator : isBlank c = true ∨ c = '/'
  · exact (clear.separated separator).1
  · obtain ⟨fuel, enough, nothing⟩ := clear.step
    rw [handlerInTag, if_neg (by simp [quote]), if_neg inside, if_neg (by simpa using separator)] at nothing
    exact ⟨fuel, enough, nothing⟩

theorem Clear.append (clear : Clear (before ++ rest)) (quotes : before.any isQuote = false)
    (inside : '>' ∉ before) : Clear rest := by
  induction before with
  | nil => exact clear
  | cons c before ih =>
      rw [List.any_cons, Bool.or_eq_false_iff] at quotes
      have other : c ≠ '>' := ne_of_mem_of_not_mem List.mem_cons_self inside
      exact ih (clear.tail quotes.1 other) quotes.2 (List.not_mem_of_not_mem_cons inside)

theorem Clear.quoted {q : Quote} {text : List Char} (clear : Clear (q.char :: (text ++ q.char :: rest)))
    (closed : q.char ∉ text) : Free rest := by
  obtain ⟨fuel, enough, nothing⟩ := clear.step
  have quote : isQuote q.char = true := by cases q <;> rfl
  rw [handlerInTag, if_pos quote, afterQuote_value closed] at nothing
  simp only [Option.or_eq_none_iff] at nothing
  refine ⟨⟨fuel, ?_, nothing.2⟩, nothing.1⟩
  simp only [List.length_append, List.length_cons] at enough
  omega

/-- No tag of a text in which no handler is found has one for the check, wherever it begins. -/
theorem clear_of_handler? (nothing : handler? (before ++ '<' :: rest) = none) : Clear rest := by
  induction before with
  | nil =>
      rw [List.nil_append, handler?, if_pos rfl] at nothing
      split at nothing
      · cases nothing
      · rename_i none
        exact ⟨rest.length, le_rfl, none⟩
  | cons c before ih =>
      rw [List.cons_append, handler?] at nothing
      split at nothing
      · split at nothing
        · cases nothing
        · exact ih nothing
      · exact ih nothing

theorem handlerName_handler {n blanks : List Char} (handler : isHandler n = true)
    (blank : ∀ b ∈ blanks, isBlank b = true) : handlerName (n ++ (blanks ++ '=' :: rest)) = some n := by
  have letters : ∀ c ∈ n, c.isAlpha = true := by
    match n, handler with
    | c :: d :: letters, handler =>
        simp only [isHandler, Bool.and_eq_true, decide_eq_true_eq, List.all_eq_true] at handler
        obtain ⟨⟨⟨first, second⟩, -⟩, others⟩ := handler
        have alpha : ∀ {e p : Char}, p.isAlpha = true → e.toLower = p → e.isAlpha = true := by
          intro e p letter same
          rw [← Char.isAlpha_toLower_eq_isAlpha, same, letter]
        exact List.forall_mem_cons.mpr ⟨alpha rfl first, List.forall_mem_cons.mpr ⟨alpha rfl second, others⟩⟩
  have nonempty : n ≠ [] := by
    rintro rfl
    cases handler
  have stop := head?_blanks (b := ⟨blanks, blank⟩) (c := '=') rest fun _ => rfl
  have found := handlerName_name ⟨n, nonempty, fun c member => by
    simp [isNameChar, Char.isAlphanum, letters c member]⟩ stop
  have sign : ((blanks ++ '=' :: rest).dropWhile isBlank).head? = some '=' := by
    rw [dropWhile_blanks ⟨blanks, blank⟩ rest rfl, List.head?_cons]
  rw [found, if_pos ⟨handler, sign⟩]

end Clear

namespace Html

section Steps

variable {s s' : State} {c : Char} {cs : List Char} {ended : Option Attribute}

/-- What the check has established where the reader is, as long as the quotes of the attribute there are
all quotes of a value. -/
def Held : State → List Char → Prop
  | .between, cs => Free cs
  | .name n, cs => handlerName (n ++ cs) = none ∧ (n.any isQuote = false → Clear cs)
  | .behindName n, cs =>
    (∃ blanks : List Char, (∀ b ∈ blanks, isBlank b = true) ∧ handlerName (n ++ (blanks ++ cs)) = none) ∧
      (n.any isQuote = false → Free cs)
  | .behindSign n, cs => isHandler n = false ∧ (n.any isQuote = false → Clear cs)
  | .quoted n q text, cs =>
    isHandler n = false ∧ q.char ∉ text ∧ (n.any isQuote = false → Clear (q.char :: (text ++ cs)))
  | .bare n text, cs => isHandler n = false ∧ (n.any isQuote = false → text.any isQuote = false → Clear cs)

theorem isBlank_of_isSpace (space : isSpace c = true) : isBlank c = true := by
  simp only [isSpace, Bool.or_eq_true, decide_eq_true_eq] at space
  rcases space with (((rfl | rfl) | rfl) | rfl) | rfl <;> rfl

theorem not_handler_of_none {n blanks : List Char} (blank : ∀ b ∈ blanks, isBlank b = true)
    (nothing : handlerName (n ++ (blanks ++ '=' :: cs)) = none) : isHandler n = false := by
  by_contra handler
  rw [Bool.not_eq_false] at handler
  cases (handlerName_handler handler blank).symm.trans nothing

theorem not_isHandler_bare (n : List Char) : ¬ (⟨n, none⟩ : Attribute).IsHandler := by
  rintro ⟨-, value⟩
  cases value

theorem not_isHandler_of_name {n : List Char} (value : Option Value) (other : isHandler n = false) :
    ¬ (⟨n, value⟩ : Attribute).IsHandler := by
  rintro ⟨handler, -⟩
  exact Bool.false_ne_true (other.symm.trans handler)

/-- An attribute that ends is no handler, and what was established is still so, if its quotes are all
quotes of a value. -/
def Keeps (ended : Option Attribute) (s : State) (cs : List Char) : Prop :=
  (∀ a ∈ ended, ¬ a.IsHandler) ∧ ((∀ a ∈ ended, a.IsPlain) → Held s cs)

theorem keeps_of_held (held : Held s cs) : Keeps none s cs := by
  constructor
  · intro a member
    cases member
  · exact fun _ => held

theorem keeps_ended {a : Attribute} (other : ¬ a.IsHandler) (held : a.IsPlain → Held s cs) :
    Keeps (some a) s cs := by
  constructor
  · intro b member
    exact Option.mem_some_iff.mp member ▸ other
  · intro plain
    exact held (plain a rfl)

theorem held_between (held : Held .between (c :: cs)) (moves : State.between.step c = .next ended s') :
    Keeps ended s' cs := by
  obtain ⟨clear, nothing⟩ := held
  rw [State.step] at moves
  split at moves
  · cases moves
  · rename_i inside
    split at moves
    · rename_i separator
      cases moves
      apply keeps_of_held
      apply clear.separated
      rw [Bool.or_eq_true, decide_eq_true_eq] at separator
      exact separator.imp isBlank_of_isSpace id
    · cases moves
      apply keeps_of_held
      refine ⟨nothing, fun plain => clear.tail ?_ inside⟩
      simpa using plain

theorem held_name {n : List Char} (held : Held (.name n) (c :: cs))
    (moves : (State.name n).step c = .next ended s') : Keeps ended s' cs := by
  obtain ⟨nothing, clear⟩ := held
  rw [State.step] at moves
  split at moves
  · cases moves
  · rename_i inside
    split at moves
    · rename_i sign
      subst sign
      cases moves
      apply keeps_of_held
      have unblanked : ∀ b ∈ ([] : List Char), isBlank b = true := by simp
      refine ⟨not_handler_of_none unblanked nothing, fun plain => ?_⟩
      exact (clear plain).tail rfl inside
    · split at moves
      · rename_i slash
        subst slash
        cases moves
        exact keeps_ended (not_isHandler_bare n) fun plain => (clear plain.1).separated (Or.inr rfl)
      · split at moves
        · rename_i space
          cases moves
          have blank := isBlank_of_isSpace space
          apply keeps_of_held
          refine ⟨⟨[c], by simpa using blank, by simpa using nothing⟩, fun plain => ?_⟩
          exact (clear plain).separated (Or.inl blank)
        · cases moves
          apply keeps_of_held
          refine ⟨by simpa using nothing, fun plain => ?_⟩
          rw [List.any_append, Bool.or_eq_false_iff] at plain
          exact (clear plain.1).tail (by simpa using plain.2) inside

theorem held_behindName {n : List Char} (held : Held (.behindName n) (c :: cs))
    (moves : (State.behindName n).step c = .next ended s') : Keeps ended s' cs := by
  obtain ⟨⟨blanks, blank, nothing⟩, free⟩ := held
  rw [State.step] at moves
  split at moves
  · cases moves
  · rename_i inside
    split at moves
    · rename_i sign
      subst sign
      cases moves
      apply keeps_of_held
      exact ⟨not_handler_of_none blank nothing, fun plain => (free plain).1.tail rfl inside⟩
    · split at moves
      · rename_i slash
        subst slash
        cases moves
        exact keeps_ended (not_isHandler_bare n) fun plain => (free plain.1).1.separated (Or.inr rfl)
      · split at moves
        · rename_i space
          cases moves
          have here := isBlank_of_isSpace space
          apply keeps_of_held
          refine ⟨⟨blanks ++ [c], ?_, by simpa using nothing⟩, fun plain => ?_⟩
          · simpa [or_imp, forall_and, here] using blank
          · exact (free plain).1.separated (Or.inl here)
        · cases moves
          apply keeps_ended (not_isHandler_bare n)
          intro plain
          obtain ⟨clear, none⟩ := free plain.1
          refine ⟨none, fun quote => clear.tail ?_ inside⟩
          simpa using quote

theorem held_behindSign {n : List Char} (held : Held (.behindSign n) (c :: cs))
    (moves : (State.behindSign n).step c = .next ended s') : Keeps ended s' cs := by
  obtain ⟨other, clear⟩ := held
  rw [State.step] at moves
  split at moves
  · cases moves
  · rename_i inside
    split at moves
    · rename_i space
      cases moves
      apply keeps_of_held
      exact ⟨other, fun plain => ((clear plain).separated (Or.inl (isBlank_of_isSpace space))).1⟩
    · split at moves
      · rename_i double
        subst double
        cases moves
        exact keeps_of_held ⟨other, by simp, clear⟩
      · rename_i double
        split at moves
        · rename_i single
          subst single
          cases moves
          exact keeps_of_held ⟨other, by simp, clear⟩
        · rename_i single
          cases moves
          apply keeps_of_held
          refine ⟨other, fun plain _ => (clear plain).tail ?_ inside⟩
          simp [isQuote, double, single]

theorem held_quoted {n text : List Char} {q : Quote} (held : Held (.quoted n q text) (c :: cs))
    (moves : (State.quoted n q text).step c = .next ended s') : Keeps ended s' cs := by
  obtain ⟨other, closed, clear⟩ := held
  rw [State.step] at moves
  split at moves
  · rename_i quote
    subst quote
    cases moves
    exact keeps_ended (not_isHandler_of_name _ other) fun plain => (clear plain.1).quoted closed
  · rename_i inside
    cases moves
    apply keeps_of_held
    refine ⟨other, ?_, fun plain => by simpa using clear plain⟩
    simpa [closed] using Ne.symm inside

theorem held_bare {n text : List Char} (held : Held (.bare n text) (c :: cs))
    (moves : (State.bare n text).step c = .next ended s') : Keeps ended s' cs := by
  obtain ⟨other, clear⟩ := held
  rw [State.step] at moves
  split at moves
  · cases moves
  · rename_i inside
    split at moves
    · rename_i space
      cases moves
      apply keeps_ended (not_isHandler_of_name _ other)
      intro plain
      exact (clear plain.1 (plain.2 text rfl)).separated (Or.inl (isBlank_of_isSpace space))
    · cases moves
      apply keeps_of_held
      refine ⟨other, fun plain quotes => ?_⟩
      rw [List.any_append, Bool.or_eq_false_iff] at quotes
      exact (clear plain quotes.1).tail (by simpa using quotes.2) inside

/-- One character of a tag that goes on. -/
theorem held_step (held : Held s (c :: cs)) (moves : s.step c = .next ended s') : Keeps ended s' cs := by
  cases s with
  | between => exact held_between held moves
  | name n => exact held_name held moves
  | behindName n => exact held_behindName held moves
  | behindSign n => exact held_behindSign held moves
  | quoted n q text => exact held_quoted held moves
  | bare n text => exact held_bare held moves

/-- The last character of a tag. -/
theorem not_handler_last (held : Held s (c :: cs)) (ends : s.step c = .last ended) :
    ∀ a ∈ ended, ¬ a.IsHandler := by
  intro a member
  cases s with
  | between =>
      rw [State.step] at ends
      split_ifs at ends
      cases ends
      cases member
  | name n | behindName n =>
      rw [State.step] at ends
      split_ifs at ends
      cases ends
      exact Option.mem_some_iff.mp member ▸ not_isHandler_bare n
  | behindSign n =>
      rw [State.step] at ends
      split_ifs at ends
      cases ends
      exact Option.mem_some_iff.mp member ▸ not_isHandler_of_name _ held.1
  | quoted n q text =>
      rw [State.step] at ends
      split_ifs at ends
  | bare n text =>
      rw [State.step] at ends
      split_ifs at ends
      cases ends
      exact Option.mem_some_iff.mp member ▸ not_isHandler_of_name _ held.1

end Steps

section Runs

variable {s : State} {cs : List Char} {as : List Attribute}

/-- The first handler is behind an attribute that is not plain. -/
def Shielded (as : List Attribute) : Prop :=
  ∀ xs a ys, as = xs ++ a :: ys → (∀ x ∈ xs, x.IsPlain) → ¬ a.IsHandler

theorem shielded_cons {a : Attribute} (other : ¬ a.IsHandler) (later : a.IsPlain → Shielded as) :
    Shielded (a :: as) := by
  intro xs b ys shape plain
  cases xs with
  | nil =>
      obtain ⟨rfl, -⟩ := List.cons.inj shape
      exact other
  | cons x xs =>
      obtain ⟨rfl, tail⟩ := List.cons.inj shape
      obtain ⟨first, others⟩ := List.forall_mem_cons.mp plain
      exact later first xs b ys tail others

theorem shielded_append {ended : Option Attribute} (others : ∀ a ∈ ended, ¬ a.IsHandler)
    (later : (∀ a ∈ ended, a.IsPlain) → Shielded as) : Shielded (ended.toList ++ as) := by
  cases ended with
  | none => exact later fun a member => by cases member
  | some a =>
      apply shielded_cons (others a rfl)
      intro plain
      exact later fun b member => Option.mem_some_iff.mp member ▸ plain

theorem shielded_nil : Shielded [] := by
  intro xs a ys shape
  cases xs <;> cases shape

/-- The whole tag, by induction on its characters. -/
theorem shielded_attributes (held : Held s cs) (read : attributes? s cs = some as) : Shielded as := by
  induction cs generalizing s as with
  | nil => cases read
  | cons c cs ih =>
      rw [attributes?] at read
      cases moves : s.step c with
      | last ended =>
          rw [moves] at read
          obtain rfl := Option.some.inj read
          rw [← List.append_nil ended.toList]
          exact shielded_append (not_handler_last held moves) fun _ => shielded_nil
      | next ended s' =>
          rw [moves] at read
          obtain ⟨more, later, rfl⟩ := Option.map_eq_some_iff.mp read
          obtain ⟨others, keeps⟩ := held_step held moves
          exact shielded_append others fun plain => ih (keeps plain) later

end Runs

section Tags

variable {before rest : List Char} {t : StartTag}

theorem handler?_of_accepted {output : String} (accepted : violation? output = none) :
    handler? output.toList = none := by
  have passes : Passes output := by constructor <;> simp [accepted]
  rw [violation?_of_passes passes] at accepted
  split at accepted
  · cases accepted
  · assumption

theorem foldsToLetter_of_endsName {c : Char} (ends : endsName c = true) : foldsToLetter c = false := by
  simp only [endsName, Bool.or_eq_true, decide_eq_true_eq] at ends
  rcases ends with (space | rfl) | rfl
  · exact foldsToLetter_of_isBlank (isBlank_of_isSpace space)
  · rfl
  · rfl

theorem shielded_startTag (clear : Clear rest) (read : startTag? rest = some t)
    (plain : t.name.any isQuote = false) : Shielded t.attributes := by
  rw [startTag?] at read
  split at read
  · obtain ⟨as, attributes, rfl⟩ := Option.map_eq_some_iff.mp read
    have inside : '>' ∉ rest.takeWhile (!endsName ·) := by
      intro member
      simpa [endsName] using List.mem_takeWhile_imp member
    have whole : Clear (rest.takeWhile (!endsName ·) ++ rest.dropWhile (!endsName ·)) := by
      rwa [List.takeWhile_append_dropWhile]
    have behind : Clear (rest.dropWhile (!endsName ·)) := whole.append plain inside
    have nothing : handlerName (rest.dropWhile (!endsName ·)) = none := by
      apply handlerName_of_head?
      intro d first
      have ends := List.head?_dropWhile_not (!endsName ·) rest
      rw [Option.mem_def.mp first] at ends
      exact foldsToLetter_of_endsName (by simpa using ends)
    exact shielded_attributes (s := .between) ⟨behind, nothing⟩ attributes
  · cases read

end Tags

/-- In a text that is accepted, a start tag as a tokenizer reads it has no handler, unless a quote that
is none of a value stands before it: in the name of the tag, in that of an attribute or in a value
that is not quoted. -/
theorem handler_behind_quote {output : String} (accepted : violation? output = none)
    {before rest : List Char} (split : output.toList = before ++ '<' :: rest) {t : StartTag}
    (read : startTag? rest = some t) {xs ys : List Attribute} {a : Attribute}
    (attributes : t.attributes = xs ++ a :: ys) (handler : a.IsHandler) :
    t.name.any isQuote = true ∨ ∃ x ∈ xs, ¬ x.IsPlain := by
  have nothing := handler?_of_accepted accepted
  rw [split] at nothing
  by_contra none
  rw [not_or, Bool.not_eq_true] at none
  obtain ⟨plain, others⟩ := none
  have shielded := shielded_startTag (clear_of_handler? nothing) read plain
  refine shielded xs a ys attributes (fun x member => ?_) handler
  by_contra stray
  exact others ⟨x, member, stray⟩

/-- A quote in a value that is not quoted hides the handler behind it. -/
theorem handler_behind_quote_of_bare :
    let output := "<rect x=a'b onload=f>"
    let x : Attribute := ⟨"x".toList, some (.bare "a'b".toList)⟩
    let a : Attribute := ⟨"onload".toList, some (.bare "f".toList)⟩
    violation? output = none ∧ startTag? (output.toList.drop 1) = some ⟨"rect".toList, [x, a]⟩ ∧
      a.IsHandler ∧ ¬ x.IsPlain := by
  intro output x a
  have accepted : violation? output = none := by decide +kernel
  have split : output.toList = [] ++ '<' :: output.toList.drop 1 := by decide +kernel
  have read : startTag? (output.toList.drop 1) = some ⟨"rect".toList, [x, a]⟩ := by decide +kernel
  have handler : a.IsHandler := ⟨by decide +kernel, rfl⟩
  have named : "rect".toList.any isQuote = false := by decide +kernel
  have attributes : (⟨"rect".toList, [x, a]⟩ : StartTag).attributes = [x] ++ a :: [] := rfl
  refine ⟨accepted, read, handler, ?_⟩
  rcases handler_behind_quote accepted split read attributes handler with name | ⟨y, member, stray⟩
  · exact absurd (named.symm.trans name) Bool.false_ne_true
  · rwa [List.mem_singleton.mp member] at stray

/-- Behind one quote too many a handler is accepted. -/
theorem accepts_handler :
    let output := "<rect width=\"1\"\" onclick=\"steal()\"/>"
    let a : Attribute := ⟨"onclick".toList, some (.quoted .double "steal()".toList)⟩
    violation? output = none ∧ startTag? (output.toList.drop 1) = some ⟨"rect".toList,
      [⟨"width".toList, some (.quoted .double "1".toList)⟩, ⟨"\"".toList, none⟩, a]⟩ ∧ a.IsHandler := by
  intro output a
  exact ⟨by decide +kernel, by decide +kernel, by decide +kernel, rfl⟩

end Html

end SlideDeck.Markup
