import Mathlib
import SlideDeck.Json.Reader
import SlideDeck.Json.Writing

/-!
Reading a part of a text: what a reader makes of it and what it leaves, wherever the part stands. Strings
are read back as they were written.
-/

namespace SlideDeck.Json.Reader

variable {α β : Type}

/-- Wherever `text` stands, the reader makes `a` of it and stops before `rest`. -/
def Reads (r : Reader α) (depth : Nat) (text rest : List Char) (a : α) : Prop :=
  ∀ position, ∃ position', r ⟨text, position, depth⟩ = .ok (a, ⟨rest, position', depth⟩)

def Refuses (r : Reader α) (depth : Nat) (text : List Char) : Prop :=
  ∀ position, ∃ position', r ⟨text, position, depth⟩ = .error ⟨.tooDeep, position'⟩

/-- Where the text `fits`, the reader makes something of it that `holds` is true of, and stops before
`rest`; else it finds it nested too deeply. -/
def Settles (r : Reader α) (depth : Nat) (text rest : List Char) (fits : Prop) (holds : α → Prop) : Prop :=
  (fits → ∃ a, holds a ∧ Reads r depth text rest a) ∧ (¬ fits → Refuses r depth text)

section Sequence

variable {r : Reader α} {f : α → Reader β} {depth : Nat} {text middle rest : List Char} {a : α} {b : β}

theorem bind_apply (r : Reader α) (f : α → Reader β) (c : Cursor) :
    (r >>= f) c = match r c with
      | .ok (a, c') => f a c'
      | .error p => .error p := by
  show StateT.bind r f c = _
  unfold StateT.bind
  cases r c <;> rfl

theorem reads_pure (a : α) (depth : Nat) (text : List Char) : Reads (pure a) depth text text a :=
  fun position => ⟨position, rfl⟩

theorem Reads.bind (first : Reads r depth text middle a) (second : Reads (f a) depth middle rest b) :
    Reads (r >>= f) depth text rest b := by
  intro position
  obtain ⟨between, first⟩ := first position
  obtain ⟨position', second⟩ := second between
  refine ⟨position', ?_⟩
  rw [bind_apply, first]
  exact second

theorem Refuses.bind (first : Refuses r depth text) : Refuses (r >>= f) depth text := by
  intro position
  obtain ⟨position', first⟩ := first position
  refine ⟨position', ?_⟩
  rw [bind_apply, first]

theorem Reads.bind_refuses (first : Reads r depth text middle a) (second : Refuses (f a) depth middle) :
    Refuses (r >>= f) depth text := by
  intro position
  obtain ⟨between, first⟩ := first position
  obtain ⟨position', second⟩ := second between
  refine ⟨position', ?_⟩
  rw [bind_apply, first]
  exact second

variable {fits more : Prop} {holds : α → Prop} {yields : β → Prop}

theorem Reads.settles (reads : Reads r depth text rest a) (held : holds a) :
    Settles r depth text rest True holds :=
  ⟨fun _ => ⟨a, held, reads⟩, fun never => absurd trivial never⟩

theorem Settles.congr (settles : Settles r depth text rest fits holds) (same : fits ↔ more) :
    Settles r depth text rest more holds :=
  ⟨fun fit => settles.1 (same.mpr fit), fun misfit => settles.2 fun fit => misfit (same.mp fit)⟩

theorem Reads.bind_settles (first : Reads r depth text middle a)
    (second : Settles (f a) depth middle rest fits yields) :
    Settles (r >>= f) depth text rest fits yields := by
  refine ⟨fun fit => ?_, fun misfit => first.bind_refuses (second.2 misfit)⟩
  obtain ⟨b, yield, reads⟩ := second.1 fit
  exact ⟨b, yield, first.bind reads⟩

theorem Settles.bind (first : Settles r depth text middle fits holds)
    (second : ∀ a, holds a → Settles (f a) depth middle rest more yields) :
    Settles (r >>= f) depth text rest (fits ∧ more) yields := by
  by_cases fit : fits
  · obtain ⟨a, held, reads⟩ := first.1 fit
    exact (reads.bind_settles (second a held)).congr (by simp [fit])
  · exact ⟨fun both => absurd both.1 fit, fun _ => (first.2 fit).bind⟩

theorem Settles.then (first : Settles r depth text middle fits holds)
    (second : ∀ a, holds a → ∃ b, yields b ∧ Reads (f a) depth middle rest b) :
    Settles (r >>= f) depth text rest fits yields := by
  refine ⟨fun fit => ?_, fun misfit => (first.2 misfit).bind⟩
  obtain ⟨a, held, reads⟩ := first.1 fit
  obtain ⟨b, yield, reads'⟩ := second a held
  exact ⟨b, yield, reads.bind reads'⟩

theorem Settles.nested (inner : 0 < depth → Settles r depth text rest fits holds) :
    Settles (Reader.nested r) (depth + 1) text rest (0 < depth ∧ fits) holds := by
  rcases Nat.eq_zero_or_pos depth with rfl | some
  · refine ⟨fun both => absurd both.1 (Nat.lt_irrefl 0), fun _ position => ?_⟩
    simp only [Reader.nested, Nat.zero_add, le_refl, if_true, failAhead]
    split <;> exact ⟨_, rfl⟩
  · have room : ¬ depth + 1 ≤ 1 := by omega
    refine ⟨fun both => ?_, fun misfit position => ?_⟩
    · obtain ⟨a, held, reads⟩ := (inner some).1 both.2
      refine ⟨a, held, fun position => ?_⟩
      obtain ⟨position', reads⟩ := reads position
      exact ⟨position', by simp only [Reader.nested, if_neg room, Nat.add_sub_cancel, reads]⟩
    · obtain ⟨position', refuses⟩ := (inner some).2 (fun fit => misfit ⟨some, fit⟩) position
      exact ⟨position', by simp only [Reader.nested, if_neg room, Nat.add_sub_cancel, refuses]⟩

end Sequence

section Characters

variable {c : Char} {text rest : List Char} {depth : Nat} {p : Char → Bool}

theorem reads_peek (depth : Nat) (text : List Char) : Reads peek depth text text text.head? :=
  fun position => ⟨position, rfl⟩

theorem reads_next (depth : Nat) (c : Char) (rest : List Char) :
    Reads next depth (c :: rest) rest (some c) := fun position => ⟨position.next c, rfl⟩

theorem reads_skip (depth : Nat) (c : Char) (rest : List Char) : Reads skip depth (c :: rest) rest () :=
  (reads_next depth c rest).bind (reads_pure () depth rest)

theorem reads_takeWhile (all : ∀ c ∈ text, p c = true) (stop : ∀ c ∈ rest.head?, p c = false) (depth : Nat) :
    Reads (takeWhile p) depth (text ++ rest) rest text := by
  have none : rest.takeWhile p = [] ∧ rest.dropWhile p = rest := by
    cases rest with
    | nil => exact ⟨rfl, rfl⟩
    | cons c rest => simp [stop c rfl]
  intro position
  refine ⟨text.foldl Position.next position, ?_⟩
  simp only [takeWhile, List.takeWhile_append_of_pos all, List.dropWhile_append_of_pos all, none,
    List.append_nil]

theorem reads_peekToken (mark : isSpace c = false) (depth : Nat) (rest : List Char) :
    Reads peekToken depth (c :: rest) (c :: rest) (some c) := by
  have blanks : Reads (takeWhile isSpace) depth ([] ++ c :: rest) (c :: rest) [] :=
    reads_takeWhile (fun _ member => absurd member List.not_mem_nil)
      (fun d same => by simp_all) depth
  exact blanks.bind (reads_peek depth (c :: rest))

theorem reads_word (ws rest : List Char) (depth : Nat) : Reads (word ws) depth (ws ++ rest) rest () := by
  induction ws with
  | nil => exact reads_pure () depth rest
  | cons w ws ih =>
      refine (reads_next depth w (ws ++ rest)).bind ?_
      simp only [if_true]
      exact ih

end Characters

section Strings

variable {c : Char} {more rest : List Char} {depth fuel : Nat} {acc : List Char} {s : String}

theorem hexValue_hexDigit : ∀ n < 16, hexValue (hexDigit n) = some n := by
  decide

theorem reads_hexEscape (depth n : Nat) (small : n < 256) (rest : List Char) :
    Reads hexEscape depth ('0' :: '0' :: hexDigit (n / 16) :: hexDigit (n % 16) :: rest) rest n := by
  intro position
  have zero : hexValue '0' = some 0 := by decide
  have high := hexValue_hexDigit (n / 16) (by omega)
  have low := hexValue_hexDigit (n % 16) (by omega)
  have value : ((0 * 16 + 0) * 16 + n / 16) * 16 + n % 16 = n := by omega
  refine ⟨['0', '0', hexDigit (n / 16), hexDigit (n % 16)].foldl Position.next position, ?_⟩
  simp only [hexEscape, zero, high, low, value]

theorem reads_unicodeEscape (depth : Nat) (control : c.toNat < 32) (rest : List Char) :
    Reads unicodeEscape depth
      ('0' :: '0' :: hexDigit (c.toNat / 16) :: hexDigit (c.toNat % 16) :: rest) rest c := by
  refine (reads_hexEscape depth c.toNat (by omega) rest).bind ?_
  rw [if_neg (by omega), if_pos (by omega), Char.ofNat_toNat]
  exact reads_pure c depth rest

theorem reads_simpleEscape {e : Char} (stands : simpleEscape e = some c) (letter : e ≠ 'u')
    (body : Reads (stringBody true fuel (c :: acc)) depth more rest s) :
    Reads (stringBody true (fuel + 1) acc) depth ('\\' :: e :: more) rest s := by
  unfold stringBody
  refine (reads_next depth '\\' (e :: more)).bind ?_
  refine (reads_next depth e more).bind ?_
  split
  · rename_i nothing
    cases nothing
  · rename_i same
    exact absurd (Option.some.inj same) letter
  · rename_i d _ same
    obtain rfl := Option.some.inj same
    rw [stands]
    exact body

theorem reads_escapeChar (body : Reads (stringBody true fuel (c :: acc)) depth more rest s) :
    Reads (stringBody true (fuel + 1) acc) depth (escapeChar c ++ more) rest s := by
  unfold escapeChar
  split_ifs with quoted backslash plain newline tab return_ backspace formfeed
  · exact reads_simpleEscape (by rw [quoted]; rfl) (by decide) body
  · exact reads_simpleEscape (by rw [backslash]; rfl) (by decide) body
  · unfold stringBody
    refine (reads_next depth c more).bind ?_
    split
    · rename_i nothing
      cases nothing
    · rename_i same
      exact absurd (Option.some.inj same) quoted
    · rename_i same
      exact absurd (Option.some.inj same) backslash
    · rename_i d _ _ same
      obtain rfl := Option.some.inj same
      rw [if_neg (by omega)]
      exact body
  · exact reads_simpleEscape (by rw [newline]; rfl) (by decide) body
  · exact reads_simpleEscape (by rw [tab]; rfl) (by decide) body
  · exact reads_simpleEscape (by rw [return_]; rfl) (by decide) body
  · have code : c = Char.ofNat 8 := by rw [← backspace, Char.ofNat_toNat]
    exact reads_simpleEscape (by rw [code]; rfl) (by decide) body
  · have code : c = Char.ofNat 12 := by rw [← formfeed, Char.ofNat_toNat]
    exact reads_simpleEscape (by rw [code]; rfl) (by decide) body
  · unfold stringBody
    refine (reads_next depth '\\' _).bind ?_
    refine (reads_next depth 'u' _).bind ?_
    exact (reads_unicodeEscape depth (not_le.mp plain) more).bind body

theorem length_le_flatMap_escapeChar (cs : List Char) : cs.length ≤ (cs.flatMap escapeChar).length := by
  induction cs with
  | nil => exact le_rfl
  | cons c cs ih =>
      have some : 0 < (escapeChar c).length := by
        unfold escapeChar
        split_ifs <;> exact Nat.succ_pos _
      rw [List.flatMap_cons, List.length_append, List.length_cons]
      omega

theorem reads_stringBody (cs : List Char) (enough : cs.length < fuel) (acc : List Char) (depth : Nat)
    (rest : List Char) :
    Reads (stringBody true fuel acc) depth (cs.flatMap escapeChar ++ '"' :: rest) rest
      (String.ofList (acc.reverse ++ cs)) := by
  induction cs generalizing fuel acc with
  | nil =>
      obtain ⟨fuel, rfl⟩ : ∃ n, fuel = n + 1 := ⟨fuel - 1, by simp at enough; omega⟩
      rw [List.append_nil]
      unfold stringBody
      exact (reads_next depth '"' rest).bind (reads_pure _ depth rest)
  | cons c cs ih =>
      rw [List.length_cons] at enough
      obtain ⟨fuel, rfl⟩ : ∃ n, fuel = n + 1 := ⟨fuel - 1, by omega⟩
      have room : cs.length < fuel := by omega
      have more := ih room (c :: acc)
      rw [List.reverse_cons, List.append_assoc] at more
      rw [List.flatMap_cons, List.append_assoc]
      exact reads_escapeChar more

theorem toList_quote (s : String) : (quote s).toList = '"' :: (s.toList.flatMap escapeChar ++ ['"']) := by
  have grow : ∀ (cs : List Char) (acc : String),
      (cs.foldl (fun acc c => if 32 ≤ c.toNat ∧ c ≠ '"' ∧ c ≠ '\\' then acc.push c
        else acc ++ String.ofList (escapeChar c)) acc).toList = acc.toList ++ cs.flatMap escapeChar := by
    intro cs
    induction cs with
    | nil => simp
    | cons c cs ih =>
        intro acc
        rw [List.foldl_cons, ih, List.flatMap_cons, ← List.append_assoc]
        congr 1
        split
        · rename_i plain
          rw [String.toList_push, escapeChar, if_neg plain.2.1, if_neg plain.2.2, if_pos plain.1]
        · rw [String.toList_append, String.toList_ofList]
  have mark : "\"".toList = ['"'] := rfl
  rw [quote, String.foldl_eq_foldl_toList, String.toList_append, String.toList_append, grow, mark]
  rfl

theorem reads_string (s : String) (depth : Nat) (rest : List Char) :
    Reads string depth (s.toList.flatMap escapeChar ++ '"' :: rest) rest s := by
  intro position
  have enough : s.toList.length < (s.toList.flatMap escapeChar ++ '"' :: rest).length + 1 := by
    have long := length_le_flatMap_escapeChar s.toList
    rw [List.length_append]
    omega
  have body := reads_stringBody s.toList enough [] depth rest position
  rw [List.reverse_nil, List.nil_append, String.ofList_toList] at body
  exact body

end Strings

/-! Lists and objects, whose members are read one after the other. -/

/-- Texts with commas between them, and before the first one as well unless it `opens`. -/
def separated (opens : Bool) : List (List Char) → List Char
  | [] => []
  | t :: ts => (if opens then t else ',' :: t) ++ separated false ts

def Stops (rest : List Char) : Prop := ∀ c ∈ rest.head?, c = ',' ∨ c = ']' ∨ c = '}'

def Begins (text : List Char) : Prop :=
  ∃ c cs, text = c :: cs ∧ isSpace c = false ∧ c ≠ ']'

section Members

variable {γ : Type} {item : Reader β} {write : α → List Char} {fits : α → Prop} {holds : α → β → Prop}
  {xs : List α} {depth fuel : Nat}

theorem stops_cons {c : Char} (stop : c = ',' ∨ c = ']' ∨ c = '}') (rest : List Char) : Stops (c :: rest) := by
  intro d same
  obtain rfl := Option.some.inj same
  exact stop

theorem stops_separated (ts : List (List Char)) {rest : List Char} (stops : Stops rest) :
    Stops (separated false ts ++ rest) := by
  cases ts with
  | nil => exact stops
  | cons t ts => exact stops_cons (Or.inl rfl) _

theorem length_le_separated (ts : List (List Char)) (begin_ : ∀ t ∈ ts, Begins t) (opens : Bool) :
    ts.length ≤ (separated opens ts).length := by
  induction ts generalizing opens with
  | nil => exact Nat.zero_le _
  | cons t ts ih =>
      obtain ⟨c, cs, rfl, -⟩ := begin_ t List.mem_cons_self
      have more := ih (fun u member => begin_ u (List.mem_cons_of_mem _ member)) false
      cases opens <;> simp only [separated, List.length_append, List.length_cons, if_true, if_false,
        Bool.false_eq_true] <;> omega

theorem reads_moreItems_end (opens : Bool) (depth : Nat) (rest : List Char) :
    Reads (moreItems opens) depth (']' :: rest) (']' :: rest) false :=
  (reads_peekToken rfl depth rest).bind (reads_pure false depth _)

theorem reads_moreItems (opens : Bool) {t : List Char} (begins : Begins t) (depth : Nat) (rest : List Char) :
    Reads (moreItems opens) depth ((if opens then t else ',' :: t) ++ rest) (t ++ rest) true := by
  obtain ⟨c, cs, rfl, token, open_⟩ := begins
  unfold moreItems
  cases opens
  · refine (reads_peekToken rfl depth _).bind ?_
    refine (reads_skip depth ',' _).bind ?_
    refine (reads_peekToken token depth _).bind ?_
    split
    · rename_i nothing
      cases nothing
    · rename_i same
      exact absurd (Option.some.inj same) open_
    · exact reads_pure true depth _
  · refine (reads_peekToken token depth _).bind ?_
    split
    · rename_i nothing
      cases nothing
    · rename_i same
      exact absurd (Option.some.inj same) open_
    · exact reads_pure true depth _

/-- The items of a list are read in order; the first one that is nested too deeply ends it. -/
theorem settles_items
    (each : ∀ x ∈ xs, ∀ rest, Stops rest → Settles item depth (write x ++ rest) rest (fits x) (holds x))
    (begin_ : ∀ x ∈ xs, Begins (write x)) (enough : xs.length < fuel) (opens : Bool) (acc : List β)
    (rest : List Char) :
    Settles (items item fuel opens acc) depth (separated opens (xs.map write) ++ ']' :: rest) (']' :: rest)
      (∀ x ∈ xs, fits x) fun all => ∃ ys, List.Forall₂ holds xs ys ∧ all = acc.reverse ++ ys := by
  induction xs generalizing fuel opens acc with
  | nil =>
      obtain ⟨fuel, rfl⟩ : ∃ n, fuel = n + 1 := ⟨fuel - 1, by simp at enough; omega⟩
      have stop : Reads (items item (fuel + 1) opens acc) depth (']' :: rest) (']' :: rest) acc.reverse :=
        (reads_moreItems_end opens depth rest).bind (reads_pure _ depth _)
      exact (stop.settles ⟨[], .nil, (List.append_nil _).symm⟩).congr (by simp)
  | cons x xs ih =>
      rw [List.length_cons] at enough
      obtain ⟨fuel, rfl⟩ : ∃ n, fuel = n + 1 := ⟨fuel - 1, by omega⟩
      rw [List.map_cons, separated, List.append_assoc]
      refine Settles.congr ?_ List.forall_mem_cons.symm
      unfold items
      refine (reads_moreItems opens (begin_ x List.mem_cons_self) depth _).bind_settles ?_
      refine (each x List.mem_cons_self _ (stops_separated _ (stops_cons (Or.inr (Or.inl rfl)) rest))).bind
        fun y held => ?_
      have room : xs.length < fuel := by omega
      obtain ⟨reads, refuses⟩ := ih (fun z member => each z (List.mem_cons_of_mem x member))
        (fun z member => begin_ z (List.mem_cons_of_mem x member)) room false (y :: acc)
      refine ⟨fun fit => ?_, refuses⟩
      obtain ⟨all, ⟨ys, related, rfl⟩, reads⟩ := reads fit
      exact ⟨_, ⟨y :: ys, .cons held related, by simp⟩, reads⟩

theorem reads_nextKey_end (opens : Bool) (depth : Nat) (rest : List Char) :
    Reads (nextKey string opens) depth ('}' :: rest) ('}' :: rest) none :=
  (reads_peekToken rfl depth rest).bind (reads_pure none depth _)

theorem reads_nextKey (opens : Bool) (key : String) (depth : Nat) (rest : List Char) :
    Reads (nextKey string opens) depth ((if opens then (quote key).toList else ',' :: (quote key).toList) ++ rest)
      rest (some key) := by
  have body : Reads (do skip; return some (← string)) depth ((quote key).toList ++ rest) rest (some key) := by
    rw [toList_quote, List.cons_append, List.append_assoc]
    exact (reads_skip depth '"' _).bind ((reads_string key depth rest).bind (reads_pure (some key) depth rest))
  have opening : ∃ cs, (quote key).toList ++ rest = '"' :: cs := ⟨_, by rw [toList_quote, List.cons_append]⟩
  obtain ⟨cs, text⟩ := opening
  unfold nextKey
  cases opens
  · simp only [Bool.false_eq_true, if_false, List.cons_append]
    rw [text] at body ⊢
    refine (reads_peekToken rfl depth _).bind ?_
    refine (reads_skip depth ',' _).bind ?_
    exact (reads_peekToken rfl depth _).bind body
  · simp only [if_true]
    rw [text] at body ⊢
    exact (reads_peekToken rfl depth _).bind body

theorem reads_colon (depth : Nat) (rest : List Char) : Reads colon depth (':' :: rest) rest () :=
  (reads_peekToken rfl depth rest).bind (reads_skip depth ':' rest)

def fieldText (write : α → List Char) (f : String × α) : List Char :=
  (quote f.1).toList ++ ':' :: write f.2

theorem begins_fieldText (write : α → List Char) (f : String × α) : Begins (fieldText write f) := by
  rw [fieldText, toList_quote, List.cons_append]
  exact ⟨'"', _, rfl, rfl, by decide⟩

def field (item : Reader β) (acc : List (String × β)) (key : String) : Reader (List (String × β)) := do
  colon
  return (key, ← item) :: acc

theorem settles_fields {fs : List (String × α)}
    (each : ∀ f ∈ fs, ∀ rest, Stops rest →
      Settles item depth (write f.2 ++ rest) rest (fits f.2) (holds f.2))
    (enough : fs.length < fuel) (opens : Bool) (acc : List (String × β)) (rest : List Char) :
    Settles (fields string (field item) fuel opens acc) depth
      (separated opens (fs.map (fieldText write)) ++ '}' :: rest) ('}' :: rest) (∀ f ∈ fs, fits f.2)
      fun all => ∃ gs, List.Forall₂ (fun f g => f.1 = g.1 ∧ holds f.2 g.2) fs gs ∧ all = gs.reverse ++ acc := by
  induction fs generalizing fuel opens acc with
  | nil =>
      obtain ⟨fuel, rfl⟩ : ∃ n, fuel = n + 1 := ⟨fuel - 1, by simp at enough; omega⟩
      have stop : Reads (fields string (field item) (fuel + 1) opens acc) depth ('}' :: rest) ('}' :: rest) acc :=
        (reads_nextKey_end opens depth rest).bind (reads_pure _ depth _)
      exact (stop.settles ⟨[], .nil, rfl⟩).congr (by simp)
  | cons f fs ih =>
      rw [List.length_cons] at enough
      obtain ⟨fuel, rfl⟩ : ∃ n, fuel = n + 1 := ⟨fuel - 1, by omega⟩
      have text : separated opens ((f :: fs).map (fieldText write)) ++ '}' :: rest =
          (if opens then (quote f.1).toList else ',' :: (quote f.1).toList) ++
            ':' :: (write f.2 ++ (separated false (fs.map (fieldText write)) ++ '}' :: rest)) := by
        cases opens <;> simp [separated, fieldText]
      rw [text]
      refine Settles.congr ?_ List.forall_mem_cons.symm
      unfold fields
      refine (reads_nextKey opens f.1 depth _).bind_settles ?_
      have stops := stops_separated (fs.map (fieldText write)) (stops_cons (Or.inr (Or.inr rfl)) rest)
      have value : Settles (field item acc f.1) depth
          (':' :: (write f.2 ++ (separated false (fs.map (fieldText write)) ++ '}' :: rest)))
          (separated false (fs.map (fieldText write)) ++ '}' :: rest) (fits f.2)
          fun all => ∃ b, holds f.2 b ∧ all = (f.1, b) :: acc := by
        refine (reads_colon depth _).bind_settles ?_
        exact (each f List.mem_cons_self _ stops).then fun b held => ⟨_, ⟨b, held, rfl⟩, reads_pure _ depth _⟩
      refine value.bind ?_
      rintro _ ⟨b, held, rfl⟩
      have room : fs.length < fuel := by omega
      obtain ⟨reads, refuses⟩ := ih (fun g member => each g (List.mem_cons_of_mem f member)) room false
        ((f.1, b) :: acc)
      refine ⟨fun fit => ?_, refuses⟩
      obtain ⟨all, ⟨gs, related, rfl⟩, reads⟩ := reads fit
      exact ⟨_, ⟨(f.1, b) :: gs, .cons ⟨rfl, held⟩ related, by simp⟩, reads⟩

theorem Settles.measured {r : Nat → Reader β} {text rest : List Char} {fit : Prop} {yields : β → Prop}
    (inner : Settles (r text.length) depth text rest fit yields) :
    Settles (do let c ← get; r c.rest.length) depth text rest fit yields := inner

theorem settles_listOf
    (each : 0 < depth → ∀ x ∈ xs, ∀ rest, Stops rest →
      Settles item depth (write x ++ rest) rest (fits x) (holds x))
    (begin_ : ∀ x ∈ xs, Begins (write x)) (rest : List Char) :
    Settles (listOf item) (depth + 1) ('[' :: (separated true (xs.map write) ++ ']' :: rest)) rest
      (0 < depth ∧ ∀ x ∈ xs, fits x) fun ys => List.Forall₂ holds xs ys := by
  have enough : xs.length < (separated true (xs.map write) ++ ']' :: rest).length + 1 := by
    have long := length_le_separated (xs.map write)
      (fun t member => by obtain ⟨x, inside, rfl⟩ := List.mem_map.mp member; exact begin_ x inside) true
    rw [List.length_map] at long
    rw [List.length_append]
    omega
  have inside (some : 0 < depth) := Settles.measured (r := fun n => items item (n + 1) true [])
    (settles_items (each some) begin_ enough true [] rest)
  have listed := Settles.nested fun some =>
    (reads_skip depth '[' _).bind_settles (f := fun _ => _) (inside some)
  refine listed.then fun all held => ?_
  obtain ⟨ys, related, rfl⟩ := held
  have close : Reads endList (depth + 1) (']' :: rest) rest () :=
    (reads_peekToken rfl _ rest).bind (reads_skip _ ']' rest)
  exact ⟨_, related, close.bind (reads_pure _ _ rest)⟩

/-- The length of the text of an object bounds the number of its fields. -/
theorem length_fields_lt (write : α → List Char) (fs : List (String × α)) (rest : List Char) :
    fs.length < (separated true (fs.map (fieldText write)) ++ '}' :: rest).length + 1 := by
  have long := length_le_separated (fs.map (fieldText write))
    (fun t member => by obtain ⟨f, -, rfl⟩ := List.mem_map.mp member; exact begins_fieldText write f) true
  rw [List.length_map] at long
  rw [List.length_append]
  omega

variable (fits holds) in
theorem settles_objectWith {fs : List (String × α)}
    (each : 0 < depth → ∀ f ∈ fs, ∀ rest, Stops rest →
      Settles item depth (write f.2 ++ rest) rest (fits f.2) (holds f.2)) (rest : List Char) :
    Settles (objectWith [] (field item)) (depth + 1)
      ('{' :: (separated true (fs.map (fieldText write)) ++ '}' :: rest)) rest
      (0 < depth ∧ ∀ f ∈ fs, fits f.2)
      fun all => List.Forall₂ (fun f g => f.1 = g.1 ∧ holds f.2 g.2) fs all.reverse := by
  have enough := length_fields_lt write fs rest
  have inside (some : 0 < depth) := Settles.measured (r := fun n => fields string (field item) (n + 1) true [])
    (settles_fields (each some) enough true [] rest)
  have listed := Settles.nested fun some =>
    (reads_skip depth '{' _).bind_settles (f := fun _ => _) (inside some)
  refine listed.then fun all held => ?_
  obtain ⟨gs, related, rfl⟩ := held
  refine ⟨gs.reverse ++ [], by simpa using related, ?_⟩
  refine (reads_peekToken rfl (depth + 1) rest).bind ?_
  exact (reads_skip (depth + 1) '}' rest).bind (reads_pure _ _ rest)

end Members

end SlideDeck.Json.Reader
