import Mathlib
import SlideDeck.Proofs.Markup.Handler

/-!
On well-formed markup the checks for elements look at the names of start tags, and at nothing else. A
name counts as one in a list if it begins with it and does not go on with a letter, a digit or an
underscore; so a name that goes on with another mark counts too, and is not told from the shorter one.
-/

namespace SlideDeck.Markup

open Text

section Words

variable {p c : Char} {ps cs rest : List Char}

theorem isWord_of_isAlpha (letter : c.isAlpha = true) : isWord c = true := by
  have named : isNameChar c = true := by simp [isNameChar, Char.isAlphanum, letter]
  have bound : c.toNat < 128 := by
    have bounds := isNameChar_bounds named
    omega
  simp [isWord, bound, Char.isAlphanum, letter]

theorem isWord_of_foldsToLetter (letter : foldsToLetter c = true) : isWord c = true := by
  simp only [foldsToLetter, Bool.or_eq_true, decide_eq_true_eq] at letter
  rcases letter with (alpha | rfl) | rfl
  · exact isWord_of_isAlpha alpha
  · decide +kernel
  · decide +kernel

theorem foldsToLetter_of_foldsTo (lower : p.isLower = true) (folded : foldsTo p c = true) :
    foldsToLetter c = true := by
  have letter : p.isAlpha = true := by simp [Char.isAlpha, lower]
  simp only [foldsTo, Bool.or_eq_true, Bool.and_eq_true, decide_eq_true_eq] at folded
  rcases folded with (same | ⟨-, rfl⟩) | ⟨-, rfl⟩
  · exact foldsToLetter_of_toLower letter same
  · simp [foldsToLetter]
  · simp [foldsToLetter]

theorem foldsTo_of_isNameChar (named : isNameChar c = true) : foldsTo p c = true ↔ c.toLower = p := by
  have long : c ≠ longS := ne_of_kind named (by decide)
  have sign : c ≠ kelvin := ne_of_kind named (by decide)
  simp [foldsTo, long, sign]

def blankNumbers : List Nat :=
  List.range' 9 5 ++ [0x20, 0x85, 0xA0, 0x1680] ++ List.range' 0x2000 11 ++
    [0x2028, 0x2029, 0x202F, 0x205F, 0x3000]

theorem not_isWord_of_isBlank (blank : isBlank c = true) : isWord c = false := by
  have all : ∀ n ∈ blankNumbers, isWord (Char.ofNat n) = false := by decide +kernel
  have member : c.toNat ∈ blankNumbers := by
    simp only [isBlank, Bool.or_eq_true, Bool.and_eq_true, decide_eq_true_eq, beq_iff_eq] at blank
    simp only [blankNumbers, List.mem_append, List.mem_range'_1, List.mem_cons, List.not_mem_nil]
    omega
  rw [← Char.ofNat_toNat c]
  exact all c.toNat member

def isJoint (c : Char) : Bool := c = '-' || c = '.' || c = ':'

theorem isWord_of_isNameChar (named : isNameChar c = true) : isWord c = !isJoint c := by
  have bound : c.toNat < 128 := by
    have bounds := isNameChar_bounds named
    omega
  have word : isWord c = (c.isAlphanum || c = '_') := by simp [isWord, bound]
  rw [word]
  cases joint : isJoint c with
  | true =>
      simp only [isJoint, Bool.or_eq_true, decide_eq_true_eq] at joint
      rcases joint with (rfl | rfl) | rfl <;> rfl
  | false =>
      simp only [isJoint, Bool.or_eq_false_iff, decide_eq_false_iff_not] at joint
      simpa [isNameChar, joint] using named

theorem stripFolded_eq_some_iff : stripFolded ps cs = some rest ↔
    ∃ word, cs = word ++ rest ∧ List.Forall₂ (fun p c => foldsTo p c = true) ps word := by
  induction ps generalizing cs with
  | nil =>
      rw [stripFolded, Option.some.injEq]
      constructor
      · intro same
        exact ⟨[], same, .nil⟩
      · rintro ⟨word, shape, folded⟩
        cases folded
        exact shape
  | cons p ps ih =>
      cases cs with
      | nil =>
          simp only [stripFolded, reduceCtorEq, false_iff, not_exists, not_and]
          rintro word shape folded
          cases folded
          cases shape
      | cons c cs =>
          rw [stripFolded]
          constructor
          · intro stripped
            split at stripped
            · rename_i here
              obtain ⟨word, rfl, folded⟩ := ih.mp stripped
              exact ⟨c :: word, rfl, .cons here folded⟩
            · cases stripped
          · rintro ⟨word, shape, folded⟩
            cases folded with
            | cons here later =>
                rename_i d word
                obtain ⟨rfl, tail⟩ := List.cons.inj shape
                rw [if_pos here]
                exact ih.mpr ⟨word, tail, later⟩

theorem isWord_of_folded {word : List Char} (lower : ∀ p ∈ ps, p.isLower = true)
    (folded : List.Forall₂ (fun p c => foldsTo p c = true) ps word) : ∀ c ∈ word, isWord c = true := by
  induction folded with
  | nil =>
      intro c member
      cases member
  | cons here _ ih =>
      obtain ⟨first, later⟩ := List.forall_mem_cons.mp lower
      exact List.forall_mem_cons.mpr
        ⟨isWord_of_foldsToLetter (foldsToLetter_of_foldsTo first here), ih later⟩

theorem namedAt_iff (lower : ∀ p ∈ ps, p.isLower = true) : namedAt ps cs = true ↔
    List.Forall₂ (fun p c => foldsTo p c = true) ps (cs.takeWhile isWord) := by
  constructor
  · intro named
    rw [namedAt] at named
    split at named
    · rename_i rest stripped
      obtain ⟨word, rfl, folded⟩ := stripFolded_eq_some_iff.mp stripped
      have inside := isWord_of_folded lower folded
      have stop : rest.takeWhile isWord = [] := by
        cases rest with
        | nil => rfl
        | cons d rest => simpa using named
      rwa [List.takeWhile_append_of_pos inside, stop, List.append_nil]
    · cases named
  · intro folded
    have stripped : stripFolded ps cs = some (cs.dropWhile isWord) :=
      stripFolded_eq_some_iff.mpr ⟨_, (List.takeWhile_append_dropWhile).symm, folded⟩
    rw [namedAt, stripped]
    cases behind : cs.dropWhile isWord with
    | nil => rfl
    | cons d more =>
        have stop := List.head_dropWhile_not isWord (l := cs) (by simp [behind])
        simpa [behind] using stop

end Words

section Names

variable {names : List String} {listed : List Char} {n : Name}

def Name.lower (n : Name) : List Char := n.chars.map Char.toLower

/-- Whether a name counts as one in the list: it begins with it, and ends there or goes on with a mark
that is no word character. -/
def Name.CountsAs (names : List String) (n : Name) : Prop :=
  ∃ listed ∈ names, ∃ rest, n.lower = listed.toList ++ rest ∧ ∀ c ∈ rest.head?, isJoint c = true

def areWords (names : List String) : Bool :=
  names.all fun listed => !listed.toList.isEmpty && listed.toList.all Char.isLower

theorem isLower_of_areWords {listed : String} (words : areWords names = true) (member : listed ∈ names) :
    listed.toList ≠ [] ∧ ∀ p ∈ listed.toList, p.isLower = true := by
  simpa using List.all_eq_true.mp words listed member

theorem folded_iff {word : List Char} (named : ∀ c ∈ word, isNameChar c = true) :
    List.Forall₂ (fun p c => foldsTo p c = true) listed word ↔ word.map Char.toLower = listed := by
  induction word generalizing listed with
  | nil => cases listed <;> simp
  | cons c word ih =>
      obtain ⟨here, later⟩ := List.forall_mem_cons.mp named
      cases listed with
      | nil => simp
      | cons p listed => simp [foldsTo_of_isNameChar here, ih later]

theorem isJoint_toLower (c : Char) : isJoint c.toLower = isJoint c := by
  have plain : ∀ {d : Char}, isJoint d = true → d.isAlpha = false := by
    intro d joint
    simp only [isJoint, Bool.or_eq_true, decide_eq_true_eq] at joint
    rcases joint with (rfl | rfl) | rfl <;> rfl
  cases upper : c.isUpper with
  | true =>
      have letter : c.isAlpha = true := by simp [Char.isAlpha, upper]
      have here : isJoint c ≠ true := fun joint => by simp [plain joint] at letter
      have below : isJoint c.toLower ≠ true := fun joint => by
        have other := plain joint
        rw [Char.isAlpha_toLower_eq_isAlpha, letter] at other
        cases other
      rw [Bool.eq_false_of_not_eq_true here, Bool.eq_false_of_not_eq_true below]
  | false => rw [Char.toLower_eq_of_not_isUpper (by simp [upper])]

/-- The word that a name begins with is the listed one exactly if the name goes on with a joint. -/
theorem word_iff (lower : ∀ p ∈ listed, p.isLower = true) :
    (n.chars.takeWhile isWord).map Char.toLower = listed ↔
      ∃ rest, n.lower = listed ++ rest ∧ ∀ c ∈ rest.head?, isJoint c = true := by
  constructor
  · rintro rfl
    refine ⟨(n.chars.dropWhile isWord).map Char.toLower, ?_, ?_⟩
    · rw [← List.map_append, List.takeWhile_append_dropWhile]
      rfl
    · intro c member
      cases behind : n.chars.dropWhile isWord with
      | nil =>
          rw [behind] at member
          cases member
      | cons d more =>
          have stop : isWord d = false := by
            simpa [behind] using List.head_dropWhile_not isWord (l := n.chars) (by simp [behind])
          have named : isNameChar d = true :=
            n.named d ((List.dropWhile_suffix isWord).subset (behind ▸ List.mem_cons_self))
          have joint : isJoint d = true := by simpa [isWord_of_isNameChar named] using stop
          rw [behind, List.map_cons, List.head?_cons, Option.mem_some_iff] at member
          rwa [← member, isJoint_toLower]
  · rintro ⟨rest, shape, stop⟩
    obtain ⟨word, tail, chars, rfl, rfl⟩ := List.map_eq_append_iff.mp shape
    have inside : ∀ c ∈ word, isWord c = true := by
      intro c member
      have letter := lower c.toLower (List.mem_map_of_mem member)
      rw [Char.isLower_toLower_eq_isAlpha] at letter
      exact isWord_of_isAlpha letter
    have behind : tail.takeWhile isWord = [] := by
      cases tail with
      | nil => rfl
      | cons d tail =>
          have joint : isJoint d.toLower = true := stop d.toLower rfl
          rw [isJoint_toLower] at joint
          have named : isNameChar d = true := n.named d (by simp [chars])
          simp [isWord_of_isNameChar named, joint]
    rw [chars, List.takeWhile_append_of_pos inside, behind, List.append_nil]

end Names

section Tags

variable {names : List String} {rest : List Char}

theorem head?_behind_name (t : Tag) (rest : List Char) :
    ∀ c ∈ (t.attributes.flatMap Attribute.render ++ (t.ending ++ rest)).head?, isWord c = false := by
  have space : ∀ (b : Blanks) (d : Char) (more : List Char), isWord d = false →
      ∀ c ∈ (b.chars ++ d :: more).head?, isWord c = false := by
    intro b d more stop c member
    obtain ⟨chars, blank⟩ := b
    cases chars with
    | nil => simpa [← Option.mem_some_iff.mp member] using stop
    | cons e chars =>
        rw [← Option.mem_some_iff.mp member]
        exact not_isWord_of_isBlank (blank e List.mem_cons_self)
  cases shape : t.attributes with
  | nil =>
      cases ending : t.empty with
      | false => simpa [Tag.ending, slash, ending] using space t.space '>' rest (by decide)
      | true => simpa [Tag.ending, slash, ending] using space t.space '/' ('>' :: rest) (by decide)
  | cons a others =>
      have apart : a.space.chars ≠ [] := t.apart a (by simp [shape])
      obtain ⟨e, chars, blanks⟩ := List.exists_cons_of_ne_nil apart
      intro c member
      have first : e = c := by simpa [Attribute.render, blanks] using member
      exact first ▸ not_isWord_of_isBlank (a.space.blank e (blanks ▸ List.mem_cons_self))

theorem takeWhile_name (t : Tag) (rest : List Char) :
    (t.name.chars ++ (t.attributes.flatMap Attribute.render ++ (t.ending ++ rest))).takeWhile isWord =
      t.name.chars.takeWhile isWord := by
  have stop : (t.attributes.flatMap Attribute.render ++ (t.ending ++ rest)).takeWhile isWord = [] := by
    have head := head?_behind_name t rest
    cases behind : t.attributes.flatMap Attribute.render ++ (t.ending ++ rest) with
    | nil => rfl
    | cons c more =>
        rw [behind] at head
        simp [head c rfl]
  rw [List.takeWhile_append, stop]
  split
  · rename_i whole
    rw [List.append_nil, (List.takeWhile_prefix isWord).eq_of_length whole]
  · rfl

theorem opensElement_body (words : areWords names = true) (t : Tag) (rest : List Char) :
    opensElement names (t.body ++ rest) = true ↔ t.closing = false ∧ t.name.CountsAs names := by
  obtain ⟨c, chars, begins⟩ := List.exists_cons_of_ne_nil t.name.nonempty
  have named : isNameChar c = true := t.name.named c (begins ▸ List.mem_cons_self)
  cases closing : t.closing with
  | true =>
      have body : t.body ++ rest = '/' :: (t.name.chars ++ (t.attributes.flatMap Attribute.render ++
          (t.ending ++ rest))) := by simp [Tag.body, slash, closing]
      have head : (t.body ++ rest).dropWhile isBlank = t.body ++ rest := by
        rw [body]
        rfl
      simp only [opensElement, head, List.any_eq_true, reduceCtorEq, false_and, iff_false, not_exists, not_and]
      intro listed member named
      obtain ⟨nonempty, lower⟩ := isLower_of_areWords words member
      rw [namedAt_iff lower, body] at named
      have stop : isWord '/' = false := by decide
      rw [List.takeWhile_cons_of_neg (by simp [stop]), List.forall₂_nil_right_iff] at named
      exact nonempty named
  | false =>
      have body : t.body ++ rest = t.name.chars ++ (t.attributes.flatMap Attribute.render ++
          (t.ending ++ rest)) := by simp [Tag.body, slash, closing]
      have head : (t.body ++ rest).dropWhile isBlank = t.body ++ rest := by
        rw [body, begins, List.cons_append, List.dropWhile_cons_of_neg]
        simp [not_blank_of_isNameChar named]
      simp only [opensElement, head, List.any_eq_true, true_and, Name.CountsAs]
      refine exists_congr fun listed => and_congr_right fun member => ?_
      obtain ⟨-, lower⟩ := isLower_of_areWords words member
      have inside : ∀ c ∈ t.name.chars.takeWhile isWord, isNameChar c = true := fun c member =>
        t.name.named c ((List.takeWhile_prefix isWord).subset member)
      rw [namedAt_iff lower, body, takeWhile_name, folded_iff inside, word_iff lower]

end Tags

section Texts

variable {names : List String} {rest : List Char}

theorem hasElement_plain {run : List Char} (plain : '<' ∉ run) :
    hasElement names (run ++ rest) = hasElement names rest := by
  induction run with
  | nil => rfl
  | cons c run ih =>
      have other : c ≠ '<' := ne_of_mem_of_not_mem List.mem_cons_self plain
      simp [hasElement, other, ih (List.not_mem_of_not_mem_cons plain)]

def HasStart (names : List String) (pieces : List Piece) : Prop :=
  ∃ t, .tag t ∈ pieces ∧ t.closing = false ∧ t.name.CountsAs names

theorem hasElement_render (words : areWords names = true) (pieces : List Piece) :
    hasElement names (render pieces) = true ↔ HasStart names pieces := by
  induction pieces with
  | nil => simp [HasStart, render, hasElement]
  | cons piece pieces ih =>
      rw [render, List.flatMap_cons]
      cases piece with
      | text run plain =>
          have same : HasStart names (.text run plain :: pieces) ↔ HasStart names pieces := by simp [HasStart]
          rw [same, ← ih]
          exact iff_of_eq (congrArg (· = true) (hasElement_plain plain))
      | tag t =>
          have first : HasStart names (.tag t :: pieces) ↔
              (t.closing = false ∧ t.name.CountsAs names) ∨ HasStart names pieces := by
            simp [HasStart, or_and_right, exists_or]
          rw [first, ← ih, ← opensElement_body words t (render pieces)]
          change hasElement names ('<' :: (t.body ++ render pieces)) = true ↔ _
          simp [hasElement, hasElement_plain t.no_angle]

end Texts

section Violations

variable {pieces : List Piece}

theorem areWords_svgNames : areWords svgNames = true := by decide +kernel

theorem areWords_script : areWords ["script"] = true := by decide +kernel

/-- Behind the check for blanks, the check for elements and then that for scripts decide. -/
theorem violation?_of_filled {output : String} (filled : output.toList.all isBlank = false) :
    (violation? output = some .noMarkup ↔ hasElement svgNames output.toList = false) ∧
    (violation? output = some .scriptElement ↔
      hasElement svgNames output.toList = true ∧ hasElement ["script"] output.toList = true) := by
  unfold violation?
  cases drawn : hasElement svgNames output.toList with
  | false => simp [filled, drawn]
  | true =>
      cases scripted : hasElement ["script"] output.toList with
      | true => simp [filled, drawn, scripted]
      | false =>
          -- what comes behind those checks finds something else
          cases handled : handler? output.toList with
          | some name => simp [filled, drawn, scripted, handled]
          | none =>
              cases linked : scriptUri? output.toList with
              | some scheme => simp [filled, drawn, scripted, handled, linked]
              | none => simp [filled, drawn, scripted, handled, linked]

/-- Markup that is not blank is refused for having no element exactly if no start tag has a name that
counts as one of a known element, and otherwise for a script exactly if some start tag has a name that
counts as that of a script. Without a joint in it a name counts as itself alone. -/
theorem elements_exact (pieces : List Piece) (filled : (text pieces).toList.all isBlank = false) :
    (violation? (text pieces) = some .noMarkup ↔ ¬ HasStart svgNames pieces) ∧
    (HasStart svgNames pieces →
      (violation? (text pieces) = some .scriptElement ↔ HasStart ["script"] pieces)) ∧
    ∀ (names : List String) (n : Name), (∀ c ∈ n.chars, isJoint c = false) →
      (n.CountsAs names ↔ ∃ listed ∈ names, n.lower = listed.toList) := by
  obtain ⟨unmarked, scripted⟩ := violation?_of_filled filled
  have rendered : (text pieces).toList = render pieces := String.toList_ofList
  rw [rendered] at unmarked scripted
  refine ⟨?_, fun drawn => ?_, fun names n plain => ?_⟩
  · rw [unmarked, ← hasElement_render areWords_svgNames, Bool.not_eq_true]
  · rw [scripted, hasElement_render areWords_svgNames, hasElement_render areWords_script]
    exact and_iff_right drawn
  · refine exists_congr fun listed => and_congr_right fun _ => ?_
    constructor
    · rintro ⟨rest, shape, stop⟩
      cases rest with
      | nil => simpa using shape
      | cons d rest =>
          have member : d ∈ n.lower := by simp [shape]
          obtain ⟨c, inside, rfl⟩ := List.mem_map.mp member
          have joint := stop c.toLower rfl
          rw [isJoint_toLower, plain c inside] at joint
          cases joint
    · intro whole
      exact ⟨[], by simpa using whole, by simp⟩

def bareTag (name : Name) : Tag :=
  { closing := false, name, attributes := [], apart := by simp, space := ⟨[], by simp⟩, empty := true }

def textBox : Name := ⟨['t', 'e', 'x', 't', '-', 'b', 'o', 'x'], by simp, List.all_eq_true.mp (by decide)⟩

def scriptX : Name := ⟨['S', 'C', 'R', 'I', 'P', 'T', '.', 'x'], by simp, List.all_eq_true.mp (by decide)⟩

/-- The start tags `text-box` and `SCRIPT.x`, which count as `text` and as `script`. -/
theorem elements_exact_of_joined :
    let pieces := [.tag (bareTag textBox), .tag (bareTag scriptX)]
    (text pieces).toList.all isBlank = false ∧ HasStart svgNames pieces ∧ HasStart ["script"] pieces := by
  intro pieces
  have filled : (text pieces).toList.all isBlank = false := by decide +kernel
  have refused : violation? (text pieces) = some .scriptElement := by decide +kernel
  obtain ⟨unmarked, scripted, -⟩ := elements_exact pieces filled
  have drawn : HasStart svgNames pieces := by
    by_contra none
    cases (unmarked.mpr none).symm.trans refused
  exact ⟨filled, drawn, (scripted drawn).mp refused⟩

/-- No start tag has the name of an element, and yet the text is accepted. -/
theorem noMarkup_misses_longer_name :
    let pieces := [Piece.tag (bareTag textBox)]
    text pieces = "<text-box/>" ∧
      (∀ t, .tag t ∈ pieces → ∀ listed ∈ svgNames, t.name.lower ≠ listed.toList) ∧
      violation? (text pieces) = none := by
  intro pieces
  refine ⟨by decide +kernel, ?_, by decide +kernel⟩
  intro t member
  obtain rfl : t = bareTag textBox := Piece.tag.inj (List.mem_singleton.mp member)
  decide +kernel

end Violations

end SlideDeck.Markup
