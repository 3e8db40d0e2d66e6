import Mathlib
import SlideDeck.Proofs.Formula.Number
import SlideDeck.Proofs.Resolve.Denotation

/-!
Formulas over numbers. Every reference and page token is replaced by the text of a number, and the
text that comes out is cut and parsed anew; it has the value that the formula has with the numbers
themselves in place, unless the sign of a negative one comes to stand behind an operand.
-/

namespace SlideDeck

theorem Literal.toNumber_isFinite (l : Literal) : l.toNumber.isFinite = true := by
  unfold toNumber
  have zero : (0.0 : Float).isFinite = true := by decide +kernel
  cases l with
  | number x =>
      simp only
      split
      · assumption
      · exact zero
  | text s =>
      simp only
      split
      · split
        · assumption
        · exact zero
      · exact zero

namespace Resolver

open Formula (Written Symbol Clear Phrase)

variable {r : Resolver} {page : Nat}

theorem finiteValue_eq_ok_iff {text : String} {v : Float} :
    finiteValue text = .ok v ↔ Formula.evaluate text.toList = .ok v ∧ v.isFinite = true := by
  unfold finiteValue
  cases Formula.evaluate text.toList with
  | error cause => simp
  | ok x =>
      by_cases finite : x.isFinite = true
      · simp only [finite, if_true, Except.ok.injEq]
        exact ⟨fun same => ⟨same, same ▸ finite⟩, And.left⟩
      · simp only [finite, Except.ok.injEq]
        constructor
        · rintro ⟨⟩
        · rintro ⟨rfl, finite'⟩
          exact absurd finite' finite

theorem finiteValue_eq_notFinite_iff {text t : String} :
    finiteValue text = .error (.notFinite t) ↔
      t = text ∧ ∃ v, Formula.evaluate text.toList = .ok v ∧ v.isFinite = false := by
  unfold finiteValue
  cases Formula.evaluate text.toList with
  | error cause => simp
  | ok x =>
      by_cases finite : x.isFinite = true
      · simp [finite]
      · rw [Bool.not_eq_true] at finite
        simp only [finite]
        constructor
        · rintro ⟨⟩
          exact ⟨rfl, x, rfl, finite⟩
        · rintro ⟨rfl, -⟩
          rfl

/-- A value that resolves to a number resolves to a finite one. -/
theorem isFinite_of_resolve {v : NamedValue} {y : Float} (number : r.resolve v page = .number y) :
    y.isFinite = true := by
  rw [resolve_eq, resolveStep] at number
  split at number
  · cases number
    exact Literal.toNumber_isFinite _
  · cases number
  · split at number
    · cases number
    · split at number
      · rename_i done
        cases number
        unfold evaluateText at done
        split at done
        · cases done
        · rw [evaluateExpanded_eq] at done
          exact (finiteValue_eq_ok_iff.mp done).2
      · cases number

theorem cycleFrom_of_resolve {v : NamedValue} {y : Float} (kind : v.kind = .formula)
    (number : r.resolve v page = .number y) : (r.formulas page).cycleFrom v.name = none := by
  rw [resolve_eq, resolveStep, kind] at number
  simp only at number
  split at number
  · cases number
  · assumption

/-- Each name stands for a value that is the number `x` gives for it on the page. -/
def Numbers (r : Resolver) (page : Nat) (x : String → Float) (names : List String) : Prop :=
  ∀ name ∈ names, ∃ v, r.project.lookup name = some v ∧ r.resolve v page = .number (x name)

theorem texts_of_numbers {x : String → Float} {names : List String}
    (numbers : r.Numbers page x names) :
    r.texts (r.formulas page) (r.resolve · page) names =
      .ok (names.map fun name => (name, Decimal.format (x name))) := by
  induction names with
  | nil => rfl
  | cons name rest ih =>
      obtain ⟨v, found, number⟩ := numbers name List.mem_cons_self
      have safe : (if v.kind = .formula then (r.formulas page).cycleFrom name else none) = none := by
        split
        · rename_i kind
          rw [← (Project.lookup_name found).2]
          exact cycleFrom_of_resolve kind number
        · rfl
      rw [texts, found]
      simp only [safe, number, ih fun n member => numbers n (List.mem_cons_of_mem _ member)]
      rfl

def numbersIn (r : Resolver) (page : Nat) (x : String → Float) (text : String) : String :=
  Formula.substitutePages (page + 1) r.project.pageCount
    (Formula.substitute (fun name => some (Decimal.format (x name))) text)

theorem evaluate_of_numbers {x : String → Float} {text : String}
    (numbers : r.Numbers page x (Formula.references text)) :
    r.evaluate text page = finiteValue (r.numbersIn page x text) := by
  have unique : r.Numbers page x (Formula.uniqueReferences text) :=
    fun name member => numbers name (Formula.mem_uniqueReferences.mp member)
  rw [evaluate_eq, evaluateText, texts_of_numbers unique]
  simp only [evaluateExpanded_eq]
  congr 1
  unfold expand numbersIn
  congr 1
  apply Formula.substitute_congr
  intro name reference
  exact lookup_map_self (Formula.mem_uniqueReferences.mpr reference) _

theorem cuts_numbersIn {x : String → Float} {text : String} {ss : List Symbol}
    (written : Written text.toList ss)
    (numbers : r.Numbers page x (Formula.references text)) :
    Formula.Cuts (r.numbersIn page x text).toList
      (ss.flatMap (Symbol.spelled x (page + 1) r.project.pageCount)) := by
  unfold numbersIn Formula.substitutePages Formula.substitute
  rw [String.toList_ofList, String.toList_ofList]
  apply written.cuts _ (Formula.shown_nat _) (Formula.shown_nat _)
  intro name member
  obtain ⟨v, -, number⟩ := numbers name (written.mem_references.mpr member)
  exact ⟨_, rfl, Formula.shown_format (isFinite_of_resolve number)⟩

theorem evaluate_numbersIn {x : String → Float} {text : String} {ss : List Symbol} {v : Float}
    (written : Written text.toList ss)
    (numbers : r.Numbers page x (Formula.references text)) :
    Formula.evaluate (r.numbersIn page x text).toList = .ok v ↔
      Phrase .expr 256 (ss.flatMap (Symbol.spelled x (page + 1) r.project.pageCount)) v :=
  (cuts_numbersIn written numbers).evaluate_iff

/-- A formula over numbers has the value of the sentence that it turns into. -/
theorem evaluate_iff_spelled {x : String → Float} {text : String} {ss : List Symbol} {v : Float}
    (written : Written text.toList ss)
    (numbers : r.Numbers page x (Formula.references text)) :
    r.evaluate text page = .ok v ↔
      Phrase .expr 256 (ss.flatMap (Symbol.spelled x (page + 1) r.project.pageCount)) v ∧
        v.isFinite = true := by
  rw [evaluate_of_numbers numbers, finiteValue_eq_ok_iff, evaluate_numbersIn written numbers]

/-- Putting numbers in as text is hygienic where no reference to a negative number stands right behind
an operand: a text has a value exactly if it is a sentence with every reference and page token read as
a number, and then the value of that sentence. Sentences have their values in any case, and in any case
a text has the value of the sentence with a minus sign and a number for each negative one. -/
theorem evaluate_hygienic (p : Project) (page : Nat) (text : String) (ss : List Symbol)
    (x : String → Float) (written : Written text.toList ss)
    (numbers : ∀ name, .reference name ∈ ss → ∃ v, p.lookup name = some v ∧
      (Resolver.ofProject p).resolve v page = .number (x name)) :
    let r := Resolver.ofProject p
    let leaves := ss.map (Symbol.leaf x (page + 1) p.pageCount)
    (∀ v, Phrase .expr 256 leaves v → r.evaluate text page =
      if v.isFinite then .ok v else .error (.notFinite (r.numbersIn page x text))) ∧
    (Clear x ss → ∀ v, r.evaluate text page = .ok v ↔
      Phrase .expr 256 leaves v ∧ v.isFinite = true) ∧
    (Clear x ss → ∀ t, r.evaluate text page = .error (.notFinite t) ↔
      t = r.numbersIn page x text ∧ ∃ v, Phrase .expr 256 leaves v ∧ v.isFinite = false) ∧
    (∀ v, r.evaluate text page = .ok v ↔
      Phrase .expr 256 (ss.flatMap (Symbol.spelled x (page + 1) p.pageCount)) v ∧
        v.isFinite = true) := by
  intro r leaves
  have known : r.Numbers page x (Formula.references text) :=
    fun name reference => numbers name (written.mem_references.mp reference)
  have direct (clear : Clear x ss) (v : Float) :
      Formula.evaluate (r.numbersIn page x text).toList = .ok v ↔ Phrase .expr 256 leaves v := by
    rw [evaluate_numbersIn written known]
    exact ⟨fun phrase => phrase.unspell rfl clear, fun phrase => phrase.spell rfl⟩
  refine ⟨?_, ?_, ?_, fun v => evaluate_iff_spelled written known⟩
  · intro v phrase
    rw [evaluate_of_numbers known, finiteValue,
      (evaluate_numbersIn written known).mpr (phrase.spell rfl)]
  · intro clear v
    rw [evaluate_of_numbers known, finiteValue_eq_ok_iff, direct clear]
  · intro clear t
    rw [evaluate_of_numbers known, finiteValue_eq_notFinite_iff]
    simp only [direct clear]

section Instances

variable {cs : List Char} {ss : List Symbol}

theorem written_digit {c : Char} {x : Float} (digit : c.isDigit = true)
    (value : Decimal.read [c] = some x) (quiet : Formula.Quiet cs) (apart : Formula.Apart cs)
    (rest : Written cs ss) : Written (c :: cs) (.token (.number x) :: ss) := by
  have numeral : Formula.Numeral [c] [c] [] := .whole (Decimal.digits_singleton digit)
  exact .number numeral value (quiet.ends []) apart rest

theorem written_reference {name : String} (named : name.toList ≠ []) (closed : '}' ∉ name.toList)
    (quiet : Formula.Quiet cs) (apart : Formula.Apart cs) (rest : Written cs ss) :
    Written ('%' :: '{' :: name.toList ++ ['}'] ++ cs) (.reference name :: ss) := by
  have held := Formula.Placeholder.reference named closed
  rw [String.ofList_toList] at held
  exact .placeholder held quiet apart rest

end Instances

/-- A negative number behind an operator, where its sign is its own. -/
theorem evaluate_hygienic_of_negative :
    let delta := { id := "delta", name := "delta", kind := .number, initial := .number (-3) }
    let p := Project.ofValues [delta]
    let ss := [.token (.number 2), .token .star, .reference "delta", .token .minus, .pageNumber]
    Written "2*%{delta}-%p".toList ss ∧ Clear (fun _ => -3) ss ∧
      (Resolver.ofProject p).resolve delta 0 = .number (-3) ∧
      (Resolver.ofProject p).evaluate "2*%{delta}-%p" 0 = .ok (-7) := by
  intro delta p ss
  have shape : "2*%{delta}-%p".toList =
      '2' :: '*' :: ('%' :: '{' :: "delta".toList ++ ['}'] ++ '-' :: (['%', 'p'] ++ [])) := by
    decide +kernel
  have page : Written (['%', 'p'] ++ []) [.pageNumber] :=
    .placeholder .pageNumber (by simp [Formula.Quiet]) (by simp [Formula.Apart]) .done
  have written : Written "2*%{delta}-%p".toList ss := by
    rw [shape]
    apply written_digit rfl (by decide +kernel) (by rintro _ ⟨⟩; rfl) (by simp [Formula.Apart])
    apply Written.mark .star
    apply written_reference (by decide) (by decide) (by rintro _ ⟨⟩; rfl) (by simp [Formula.Apart])
    exact .mark .minus page
  have clear : Clear (fun _ => -3) ss := by
    simp [Clear, ss, Symbol.endsOperand]
  have number : (Resolver.ofProject p).resolve delta 0 = .number (-3) := by rfl
  refine ⟨written, clear, number, ?_⟩
  have named (name : String) (member : .reference name ∈ ss) : p.lookup name = some delta := by
    obtain rfl : name = "delta" := by simpa [ss] using member
    rfl
  have laws := evaluate_hygienic p 0 "2*%{delta}-%p" ss (fun _ => -3) written
    fun name member => ⟨delta, named name member, number⟩
  apply (laws.2.1 clear _).mpr
  have value : (2 * Formula.settled (-3) - Float.ofNat 1 : Float) = -7 := by decide +kernel
  have left : Phrase .term 256 [.number 2, .star, .number (Formula.settled (-3))]
      (2 * Formula.settled (-3)) := .product (.factor (.unsigned .number)) (.unsigned .number)
  rw [← value]
  exact ⟨.difference (.term left) (.factor (.unsigned .number)), by rw [value]; decide +kernel⟩

/-- Behind a closing parenthesis the sign of a negative number is read as a subtraction, where a number
could not stand. -/
theorem evaluate_joined_by_sign :
    let delta := { id := "delta", name := "delta", kind := .number, initial := .number (-3) }
    let p := Project.ofValues [delta]
    let ss := [.token .opening, .token (.number 1), .token .closing, .reference "delta"]
    Written "(1)%{delta}".toList ss ∧
      (∀ name, .reference name ∈ ss → ∃ v, p.lookup name = some v ∧
        (Resolver.ofProject p).resolve v 0 = .number (-3)) ∧
      (Resolver.ofProject p).evaluate "(1)%{delta}" 0 = .ok (-2) ∧
      ¬ ∃ v, Phrase .expr 256 (ss.map (Symbol.leaf (fun _ => -3) 1 p.pageCount)) v := by
  intro delta p ss
  have shape : "(1)%{delta}".toList =
      '(' :: '1' :: ')' :: ('%' :: '{' :: "delta".toList ++ ['}'] ++ []) := by
    decide +kernel
  have reference : Written ('%' :: '{' :: "delta".toList ++ ['}'] ++ []) [.reference "delta"] :=
    written_reference (by decide) (by decide) (by simp [Formula.Quiet]) (by simp [Formula.Apart]) .done
  have written : Written "(1)%{delta}".toList ss := by
    rw [shape]
    apply Written.mark .opening
    apply written_digit rfl (by decide +kernel) (by rintro _ ⟨⟩; rfl) (by simp [Formula.Apart])
    exact .mark .closing reference
  have numbers (name : String) (member : .reference name ∈ ss) : ∃ v, p.lookup name = some v ∧
      (Resolver.ofProject p).resolve v 0 = .number (-3) := by
    obtain rfl : name = "delta" := by simpa [ss] using member
    exact ⟨delta, rfl, rfl⟩
  refine ⟨written, numbers, ?_, ?_⟩
  · have known : (Resolver.ofProject p).Numbers 0 (fun _ => -3) (Formula.references "(1)%{delta}") :=
      fun name reference => numbers name (written.mem_references.mp reference)
    apply (evaluate_iff_spelled written known).mpr
    have value : (1 - - -3 : Float) = -2 := by decide +kernel
    have negative : (-3 : Float) < 0 := by decide +kernel
    have tokens : ss.flatMap (Symbol.spelled (fun _ => -3) 1 p.pageCount) =
        [.opening, .number 1, .closing] ++ .minus :: [.number (- -3)] := by
      simp [ss, Symbol.spelled, Symbol.leaf, negative]
    have group : Phrase .primary 256 [.opening, .number 1, .closing] 1 :=
      .group (.term (.factor (.unsigned .number)))
    change Phrase .expr 256 (ss.flatMap (Symbol.spelled (fun _ => -3) 1 p.pageCount)) (-2) ∧ _
    rw [tokens, ← value]
    exact ⟨.difference (.term (.factor (.unsigned group))) (.factor (.unsigned .number)),
      by rw [value]; decide +kernel⟩
  · rintro ⟨v, phrase⟩
    let rest : List Formula.Item := [(.number (Formula.settled (-3)), 0)]
    let items : List Formula.Item := (.opening, 0) :: (.number 1, 0) :: (.closing, 0) :: rest
    have read : Formula.expression (Formula.primary 256) items = .ok (v, []) :=
      Formula.expression_eq_ok_iff.mpr phrase
    have stops : Formula.expression (Formula.primary 256) items = .ok (1, rest) := by rfl
    exact List.cons_ne_nil _ _ (congrArg Prod.snd (Except.ok.inj (stops.symm.trans read)))

end Resolver

end SlideDeck
