import Mathlib
import SlideDeck.Proofs.Context.Precedence
import SlideDeck.Proofs.Decimal.Overflow
import SlideDeck.Proofs.Formula.Page
import SlideDeck.Proofs.Resolve.Substitution
import SlideDeck.Sandbox.Rendering

/-!
Pages counted from one, wherever a page is named: in formula text, in the context of a script and in the
message that an instance is missing. Pages that do not exist are counted like those that do. A formula that
is a page number and nothing else has the binary64 number nearest to it as its value.
-/

namespace SlideDeck

theorem Json.ofFloat_ofNat {n : Nat} (positive : 0 < n) (small : n < 9000000000000000) :
    Json.ofFloat (Float.ofNat n) = .int n := by
  have exact : Decimal.value? (Float.ofNat n) = some (n : ℚ) := Decimal.value?_ofNat positive (by omega)
  have whole : Decimal.whole? (Float.ofNat n) = some (n : Int) := Decimal.whole?_eq_some_iff.mpr exact
  have below : (n : Int).natAbs < 9000000000000000 := by omega
  simp only [Json.ofFloat, whole, if_pos below]

namespace Resolver

variable {r : Resolver} {page : Nat}

theorem evaluate_eq_put (r : Resolver) (page : Nat) (text : String) :
    r.evaluate text page =
      match r.texts (r.formulas page) (r.resolve · page) (Formula.uniqueReferences text) with
      | .error e => .error e
      | .ok values =>
        let substituted := Formula.substitute (fun name => values.lookup name) text
        evaluateExpanded (String.ofList ((Formula.pieces substituted.toList).flatMap
          (Formula.Piece.put (Formula.decimal (page + 1)) (Formula.decimal r.project.pageCount)))) := by
  have expand_eq_put (values : List (String × String)) : r.expand values page text =
      String.ofList ((Formula.pieces (Formula.substitute (fun name => values.lookup name) text).toList).flatMap
        (Formula.Piece.put (Formula.decimal (page + 1)) (Formula.decimal r.project.pageCount))) :=
    congrArg String.ofList (Formula.put_pieces _ _ _)
  rw [evaluate_eq, evaluateText]
  cases r.texts (r.formulas page) (r.resolve · page) (Formula.uniqueReferences text) with
  | error e => rfl
  | ok values => simp only [expand_eq_put]

theorem references_pageNumber : Formula.references "%p" = [] := by decide +kernel

theorem evaluate_pageNumber (fits : page + 1 < 2 ^ 64) :
    r.evaluate "%p" page = .ok (Float.ofNat (page + 1)) := by
  obtain ⟨x, normal, -, packed⟩ := Decimal.ofNat_eq_packed (Nat.succ_pos page) fits
  have shape : "%p".toList = ['%', 'p'] ++ [] := by rfl
  have written : Formula.Written "%p".toList [.pageNumber] := by
    rw [shape]
    exact .placeholder .pageNumber (by simp [Formula.Quiet]) (by simp [Formula.Apart]) .done
  have numbers : r.Numbers page (fun _ => 0) (Formula.references "%p") := by
    rw [references_pageNumber]
    exact fun name impossible => absurd impossible List.not_mem_nil
  apply (evaluate_iff_spelled written numbers).mpr
  refine ⟨.term (.factor (.unsigned .number)), ?_⟩
  rw [packed]
  exact Decimal.isFinite_packed normal

theorem resolve_pageNumber {v : NamedValue} (kind : v.kind = .formula)
    (text : (r.raw v page).toText = "%p")
    (alone : ∀ w ∈ r.project.values, w.kind = .formula → w.name = v.name → w = v)
    (fits : page + 1 < 2 ^ 64) :
    r.resolve v page = .number (Float.ofNat (page + 1)) := by
  -- Cycles are looked for by name, and what the formulas of a name read counts for each of them.
  have calm : (r.formulas page).cycleFrom v.name = none := by
    rw [cycleFrom_eq_none_iff]
    intro reached
    obtain ⟨name, ⟨w, member, formula, same, reference⟩, -⟩ := reached.next
    rw [alone w member formula same, text, references_pageNumber] at reference
    cases reference
  have value := evaluate_pageNumber (r := r) fits
  rw [evaluate_eq] at value
  rw [resolve_eq, resolveStep, kind]
  simp only [calm, text, value]

end Resolver

namespace Sandbox

/-- Formulas, contexts and messages count the pages alike, at every index of 64 bits that has a number of
64 bits behind it. As the value of a formula the number is rounded, beyond the integers of 53 bits. -/
theorem pages_numbered_alike (p : Project) (i : UInt64) (fits : i.toNat + 1 < 2 ^ 64) :
    let r := Resolver.ofProject p
    let n := (i + 1).toNat
    let y := Float.ofNat n
    (n = i.toNat + 1 ∧ 1 ≤ n) ∧
    (∀ text, r.evaluate text i.toNat =
      match r.texts (r.formulas i.toNat) (r.resolve · i.toNat) (Formula.uniqueReferences text) with
      | .error e => .error e
      | .ok values =>
        let substituted := Formula.substitute (fun name => values.lookup name) text
        Resolver.evaluateExpanded (String.ofList ((Formula.pieces substituted.toList).flatMap
          (Formula.Piece.put (Formula.decimal n) (Formula.decimal p.pageCount))))) ∧
    (∀ inst, (Context.build inst p i.toNat).pageCurrent = n) ∧
    (∀ id limits now, p.instance? i.toNat id = none →
      render p i.toNat id limits now = .unavailable (noInstance id n) []) ∧
    ((∃ x : Decimal.Dyadic, x.Normal ∧ x.Near n ∧ y = x.packed) ∧
      (n ≤ 2 ^ 53 → Decimal.value? y = some (n : ℚ)) ∧
      (n < 9000000000000000 → Json.ofFloat y = .int n)) ∧
    r.evaluate "%p" i.toNat = .ok y ∧
    ∀ v, p.lastNamed v.name = some v → v.kind = .formula → (r.raw v i.toNat).toText = "%p" →
      (∀ w ∈ p.values, w.kind = .formula → w.name = v.name → w = v) → isBindable v.name = true →
      ∀ inst, (Context.build inst p i.toNat).values.lookup v.name = some (Json.ofFloat y) := by
  have number : (i + 1).toNat = i.toNat + 1 := by
    rw [UInt64.toNat_add]
    exact Nat.mod_eq_of_lt fits
  have positive : 0 < i.toNat + 1 := Nat.succ_pos _
  intro r n y
  simp only [n, y, number]
  refine ⟨⟨trivial, positive⟩, Resolver.evaluate_eq_put r _, ?_, ?_, ⟨?_, ?_, ?_⟩,
    Resolver.evaluate_pageNumber fits, ?_⟩
  · intro inst
    exact congrArg Prod.fst (Context.view_build inst p i.toNat)
  · intro id limits now missing
    simp only [render, placement, missing]
  · exact Decimal.ofNat_eq_packed positive fits
  · exact Decimal.value?_ofNat positive
  · exact Json.ofFloat_ofNat positive
  · intro v last kind text alone bindable inst
    rw [Context.lookup_values_build, if_pos bindable, last, Option.map_some,
      Resolver.resolve_pageNumber kind text alone fits]
    rfl

/-- The last index that has a number behind it, in a project without pages. -/
theorem pages_numbered_alike_at_last :
    let p := Project.ofValues [.formula "n" "%p"]
    let i : UInt64 := 18446744073709551614
    let c := Context.build { id := "i", scriptId := "s" } p i.toNat
    i.toNat + 1 < 2 ^ 64 ∧ (i + 1).toNat = 18446744073709551615 ∧
      c.pageCurrent = 18446744073709551615 ∧
      c.values.lookup "n" = some (Json.ofFloat 18446744073709551615) ∧
      render p i.toNat "x" {} 0 =
        .unavailable "no script instance 'x' on page 18446744073709551615" [] := by
  intro p i c
  have fits : i.toNat + 1 < 2 ^ 64 := by decide
  obtain ⟨-, -, current, missing, -, -, values⟩ := pages_numbered_alike p i fits
  have found : c.values.lookup "n" = some (Json.ofFloat 18446744073709551615) :=
    values (.formula "n" "%p") (by rfl) rfl (by rfl) (by simp [p, Project.values_ofValues]) (by decide +kernel) _
  have message : noInstance "x" (i + 1).toNat = "no script instance 'x' on page 18446744073709551615" := by
    decide +kernel
  exact ⟨fits, by decide, current _, found, (missing "x" {} 0 (by rfl)).trans (by rw [message])⟩

/-- Behind the integers of 53 bits a page is not named by one number: the value of a formula is the even one
of the two next to it. And there is no number of 64 bits behind the last index. -/
theorem page_number_rounded :
    let p := Project.ofValues [.formula "n" "%p"]
    let i : UInt64 := 9007199254740992
    let c := Context.build { id := "i", scriptId := "s" } p i.toNat
    c.pageCurrent = 9007199254740993 ∧ c.values.lookup "n" = some (.float 9007199254740992) ∧
      Decimal.whole? 9007199254740992 = some 9007199254740992 ∧
      (Resolver.ofProject p).evaluate "%p" i.toNat = .ok 9007199254740992 ∧
      ∀ n : UInt64, n.toNat ≠ UInt64.toNat 18446744073709551615 + 1 := by
  intro p i c
  have rounded : Float.ofNat 9007199254740993 = 9007199254740992 := by decide +kernel
  have value : (Resolver.ofProject p).evaluate "%p" i.toNat = .ok 9007199254740992 :=
    (Resolver.evaluate_pageNumber (by decide)).trans (congrArg Except.ok rounded)
  have resolved : (Resolver.ofProject p).resolve (.formula "n" "%p") i.toNat = .number 9007199254740992 := by
    rw [Resolver.resolve_pageNumber rfl (by rfl) (by simp [p, Resolver.ofProject, Project.values_ofValues])
      (by decide)]
    exact congrArg Resolved.number rounded
  have whole : Decimal.whole? 9007199254740992 = some 9007199254740992 := by decide +kernel
  have found : c.values.lookup "n" = some (.float 9007199254740992) := by
    have last : p.lastNamed "n" = some (.formula "n" "%p") := by rfl
    rw [Context.lookup_values_build, if_pos (by decide +kernel), last, Option.map_some, resolved,
      Resolved.toJson, Json.ofFloat, whole]
    rfl
  have current : c.pageCurrent = i.toNat + 1 :=
    congrArg Prod.fst (Context.view_build { id := "i", scriptId := "s" } p i.toNat)
  exact ⟨current.trans (by decide), found, whole, value, fun n => Nat.ne_of_lt n.toNat_lt⟩

end Sandbox

end SlideDeck
