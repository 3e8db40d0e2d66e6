import Mathlib
import SlideDeck.Formula.Reference

/-!
References of a formula text without repeats, and the texts put in their place.
-/

namespace SlideDeck.Formula

theorem foldl_distinct (names seen : List String) :
    names.foldl (fun seen n => if seen.contains n then seen else seen ++ [n]) seen =
      seen ++ (names.filter fun n => !seen.contains n).eraseDups := by
  induction names generalizing seen with
  | nil => simp
  | cons name rest ih =>
      rw [List.foldl_cons, ih]
      by_cases known : seen.contains name = true
      · rw [if_pos known, List.filter_cons_of_neg (by rw [known]; decide)]
      · have fresh : (!seen.contains name) = true := by simpa using known
        have later : (rest.filter fun n => !(seen ++ [name]).contains n) =
            (rest.filter fun n => !seen.contains n).filter fun n => !n == name := by
          rw [List.filter_filter]
          apply List.filter_congr
          intro n _
          by_cases same : n = name <;> simp [same]
        rw [if_neg known, List.filter_cons_of_pos (p := fun n => !seen.contains n) fresh,
          List.eraseDups_cons, later, List.append_assoc, List.singleton_append]

/-- Repeats are dropped where they come later. -/
theorem distinct_eq_eraseDups (names : List String) : distinct names = names.eraseDups := by
  rw [distinct, foldl_distinct]
  simp

theorem mem_distinct {names : List String} {name : String} :
    name ∈ distinct names ↔ name ∈ names := by
  rw [distinct_eq_eraseDups, List.mem_eraseDups]

theorem mem_uniqueReferences {text name : String} :
    name ∈ uniqueReferences text ↔ name ∈ references text :=
  mem_distinct

section Substitution

variable {values values' : String → Option String} {after rest name : List Char}

def replacement (values : String → Option String) (name : List Char) : List Char :=
  match values (String.ofList name) with
  | some value => value.toList
  | none => '%' :: '{' :: name ++ ['}']

theorem substituteIn_unclosed (brace : splitBrace after = none) :
    substituteIn values ('%' :: '{' :: after) = '%' :: '{' :: after := by
  rw [substituteIn]
  split <;> simp_all

theorem substituteIn_empty (brace : splitBrace after = some ([], rest)) :
    substituteIn values ('%' :: '{' :: after) = '%' :: '{' :: '}' :: substituteIn values rest := by
  rw [substituteIn]
  split <;> simp_all

theorem substituteIn_reference (named : name ≠ []) (brace : splitBrace after = some (name, rest)) :
    substituteIn values ('%' :: '{' :: after) = replacement values name ++ substituteIn values rest := by
  rw [substituteIn, replacement]
  split
  · simp_all
  · simp_all
  · rename_i found
    obtain ⟨rfl, rfl⟩ := Prod.mk.inj (Option.some.inj (brace.symm.trans found))
    cases values (String.ofList name) <;> simp

theorem substituteIn_congr (cs : List Char)
    (agree : ∀ name ∈ referencesIn cs, values (String.ofList name) = values' (String.ofList name)) :
    substituteIn values cs = substituteIn values' cs := by
  fun_induction referencesIn cs with
  | case1 => simp only [substituteIn]
  | case2 after brace => rw [substituteIn_unclosed brace, substituteIn_unclosed brace]
  | case3 after rest brace _ ih =>
      rw [substituteIn_empty brace, substituteIn_empty brace, ih agree]
  | case4 after name rest named brace _ ih =>
      have same : replacement values name = replacement values' name := by
        rw [replacement, replacement, agree name List.mem_cons_self]
      rw [substituteIn_reference named brace, substituteIn_reference named brace, same,
        ih fun n member => agree n (List.mem_cons_of_mem _ member)]
  | case5 c rest other ih => rw [substituteIn, substituteIn, ih agree] <;> exact other

theorem substitute_congr {text : String}
    (agree : ∀ name ∈ references text, values name = values' name) :
    substitute values text = substitute values' text := by
  unfold substitute
  rw [substituteIn_congr]
  intro name member
  exact agree _ (List.mem_map.mpr ⟨name, member, rfl⟩)

end Substitution

end SlideDeck.Formula
