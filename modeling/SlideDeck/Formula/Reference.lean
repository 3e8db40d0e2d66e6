/-!
Placeholders in formula text: `%` and a name in braces for a named value, `%p` for the page number,
`%P` for the page count.
-/

namespace SlideDeck.Formula

theorem length_drop_while_le {α : Type} (p : α → Bool) (xs : List α) :
    (xs.dropWhile p).length ≤ xs.length := by
  induction xs with
  | nil => simp
  | cons x xs ih =>
    simp only [List.dropWhile_cons]
    split
    · exact Nat.le_succ_of_le ih
    · exact Nat.le_refl _

def splitBrace (cs : List Char) : Option (List Char × List Char) :=
  match cs.dropWhile (· != '}') with
  | [] => none
  | _ :: rest => some (cs.takeWhile (· != '}'), rest)

theorem split_brace_length {cs name rest : List Char} (h : splitBrace cs = some (name, rest)) :
    rest.length < cs.length := by
  unfold splitBrace at h
  split at h
  · simp at h
  next tail eq =>
    simp only [Option.some.injEq, Prod.mk.injEq] at h
    obtain ⟨-, rfl⟩ := h
    have := length_drop_while_le (· != '}') cs
    rw [eq] at this
    simp only [List.length_cons] at this
    omega

/-- Every reference in order of appearance, repeats included. Empty braces are no reference, and
after an opening that is never closed there are none. -/
def referencesIn : List Char → List (List Char)
  | [] => []
  | '%' :: '{' :: after =>
    match h : splitBrace after with
    | none => []
    | some ([], rest) =>
      have := split_brace_length h
      referencesIn rest
    | some (name, rest) =>
      have := split_brace_length h
      name :: referencesIn rest
  | _ :: rest => referencesIn rest
termination_by cs => cs.length

def references (text : String) : List String := (referencesIn text.toList).map String.ofList

def distinct (names : List String) : List String :=
  names.foldl (fun seen n => if seen.contains n then seen else seen ++ [n]) []

def uniqueReferences (text : String) : List String := distinct (references text)

/-- Every reference replaced by what `values` gives for it, in one pass: what is put in is not read
again, and a reference without a value stays. -/
def substituteIn (values : String → Option String) : List Char → List Char
  | [] => []
  | '%' :: '{' :: after =>
    match h : splitBrace after with
    | none => '%' :: '{' :: after
    | some ([], rest) =>
      have := split_brace_length h
      '%' :: '{' :: '}' :: substituteIn values rest
    | some (name, rest) =>
      have := split_brace_length h
      match values (String.ofList name) with
      | some value => value.toList ++ substituteIn values rest
      | none => '%' :: '{' :: name ++ '}' :: substituteIn values rest
  | c :: rest => c :: substituteIn values rest
termination_by cs => cs.length

def substitute (values : String → Option String) (text : String) : String :=
  String.ofList (substituteIn values text.toList)

def replaceToken (token : Char) (value : List Char) : List Char → List Char
  | [] => []
  | [c] => [c]
  | c :: d :: rest =>
    if c = '%' ∧ d = token then value ++ replaceToken token value rest
    else c :: replaceToken token value (d :: rest)

/-- First the page number is put in, then the page count. -/
def substitutePages (page total : Nat) (text : String) : String :=
  String.ofList (replaceToken 'P' (toString total).toList
    (replaceToken 'p' (toString page).toList text.toList))

end SlideDeck.Formula
