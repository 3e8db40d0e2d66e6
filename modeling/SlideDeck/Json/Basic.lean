/-!
JSON values. Integers are kept apart from floats, and the fields of an object are a list: as read, in
the order of the text with repeats, and in a canonical value sorted by key without repeats.
-/

namespace SlideDeck

inductive Json where
  | null
  | bool (b : Bool)
  | int (n : Int)
  | float (x : Float)
  | string (s : String)
  | array (items : List Json)
  | object (fields : List (String × Json))
  deriving Inhabited

namespace Json

def insert {α : Type} (key : String) (value : α) : List (String × α) → List (String × α)
  | [] => [(key, value)]
  | (k, v) :: rest =>
    if key < k then (key, value) :: (k, v) :: rest
    else if key = k then (key, value) :: rest
    else (k, v) :: insert key value rest

theorem lookup_insert {α : Type} (key : String) (value : α) (fields : List (String × α))
    (other : String) :
    (insert key value fields).lookup other =
      if other = key then some value else fields.lookup other := by
  induction fields with
  | nil => by_cases same : other = key <;> simp [insert, same]
  | cons field rest ih =>
      obtain ⟨k, v⟩ := field
      unfold insert
      split
      · by_cases same : other = key <;> simp [List.lookup_cons, same, beq_false_of_ne]
      · split
        · rename_i here
          subst here
          by_cases same : other = key <;> simp [List.lookup_cons, same, beq_false_of_ne]
        · rename_i elsewhere
          by_cases first : other = k
          · subst first
            simp [Ne.symm elsewhere]
          · simp [List.lookup_cons, first, beq_false_of_ne, ih]

/-- Sorted by key; the last of several values under one key wins. -/
def sorted {α : Type} (fields : List (String × α)) : List (String × α) :=
  fields.foldl (fun acc f => insert f.1 f.2 acc) []

mutual

def canonical : Json → Json
  | .array items => .array (canonicalItems items)
  | .object fields => .object (sorted (canonicalFields fields))
  | other => other

def canonicalItems : List Json → List Json
  | [] => []
  | j :: rest => canonical j :: canonicalItems rest

def canonicalFields : List (String × Json) → List (String × Json)
  | [] => []
  | (k, j) :: rest => (k, canonical j) :: canonicalFields rest

end

def field? (j : Json) (key : String) : Option Json :=
  match j with
  | .object fields => fields.lookup key
  | _ => none

def ofOption {α : Type} (f : α → Json) : Option α → Json
  | none => .null
  | some a => f a

def strings (xs : List String) : Json := .array (xs.map .string)

def number? : Json → Option Float
  | .int n => some (Float.ofInt n)
  | .float x => some x
  | _ => none

end Json

end SlideDeck
