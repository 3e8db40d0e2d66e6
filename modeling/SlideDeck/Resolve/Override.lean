import SlideDeck.Project.Edit

/-!
Which pages override which values.
-/

namespace SlideDeck

/-- By value id the pages that override it, as a set. No id is kept for which there are none. -/
structure OverrideIndex where
  pages : List (String × List Nat)
  deriving DecidableEq, Repr

namespace OverrideIndex

def empty : OverrideIndex := ⟨[]⟩

def pagesOf (i : OverrideIndex) (id : String) : List Nat := (i.pages.lookup id).getD []

def has (i : OverrideIndex) (id : String) (page : Nat) : Bool := (i.pagesOf id).contains page

def record (i : OverrideIndex) (id : String) (page : Nat) : OverrideIndex :=
  ⟨Json.insert id ((i.pagesOf id).insert page) i.pages⟩

def forget (i : OverrideIndex) (id : String) (page : Nat) : OverrideIndex :=
  match i.pages.lookup id with
  | none => i
  | some pages =>
    let left := pages.filter (· != page)
    ⟨if left.isEmpty then eraseKey id i.pages else Json.insert id left i.pages⟩

def lastBefore (i : OverrideIndex) (id : String) (page : Nat) : Option Nat :=
  ((i.pagesOf id).filter (· < page)).max?

/-- Id and page of every override on the pages from `page` on. Those without a value do not count. -/
def marksFrom (page : Nat) : List Page → List (String × Nat)
  | [] => []
  | p :: rest =>
    ((p.overrides.map (·.1)).filter fun id => (p.override? id).isSome).map (fun id => (id, page)) ++
      marksFrom (page + 1) rest

def ofPages (pages : List Page) : OverrideIndex :=
  (marksFrom 0 pages).foldl (fun i m => i.record m.1 m.2) empty

end OverrideIndex

end SlideDeck
