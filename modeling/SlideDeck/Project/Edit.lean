import SlideDeck.Project.Basic

/-!
Changes to a deck. Each one names what it changes by id or by page; one that names nothing that is there
changes nothing.
-/

namespace SlideDeck

def eraseKey {α : Type} (key : String) (fields : List (String × α)) : List (String × α) :=
  fields.filter (·.1 != key)

/-- Overrides a value, or with `none` marks it without giving it a value. -/
def Page.setOverride (p : Page) (id : String) (l : Option Literal) : Page :=
  { p with overrides := Json.insert id l p.overrides }

def Page.clearOverride (p : Page) (id : String) : Page := { p with overrides := eraseKey id p.overrides }

def Page.hasMark (p : Page) (id : String) : Bool := (p.overrides.lookup id).isSome

def Page.place (p : Page) (i : ScriptInstance) : Page := { p with instances := p.instances ++ [i] }

namespace Project

def putAsset (p : Project) (id : String) (a : Asset) : Project :=
  { p with assets := Json.insert id a p.assets }

def putValue (p : Project) (v : NamedValue) : Project := p.putAsset v.id (.value v)

def putScript (p : Project) (s : ScriptAsset) : Project := p.putAsset s.id (.script s)

def hasAsset (p : Project) (id : String) : Bool := (p.assets.lookup id).isSome

def removeAsset (p : Project) (id : String) : Project := { p with assets := eraseKey id p.assets }

def addPage (p : Project) (page : Page) : Project := { p with pages := p.pages ++ [page] }

def dropPage (p : Project) (page : Nat) : Project := { p with pages := p.pages.eraseIdx page }

def modifyPage (p : Project) (page : Nat) (f : Page → Page) : Project :=
  { p with pages := p.pages.modify page f }

def setSource (p : Project) (id source : String) : Project :=
  match p.script? id with
  | some s => p.putScript { s with source }
  | none => p

end Project

end SlideDeck
