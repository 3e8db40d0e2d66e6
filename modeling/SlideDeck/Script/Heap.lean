import SlideDeck.Script.Code
import SlideDeck.Script.Table

/-!
Everything that scripts know by address: tables, functions, and the variables that functions share.
Addresses are given in order and never used again.
-/

namespace SlideDeck.Script

structure Closure where
  code : Code
  /-- The cells of the variables of enclosing functions. -/
  cells : Array Nat
  deriving Inhabited

structure Heap where
  tables : Array Table := #[]
  closures : Array Closure := #[]
  cells : Array Value := #[]
  deriving Inhabited

namespace Heap

def table (h : Heap) (a : Nat) : Table := h.tables.getD a {}

def addTable (h : Heap) (t : Table) : Nat × Heap :=
  (h.tables.size, { h with tables := h.tables.push t })

def modifyTable (h : Heap) (a : Nat) (f : Table → Table) : Heap :=
  { h with tables := h.tables.modify a f }

def cell (h : Heap) (a : Nat) : Value := h.cells.getD a .nil

def addCell (h : Heap) (v : Value) : Nat × Heap := (h.cells.size, { h with cells := h.cells.push v })

def setCell (h : Heap) (a : Nat) (v : Value) : Heap := { h with cells := h.cells.modify a fun _ => v }

def addClosure (h : Heap) (c : Closure) : Nat × Heap :=
  (h.closures.size, { h with closures := h.closures.push c })

end Heap

end SlideDeck.Script
