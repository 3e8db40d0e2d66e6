import Mathlib
import SlideDeck.Proofs.Sandbox.Environment
import SlideDeck.Proofs.Script.Change

/-!
What the names of the environment are bound to: for every name, what a script finds that has not assigned
it. The last variable that the context has for it decides, even if it is null; if there is none, the host
does. Reading any other name fails.
-/

namespace SlideDeck

namespace Script

variable {h h' : Heap} {t : Table} {m m' : Machine} {a : Nat}

/-- Tables stay where they are, and as strict as they are. -/
theorem Heap.Change.strict (change : h.Change h') (found : h.tables[a]? = some t) :
    ∃ u, h'.tables[a]? = some u ∧ u.strict = t.strict := by
  cases change with
  | @addTable fresh coherent => exact ⟨t, Heap.extends_addTable h fresh a t found, rfl⟩
  | @setEntry b k stored v =>
      by_cases here : b = a
      · subst here
        refine ⟨t.set k v, ?_, Table.strict_set t k v⟩
        rw [Heap.modifyTable, Array.getElem?_modify, if_pos rfl, found]
        rfl
      · refine ⟨t, ?_, rfl⟩
        rw [Heap.modifyTable, Array.getElem?_modify, if_neg here, found]
  | addCell => exact ⟨t, found, rfl⟩
  | setCell => exact ⟨t, found, rfl⟩
  | addClosure => exact ⟨t, found, rfl⟩

theorem Machine.Reaches.strict (reaches : m.Reaches m') (found : m.heap.tables[a]? = some t) :
    (m'.heap.table a).strict = t.strict := by
  have kept : ∃ u, m'.heap.tables[a]? = some u ∧ u.strict = t.strict := by
    induction reaches with
    | refl => exact ⟨t, found, rfl⟩
    | tail _ change ih =>
        rcases ih with ⟨u, before, same⟩
        cases change with
        | work work => exact ⟨u, work.heap ▸ before, same⟩
        | store store =>
            rcases store.strict before with ⟨w, behind, still⟩
            exact ⟨w, behind, still.trans same⟩
        | write => exact ⟨u, before, same⟩
  rcases kept with ⟨u, there, same⟩
  rw [Heap.table, Array.getD_eq_getD_getElem?, there]
  exact same

theorem isNil_ofJson (h : Heap) (j : Json) : (ofJson h j).1.isNil = j.isNull := by
  cases j with
  | int n =>
      simp only [ofJson, ofNumber]
      split <;> rfl
  | float x =>
      simp only [ofJson, ofNumber]
      split
      · split <;> rfl
      · rfl
  | _ => rfl

/-- What scripts get for `j` if all tables that are made for it are in `h`. -/
def Taken (h : Heap) (j : Json) (v : Value) : Prop :=
  ∃ h', v = (ofJson h' j).1 ∧
    ∀ a t, h'.tables.size ≤ a → (ofJson h' j).2.tables[a]? = some t → h.tables[a]? = some t

theorem Taken.isNil {j : Json} {v : Value} (taken : Taken h j v) : v.isNil = j.isNull := by
  rcases taken with ⟨h', rfl, -⟩
  exact isNil_ofJson h' j

end Script

def Context.last? (c : Context) (n : String) : Option Json := c.variables.reverse.lookup n

namespace Environment

open Script (Value Table Heap Taken)

variable {vars : List (String × Json)} {n : String} {t : Table}

def builtinNames : List String := ["tostring", "tonumber", "type", "pairs", "ipairs", "next", "select",
  "error", "pcall", "assert", "math", "table", "utf8", "string", "unpack", "os", "json", "print", "console"]

theorem getString_set_other (coherent : t.Coherent) {n' : String} (differs : n ≠ n') (v : Value) :
    (t.setString n' v).getString n = t.getString n :=
  Table.get_set_other coherent (fun same => differs (Script.nameKey_injective same)) v

theorem getString_empty (n : String) : ({} : Table).getString n = .nil :=
  Table.get_absent Std.HashMap.getElem?_empty

theorem getString_bindAll {bindings : List (String × Value)} (distinct : (bindings.map (·.1)).Nodup)
    (coherent : t.Coherent) (n : String) :
    (bindAll t bindings).getString n = (bindings.lookup n).getD (t.getString n) := by
  induction bindings generalizing t with
  | nil => rfl
  | cons b rest ih =>
      rcases b with ⟨name, v⟩
      rw [List.map_cons, List.nodup_cons] at distinct
      have later : (bindAll (t.setString name v) rest).getString n = _ := ih distinct.2 (coherent.set _ _)
      change (bindAll (t.setString name v) rest).getString n = _
      rw [later]
      by_cases here : n = name
      · subst here
        have absent : rest.lookup n = none := by
          rw [List.lookup_eq_none_iff]
          intro b member
          rw [bne_iff_ne]
          rintro rfl
          exact distinct.1 (List.mem_map.mpr ⟨b, member, rfl⟩)
        rw [absent, List.lookup_cons_self]
        exact Table.get_set_self coherent _ _
      · rw [getString_set_other coherent here, List.lookup_cons, beq_false_of_ne here]

theorem names_hostBindings : (hostBindings.map (·.1)).Perm builtinNames := by
  decide +kernel

theorem getString_hostTable (n : String) : hostTable.getString n = (hostBindings.lookup n).getD .nil := by
  have distinct : (hostBindings.map (·.1)).Nodup := names_hostBindings.nodup_iff.mpr (by decide)
  rw [hostTable, getString_bindAll distinct Table.coherent_empty, getString_empty]

theorem getString_of_unnamed (unnamed : vars.reverse.lookup n = none) :
    ((build vars).table address).getString n = (hostBindings.lookup n).getD .nil := by
  have other : n ∉ vars.map (·.1) := by
    intro member
    rcases List.mem_map.mp member with ⟨f, inside, rfl⟩
    simpa using List.lookup_eq_none_iff.mp unnamed f (List.mem_reverse.mpr inside)
  rw [table_build_address, ← getString_hostTable]
  exact Script.getString_ofFields_other coherent_hostTable other hostHeap

end Environment

namespace Sandbox

open Environment (address stringAddress hostBindings builtinNames)
open Script (Exec Failure Heap Machine Origin Program Taken Value)

variable {m : Machine} {a : Nat} {n : String}

def unbound (n : String) (m : Machine) : EStateM.Result Failure Machine Value :=
  .error (.raised (.ofString (Exec.position m.current.line? ++ "undefined variable '" ++ n ++ "'")))
    { m with hosts := Exec.undefinedHosts ++ m.hosts }

/-- What reading a name has to give at a machine `m`, which has come from `m₀`: the last value that the
context has for it, unless that is null, or else what the host binds. -/
def Gives (c : Context) (m₀ m : Machine) (n : String) (r : EStateM.Result Failure Machine Value) : Prop :=
  match c.last? n with
  | some .null => r = unbound n m
  | some j => ∃ v, Taken m₀.heap j v ∧ r = .ok v m
  | none =>
    match hostBindings.lookup n with
    | some w => r = .ok w m
    | none => r = unbound n m

section Start

variable {c : Context} {p : Program} {memoryLimit : Nat} {now : Int}

end Start

end Sandbox

end SlideDeck
