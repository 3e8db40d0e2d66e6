import Mathlib
import SlideDeck.Project.Snapshot
import SlideDeck.Proofs.Json.Restore

/-!
Written records are read back, field by field.
-/

namespace SlideDeck.Snapshot

open Json Json.Reader

variable {α β σ : Type}

def Restores (r : Reader α) (depth : Nat) (j : Json) (a : α) : Prop :=
  ∀ rest, Stops rest → Reads r depth (written j ++ rest) rest a

section Scalars

variable {r : Reader α} {j : Json} {a : α} {depth n : Nat}

theorem Restores.then (first : Restores r depth j a) {f : α → Reader β} {b : β}
    (more : ∀ rest, Reads (f a) depth rest rest b) : Restores (r >>= f) depth j b :=
  fun rest stops => (first rest stops).bind (more rest)

theorem Restores.map (first : Restores r depth j a) (f : α → β) :
    Restores (r >>= fun x => pure (f x)) depth j (f a) :=
  first.then fun rest => reads_pure (f a) depth rest

theorem restores_anyValue (ranged : j.Throughout Ranged) (faithful : j.Throughout Faithful)
    (shallow : j.depth ≤ n) (room : n ≤ 127) : Restores anyValue (n + 1) j j :=
  fun _ stops => reads_anyValue ranged faithful shallow room stops

theorem restores_stringValue (depth : Nat) (s : String) : Restores stringValue depth (.string s) s := by
  intro rest _
  have text : written (.string s) = (quote s).toList := rfl
  have reads := reads_string s depth rest
  rw [text, toList_quote, List.cons_append, List.append_assoc]
  exact (reads_peekToken rfl depth _).bind ((reads_skip depth '"' _).bind reads)

theorem restores_boolValue (depth : Nat) (b : Bool) : Restores boolValue depth (.bool b) b := by
  intro rest _
  cases b
  · exact (reads_peekToken rfl depth _).bind ((reads_false depth rest).bind (reads_pure false depth rest))
  · exact (reads_peekToken rfl depth _).bind ((reads_true depth rest).bind (reads_pure true depth rest))

theorem begins_object (fields : List (String × Json)) : Begins (written (.object fields)) :=
  ⟨'{', _, by simpa using written_object fields [], rfl, by decide⟩

theorem reads_orRefuse {o : Option α} (present : o = some a) (depth : Nat) (rest : List Char) :
    Reads (orRefuse o) depth rest rest a := by
  subst present
  exact reads_pure a depth rest

end Scalars

section Members

variable {n : Nat}

theorem restores_listValue {item : Reader α} {write : α → Json} {xs : List α} (deep : 0 < n)
    (each : ∀ x ∈ xs, Restores item n (write x) x) (begins : ∀ x ∈ xs, Begins (written (write x))) :
    Restores (listValue item) (n + 1) (.array (xs.map write)) xs := by
  intro rest _
  have list : Settles (listOf item) (n + 1)
      ('[' :: (separated true (xs.map (written ∘ write)) ++ ']' :: rest)) rest (0 < n ∧ ∀ x ∈ xs, True)
      fun ys => List.Forall₂ Eq xs ys :=
    settles_listOf (fun _ x member rest stops => (each x member rest stops).settles rfl) begins rest
  obtain ⟨ys, same, reads⟩ := list.1 ⟨deep, fun _ _ => trivial⟩
  rw [List.forall₂_eq_eq_eq] at same
  subst same
  rw [written_array, List.map_map]
  exact (reads_peekToken rfl (n + 1) _).bind reads

/-- Field by field, a reader goes from one state to another. -/
inductive Folds (take : σ → String → Reader σ) (depth : Nat) : List (String × Json) → σ → σ → Prop
  | done (s : σ) : Folds take depth [] s s
  | field {key : String} {j : Json} {fs : List (String × Json)} {s t u : σ}
      (here : ∀ rest, Stops rest → Reads (take s key) depth (':' :: (written j ++ rest)) rest t)
      (later : Folds take depth fs t u) : Folds take depth ((key, j) :: fs) s u

theorem reads_fields {take : σ → String → Reader σ} {depth fuel : Nat} {fs : List (String × Json)} {s u : σ}
    (folds : Folds take depth fs s u) (enough : fs.length < fuel) (opens : Bool) (rest : List Char) :
    Reads (fields string take fuel opens s) depth (separated opens (fs.map (fieldText written)) ++ '}' :: rest)
      ('}' :: rest) u := by
  induction folds generalizing fuel opens with
  | done s =>
      obtain ⟨fuel, rfl⟩ : ∃ k, fuel = k + 1 := ⟨fuel - 1, by simp at enough; omega⟩
      exact (reads_nextKey_end opens depth rest).bind (reads_pure s depth _)
  | @field key j fs s t u here _ ih =>
      rw [List.length_cons] at enough
      obtain ⟨fuel, rfl⟩ : ∃ k, fuel = k + 1 := ⟨fuel - 1, by omega⟩
      have text : separated opens (((key, j) :: fs).map (fieldText written)) ++ '}' :: rest =
          (if opens then (quote key).toList else ',' :: (quote key).toList) ++
            ':' :: (written j ++ (separated false (fs.map (fieldText written)) ++ '}' :: rest)) := by
        cases opens <;> simp [separated, fieldText]
      rw [text]
      unfold fields
      refine (reads_nextKey opens key depth _).bind ?_
      have stops := stops_separated (fs.map (fieldText written)) (stops_cons (Or.inr (Or.inr rfl)) rest)
      exact (here _ stops).bind (ih (by omega) false)

theorem restores_objectWith {take : σ → String → Reader σ} {fs : List (String × Json)} {start s : σ}
    (deep : 0 < n) (folds : Folds take n fs start s) :
    Restores (objectWith start take) (n + 1) (.object fs) s := by
  intro rest _
  have inside := Settles.measured (r := fun k => fields string take (k + 1) true start)
    ((reads_fields folds (length_fields_lt written fs rest) true rest).settles (Eq.refl s))
  have nested := Settles.nested fun _ => (reads_skip n '{' _).bind_settles (f := fun _ => _) inside
  obtain ⟨_, rfl, reads⟩ := nested.1 ⟨deep, trivial⟩
  rw [written_object]
  refine reads.bind ((reads_peekToken rfl (n + 1) rest).bind ?_)
  exact (reads_skip (n + 1) '}' rest).bind (reads_pure _ _ rest)

theorem restores_mapValue {item : Reader α} (write : α → Json) {fs : List (String × α)} (deep : 0 < n)
    (ordered : Ordered fs) (each : ∀ f ∈ fs, Restores item n (write f.2) f.2) :
    Restores (mapValue item) (n + 1) (.object (fs.map fun f => (f.1, write f.2))) fs := by
  have folds (fs acc : List (String × α)) (each : ∀ f ∈ fs, Restores item n (write f.2) f.2) :
      Folds (fun acc key => do colon; return insert key (← item) acc) n
        (fs.map fun f => (f.1, write f.2)) acc (fs.foldl (fun acc f => insert f.1 f.2 acc) acc) := by
    induction fs generalizing acc with
    | nil => exact .done acc
    | cons f fs ih =>
        refine .field (fun rest stops => ?_) (ih _ fun g member => each g (List.mem_cons_of_mem f member))
        exact (reads_colon n _).bind (((each f List.mem_cons_self).map _) rest stops)
  intro rest stops
  have sorted : fs.foldl (fun acc f => insert f.1 f.2 acc) [] = fs := sorted_of_ordered ordered
  have reads := restores_objectWith deep (folds fs [] each) rest stops
  rw [sorted] at reads
  rw [written_object] at reads ⊢
  exact (reads_peekToken rfl (n + 1) _).bind reads

end Members

section Records

variable {n : Nat}

inductive Filled (depth : Nat) : List (Field σ) → List (String × Json) → σ → σ → Prop
  | nil (s : σ) : Filled depth [] [] s s
  | cons {f : Field σ} {fs : List (Field σ)} {j : Json} {js : List (String × Json)} {s t u : σ}
      (here : Restores (f.read s) depth j t) (later : Filled depth fs js t u) :
      Filled depth (f :: fs) ((f.name, j) :: js) s u

def takeField (all : List (Field σ)) (state : σ × List String) (key : String) : Reader (σ × List String) := do
  match all.find? (·.name == key) with
  | none =>
    colon
    ignoredValue
    return state
  | some f =>
    if state.2.contains key then fail .wrongShape
    else
      colon
      return (← f.read state.1, key :: state.2)

theorem folds_record {all : List (Field σ)} (distinct : (all.map (·.name)).Nodup) {fs : List (Field σ)}
    {js : List (String × Json)} {s t : σ} (filled : Filled n fs js s t) {before : List (Field σ)}
    (split : all = before ++ fs) :
    Folds (takeField all) n js (s, (before.map (·.name)).reverse) (t, (all.map (·.name)).reverse) := by
  induction filled generalizing before with
  | nil s =>
      rw [split, List.append_nil]
      exact .done _
  | @cons f fs j js s t u here _ ih =>
      have absent : f.name ∉ before.map (·.name) := by
        rw [split, List.map_append, List.map_cons, List.nodup_middle, List.nodup_cons] at distinct
        exact fun member => distinct.1 (List.mem_append_left _ member)
      have known : all.find? (·.name == f.name) = some f := by
        have others : before.find? (·.name == f.name) = none := by
          rw [List.find?_eq_none]
          intro g member same
          exact absent (List.mem_map.mpr ⟨g, member, by simpa using same⟩)
        rw [split, List.find?_append, others, Option.none_or]
        exact List.find?_cons_of_pos (beq_self_eq_true f.name)
      have fresh : (before.map (·.name)).reverse.contains f.name = false := by
        simpa using absent
      have seen : ((before ++ [f]).map (·.name)).reverse = f.name :: (before.map (·.name)).reverse := by
        simp
      have later := ih (by rw [split, List.append_assoc, List.singleton_append] : all = before ++ [f] ++ fs)
      rw [seen] at later
      refine .field (fun rest stops => ?_) later
      simp only [takeField, known, fresh, Bool.false_eq_true, if_false]
      exact (reads_colon n _).bind ((here.map fun t => (t, f.name :: (before.map (·.name)).reverse)) rest stops)

theorem restores_record {start s : σ} {fs : List (Field σ)} {js : List (String × Json)}
    {done : σ → Option α} {a : α} (deep : 0 < n) (distinct : (fs.map (·.name)).Nodup)
    (filled : Filled n fs js start s) (complete : done s = some a) :
    Restores (record start fs done) (n + 1) (.object js) a := by
  intro rest stops
  have reads := restores_objectWith deep (folds_record distinct filled (List.nil_append fs).symm) rest stops
  rw [written_object] at reads ⊢
  unfold record
  refine (reads_peekToken rfl (n + 1) _).bind ?_
  exact reads.bind (reads_orRefuse complete _ rest)

end Records

end SlideDeck.Snapshot

namespace SlideDeck

open Json Snapshot

/-! What is kept of a project that was read. -/

structure Json.Kempt (n : Nat) (j : Json) : Prop where
  tidy : j.Throughout Tidy
  depth_le : j.depth ≤ n

structure ScriptParam.Kempt (n : Nat) (p : ScriptParam) : Prop where
  present : p.default ≠ some .null
  default : ∀ j, p.default = some j → j.Kempt n

structure ScriptInstance.Kempt (n : Nat) (i : ScriptInstance) : Prop where
  ordered : Ordered i.params
  params : ∀ f ∈ i.params, f.2.Kempt n
  bindings : Ordered i.bindings

structure Page.Kempt (n : Nat) (p : Page) : Prop where
  overrides : Ordered p.overrides
  instances : ∀ i ∈ p.instances, i.Kempt n

def Asset.id : Asset → String
  | .value v => v.id
  | .script s => s.id

def Asset.params : Asset → List ScriptParam
  | .value _ => []
  | .script s => s.parameters

theorem Asset.id_withId (id : String) (a : Asset) : (a.withId id).id = id := by
  cases a <;> rfl

theorem Asset.params_withId (id : String) (a : Asset) : (a.withId id).params = a.params := by
  cases a <;> rfl

theorem Asset.withId_eq {a : Asset} {id : String} (same : a.id = id) : a.withId id = a := by
  subst same
  cases a <;> rfl

structure Project.Kempt (p : Project) : Prop where
  ordered : Ordered p.assets
  ids : ∀ e ∈ p.assets, e.2.id = e.1
  params : ∀ e ∈ p.assets, ∀ q ∈ e.2.params, q.Kempt 122
  pages : ∀ pg ∈ p.pages, pg.Kempt 121

namespace Snapshot

open Json.Reader

section Kinds

variable {depth n : Nat} {l : Literal}

theorem literalOf?_toJson (l : Literal) : literalOf? l.toJson = some l := by
  cases l <;> rfl

theorem ranged_literal (l : Literal) : l.toJson.Throughout Ranged := by
  cases l <;> trivial

theorem depth_literal (l : Literal) : l.toJson.depth = 0 := by
  cases l <;> rfl

theorem restores_literal (faithful : l.toJson.Throughout Faithful) (room : n ≤ 127) :
    Restores (do return some (← orRefuse (literalOf? (← anyValue)))) (n + 1) l.toJson (some l) := by
  have any := restores_anyValue (ranged_literal l) faithful (by rw [depth_literal]; exact Nat.zero_le n) room
  exact any.then fun rest =>
    (reads_orRefuse (literalOf?_toJson l) _ rest).bind (reads_pure _ _ rest)

theorem begins_literal (faithful : l.toJson.Throughout Faithful) :
    ∃ c cs, written l.toJson = c :: cs ∧ isSpace c = false ∧ c ≠ 'n' := by
  cases l with
  | text s => exact ⟨'"', _, toList_quote s, rfl, by decide⟩
  | number x =>
      obtain ⟨y, negative, body, text, ⟨c, cs, rfl, digit⟩, -⟩ :=
        numeric_jsonText (isFinite_of_faithful faithful)
      have shown : written (Literal.number x).toJson = if negative then '-' :: c :: cs else c :: cs := text
      rw [shown]
      cases negative
      · exact ⟨c, cs, rfl, isSpace_of_isDigit digit, ne_of_isDigit digit _ rfl⟩
      · exact ⟨'-', c :: cs, rfl, rfl, by decide⟩

theorem restores_overrideValue {o : Option Literal} (faithful : (ofOption Literal.toJson o).Throughout Faithful)
    (room : n ≤ 127) (deep : 0 < n) :
    Restores overrideValue (n + 1) (.object [("value", ofOption Literal.toJson o)]) o := by
  obtain ⟨n, rfl⟩ : ∃ k, n = k + 1 := ⟨n - 1, by omega⟩
  refine restores_record deep (List.nodup_singleton _) (.cons ?_ (.nil o)) rfl
  intro rest stops
  cases o with
  | none =>
      exact (reads_peekToken rfl _ _).bind ((reads_skip _ 'n' _).bind
        ((reads_word ['u', 'l', 'l'] rest _).bind (reads_pure none _ rest)))
  | some l =>
      obtain ⟨c, cs, text, token, other⟩ := begins_literal faithful
      have reads := restores_literal faithful (by omega : n ≤ 127) rest stops
      have shown : written (ofOption Literal.toJson (some l)) = c :: cs := text
      rw [shown, List.cons_append]
      rw [text, List.cons_append] at reads
      refine (reads_peekToken token _ _).bind ?_
      split
      · rename_i same
        exact absurd (Option.some.inj same) other
      · exact reads

end Kinds

section Whole

variable {n : Nat}

theorem restores_kept {j : Json} (kempt : j.Kempt n) (faithful : j.Throughout Faithful) (room : n ≤ 127) :
    Restores (do return (← anyValue).canonical) (n + 1) j j := by
  have reads := (restores_anyValue (ranged_of_tidy kempt.tidy) faithful kempt.depth_le room).map canonical
  rwa [canonical_of_tidy kempt.tidy faithful] at reads

theorem restores_instanceValue {i : ScriptInstance} (kempt : i.Kempt n)
    (faithful : i.toJson.Throughout Faithful) (room : n ≤ 121) : Restores instanceValue (n + 3) i.toJson i := by
  have all := throughoutFields_iff.mp faithful.2
  have given : (Json.object i.params).Throughout Faithful := all ("params", _) (.tail _ (.tail _ (.head _)))
  have params : Restores (mapValue (do return (← anyValue).canonical)) (n + 2) (.object i.params) i.params := by
    have reads := restores_mapValue (fun j => j) (Nat.succ_pos n) kempt.ordered fun f member =>
      restores_kept (kempt.params f member) (throughoutFields_iff.mp given.2 f member) (by omega)
    rwa [List.map_id'] at reads
  have bindings : Restores (mapValue stringValue) (n + 2)
      (.object (i.bindings.map fun f => (f.1, .string f.2))) i.bindings :=
    restores_mapValue .string (Nat.succ_pos n) kempt.bindings fun f _ => restores_stringValue (n + 1) f.2
  refine restores_record (Nat.succ_pos _) ?_ (.cons ((restores_stringValue _ i.id).map _) <|
    .cons ((restores_stringValue _ i.scriptId).map _) <| .cons (params.map _) <| .cons (bindings.map _) <|
    .cons ((restores_boolValue _ i.injectPage).map _) <|
    .cons ((restores_boolValue _ i.injectValues).map _) <| .nil _) rfl
  decide

theorem restores_pageValue {p : Page} (kempt : p.Kempt n) (faithful : p.toJson.Throughout Faithful)
    (room : n ≤ 121) : Restores pageValue (n + 5) p.toJson p := by
  have all := throughoutFields_iff.mp faithful.2
  let carry (o : Option Literal) : Json := .object [("value", ofOption Literal.toJson o)]
  have given : (Json.object (p.overrides.map fun f => (f.1, carry f.2))).Throughout Faithful :=
    all ("overrides", _) (.tail _ (.head _))
  have placed : (Json.array (p.instances.map ScriptInstance.toJson)).Throughout Faithful :=
    all ("instances", _) (.tail _ (.tail _ (.head _)))
  have overrides : Restores (mapValue overrideValue) (n + 4)
      (.object (p.overrides.map fun f => (f.1, carry f.2))) p.overrides := by
    refine restores_mapValue carry (Nat.succ_pos _) kempt.overrides fun f member => ?_
    have value := throughoutFields_iff.mp given.2 _ (List.mem_map_of_mem member)
    exact restores_overrideValue (throughoutFields_iff.mp value.2 _ (.head _)) (by omega) (Nat.succ_pos _)
  have instances : Restores (listValue instanceValue) (n + 4)
      (.array (p.instances.map ScriptInstance.toJson)) p.instances := by
    refine restores_listValue (Nat.succ_pos _) (fun i member => ?_) fun i _ => begins_object _
    exact restores_instanceValue (kempt.instances i member)
      (throughoutItems_iff.mp placed.2 _ (List.mem_map_of_mem member)) room
  refine restores_record (Nat.succ_pos _) ?_ (.cons ((restores_stringValue _ p.id).map _) <|
    .cons (overrides.map _) <| .cons (instances.map _) <| .nil _) rfl
  decide

end Whole

section Assets

variable {n : Nat}

theorem choiceOf?_kind (k : ValueKind) : choiceOf? kinds (.string k.text) = some k := by
  cases k <;> rfl

theorem choiceOf?_transition (t : Transition) : choiceOf? transitions (.string t.text) = some t := by
  cases t <;> rfl

theorem choiceOf?_paramType (t : ParamType) : choiceOf? paramTypes (.string t.text) = some t := by
  cases t <;> rfl

theorem namedValueOf?_fields (v : NamedValue) : namedValueOf? (.object v.fields) = some v := by
  have read : recordOf? ["id", "name", "kind", "initialValue", "transition"] (.object v.fields) =
      some (v.fields.map fun f => some f.2) := rfl
  unfold namedValueOf?
  rw [read, NamedValue.fields]
  simp only [List.map_cons, List.map_nil, Option.bind_eq_bind, Option.bind_some, optional, stringOf?,
    choiceOf?_kind, choiceOf?_transition, literalOf?_toJson]
  rfl

theorem scriptParamOf?_toJson {q : ScriptParam} (kempt : q.Kempt n) (faithful : q.toJson.Throughout Faithful) :
    scriptParamOf? q.toJson = some q := by
  have all := throughoutFields_iff.mp faithful.2
  have given : (q.default.getD .null).Throughout Faithful := all ("default", _) (.tail _ (.tail _ (.head _)))
  have read : recordOf? ["name", "type", "default"] q.toJson =
      some [some (.string q.name), some (.string q.type.text), some (q.default.getD .null)] := rfl
  unfold scriptParamOf?
  rw [read]
  simp only [Option.bind_eq_bind, Option.bind_some, optional, stringOf?, choiceOf?_paramType]
  refine congrArg (fun default => some (ScriptParam.mk q.name q.type default)) ?_
  cases stored : q.default with
  | none => rfl
  | some j =>
      rw [stored, Option.getD_some] at given
      have same := canonical_of_tidy (kempt.default j stored).tidy given
      rw [Option.getD_some]
      split
      · rename_i absent
        cases absent
      · rename_i null
        exact absurd (stored.trans null) kempt.present
      · rename_i v _ shown
        obtain rfl := Option.some.inj shown
        rw [same]

theorem listOf?_map {f : Json → Option α} {write : α → Json} {xs : List α}
    (each : ∀ x ∈ xs, f (write x) = some x) : listOf? f (.array (xs.map write)) = some xs := by
  show (xs.map write).mapM f = some xs
  induction xs with
  | nil => rfl
  | cons x xs ih =>
      rw [List.map_cons, List.mapM_cons, each x List.mem_cons_self,
        ih fun y member => each y (List.mem_cons_of_mem x member)]
      rfl

theorem scriptAssetOf?_fields {s : ScriptAsset} (kempt : ∀ q ∈ s.parameters, q.Kempt n)
    (faithful : ∀ q ∈ s.parameters, q.toJson.Throughout Faithful) :
    scriptAssetOf? (.object s.fields) = some s := by
  have read : recordOf? ["id", "name", "source", "parameters"] (.object s.fields) =
      some (s.fields.map fun f => some f.2) := rfl
  have parameters := listOf?_map fun q member => scriptParamOf?_toJson (kempt q member) (faithful q member)
  unfold scriptAssetOf?
  rw [read, ScriptAsset.fields]
  simp only [List.map_cons, List.map_nil, Option.bind_eq_bind, Option.bind_some, optional, stringOf?, parameters]
  rfl

/-- How an asset takes one of its fields: its tag is known at once, the others are looked at once all of
them were read. -/
def takeAsset (state : Option AssetTag × List (String × Json)) (key : String) :
    Reader (Option AssetTag × List (String × Json)) := do
  if key = "type" then
    if state.1.isSome then fail .wrongShape
    else
      colon
      return (some (← tagValue), state.2)
  else
    colon
    return (state.1, (key, ← anyValue) :: state.2)

theorem folds_asset (tag : AssetTag) {fs : List (String × Json)}
    (each : ∀ f ∈ fs, f.1 ≠ "type" ∧ Restores anyValue n f.2 f.2) (acc : List (String × Json)) :
    Folds takeAsset n fs (some tag, acc) (some tag, fs.reverse ++ acc) := by
  induction fs generalizing acc with
  | nil => exact .done _
  | cons f fs ih =>
      obtain ⟨other, reads⟩ := each f List.mem_cons_self
      have later := ih (fun g member => each g (List.mem_cons_of_mem f member)) (f :: acc)
      rw [List.reverse_cons, List.append_assoc, List.singleton_append]
      refine .field (fun rest stops => ?_) later
      rw [takeAsset, if_neg other]
      exact (reads_colon n _).bind ((reads.map _) rest stops)

theorem restores_tagged {name : String} (tag : AssetTag) (known : assetTags.lookup name = some tag)
    {fs : List (String × Json)} (each : ∀ f ∈ fs, f.1 ≠ "type" ∧ Restores anyValue (n + 1) f.2 f.2) {a : Asset}
    (read : assetOf? tag (.object fs) = some a) :
    Restores assetValue (n + 2) (.object (("type", .string name) :: fs)) a := by
  intro rest stops
  have tagged : Restores tagValue (n + 1) (.string name) tag :=
    (restores_stringValue (n + 1) name).then fun rest => reads_orRefuse known (n + 1) rest
  have folds : Folds takeAsset (n + 1) (("type", .string name) :: fs) (none, []) (some tag, fs.reverse ++ []) :=
    .field (fun rest stops => (reads_colon _ _).bind ((tagged.map _) rest stops)) (folds_asset tag each [])
  have reads := restores_objectWith (Nat.succ_pos n) folds rest stops
  rw [List.append_nil] at reads
  rw [written_object] at reads ⊢
  unfold assetValue
  refine (reads_peekToken rfl (n + 2) _).bind (reads.bind ?_)
  simp only [List.reverse_reverse]
  exact reads_orRefuse read _ rest

/-- What is written next to the tag can be read while the tag is not known. -/
def Buffered (n : Nat) (f : String × Json) : Prop :=
  f.1 ≠ "type" ∧ f.2.Throughout Ranged ∧ f.2.depth ≤ n

theorem buffered_string {key : String} (other : key ≠ "type") (s : String) : Buffered n (key, .string s) :=
  ⟨other, trivial, Nat.zero_le n⟩

theorem buffered_value (v : NamedValue) : ∀ f ∈ v.fields, Buffered n f := by
  have initial : Buffered n ("initialValue", v.initial.toJson) :=
    ⟨show "initialValue" ≠ "type" by decide, ranged_literal v.initial, by rw [depth_literal]; exact Nat.zero_le n⟩
  simp only [NamedValue.fields, List.forall_mem_cons]
  exact ⟨buffered_string (by decide) _, buffered_string (by decide) _, buffered_string (by decide) _, initial,
    buffered_string (by decide) _, List.forall_mem_nil _⟩

theorem kempt_toJson {q : ScriptParam} (kempt : q.Kempt n) :
    q.toJson.Throughout Ranged ∧ q.toJson.depth ≤ n + 1 := by
  have default : (q.default.getD .null).Throughout Ranged ∧ (q.default.getD .null).depth ≤ n := by
    cases stored : q.default with
    | none => exact ⟨trivial, Nat.zero_le n⟩
    | some j => exact ⟨ranged_of_tidy (kempt.default j stored).tidy, (kempt.default j stored).depth_le⟩
  refine ⟨⟨trivial, trivial, trivial, default.1, trivial⟩, Nat.succ_le_succ (depthFields_le_iff.mpr ?_)⟩
  simp only [List.forall_mem_cons]
  exact ⟨Nat.zero_le n, Nat.zero_le n, default.2, List.forall_mem_nil _⟩

theorem buffered_script {s : ScriptAsset} (kempt : ∀ q ∈ s.parameters, q.Kempt n) :
    ∀ f ∈ s.fields, Buffered (n + 2) f := by
  have parameters : Buffered (n + 2) ("parameters", .array (s.parameters.map ScriptParam.toJson)) := by
    refine ⟨show "parameters" ≠ "type" by decide, ⟨trivial, throughoutItems_iff.mpr ?_⟩,
      Nat.succ_le_succ (depthItems_le_iff.mpr ?_)⟩
    · exact List.forall_mem_map.mpr fun q member => (kempt_toJson (kempt q member)).1
    · exact List.forall_mem_map.mpr fun q member => (kempt_toJson (kempt q member)).2
  simp only [ScriptAsset.fields, List.forall_mem_cons]
  exact ⟨buffered_string (by decide) _, buffered_string (by decide) _, buffered_string (by decide) _,
    parameters, List.forall_mem_nil _⟩

theorem restores_assetValue {a : Asset} (kempt : ∀ q ∈ a.params, q.Kempt n)
    (faithful : a.toJson.Throughout Faithful) (room : n ≤ 122) : Restores assetValue (n + 4) a.toJson a := by
  have each {fs : List (String × Json)} (buffered : ∀ f ∈ fs, Buffered (n + 2) f)
      (all : ∀ f ∈ fs, f.2.Throughout Faithful) :
      ∀ f ∈ fs, f.1 ≠ "type" ∧ Restores anyValue (n + 3) f.2 f.2 := fun f member =>
    ⟨(buffered f member).1, restores_anyValue (buffered f member).2.1 (all f member) (buffered f member).2.2
      (by omega)⟩
  cases a with
  | value v =>
      have all := throughoutFields_iff.mp faithful.2.2
      exact restores_tagged .value rfl (each (buffered_value v) all)
        (congrArg (Option.map Asset.value) (namedValueOf?_fields v))
  | script s =>
      have all := throughoutFields_iff.mp faithful.2.2
      have parameters : (Json.array (s.parameters.map ScriptParam.toJson)).Throughout Faithful :=
        all ("parameters", _) (.tail _ (.tail _ (.tail _ (.head _))))
      have read := scriptAssetOf?_fields kempt fun q member =>
        throughoutItems_iff.mp parameters.2 _ (List.mem_map_of_mem member)
      exact restores_tagged .script rfl (each (buffered_script kempt) all) (congrArg (Option.map Asset.script) read)

end Assets

/-- What is written of a project that was read is read as this project. -/
theorem restores_projectValue {p : Project} (kempt : p.Kempt) (faithful : p.toJson.Throughout Faithful) :
    Restores projectValue 128 p.toJson p := by
  have all := throughoutFields_iff.mp faithful.2
  have kept : (Json.object (p.assets.map fun e => (e.1, e.2.toJson))).Throughout Faithful :=
    all ("assets", _) (.head _)
  have shown : (Json.array (p.pages.map Page.toJson)).Throughout Faithful :=
    all ("pages", _) (.tail _ (.head _))
  have assets : Restores (mapValue assetValue) 127 (.object (p.assets.map fun e => (e.1, e.2.toJson))) p.assets :=
    restores_mapValue Asset.toJson (by decide) kempt.ordered fun e member =>
      restores_assetValue (kempt.params e member)
        (throughoutFields_iff.mp kept.2 _ (List.mem_map_of_mem member)) le_rfl
  have pages : Restores (listValue pageValue) 127 (.array (p.pages.map Page.toJson)) p.pages :=
    restores_listValue (by decide) (fun pg member => restores_pageValue (kempt.pages pg member)
      (throughoutItems_iff.mp shown.2 _ (List.mem_map_of_mem member)) le_rfl) fun pg _ => begins_object _
  have same : p.assets.map (fun e => (e.1, e.2.withId e.1)) = p.assets := by
    conv_rhs => rw [← List.map_id p.assets]
    exact List.map_congr_left fun e member => Prod.ext rfl (Asset.withId_eq (kempt.ids e member))
  refine restores_record (by decide) ?_ (.cons (assets.map _) <| .cons (pages.map _) <| .nil _) ?_
  · decide
  · simp only [same]

end Snapshot

end SlideDeck
