import Mathlib
import SlideDeck.Proofs.Project.Writing

/-!
What every project that was read is like, and that it is read again from what is written of it.
-/

namespace SlideDeck.Snapshot

open Json Json.Reader

variable {α β σ : Type} {depth : Nat}

/-! ### Readers of fields -/

section Shapes

variable {item : Reader α} {holds : α → Prop}

theorem yields_mismatch (c : Char) : Yields (mismatch c) depth holds := by
  unfold mismatch
  split
  · exact yields_fail _
  · exact (steady_scalar c).then fun _ => yields_fail _

theorem yields_startingWith (c : Char) (body : Yields item depth holds) :
    Yields (startingWith c item) depth holds := by
  unfold startingWith
  refine steady_peekToken.then fun d => ?_
  split
  · exact yields_failAhead _
  · split
    · exact body
    · exact yields_mismatch _

theorem steady_stringValue : Steady stringValue :=
  fun _ => yields_startingWith '"' (steady_skip.then fun _ => steady_string _)

theorem steady_boolValue : Steady boolValue := by
  unfold boolValue
  refine steady_peekToken.bind fun c => ?_
  split
  · exact steady_failAhead _
  · rename_i c
    have scalar : Steady (if (decide (c = '[') || decide (c = '{')) = true then fail .wrongShape else scalar c) := by
      split
      · exact steady_fail _
      · exact steady_scalar c
    refine scalar.bind fun j => ?_
    split
    · exact steady_pure _
    · exact steady_fail _

theorem yields_orRefuse (o : Option α) : Yields (orRefuse o) depth fun a => o = some a := by
  cases o with
  | none => exact yields_fail _
  | some a => exact yields_pure rfl

theorem steady_orRefuse (o : Option α) : Steady (orRefuse o) := fun _ => (yields_orRefuse o).imp fun _ _ => trivial

theorem steady_anyValue : Steady anyValue := fun _ => yields_anyValue.imp fun _ _ => trivial

theorem yields_listValue (each : 1 < depth → Yields item (depth - 1) holds) :
    Yields (listValue item) depth fun as => ∀ a ∈ as, holds a :=
  (yields_startingWith '[' (yields_listOf each)).imp fun _ all => all.2

def Entries (holds : α → Prop) (fs : List (String × α)) : Prop := Ordered fs ∧ ∀ f ∈ fs, holds f.2

theorem entries_nil (holds : α → Prop) : Entries holds [] := ⟨List.Pairwise.nil, List.forall_mem_nil _⟩

theorem Entries.insert {fs : List (String × α)} (entries : Entries holds fs) (key : String) {a : α}
    (held : holds a) : Entries holds (Json.insert key a fs) := by
  refine ⟨ordered_insert entries.1 key a, fun f inside => ?_⟩
  rcases mem_insert inside with rfl | before
  · exact held
  · exact entries.2 f before

theorem yields_mapValue (each : 1 < depth → Yields item (depth - 1) holds) :
    Yields (mapValue item) depth (Entries holds) := by
  have member (deep : 1 < depth) (acc : List (String × α)) (key : String) (kept : Entries holds acc) :
      Yields (do colon; return Json.insert key (← item) acc) (depth - 1) (Entries holds) :=
    steady_colon.then fun _ => (each deep).bind fun a held => yields_pure (kept.insert key held)
  exact yields_startingWith '{' ((yields_objectWith (entries_nil holds) member).imp fun _ kept => kept.2)

variable {fs : List (Field σ)} {start : σ} {done : σ → Option α}

theorem yields_positional {kept : σ → Prop} (each : ∀ f ∈ fs, ∀ s, kept s → Yields (f.read s) depth kept)
    (first : Bool) {s : σ} (held : kept s) : Yields (positional fs first s) depth kept := by
  induction fs generalizing first s with
  | nil => exact yields_pure held
  | cons f fs ih =>
      unfold positional
      refine (steady_moreItems first).then fun more => ?_
      split
      · exact (each f List.mem_cons_self s held).bind fun t held =>
          ih (fun g member => each g (List.mem_cons_of_mem f member)) false held
      · exact yields_pure held

theorem yields_record (kept : σ → Prop) (held : kept start)
    (each : 1 < depth → ∀ f ∈ fs, ∀ s, kept s → Yields (f.read s) (depth - 1) kept) :
    Yields (record start fs done) depth fun a => ∃ s, kept s ∧ done s = some a := by
  have complete {s : σ} (held : kept s) (depth : Nat) :
      Yields (orRefuse (done s)) depth fun a => ∃ s, kept s ∧ done s = some a :=
    (yields_orRefuse (done s)).imp fun a given => ⟨s, held, given⟩
  unfold record
  refine steady_peekToken.then fun c => ?_
  split
  · exact yields_failAhead _
  · refine (Yields.nested fun deep => steady_skip.then fun _ =>
      (yields_positional (each deep) true held).bind fun s kept => complete kept _).bind fun a given => ?_
    exact steady_endList.then fun _ => yields_pure given.2
  · have taken (deep : 1 < depth) (state : σ × List String) (key : String) (held : kept state.1) :
        Yields (takeField fs state key) (depth - 1) fun state => kept state.1 := by
      unfold takeField
      split
      · exact steady_colon.then fun _ => steady_ignoredValue.then fun _ => yields_pure held
      · rename_i f found
        split
        · exact yields_fail _
        · exact steady_colon.then fun _ =>
            (each deep f (List.mem_of_find?_eq_some found) _ held).bind fun t kept => yields_pure kept
    have all : Yields (objectWith (start, ([] : List String)) (takeField fs)) depth
        fun state => 1 < depth ∧ kept state.1 := yields_objectWith held taken
    exact all.bind fun state given => complete given.2 depth
  · exact yields_mismatch _

end Shapes

/-! ### Records -/

section Records

theorem steady_overrideValue : Steady overrideValue := by
  intro depth
  refine (yields_record (fun _ => True) trivial fun _ => ?_).imp fun _ _ => trivial
  simp only [List.forall_mem_cons]
  refine ⟨fun _ _ => steady_peekToken.then fun c => ?_, List.forall_mem_nil _⟩
  split
  · exact (steady_skip.bind fun _ => (steady_word _).bind fun _ => steady_pure _) _
  · exact (steady_anyValue.bind fun j => (steady_orRefuse _).bind fun l => steady_pure _) _

theorem kempt_canonical {j : Json} (within : Within depth j) : j.canonical.Kempt (depth - 1) := by
  refine ⟨tidy_canonical j within.1, ?_⟩
  have shallow := depth_canonical_le j
  have bound := within.2
  omega

theorem yields_kept : Yields (do return (← anyValue).canonical) depth (Json.Kempt (depth - 1)) :=
  yields_anyValue.bind fun _ within => yields_pure (kempt_canonical within)

theorem yields_instanceValue : Yields instanceValue depth (ScriptInstance.Kempt (depth - 3)) := by
  have start : ScriptInstance.Kempt (depth - 3) ⟨"", "", [], [], false, false⟩ :=
    ⟨List.Pairwise.nil, List.forall_mem_nil _, List.Pairwise.nil⟩
  refine (yields_record (fun d => d.base.Kempt (depth - 3)) start fun _ => ?_).imp fun i given => ?_
  · simp only [List.forall_mem_cons]
    refine ⟨fun d kept => ?_, fun d kept => ?_, fun d kept => ?_, fun d kept => ?_, fun d kept => ?_,
      fun d kept => ?_, List.forall_mem_nil _⟩
    · exact (steady_stringValue _).bind fun id _ => yields_pure kept
    · exact (steady_stringValue _).bind fun id _ => yields_pure kept
    · exact (yields_mapValue fun _ => yields_kept).bind fun params entries =>
        yields_pure ⟨entries.1, entries.2, kept.bindings⟩
    · exact (yields_mapValue fun _ => steady_stringValue _).bind fun bindings entries =>
        yields_pure ⟨kept.ordered, kept.params, entries.1⟩
    · exact (steady_boolValue _).bind fun b _ => yields_pure ⟨kept.ordered, kept.params, kept.bindings⟩
    · exact (steady_boolValue _).bind fun b _ => yields_pure ⟨kept.ordered, kept.params, kept.bindings⟩
  · obtain ⟨d, kept, complete⟩ := given
    simp only [InstanceDraft.finish, Option.bind_eq_bind, Option.bind_eq_some_iff] at complete
    obtain ⟨id, -, scriptId, -, same⟩ := complete
    cases same
    exact ⟨kept.ordered, kept.params, kept.bindings⟩

theorem yields_pageValue : Yields pageValue depth (Page.Kempt (depth - 5)) := by
  have start : Page.Kempt (depth - 5) {} := ⟨List.Pairwise.nil, List.forall_mem_nil _⟩
  refine (yields_record (Page.Kempt (depth - 5)) start fun _ => ?_).imp fun p given => ?_
  · simp only [List.forall_mem_cons]
    refine ⟨fun p kept => ?_, fun p kept => ?_, fun p kept => ?_, List.forall_mem_nil _⟩
    · exact (steady_stringValue _).bind fun id _ => yields_pure ⟨kept.overrides, kept.instances⟩
    · exact (yields_mapValue fun _ => steady_overrideValue _).bind fun overrides entries =>
        yields_pure ⟨entries.1, kept.instances⟩
    · exact (yields_listValue fun _ => yields_instanceValue).bind fun instances all =>
        yields_pure ⟨kept.overrides, all⟩
  · obtain ⟨_, kept, complete⟩ := given
    cases complete
    exact kept

end Records

/-! ### Assets, which are looked at only when they were read -/

section Assets

variable {n : Nat} {j : Json} {names : List String}

def members : Json → List Json
  | .array items => items
  | .object fields => fields.map (·.2)
  | _ => []

theorem within_of_mem_members (within : Within n j) {i : Json} (member : i ∈ members j) : Within (n - 1) i := by
  obtain ⟨ranged, shallow⟩ := within
  cases j with
  | array items =>
      have inside := depthItems_le_iff.mp (le_refl (depthItems items)) i member
      rw [Json.depth] at shallow
      exact ⟨throughoutItems_iff.mp ranged.2 i member, by omega⟩
  | object fields =>
      obtain ⟨f, listed, rfl⟩ := List.mem_map.mp member
      have inside := depthFields_le_iff.mp (le_refl (depthFields fields)) f listed
      rw [Json.depth] at shallow
      exact ⟨throughoutFields_iff.mp ranged.2 f listed, by omega⟩
  | _ => exact absurd member List.not_mem_nil

theorem mem_members_of_recordOf? {vs : List (Option Json)} (read : recordOf? names j = some vs) {v : Json}
    (member : some v ∈ vs) : v ∈ members j := by
  unfold recordOf? at read
  split at read
  · rename_i fields
    split at read
    · cases read
      obtain ⟨name, -, found⟩ := List.mem_map.mp member
      obtain ⟨before, after, rfl, -⟩ := List.lookup_eq_some_iff.mp found
      exact List.mem_map.mpr ⟨(name, v), by simp, rfl⟩
    · cases read
  · rename_i items
    split at read
    · cases read
      rcases List.mem_append.mp member with given | absent
      · obtain ⟨i, inside, same⟩ := List.mem_map.mp given
        exact Option.some.inj same ▸ inside
      · cases (List.mem_replicate.mp absent).2
    · cases read
  · cases read

theorem canonical_eq_null (j : Json) (null : j.canonical = .null) : j = .null := by
  cases j <;> first | rfl | cases null

theorem kempt_of_scriptParamOf? (within : ∀ i ∈ members j, Within n i) {q : ScriptParam}
    (read : scriptParamOf? j = some q) : q.Kempt (n - 1) := by
  simp only [scriptParamOf?, Option.bind_eq_bind, Option.bind_eq_some_iff] at read
  obtain ⟨vs, shape, read⟩ := read
  split at read
  · rename_i name type default
    simp only [Option.bind_eq_some_iff] at read
    obtain ⟨_, -, _, -, _, -, same⟩ := read
    cases same
    refine ⟨?_, fun i given => ?_⟩
    · intro null
      simp only at null
      split at null
      · cases null
      · cases null
      · rename_i v present
        exact present (canonical_eq_null v (Option.some.inj null) ▸ rfl)
    · simp only at given
      split at given
      · cases given
      · cases given
      · rename_i v _
        cases given
        exact kempt_canonical (within v (mem_members_of_recordOf? shape (by simp)))
  · cases read

theorem mem_of_mapM {f : α → Option β} {xs : List α} {ys : List β} (read : xs.mapM f = some ys) {y : β}
    (member : y ∈ ys) : ∃ x ∈ xs, f x = some y := by
  induction xs generalizing ys with
  | nil =>
      cases read
      cases member
  | cons x xs ih =>
      rw [List.mapM_cons] at read
      simp only [Option.bind_eq_bind, Option.bind_eq_some_iff] at read
      obtain ⟨z, first, zs, later, same⟩ := read
      cases same
      rcases List.mem_cons.mp member with rfl | inside
      · exact ⟨x, List.mem_cons_self, first⟩
      · obtain ⟨w, listed, given⟩ := ih later inside
        exact ⟨w, List.mem_cons_of_mem x listed, given⟩

theorem kempt_of_scriptAssetOf? (within : ∀ i ∈ members j, Within n i) {s : ScriptAsset}
    (read : scriptAssetOf? j = some s) : ∀ q ∈ s.parameters, q.Kempt (n - 3) := by
  simp only [scriptAssetOf?, Option.bind_eq_bind, Option.bind_eq_some_iff] at read
  obtain ⟨vs, shape, read⟩ := read
  split at read
  · rename_i id name source parameters
    simp only [Option.bind_eq_some_iff] at read
    obtain ⟨_, -, _, -, _, -, _, -, _, -, ps, listed, same⟩ := read
    cases same
    cases parameters with
    | none =>
        cases listed
        exact List.forall_mem_nil _
    | some list =>
        have inside := within list (mem_members_of_recordOf? shape (by simp))
        have listed : listOf? scriptParamOf? list = some ps := listed
        intro q member
        unfold listOf? at listed
        split at listed
        · rename_i items
          obtain ⟨i, item, given⟩ := mem_of_mapM listed member
          exact kempt_of_scriptParamOf? (fun _ => within_of_mem_members (within_of_mem_members inside item)) given
        · cases listed
  · cases read

theorem kempt_of_assetOf? (within : ∀ i ∈ members j, Within n i) {tag : AssetTag} {a : Asset}
    (read : assetOf? tag j = some a) : ∀ q ∈ a.params, q.Kempt (n - 3) := by
  cases tag with
  | value =>
      obtain ⟨v, -, rfl⟩ := Option.map_eq_some_iff.mp read
      exact List.forall_mem_nil _
  | script =>
      obtain ⟨s, script, rfl⟩ := Option.map_eq_some_iff.mp read
      exact kempt_of_scriptAssetOf? within script

theorem steady_tagValue : Steady tagValue := steady_stringValue.bind fun _ => steady_orRefuse _

theorem yields_assetValue : Yields assetValue depth fun a => ∀ q ∈ a.params, q.Kempt (depth - 4) := by
  have complete {j : Json} {tag : AssetTag} (within : ∀ i ∈ members j, Within (depth - 1) i) :
      Yields (orRefuse (assetOf? tag j)) depth fun a => ∀ q ∈ a.params, q.Kempt (depth - 4) :=
    (yields_orRefuse _).imp fun a read => kempt_of_assetOf? within read
  unfold assetValue
  refine steady_peekToken.then fun c => ?_
  split
  · exact yields_failAhead _
  · have listed : Yields (do
          skip
          if ← moreItems true then
            let tag ← tagValue
            let c ← get
            return (tag, ← items anyValue (c.rest.length + 1) false [])
          else fail .wrongShape)
        (depth - 1) fun given => ∀ i ∈ given.2, Within (depth - 1) i := by
      refine steady_skip.then fun _ => (steady_moreItems true).then fun more => ?_
      split
      · exact steady_tagValue.then fun tag => steady_get.then fun c =>
          (yields_items yields_anyValue _ false (List.forall_mem_nil _)).bind fun is all => yields_pure all
      · exact yields_fail _
    refine (Yields.nested fun _ => listed).bind fun given all => steady_endList.then fun _ => ?_
    exact complete all.2
  · have taken (state : Option AssetTag × List (String × Json)) (key : String)
        (within : ∀ f ∈ state.2, Within (depth - 1) f.2) :
        Yields (takeAsset state key) (depth - 1) fun state => ∀ f ∈ state.2, Within (depth - 1) f.2 := by
      unfold takeAsset
      split
      · split
        · exact yields_fail _
        · exact steady_colon.then fun _ => steady_tagValue.then fun tag => yields_pure within
      · exact steady_colon.then fun _ => yields_anyValue.bind fun j here =>
          yields_pure (List.forall_mem_cons.mpr ⟨here, within⟩)
    have all : Yields (objectWith (none, []) takeAsset) depth
        fun state => 1 < depth ∧ ∀ f ∈ state.2, Within (depth - 1) f.2 :=
      yields_objectWith (List.forall_mem_nil _) fun _ => taken
    refine all.bind fun state given => ?_
    dsimp only
    split
    · exact yields_fail _
    · refine complete fun i member => ?_
      obtain ⟨f, inside, rfl⟩ := List.mem_map.mp member
      exact given.2 f (List.mem_reverse.mp inside)
  · exact yields_mismatch _

theorem yields_projectValue : Yields projectValue 128 Project.Kempt := by
  have start : Project.Kempt {} :=
    ⟨List.Pairwise.nil, List.forall_mem_nil _, List.forall_mem_nil _, List.forall_mem_nil _⟩
  refine (yields_record Project.Kempt start fun _ => ?_).imp fun p given => ?_
  · simp only [List.forall_mem_cons]
    refine ⟨fun p kept => ?_, fun p kept => ?_, List.forall_mem_nil _⟩
    · refine (yields_mapValue fun _ => yields_assetValue).bind fun assets entries => yields_pure ?_
      refine ⟨List.pairwise_map.mpr entries.1, ?_, ?_, kept.pages⟩
      · exact List.forall_mem_map.mpr fun e _ => Asset.id_withId e.1 e.2
      · refine List.forall_mem_map.mpr fun e member => ?_
        rw [Asset.params_withId]
        exact entries.2 e member
    · exact (yields_listValue fun _ => yields_pageValue).bind fun pages all =>
        yields_pure ⟨kept.ordered, kept.ids, kept.params, all⟩
  · obtain ⟨_, kept, complete⟩ := given
    cases complete
    exact kept

end Assets

end SlideDeck.Snapshot

namespace SlideDeck

open Json

theorem Project.kempt_of_parse {text : String} {p : Project} (loads : Project.parse text = .ok p) : p.Kempt :=
  Reader.holds_of_run Snapshot.yields_projectValue loads

/-- A project that was loaded has its keys as the ids of its assets, and it is loaded again from what is
written of it, if each number that it stores is read from its text as this number. -/
theorem Project.parse_toJson {text : String} {p : Project} (loads : Project.parse text = .ok p) :
    (∀ e ∈ p.assets, e.2.id = e.1) ∧
    (p.toJson.Throughout Faithful → Project.parse p.toJson.compact = .ok p) := by
  have kempt := Project.kempt_of_parse loads
  refine ⟨kempt.ids, fun faithful => ?_⟩
  have stops : Reader.Stops [] := fun c head => absurd head (by simp)
  have reads := Snapshot.restores_projectValue kempt faithful [] stops
  rw [List.append_nil] at reads
  exact Reader.run_of_reads reads

theorem Project.parse_toJson_of_foreign_ids :
    let assets := "\x7b\"v\":[\"value\",\"u\",\"n\",\"number\",2.5],\"s\":[\"script\",\"\",\"\",\"\",[[\"w\",\"color\",0.1],[\"h\"]]]\x7d"
    let page := "[\"p\",\x7b\"v\":[10],\"s\":[null]\x7d,[[\"i\",\"s\",\x7b\"w\":0.1\x7d,\x7b\"h\":\"n\"\x7d,true]]]"
    let text := "[" ++ assets ++ ",[" ++ page ++ "]]"
    ∃ p, Project.parse text = .ok p ∧ p.assets.map (·.1) = ["s", "v"] ∧ (∀ e ∈ p.assets, e.2.id = e.1) ∧
      Project.parse p.toJson.compact = .ok p := by
  intro assets page text
  have read : ∃ p ∈ (Project.parse text).toOption,
      p.assets.map (·.1) = ["s", "v"] ∧ p.toJson.Throughout Faithful := by decide +kernel
  obtain ⟨p, found, keys, faithful⟩ := read
  cases loads : Project.parse text with
  | error e => rw [loads] at found; cases found
  | ok q =>
      rw [loads] at found
      cases found
      obtain ⟨ids, again⟩ := Project.parse_toJson loads
      exact ⟨p, rfl, keys, ids, again faithful⟩

end SlideDeck
