import Mathlib.Tactic.Tauto
import ProgramFacts.Fact.Delta
import ProgramFacts.Proofs.Store

/-! The replay of deltas.  A delta has the change of every relation whose rows differ, and replaying
it on the store that it starts from gives the rows of the store that it leads to. -/

namespace ProgramFacts.Fact

/-! ## One relation -/

/-- What the replay of a change makes of a relation. -/
structure Replayed (r : Relation) (d : RelationDelta) (r' : Relation) : Prop where
  schema : r'.schema = (r.schema <|> d.schema)
  mem : ∀ t, t ∈ r'.tuples ↔ t ∈ r.tuples ∧ t ∉ d.deleted ∨ t ∈ d.inserted

/-- Every inserted row has as many values as the relation has columns, if it has or gets some. -/
def Replayable (r : Relation) (d : RelationDelta) : Prop :=
  ∀ schema, (r.schema <|> d.schema) = some schema → ∀ t ∈ d.inserted, schema.length = t.length

namespace Delta

theorem foldl_erase_put (s : Store) (name : String) (rows : List Tuple) (r : Relation) :
    rows.foldl (fun s t => (s.erase name t).2) (s.put name r) =
      s.put name (rows.foldl Relation.erase r) := by
  induction rows generalizing r with
  | nil => rfl
  | cons t rows ih => simpa [Store.erase] using ih (r.erase t)

theorem schema_foldl_erase (rows : List Tuple) (r : Relation) :
    (rows.foldl Relation.erase r).schema = r.schema := by
  induction rows generalizing r with
  | nil => rfl
  | cons t rows ih => exact ih (r.erase t)

theorem mem_foldl_erase (rows : List Tuple) (r : Relation) (t : Tuple) :
    t ∈ (rows.foldl Relation.erase r).tuples ↔ t ∈ r.tuples ∧ t ∉ rows := by
  induction rows generalizing r with
  | nil => simp
  | cons u rows ih =>
    rw [List.foldl_cons, ih, Relation.erase, Std.ExtTreeSet.mem_erase, List.mem_cons]
    simp only [ne_eq, Std.LawfulEqCmp.compare_eq_iff_eq, eq_comm (a := u) (b := t)]
    tauto

theorem schema_foldl_insert (rows : List Tuple) (r : Relation) :
    (rows.foldl Relation.insert r).schema = r.schema := by
  induction rows generalizing r with
  | nil => rfl
  | cons t rows ih => exact ih (r.insert t)

theorem mem_foldl_insert (rows : List Tuple) (r : Relation) (t : Tuple) :
    t ∈ (rows.foldl Relation.insert r).tuples ↔ t ∈ r.tuples ∨ t ∈ rows := by
  induction rows generalizing r with
  | nil => simp
  | cons u rows ih =>
    rw [List.foldl_cons, ih, Relation.insert, Std.ExtTreeSet.mem_insert, List.mem_cons]
    simp only [Std.LawfulEqCmp.compare_eq_iff_eq, eq_comm (a := u) (b := t)]
    tauto

theorem foldlM_insert_put (s : Store) (name : String) {rows : List Tuple} {r : Relation}
    (h : ∀ schema, r.schema = some schema → ∀ t ∈ rows, schema.length = t.length) :
    rows.foldlM
      (fun s t =>
        match s.insert name t with
        | (.ok _, s) => .ok s
        | (.error e, _) => .error e) (s.put name r) =
      (.ok (s.put name (rows.foldl Relation.insert r)) : Except ArityMismatch Store) := by
  induction rows generalizing r with
  | nil => rfl
  | cons t rows ih =>
    have ht (schema : Schema) (hs : ((s.put name r).relation name).schema = some schema) :
        schema.length = t.length :=
      h schema (by simpa using hs) t (.head _)
    rw [List.foldlM_cons, Store.insert_eq_of_length ht]
    simp only [Store.relation_put_self, Store.put_put]
    exact ih fun schema hs u hu => h schema hs u (.tail _ hu)

/-- A relation with the columns of a change, if it had none, and without the deleted rows. -/
def prepared (r : Relation) (d : RelationDelta) : Relation :=
  d.deleted.toList.foldl Relation.erase ⟨r.schema <|> d.schema, r.tuples⟩

@[simp] theorem schema_prepared (r : Relation) (d : RelationDelta) :
    (prepared r d).schema = (r.schema <|> d.schema) :=
  schema_foldl_erase _ _

/-- A replay prepares the relation and then inserts row by row. -/
theorem replay_eq_foldlM (s : Store) (name : String) (d : RelationDelta) :
    replay s name d =
      d.inserted.toList.foldlM
        (fun s t =>
          match s.insert name t with
          | (.ok _, s) => .ok s
          | (.error e, _) => .error e)
        (s.put name (prepared (s.relation name) d)) := by
  unfold prepared
  rw [← foldl_erase_put]
  unfold replay
  cases hd : d.schema with
  | none =>
    have hschema : ((s.relation name).schema <|> none) = (s.relation name).schema := by
      cases (s.relation name).schema <;> rfl
    rw [hschema]
    rfl
  | some schema =>
    cases hs : (s.relation name).schema <;>
      simp only [Store.installSchema, Relation.installSchema, hs, Option.getD] <;> rfl

/-- A change can be replayed if its inserted rows fit, and touches no other relation. -/
theorem replay_eq_ok {s : Store} {name : String} {d : RelationDelta}
    (h : Replayable (s.relation name) d) :
    ∃ r, replay s name d = .ok (s.put name r) ∧ Replayed (s.relation name) d r := by
  rw [replay_eq_foldlM, foldlM_insert_put]
  · refine ⟨_, rfl, ?_, fun t => ?_⟩
    · rw [schema_foldl_insert, schema_prepared]
    · rw [mem_foldl_insert, prepared, mem_foldl_erase]
      simp only [Std.ExtTreeSet.mem_toList]
  · intro schema hs t ht
    rw [schema_prepared] at hs
    exact h schema hs t (Std.ExtTreeSet.mem_toList.mp ht)

/-! ## All relations -/

/-- Changes of different relations can be replayed one after the other. -/
theorem foldlM_replay_eq_ok {changes : List (String × RelationDelta)}
    (hnames : (changes.map Prod.fst).Nodup) {s : Store}
    (h : ∀ e ∈ changes, Replayable (s.relation e.1) e.2) :
    ∃ s', changes.foldlM (fun s e => replay s e.1 e.2) s = .ok s' ∧
      (∀ name, name ∉ changes.map Prod.fst → s'.relation? name = s.relation? name) ∧
      ∀ e ∈ changes, ∃ r, s'.relation? e.1 = some r ∧ Replayed (s.relation e.1) e.2 r := by
  induction changes generalizing s with
  | nil => exact ⟨s, rfl, fun _ _ => rfl, by simp⟩
  | cons e changes ih =>
    obtain ⟨hnew, hnames⟩ := List.nodup_cons.mp hnames
    obtain ⟨he, hchanges⟩ := List.forall_mem_cons.mp h
    obtain ⟨r, hr, hreplayed⟩ := replay_eq_ok he
    have hother {e' : String × RelationDelta} (he' : e' ∈ changes) : e.1 ≠ e'.1 := by
      rintro heq
      exact hnew (heq ▸ List.mem_map_of_mem he')
    have hrelation {e' : String × RelationDelta} (he' : e' ∈ changes) :
        (s.put e.1 r).relation e'.1 = s.relation e'.1 := by
      simp [Store.relation_put, hother he']
    obtain ⟨s', hs', hkept, hall⟩ := ih hnames fun e' he' => by
      rw [hrelation he']
      exact hchanges e' he'
    refine ⟨s', ?_, fun name hname => ?_, List.forall_mem_cons.mpr ⟨⟨r, ?_, hreplayed⟩, ?_⟩⟩
    · rw [List.foldlM_cons, hr]
      exact hs'
    · simp only [List.map_cons, List.mem_cons, not_or] at hname
      rw [hkept name hname.2, Store.relation?_put, if_neg (Ne.symm hname.1)]
    · rw [hkept e.1 hnew, Store.relation?_put_self]
    · intro e' he'
      obtain ⟨r', hr', hreplayed'⟩ := hall e' he'
      exact ⟨r', hr', hrelation he' ▸ hreplayed'⟩

theorem mem_relations_toList {d : Delta} {name : String} {change : RelationDelta} :
    (name, change) ∈ d.relations.toList ↔ d.get? name = some change :=
  Std.ExtTreeMap.mem_toList_iff_getElem?_eq_some

theorem mem_names {d : Delta} {name : String} :
    name ∈ d.relations.toList.map Prod.fst ↔ ∃ change, d.get? name = some change := by
  simp only [List.mem_map, Prod.exists, exists_and_right, exists_eq_right, mem_relations_toList]

theorem nodup_names (d : Delta) : (d.relations.toList.map Prod.fst).Nodup := by
  rw [Std.ExtTreeMap.map_fst_toList_eq_keys]
  exact Std.ExtTreeMap.nodup_keys

/-- A delta whose inserted rows fit can be replayed: the changed relations are replayed, the others
are kept, and those without rows are dropped. -/
theorem applyTo_eq_ok {d : Delta} {base : Option Store}
    (h : ∀ name change, d.get? name = some change →
      Replayable ((base.getD .empty).relation name) change) :
    ∃ s : Store, d.applyTo base = .ok s.prune ∧
      (∀ name, d.get? name = none → s.relation? name = (base.getD .empty).relation? name) ∧
      ∀ name change, d.get? name = some change → ∃ r, s.relation? name = some r ∧
        Replayed ((base.getD .empty).relation name) change r := by
  obtain ⟨s, hs, hkept, hall⟩ := foldlM_replay_eq_ok d.nodup_names fun e he =>
    h e.1 e.2 (mem_relations_toList.mp he)
  refine ⟨s, ?_, fun name hname => hkept name fun hmem => ?_, fun name change hchange => ?_⟩
  · unfold applyTo
    rw [hs]
    rfl
  · obtain ⟨change, hchange⟩ := mem_names.mp hmem
    rw [hname] at hchange
    contradiction
  · exact hall (name, change) (mem_relations_toList.mpr hchange)

/-! ## The delta of two stores -/

theorem get?_record (previous current : Store) (d : Delta) (name other : String) :
    (record previous current d name).get? other =
      if name = other ∧
          (RelationDelta.between (previous.relation name) (current.relation name)).isEmpty = false
      then some (.between (previous.relation name) (current.relation name))
      else d.get? other := by
  unfold record
  dsimp only
  split
  · rename_i h
    simp [h]
  · rename_i h
    simp [h, get?, Std.ExtTreeMap.getElem?_insert]

theorem get?_foldl_record (previous current : Store) (names : List String) (d : Delta)
    (name : String) :
    (names.foldl (record previous current) d).get? name =
      if name ∈ names ∧
          (RelationDelta.between (previous.relation name) (current.relation name)).isEmpty = false
      then some (.between (previous.relation name) (current.relation name))
      else d.get? name := by
  induction names generalizing d with
  | nil => simp
  | cons other names ih =>
    rw [List.foldl_cons, ih, get?_record]
    by_cases hname : other = name
    · subst hname
      split <;> simp_all
    · simp [hname, Ne.symm hname]

theorem RelationDelta.isEmpty_between_empty :
    (RelationDelta.between .empty .empty).isEmpty = true := by
  simp [RelationDelta.between, RelationDelta.isEmpty, Relation.empty]

theorem relation_of_not_mem_keys {s : Store} {name : String} (h : name ∉ s.relations.keys) :
    s.relation name = .empty := by
  have : s.relations[name]? = none := by
    rw [Std.ExtTreeMap.mem_keys] at h
    exact Std.ExtTreeMap.getElem?_eq_none h
  simp [Store.relation, Store.relation?, this]

/-- A delta has the change of every relation that changed. -/
theorem get?_between (previous current : Option Store) (name : String) :
    (between previous current).get? name =
      if (RelationDelta.between ((previous.getD .empty).relation name)
          ((current.getD .empty).relation name)).isEmpty
      then none
      else some (.between ((previous.getD .empty).relation name)
        ((current.getD .empty).relation name)) := by
  unfold between
  rw [get?_foldl_record]
  have hempty : Delta.get? ⟨∅⟩ name = none := by simp [get?]
  rw [hempty]
  by_cases hmem : name ∈
      (previous.getD .empty).relations.keys ++ (current.getD .empty).relations.keys
  · cases h : (RelationDelta.between ((previous.getD .empty).relation name)
      ((current.getD .empty).relation name)).isEmpty <;> simp [hmem]
  · rw [List.mem_append, not_or] at hmem
    rw [relation_of_not_mem_keys hmem.1, relation_of_not_mem_keys hmem.2,
      RelationDelta.isEmpty_between_empty]
    simp

end Delta

/-- Nothing changed exactly if the rows are the same. -/
theorem RelationDelta.isEmpty_between {previous current : Relation} :
    (RelationDelta.between previous current).isEmpty = true ↔
      previous.tuples = current.tuples := by
  simp only [RelationDelta.between, RelationDelta.isEmpty, Bool.and_eq_true,
    Std.ExtTreeSet.isEmpty_iff, Std.ExtTreeSet.eq_empty_iff_forall_not_mem,
    Std.ExtTreeSet.mem_diff_iff]
  constructor
  · rintro ⟨hdeleted, hinserted⟩
    refine Std.ExtTreeSet.ext_mem fun t => ⟨fun ht => ?_, fun ht => ?_⟩
    · exact Classical.not_not.mp fun hnot => hdeleted t ⟨ht, hnot⟩
    · exact Classical.not_not.mp fun hnot => hinserted t ⟨ht, hnot⟩
  · intro h
    simp [h]

/-- The replay of the change from one relation to another gives the rows of the latter. -/
theorem Replayed.tuples_eq {previous current r : Relation}
    (h : Replayed previous (.between previous current) r) : r.tuples = current.tuples := by
  refine Std.ExtTreeSet.ext_mem fun t => (h.mem t).trans ?_
  simp only [RelationDelta.between, Std.ExtTreeSet.mem_diff_iff]
  tauto

theorem Replayed.schema_eq {previous current r : Relation}
    (h : Replayed previous (.between previous current) r) :
    r.schema = (previous.schema <|> current.schema) := by
  rw [h.schema, RelationDelta.between]
  cases previous.schema <;> rfl

/-- The replay of the delta between two stores on the first of them gives the relations of the
second that have rows; their columns are those of the first store, if it has any and unless the
rows are the same. -/
theorem Delta.applyTo_between {previous current : Option Store}
    (h : ∀ name, Replayable ((previous.getD .empty).relation name)
      (.between ((previous.getD .empty).relation name) ((current.getD .empty).relation name))) :
    ∃ s, (between previous current).applyTo previous = .ok s ∧
      ∀ name, s.relation? name =
        if ((current.getD .empty).relation name).tuples.isEmpty then none
        else some ⟨if ((previous.getD .empty).relation name).tuples =
              ((current.getD .empty).relation name).tuples
            then ((previous.getD .empty).relation name).schema
            else ((previous.getD .empty).relation name).schema <|>
              ((current.getD .empty).relation name).schema,
          ((current.getD .empty).relation name).tuples⟩ := by
  have hreplayable (name : String) (change : RelationDelta)
      (hchange : (between previous current).get? name = some change) :
      Replayable ((previous.getD .empty).relation name) change := by
    rw [get?_between] at hchange
    split at hchange
    · contradiction
    · exact Option.some.inj hchange ▸ h name
  obtain ⟨s, hs, hkept, hall⟩ := applyTo_eq_ok hreplayable
  refine ⟨s.prune, hs, fun name => ?_⟩
  have hget := get?_between previous current name
  generalize hp : (previous.getD .empty).relation name = old at *
  generalize hc : (current.getD .empty).relation name = new at *
  rw [Store.relation?_prune]
  by_cases hsame : old.tuples = new.tuples
  · rw [if_pos (RelationDelta.isEmpty_between.mpr hsame)] at hget
    rw [hkept name hget, if_pos hsame]
    cases hr : (previous.getD .empty).relation? name with
    | none =>
      have : old.tuples = ∅ := by
        rw [← hp]
        simp [Store.relation, hr, Relation.empty]
      simp [← hsame, this]
    | some r =>
      obtain rfl := (Store.relation_of_relation? hr).symm.trans hp
      cases he : r.tuples.isEmpty <;> simp [Option.filter, ← hsame, he]
  · rw [if_neg (fun he => hsame (RelationDelta.isEmpty_between.mp he))] at hget
    obtain ⟨r, hr, hreplayed⟩ := hall name _ hget
    rw [hp] at hreplayed
    have htuples := hreplayed.tuples_eq
    have hschema := hreplayed.schema_eq
    obtain ⟨schema, tuples⟩ := r
    obtain rfl : tuples = new.tuples := htuples
    obtain rfl : schema = (old.schema <|> new.schema) := hschema
    rw [hr, if_neg hsame]
    cases he : new.tuples.isEmpty <;> simp [Option.filter, he]

end ProgramFacts.Fact
