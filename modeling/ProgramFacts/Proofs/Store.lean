import ProgramFacts.Fact.Store

/-! Stores through their relations: what each operation does to the relation of every name.  A store
is determined by its relations. -/

namespace ProgramFacts.Fact

theorem isEmpty_eq_false_of_mem {ts : TupleSet} {t : Tuple} (h : t ∈ ts) : ts.isEmpty = false := by
  cases hempty : ts.isEmpty with
  | false => rfl
  | true =>
    rw [Std.ExtTreeSet.isEmpty_iff.mp hempty] at h
    exact absurd h Std.ExtTreeSet.not_mem_empty

namespace Store

theorem ext_relation? {s t : Store} (h : ∀ name, s.relation? name = t.relation? name) : s = t := by
  obtain ⟨s⟩ := s
  obtain ⟨t⟩ := t
  exact congrArg Store.mk (Std.ExtTreeMap.ext_getElem? fun {name} => h name)

@[simp] theorem relation?_empty (name : String) : empty.relation? name = none := by
  simp [relation?, empty]

@[simp] theorem relation_empty (name : String) : empty.relation name = .empty := by
  simp [relation]

theorem relation_of_relation? {s : Store} {name : String} {r : Relation}
    (h : s.relation? name = some r) : s.relation name = r := by
  simp [relation, h]

theorem relation?_put (s : Store) (name other : String) (r : Relation) :
    (s.put name r).relation? other = if name = other then some r else s.relation? other := by
  simp [relation?, put, Std.ExtTreeMap.getElem?_insert]

@[simp] theorem relation?_put_self (s : Store) (name : String) (r : Relation) :
    (s.put name r).relation? name = some r := by
  simp [relation?_put]

theorem relation_put (s : Store) (name other : String) (r : Relation) :
    (s.put name r).relation other = if name = other then r else s.relation other := by
  unfold relation
  rw [relation?_put]
  split <;> rfl

@[simp] theorem relation_put_self (s : Store) (name : String) (r : Relation) :
    (s.put name r).relation name = r := by
  simp [relation_put]

@[simp] theorem put_put (s : Store) (name : String) (r r' : Relation) :
    (s.put name r).put name r' = s.put name r' :=
  ext_relation? fun other => by
    simp only [relation?_put]
    split <;> rfl

theorem relation?_prune (s : Store) (name : String) :
    s.prune.relation? name = (s.relation? name).filter fun r => !r.tuples.isEmpty := by
  simp [relation?, prune]

/-- The texts are those of the relations that have rows. -/
theorem mem_serialize {s : Store} {name text : String} :
    (name, text) ∈ s.serialize ↔
      ∃ r, s.relation? name = some r ∧ r.tuples.isEmpty = false ∧ r.text = text := by
  have hentry (r : Relation) : (name, r) ∈ s.prune.relations.toList ↔
      s.relation? name = some r ∧ r.tuples.isEmpty = false := by
    rw [Std.ExtTreeMap.mem_toList_iff_getElem?_eq_some]
    show s.prune.relation? name = some r ↔ _
    rw [relation?_prune, Option.filter_eq_some_iff, Bool.not_eq_true']
  unfold serialize
  rw [List.mem_map]
  constructor
  · rintro ⟨⟨name', r⟩, hr, heq⟩
    obtain ⟨rfl, rfl⟩ := Prod.mk.inj heq
    exact ⟨r, ((hentry r).mp hr).1, ((hentry r).mp hr).2, rfl⟩
  · rintro ⟨r, hr, hrows, rfl⟩
    exact ⟨(name, r), (hentry r).mpr ⟨hr, hrows⟩, rfl⟩

/-- A row that has as many values as its relation has columns is put into it. -/
theorem insert_eq_of_length {s : Store} {name : String} {t : Tuple}
    (h : ∀ schema, (s.relation name).schema = some schema → schema.length = t.length) :
    s.insert name t =
      (.ok !(s.relation name).tuples.contains t, s.put name ((s.relation name).insert t)) := by
  have : (s.relation name).arityConflict t = none := by
    unfold Relation.arityConflict
    cases hs : (s.relation name).schema with
    | none => rfl
    | some schema => simp [h schema hs]
  simp [insert, this]

/-- A row that has another number of values than its relation has columns is not put into it. -/
theorem insert_eq_of_length_ne {s : Store} {name : String} {t : Tuple} {schema : Schema}
    (hs : (s.relation name).schema = some schema) (h : schema.length ≠ t.length) :
    s.insert name t = (.error ⟨name, schema.length, t.length⟩, s.touch name) := by
  have : (s.relation name).arityConflict t = some schema.length := by
    simp [Relation.arityConflict, hs, h]
  simp [insert, this]

/-- A row of a relation without columns, or with the given ones, is put into it with these. -/
theorem emit_eq_of_length {s : Store} {name : String} {schema : Schema} {t : Tuple}
    (hs : ∀ old, (s.relation name).schema = some old → old = schema)
    (ht : schema.length = t.length) :
    s.emit name schema t = (.ok !(s.relation name).tuples.contains t,
      s.put name ⟨some schema, (s.relation name).tuples.insert t⟩) := by
  have hget : (s.relation name).schema.getD schema = schema := by
    cases h : (s.relation name).schema with
    | none => rfl
    | some old => exact hs old h
  unfold emit installSchema
  rw [insert_eq_of_length]
  · simp [Relation.installSchema, Relation.insert, hget]
  · simp [Relation.installSchema, hget, ht]

end Store

end ProgramFacts.Fact
