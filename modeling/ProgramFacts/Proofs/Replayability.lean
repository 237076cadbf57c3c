import ProgramFacts.Proofs.Replay

/-! Deltas between arbitrary stores, whose relations may be missing, empty or without columns, or
have other columns in each store.  A delta has the changes of the relations whose rows differ.  Its
replay fails exactly when an inserted row does not fit the columns of its relation: those in the
store that it is replayed on or, if there are none, those in the store that it leads to. -/

namespace ProgramFacts.Fact

variable {A B : Option Store} {s : Store} {r r' : Relation} {d : RelationDelta} {name : String}

/-! ## Rows that do not fit -/

/-- The mismatch of an inserted row that has more or fewer values than its relation has columns. -/
def Misfit (name : String) (r : Relation) (d : RelationDelta) (e : ArityMismatch) : Prop :=
  ∃ schema t, (r.schema <|> d.schema) = some schema ∧ t ∈ d.inserted ∧
    schema.length ≠ t.length ∧ e = ⟨name, schema.length, t.length⟩

namespace Delta

/-- Rows are inserted up to the first that does not fit. -/
theorem foldlM_insert_eq_error (s : Store) (name : String) {rows : List Tuple} {r : Relation}
    {schema : Schema} (hs : r.schema = some schema) (h : ∃ t ∈ rows, schema.length ≠ t.length) :
    ∃ t ∈ rows, schema.length ≠ t.length ∧
      rows.foldlM
        (fun s t =>
          match s.insert name t with
          | (.ok _, s) => .ok s
          | (.error e, _) => .error e) (s.put name r) =
        (.error ⟨name, schema.length, t.length⟩ : Except ArityMismatch Store) := by
  induction rows generalizing r with
  | nil => simp at h
  | cons t rows ih =>
    have hinstalled : ((s.put name r).relation name).schema = some schema := by simpa using hs
    by_cases ht : schema.length = t.length
    · have hrest : ∃ u ∈ rows, schema.length ≠ u.length := by simpa [ht] using h
      obtain ⟨u, hu, hne, hfold⟩ := ih (r := r.insert t) hs hrest
      refine ⟨u, .tail _ hu, hne, ?_⟩
      have hfits (old : Schema) (hold : ((s.put name r).relation name).schema = some old) :
          old.length = t.length :=
        Option.some.inj (hinstalled.symm.trans hold) ▸ ht
      rw [List.foldlM_cons, Store.insert_eq_of_length hfits]
      simp only [Store.relation_put_self, Store.put_put]
      exact hfold
    · refine ⟨t, .head _, ht, ?_⟩
      rw [List.foldlM_cons, Store.insert_eq_of_length_ne hinstalled ht]
      rfl

theorem replay_eq_error (h : ¬Replayable (s.relation name) d) :
    ∃ e, replay s name d = .error e ∧ Misfit name (s.relation name) d e := by
  simp only [Replayable, not_forall] at h
  obtain ⟨schema, hs, t, ht, hne⟩ := h
  rw [replay_eq_foldlM]
  obtain ⟨u, hu, hne, hfold⟩ :=
    foldlM_insert_eq_error s name (r := prepared (s.relation name) d)
      ((schema_prepared _ _).trans hs) ⟨t, Std.ExtTreeSet.mem_toList.mpr ht, hne⟩
  exact ⟨_, hfold, schema, u, hs, Std.ExtTreeSet.mem_toList.mp hu, hne, rfl⟩

/-- Changes of different relations are replayed up to the first that has a row that does not fit. -/
theorem foldlM_replay_eq_error {changes : List (String × RelationDelta)}
    (hnames : (changes.map Prod.fst).Nodup) {s : Store}
    (h : ∃ e ∈ changes, ¬Replayable (s.relation e.1) e.2) :
    ∃ mismatch, changes.foldlM (fun s e => replay s e.1 e.2) s = .error mismatch ∧
      ∃ e ∈ changes, Misfit e.1 (s.relation e.1) e.2 mismatch := by
  induction changes generalizing s with
  | nil => simp at h
  | cons e changes ih =>
    rw [List.foldlM_cons]
    by_cases he : Replayable (s.relation e.1) e.2
    · obtain ⟨hnew, hnames⟩ := List.nodup_cons.mp hnames
      obtain ⟨r, hr, _⟩ := replay_eq_ok he
      have hrelation {e' : String × RelationDelta} (he' : e' ∈ changes) :
          (s.put e.1 r).relation e'.1 = s.relation e'.1 := by
        rw [Store.relation_put, if_neg]
        exact fun heq => hnew (heq ▸ List.mem_map_of_mem he')
      obtain ⟨e', he', hnot⟩ := h
      have hlater : e' ∈ changes := by
        rcases List.mem_cons.mp he' with rfl | he'
        · exact absurd he hnot
        · exact he'
      obtain ⟨mismatch, hfold, e'', he'', hmisfit⟩ :=
        ih hnames ⟨e', hlater, by rwa [hrelation hlater]⟩
      rw [hrelation he''] at hmisfit
      exact ⟨mismatch, hr ▸ hfold, e'', .tail _ he'', hmisfit⟩
    · obtain ⟨mismatch, hreplay, hmisfit⟩ := replay_eq_error he
      refine ⟨mismatch, ?_, e, .head _, hmisfit⟩
      rw [hreplay]
      rfl

theorem applyTo_eq_error {d : Delta} {base : Option Store}
    (h : ∃ name change, d.get? name = some change ∧
      ¬Replayable ((base.getD .empty).relation name) change) :
    ∃ mismatch, d.applyTo base = .error mismatch ∧ ∃ name change, d.get? name = some change ∧
      Misfit name ((base.getD .empty).relation name) change mismatch := by
  obtain ⟨name, change, hchange, hnot⟩ := h
  obtain ⟨mismatch, hfold, e, he, hmisfit⟩ := foldlM_replay_eq_error d.nodup_names
    ⟨(name, change), mem_relations_toList.mpr hchange, hnot⟩
  refine ⟨mismatch, ?_, e.1, e.2, mem_relations_toList.mp he, hmisfit⟩
  unfold applyTo
  rw [hfold]
  rfl

/-- A replay succeeds exactly if all inserted rows fit. -/
theorem exists_applyTo_iff {d : Delta} {base : Option Store} :
    (∃ s, d.applyTo base = .ok s) ↔ ∀ name change, d.get? name = some change →
      Replayable ((base.getD .empty).relation name) change := by
  constructor
  · rintro ⟨s, hs⟩ name change hchange
    refine Classical.not_not.mp fun hnot => ?_
    obtain ⟨mismatch, herror, _⟩ := applyTo_eq_error ⟨name, change, hchange, hnot⟩
    rw [hs] at herror
    contradiction
  · intro h
    obtain ⟨s, hs, _⟩ := applyTo_eq_ok h
    exact ⟨_, hs⟩

theorem misfit_of_applyTo_eq_error {d : Delta} {base : Option Store} {mismatch : ArityMismatch}
    (h : d.applyTo base = .error mismatch) : ∃ name change, d.get? name = some change ∧
      Misfit name ((base.getD .empty).relation name) change mismatch := by
  have hnot : ¬∃ s, d.applyTo base = .ok s := by simp [h]
  simp only [exists_applyTo_iff, not_forall] at hnot
  obtain ⟨name, change, hchange, hnot⟩ := hnot
  obtain ⟨_, herror, hmisfit⟩ := applyTo_eq_error ⟨name, change, hchange, hnot⟩
  rwa [← Except.error.inj (h.symm.trans herror)] at hmisfit

end Delta

/-! ## Two relations -/

/-- Every row that only `r'` has fits the columns of `r` or, if `r` has none, those of `r'`. -/
def Admits (r r' : Relation) : Prop :=
  ∀ schema, (r.schema <|> r'.schema) = some schema →
    ∀ t ∈ r'.tuples, t ∉ r.tuples → t.length = schema.length

theorem replayable_between_iff : Replayable r (.between r r') ↔ Admits r r' := by
  have hschema : (r.schema <|> (r.schema <|> r'.schema)) = (r.schema <|> r'.schema) := by
    cases r.schema <;> rfl
  simp only [Replayable, RelationDelta.between, hschema, Std.ExtTreeSet.mem_diff_iff]
  constructor
  · intro h schema hs t ht hnot
    exact (h schema hs t ⟨ht, hnot⟩).symm
  · rintro h schema hs t ⟨ht, hnot⟩
    exact (h schema hs t ht hnot).symm

theorem admits_of_tuples_eq (h : r.tuples = r'.tuples) : Admits r r' :=
  fun _ _ _ ht hnot => absurd (h ▸ ht) hnot

/-- What the replay of the change from `r` to `r'` makes of `r`: the rows of `r'`, with the columns
of `r` if there are any.  A relation that did not change gets no columns. -/
structure Adopted (r r' result : Relation) : Prop where
  tuples : result.tuples = r'.tuples
  kept : ∀ schema, r.schema = some schema → result.schema = some schema
  taken : r.schema = none → result.schema = if r.tuples = r'.tuples then none else r'.schema

/-! ## Two stores -/

theorem Delta.exists_change_iff_tuples_ne :
    (∃ change, (between A B).get? name = some change) ↔
      ((A.getD .empty).relation name).tuples ≠ ((B.getD .empty).relation name).tuples := by
  rw [get?_between, ne_eq, ← RelationDelta.isEmpty_between]
  split <;> simp_all

theorem Delta.get?_between_eq_some {change : RelationDelta}
    (h : (between A B).get? name = some change) :
    change = .between ((A.getD .empty).relation name) ((B.getD .empty).relation name) := by
  rw [get?_between] at h
  split at h
  · contradiction
  · exact (Option.some.inj h).symm

theorem Delta.exists_applyTo_between_iff :
    (∃ s, (between A B).applyTo A = .ok s) ↔
      ∀ name, ((A.getD .empty).relation name).tuples ≠ ((B.getD .empty).relation name).tuples →
        Admits ((A.getD .empty).relation name) ((B.getD .empty).relation name) := by
  rw [exists_applyTo_iff]
  refine forall_congr' fun name => ⟨fun h hne => ?_, fun h change hchange => ?_⟩
  · obtain ⟨change, hchange⟩ := exists_change_iff_tuples_ne.mpr hne
    have hreplayable := h change hchange
    rw [get?_between_eq_some hchange] at hreplayable
    exact replayable_between_iff.mp hreplayable
  · rw [get?_between_eq_some hchange]
    exact replayable_between_iff.mpr (h (exists_change_iff_tuples_ne.mp ⟨change, hchange⟩))

theorem Delta.relation?_of_applyTo_between (h : (between A B).applyTo A = .ok s) (name : String) :
    (((B.getD .empty).relation name).tuples = ∅ → s.relation? name = none) ∧
      (((B.getD .empty).relation name).tuples ≠ ∅ → ∃ r, s.relation? name = some r ∧
        Adopted ((A.getD .empty).relation name) ((B.getD .empty).relation name) r) := by
  have hall (name : String) : Replayable ((A.getD .empty).relation name)
      (.between ((A.getD .empty).relation name) ((B.getD .empty).relation name)) := by
    by_cases hsame : ((A.getD .empty).relation name).tuples =
        ((B.getD .empty).relation name).tuples
    · exact replayable_between_iff.mpr (admits_of_tuples_eq hsame)
    · exact replayable_between_iff.mpr (exists_applyTo_between_iff.mp ⟨s, h⟩ name hsame)
  obtain ⟨s', hs', hrelation⟩ := applyTo_between hall
  obtain rfl := Except.ok.inj (h.symm.trans hs')
  specialize hrelation name
  constructor
  · intro hempty
    rw [hrelation, hempty, if_pos (by simp)]
  · intro hrows
    rw [if_neg (by simpa using hrows)] at hrelation
    refine ⟨_, hrelation, rfl, fun schema hschema => ?_, fun hnone => ?_⟩
    · dsimp only
      rw [hschema]
      split <;> rfl
    · dsimp only
      rw [hnone]
      split <;> rfl

/-- The delta between two stores, either of which may be missing, has the changes of the relations
whose rows differ: what the one has and the other lacks.  The delta the other way round has the same
changes with deleted and inserted rows exchanged.  The replay on the first store succeeds exactly if
each changed relation admits the new rows, and otherwise fails with the mismatch of one of them;
when it succeeds, the result has exactly the relations of the second store that have rows. -/
theorem delta_of_any_stores (A B : Option Store) :
    let a := A.getD .empty
    let b := B.getD .empty
    let d := Delta.between A B
    (∀ name, (∃ change, d.get? name = some change) ↔
      (a.relation name).tuples ≠ (b.relation name).tuples) ∧
    (∀ name change, d.get? name = some change →
      change.deleted = (a.relation name).tuples \ (b.relation name).tuples ∧
        change.inserted = (b.relation name).tuples \ (a.relation name).tuples) ∧
    (∀ name, ((Delta.between B A).get? name).map (fun change => (change.deleted, change.inserted)) =
      (d.get? name).map fun change => (change.inserted, change.deleted)) ∧
    ((∃ s, d.applyTo A = .ok s) ↔ ∀ name, (a.relation name).tuples ≠ (b.relation name).tuples →
      Admits (a.relation name) (b.relation name)) ∧
    (∀ e, d.applyTo A = .error e → ∃ name change, d.get? name = some change ∧
      Misfit name (a.relation name) change e) ∧
    ∀ s, d.applyTo A = .ok s → ∀ name,
      ((b.relation name).tuples = ∅ → s.relation? name = none) ∧
        ((b.relation name).tuples ≠ ∅ → ∃ r, s.relation? name = some r ∧
          Adopted (a.relation name) (b.relation name) r) := by
  intro a b d
  refine ⟨fun name => Delta.exists_change_iff_tuples_ne, fun name change hchange => ?_,
    fun name => ?_, Delta.exists_applyTo_between_iff, fun e => Delta.misfit_of_applyTo_eq_error,
    fun s => Delta.relation?_of_applyTo_between⟩
  · rw [Delta.get?_between_eq_some hchange]
    exact ⟨rfl, rfl⟩
  · rw [Delta.get?_between, Delta.get?_between]
    by_cases hsame : (a.relation name).tuples = (b.relation name).tuples
    · rw [if_pos (RelationDelta.isEmpty_between.mpr hsame),
        if_pos (RelationDelta.isEmpty_between.mpr hsame.symm)]
      rfl
    · rw [if_neg (fun h => hsame (RelationDelta.isEmpty_between.mp h)),
        if_neg (fun h => hsame (RelationDelta.isEmpty_between.mp h).symm)]
      rfl

/-- A store with a relation of one column. -/
def narrow : Store := (Store.empty.emit "R" (.ofNames ["x"]) [.int 1]).2

/-- A store whose relation of that name has another number of columns. -/
def wide : Store := (Store.empty.emit "R" (.ofNames ["x", "y"]) [.int 1, .int 2]).2

/-- The relation keeps its columns, so a row of the other one does not fit. -/
theorem delta_of_conflicting_stores :
    ∃ e, (Delta.between (some narrow) (some wide)).applyTo (some narrow) = .error e ∧
      ∃ change, (Delta.between (some narrow) (some wide)).get? "R" = some change ∧
        change.inserted = (wide.relation "R").tuples \ (narrow.relation "R").tuples := by
  obtain ⟨hchanged, hrows, _, hok, _, _⟩ := delta_of_any_stores (some narrow) (some wide)
  have hne : (narrow.relation "R").tuples ≠ (wide.relation "R").tuples := by decide +kernel
  have hrefused : ¬Admits (narrow.relation "R") (wide.relation "R") := by
    intro hadmits
    have hlength := hadmits (.ofNames ["x"]) (by decide +kernel) [.int 1, .int 2]
      (by decide +kernel) (by decide +kernel)
    simp [Schema.ofNames] at hlength
  obtain ⟨change, hchange⟩ := (hchanged "R").mpr hne
  cases hresult : (Delta.between (some narrow) (some wide)).applyTo (some narrow) with
  | ok s => exact absurd (hok.mp ⟨s, hresult⟩ "R" hne) hrefused
  | error e => exact ⟨e, rfl, change, hchange, (hrows "R" change hchange).2⟩

end ProgramFacts.Fact
