import Mathlib.Data.List.Induction
import ProgramFacts.Proofs.Store

/-! Stores after any sequence of operations, failing ones among them.  The columns of a relation are
the first that it was given, and its rows are those whose last accepted insertion no removal
follows. -/

namespace ProgramFacts.Fact

/-- An operation that writes to one relation of a store. -/
inductive Operation
  | emit (name : String) (schema : Schema) (row : Tuple)
  | installSchema (name : String) (schema : Schema)
  | insert (name : String) (row : Tuple)
  | erase (name : String) (row : Tuple)
deriving DecidableEq, Repr

namespace Operation

/-- The relation that an operation writes to. -/
def target : Operation → String
  | emit name _ _ | installSchema name _ | insert name _ | erase name _ => name

/-- The columns that an operation installs if its relation has none. -/
def schema? : Operation → Option Schema
  | emit _ schema _ | installSchema _ schema => some schema
  | insert _ _ | erase _ _ => none

/-- The row that an operation inserts unless it fails. -/
def row? : Operation → Option Tuple
  | emit _ _ row | insert _ row => some row
  | installSchema _ _ | erase _ _ => none

/-- The answer of an operation and the store that it leaves. -/
def apply (s : Store) : Operation → Except ArityMismatch Bool × Store
  | emit name schema row => s.emit name schema row
  | installSchema name schema =>
    let (installed, s) := s.installSchema name schema
    (.ok installed, s)
  | insert name row => s.insert name row
  | erase name row =>
    let (removed, s) := s.erase name row
    (.ok removed, s)

/-- The columns in force when an operation inserts its row: those of the relation or, if it has
none, those that the operation installs. -/
def inForce (s : Store) (op : Operation) : Option Schema :=
  (s.relation op.target).schema <|> op.schema?

/-- The row has another number of values than the columns in force, as the mismatch says. -/
def Rejects (s : Store) (op : Operation) (e : ArityMismatch) : Prop :=
  ∃ row schema, op.row? = some row ∧ op.inForce s = some schema ∧ schema.length ≠ row.length ∧
    e = ⟨op.target, schema.length, row.length⟩

/-- The operation inserts the row into the relation, where it may be already, and does not fail. -/
def Accepts (s : Store) (op : Operation) (name : String) (t : Tuple) : Prop :=
  op.target = name ∧ op.row? = some t ∧ ∃ isNew, (op.apply s).1 = .ok isNew

/-! ## One operation -/

/-- What an operation does to a store: its answer, and what becomes of its relation. -/
inductive Applied (s : Store) (op : Operation) : Except ArityMismatch Bool → Relation → Prop
  | accepted {row : Tuple} :
      op.row? = some row →
      (∀ schema, op.inForce s = some schema → schema.length = row.length) →
      Applied s op (.ok !(s.relation op.target).tuples.contains row)
        ⟨op.inForce s, (s.relation op.target).tuples.insert row⟩
  | rejected {e : ArityMismatch} :
      op.Rejects s e → Applied s op (.error e) ⟨op.inForce s, (s.relation op.target).tuples⟩
  | installed {schema : Schema} :
      op = .installSchema op.target schema →
      Applied s op (.ok (s.relation op.target).schema.isNone)
        ⟨op.inForce s, (s.relation op.target).tuples⟩
  | erased {row : Tuple} :
      op = .erase op.target row →
      Applied s op (.ok ((s.relation op.target).tuples.contains row))
        ⟨op.inForce s, (s.relation op.target).tuples.erase row⟩

variable {s : Store} {op : Operation} {name : String} {t : Tuple}

theorem orElse_none (schema : Option Schema) : (schema <|> none) = schema := by
  cases schema <;> rfl

theorem orElse_some (schema : Option Schema) (given : Schema) :
    (schema <|> some given) = some (schema.getD given) := by
  cases schema <;> rfl

theorem applied_insert (s : Store) (name : String) (row : Tuple) :
    ∃ r, ((insert name row).apply s).2 = s.put name r ∧
      Applied s (insert name row) ((insert name row).apply s).1 r := by
  have hforce : (insert name row).inForce s = (s.relation name).schema := orElse_none _
  show ∃ r, (s.insert name row).2 = s.put name r ∧
    Applied s (insert name row) (s.insert name row).1 r
  by_cases hfits : ∀ schema, (s.relation name).schema = some schema → schema.length = row.length
  · rw [Store.insert_eq_of_length hfits]
    refine ⟨_, ?_, .accepted rfl (hforce ▸ hfits)⟩
    rw [hforce]
    rfl
  · push Not at hfits
    obtain ⟨schema, hschema, hlength⟩ := hfits
    rw [Store.insert_eq_of_length_ne hschema hlength]
    refine ⟨_, ?_, .rejected ⟨row, schema, rfl, hforce.trans hschema, hlength, rfl⟩⟩
    rw [hforce]
    rfl

theorem applied_emit (s : Store) (name : String) (schema : Schema) (row : Tuple) :
    ∃ r, ((emit name schema row).apply s).2 = s.put name r ∧
      Applied s (emit name schema row) ((emit name schema row).apply s).1 r := by
  have hforce : (emit name schema row).inForce s = some ((s.relation name).schema.getD schema) :=
    orElse_some _ _
  have hrelation : (s.installSchema name schema).2.relation name =
      ⟨some ((s.relation name).schema.getD schema), (s.relation name).tuples⟩ :=
    Store.relation_put_self ..
  -- The insertion finds the columns in force in its relation.
  show ∃ r, ((s.installSchema name schema).2.insert name row).2 = s.put name r ∧
    Applied s (emit name schema row) ((s.installSchema name schema).2.insert name row).1 r
  by_cases hlength : ((s.relation name).schema.getD schema).length = row.length
  · rw [Store.insert_eq_of_length (by simp [hrelation, hlength]), hrelation]
    refine ⟨_, ?_, .accepted rfl (by simp [hforce, hlength])⟩
    rw [hforce]
    exact Store.put_put ..
  · rw [Store.insert_eq_of_length_ne (congrArg Relation.schema hrelation) hlength]
    refine ⟨_, ?_, .rejected ⟨row, _, rfl, hforce, hlength, rfl⟩⟩
    rw [Store.touch, hrelation, hforce]
    exact Store.put_put ..

theorem ne_erase_of_row? {row : Tuple} (h : op.row? = some row) : op ≠ .erase name t := by
  rintro rfl
  contradiction

/-- Every operation answers and leaves its relation as it can, and touches no other relation. -/
theorem applied_apply (s : Store) (op : Operation) :
    ∃ r, (op.apply s).2 = s.put op.target r ∧ Applied s op (op.apply s).1 r := by
  cases op with
  | emit name schema row => exact applied_emit s name schema row
  | insert name row => exact applied_insert s name row
  | installSchema name schema =>
    refine ⟨_, ?_, .installed rfl⟩
    rw [show (installSchema name schema).inForce s = _ from orElse_some _ _]
    rfl
  | erase name row =>
    refine ⟨_, ?_, .erased rfl⟩
    rw [show (erase name row).inForce s = _ from orElse_none _]
    rfl

theorem relation?_apply_of_ne (h : op.target ≠ name) :
    (op.apply s).2.relation? name = s.relation? name := by
  obtain ⟨r, hr, _⟩ := applied_apply s op
  rw [hr, Store.relation?_put, if_neg h]

theorem relation_apply_of_ne (h : op.target ≠ name) :
    (op.apply s).2.relation name = s.relation name := by
  unfold Store.relation
  rw [relation?_apply_of_ne h]

theorem schema_apply (s : Store) (op : Operation) :
    ((op.apply s).2.relation op.target).schema = op.inForce s := by
  obtain ⟨r, hr, happlied⟩ := applied_apply s op
  generalize (op.apply s).1 = answer at happlied
  rw [hr, Store.relation_put_self]
  cases happlied <;> rfl

/-- An operation fails exactly if the columns in force do not fit its row. -/
theorem apply_eq_error {e : ArityMismatch} : (op.apply s).1 = .error e ↔ op.Rejects s e := by
  obtain ⟨r, _, happlied⟩ := applied_apply s op
  generalize (op.apply s).1 = answer at happlied
  constructor
  · intro h
    subst h
    cases happlied with
    | rejected hrejects => exact hrejects
  · rintro ⟨row, schema, hrow, hforce, hlength, rfl⟩
    cases happlied with
    | accepted hrow' hfits =>
      obtain rfl := Option.some.inj (hrow.symm.trans hrow')
      exact absurd (hfits schema hforce) hlength
    | rejected hrejects =>
      obtain ⟨row', schema', hrow', hforce', _, rfl⟩ := hrejects
      obtain rfl := Option.some.inj (hrow.symm.trans hrow')
      obtain rfl := Option.some.inj (hforce.symm.trans hforce')
      rfl
    | installed hop =>
      rw [hop] at hrow
      contradiction
    | erased hop =>
      rw [hop] at hrow
      contradiction

/-- An operation that fails changes no row. -/
theorem tuples_apply_of_error {e : ArityMismatch} (h : (op.apply s).1 = .error e) (name : String) :
    ((op.apply s).2.relation name).tuples = (s.relation name).tuples := by
  by_cases hname : op.target = name
  · obtain ⟨r, hr, happlied⟩ := applied_apply s op
    rw [h] at happlied
    rw [hr, ← hname, Store.relation_put_self]
    cases happlied
    rfl
  · rw [relation_apply_of_ne hname]

theorem mem_apply : t ∈ ((op.apply s).2.relation name).tuples ↔
    op.Accepts s name t ∨ t ∈ (s.relation name).tuples ∧ op ≠ .erase name t := by
  by_cases hname : op.target = name
  · obtain ⟨r, hr, happlied⟩ := applied_apply s op
    rw [hr, ← hname, Store.relation_put_self]
    unfold Accepts
    generalize (op.apply s).1 = answer at happlied ⊢
    cases happlied with
    | @accepted row hrow _ =>
      rw [Std.ExtTreeSet.mem_insert, Std.LawfulEqCmp.compare_eq_iff_eq]
      constructor
      · rintro (rfl | ht)
        · exact .inl ⟨rfl, hrow, _, rfl⟩
        · exact .inr ⟨ht, ne_erase_of_row? hrow⟩
      · rintro (⟨_, hrow', _⟩ | ⟨ht, _⟩)
        · exact .inl (Option.some.inj (hrow.symm.trans hrow'))
        · exact .inr ht
    | @rejected e hrejects =>
      obtain ⟨row, _, hrow, _⟩ := hrejects
      simp [ne_erase_of_row? hrow]
    | installed hop =>
      rw [hop]
      simp [row?]
    | @erased row hop =>
      rw [Std.ExtTreeSet.mem_erase, ne_eq, Std.LawfulEqCmp.compare_eq_iff_eq, hop]
      simp [target, and_comm, row?]
  · have hop : op ≠ .erase name t := by
      rintro rfl
      exact hname rfl
    rw [relation_apply_of_ne hname]
    simp [Accepts, hname, hop]

/-- A row that is accepted has as many values as its relation then has columns. -/
theorem Accepts.length_eq (h : op.Accepts s name t) {schema : Schema}
    (hschema : ((op.apply s).2.relation name).schema = some schema) : t.length = schema.length := by
  obtain ⟨rfl, hrow, isNew, hanswer⟩ := h
  rw [schema_apply] at hschema
  by_contra hlength
  have hrejects : op.Rejects s ⟨op.target, schema.length, t.length⟩ :=
    ⟨t, schema, hrow, hschema, Ne.symm hlength, rfl⟩
  rw [apply_eq_error.mpr hrejects] at hanswer
  contradiction

/-- Rows that fit the columns of a relation stay, and others do not come, whether the relation had
the columns or gets them. -/
theorem length_eq_of_mem_apply {schema : Schema}
    (hschema : ((op.apply s).2.relation name).schema = some schema)
    (hold : ∀ t ∈ (s.relation name).tuples, t.length = schema.length) :
    ∀ t ∈ ((op.apply s).2.relation name).tuples, t.length = schema.length := by
  intro t ht
  rcases mem_apply.mp ht with haccepts | ⟨ht, _⟩
  · exact haccepts.length_eq hschema
  · exact hold t ht

/-- The columns that an operation installs if it writes to the relation and this has none. -/
def columnsFor (name : String) (op : Operation) : Option Schema :=
  if op.target = name then op.schema? else none

theorem schema_apply_eq (s : Store) (op : Operation) (name : String) :
    ((op.apply s).2.relation name).schema =
      ((s.relation name).schema <|> op.columnsFor name) := by
  unfold columnsFor
  by_cases hname : op.target = name
  · rw [if_pos hname, ← hname, schema_apply]
    rfl
  · rw [if_neg hname, relation_apply_of_ne hname, orElse_none]

end Operation

/-! ## Sequences of operations -/

namespace Store

open Operation

/-- The store that operations lead to from the empty one, in order. -/
def after (ops : List Operation) : Store := ops.foldl (fun s op => (op.apply s).2) .empty

theorem after_concat (ops : List Operation) (op : Operation) :
    after (ops ++ [op]) = (op.apply (after ops)).2 :=
  List.foldl_append ..

variable {ops : List Operation} {name : String} {schema : Schema}

/-- The columns of a relation are the first that an operation gave it. -/
theorem schema_after (ops : List Operation) (name : String) :
    ((after ops).relation name).schema = ops.findSome? (Operation.columnsFor name) := by
  induction ops using List.reverseRecOn with
  | nil => exact congrArg Relation.schema (relation_empty name)
  | append_singleton ops op ih =>
    rw [after_concat, schema_apply_eq, ih, List.findSome?_append, List.findSome?_singleton,
      Option.orElse_eq_orElse, Option.orElse_eq_or]

theorem schema_after_append (h : ((after ops).relation name).schema = some schema)
    (more : List Operation) : ((after (ops ++ more)).relation name).schema = some schema := by
  rw [schema_after] at h ⊢
  rw [List.findSome?_append, h]
  rfl

/-- A relation comes into being with the first operation that writes to it. -/
theorem exists_relation?_after (ops : List Operation) (name : String) :
    (∃ r, (after ops).relation? name = some r) ↔ ∃ op ∈ ops, op.target = name := by
  induction ops using List.reverseRecOn with
  | nil => simp [after]
  | append_singleton ops op ih =>
    rw [after_concat]
    by_cases hname : op.target = name
    · obtain ⟨r, hr, _⟩ := applied_apply (after ops) op
      refine iff_of_true ⟨r, ?_⟩ ⟨op, by simp, hname⟩
      rw [hr, ← hname, relation?_put_self]
    · rw [relation?_apply_of_ne hname, ih]
      simp [or_and_right, exists_or, hname]

/-- The operations have accepted the row for the relation, and none has removed it since. -/
def Stands (ops : List Operation) (name : String) (t : Tuple) : Prop :=
  ∃ before op since, ops = before ++ op :: since ∧ op.Accepts (after before) name t ∧
    .erase name t ∉ since

theorem stands_concat {op : Operation} {t : Tuple} : Stands (ops ++ [op]) name t ↔
    op.Accepts (after ops) name t ∨ Stands ops name t ∧ op ≠ .erase name t := by
  constructor
  · rintro ⟨before, op', since, hops, haccepts, hkept⟩
    rcases List.eq_nil_or_concat since with rfl | ⟨since, last, rfl⟩
    · obtain ⟨rfl, hop⟩ := List.append_inj' hops rfl
      obtain rfl := List.head_eq_of_cons_eq hop
      exact .inl haccepts
    · rw [List.concat_eq_append] at hkept hops
      rw [← List.cons_append, ← List.append_assoc] at hops
      obtain ⟨rfl, hop⟩ := List.append_inj' hops rfl
      obtain rfl := List.head_eq_of_cons_eq hop
      simp only [List.mem_append, List.mem_singleton, not_or] at hkept
      exact .inr ⟨⟨before, op', since, rfl, haccepts, hkept.1⟩, Ne.symm hkept.2⟩
  · rintro (haccepts | ⟨⟨before, op', since, rfl, haccepts, hkept⟩, hop⟩)
    · exact ⟨ops, op, [], rfl, haccepts, List.not_mem_nil⟩
    · refine ⟨before, op', since ++ [op], by simp, haccepts, ?_⟩
      simp [hkept, Ne.symm hop]

/-- The rows of a relation are those that it has accepted and not lost since. -/
theorem mem_after {t : Tuple} :
    t ∈ ((after ops).relation name).tuples ↔ Stands ops name t := by
  induction ops using List.reverseRecOn with
  | nil =>
    rw [show after [] = .empty from rfl, relation_empty]
    constructor
    · intro ht
      exact absurd ht Std.ExtTreeSet.not_mem_empty
    · rintro ⟨before, op, since, hops, _⟩
      simp at hops
  | append_singleton ops op ih => rw [after_concat, mem_apply, stands_concat, ih]

/-- Once the rows of a relation fit its columns, they always do. -/
theorem length_eq_of_mem_after (hschema : ((after ops).relation name).schema = some schema)
    (hrows : ∀ t ∈ ((after ops).relation name).tuples, t.length = schema.length)
    (more : List Operation) :
    ∀ t ∈ ((after (ops ++ more)).relation name).tuples, t.length = schema.length := by
  induction more using List.reverseRecOn with
  | nil => rwa [List.append_nil]
  | append_singleton more op ih =>
    have hkept := schema_after_append hschema (more ++ [op])
    rw [← List.append_assoc, after_concat] at hkept ⊢
    exact length_eq_of_mem_apply hkept ih

/-- Operations on an empty store, in any order, failing ones among them.  The columns of a relation
are never changed.  An insertion or emission fails exactly if the columns in force do not fit its
row, and then neither the rows of any relation nor anything of another one change.  A relation has
exactly the rows that it has accepted and that were not removed since they were last accepted.  And
one that got its columns when it had no rows never has a row that does not fit them. -/
theorem history_of_operations (ops : List Operation) :
    (∀ name schema more, ((after ops).relation name).schema = some schema →
      ((after (ops ++ more)).relation name).schema = some schema) ∧
    (∀ (op : Operation) e, (op.apply (after ops)).1 = .error e ↔ op.Rejects (after ops) e) ∧
    (∀ (op : Operation) e, (op.apply (after ops)).1 = .error e →
      (∀ name, ((after (ops ++ [op])).relation name).tuples =
        ((after ops).relation name).tuples) ∧
      ∀ name, name ≠ op.target → (after (ops ++ [op])).relation? name =
        (after ops).relation? name) ∧
    (∀ name t, t ∈ ((after ops).relation name).tuples ↔ Stands ops name t) ∧
    ∀ op name schema more, ((after ops).relation name).schema = none →
      (∀ t, t ∉ ((after ops).relation name).tuples) →
      ((after (ops ++ [op])).relation name).schema = some schema →
      ∀ t ∈ ((after (ops ++ op :: more)).relation name).tuples, t.length = schema.length := by
  refine ⟨fun name schema more h => schema_after_append h more, fun op e => apply_eq_error,
    fun op e h => ⟨fun name => ?_, fun name hname => ?_⟩, fun name t => mem_after,
    fun op name schema more hnone hempty hschema => ?_⟩
  · rw [after_concat]
    exact tuples_apply_of_error h name
  · rw [after_concat]
    exact relation?_apply_of_ne (Ne.symm hname)
  · have hrows : ∀ t ∈ ((after (ops ++ [op])).relation name).tuples, t.length = schema.length := by
      rw [after_concat] at hschema ⊢
      exact length_eq_of_mem_apply hschema fun t ht => absurd ht (hempty t)
    have hlater := length_eq_of_mem_after hschema hrows more
    rwa [List.append_assoc] at hlater

/-- A relation that gets one column when it has a row of two values, and one that is empty when it
gets two columns. -/
def lateColumns : List Operation :=
  [.insert "Unit" [.int 1, .int 2], .installSchema "Unit" (Schema.ofNames ["id"]),
    .emit "Local" (Schema.ofNames ["id", "type"]) [.int 3, .int 0]]

/-- The former keeps its row, although it does not accept it again, and the latter never has rows of
other than two values. -/
theorem history_of_operations_late :
    let again := Operation.emit "Unit" (Schema.ofNames ["left", "right"]) [.int 1, .int 2]
    (again.apply (after lateColumns)).1 = .error ⟨"Unit", 1, 2⟩ ∧
      [.int 1, .int 2] ∈ ((after (lateColumns ++ [again])).relation "Unit").tuples ∧
      ((after (lateColumns ++ [again])).relation "Unit").schema =
        some (Schema.ofNames ["id"]) ∧
      ∀ more, ∀ t ∈ ((after (lateColumns ++ more)).relation "Local").tuples, t.length = 2 := by
  intro again
  obtain ⟨hcolumns, hfails, hframe, hrows, _⟩ := history_of_operations lateColumns
  obtain ⟨_, _, _, _, hfit⟩ := history_of_operations (lateColumns.take 2)
  have hschema : ((after lateColumns).relation "Unit").schema = some (Schema.ofNames ["id"]) := by
    rw [schema_after]
    decide
  have herror : (again.apply (after lateColumns)).1 = .error ⟨"Unit", 1, 2⟩ :=
    (hfails _ _).mpr ⟨_, _, rfl, congrArg (· <|> again.schema?) hschema, by decide, rfl⟩
  have hstands : Stands lateColumns "Unit" [.int 1, .int 2] :=
    ⟨[], _, _, rfl, ⟨rfl, rfl, true, by decide +kernel⟩, by decide⟩
  refine ⟨herror, ?_, hcolumns _ _ _ hschema, fun more => ?_⟩
  · rw [(hframe _ _ herror).1]
    exact (hrows _ _).mpr hstands
  · refine hfit _ "Local" (Schema.ofNames ["id", "type"]) more ?_ (fun t ht => ?_) ?_
    · rw [schema_after]
      decide
    · obtain ⟨before, op, since, hops, ⟨htarget, _⟩, _⟩ := mem_after.mp ht
      have hop : op ∈ lateColumns.take 2 := hops ▸ List.mem_append_right _ (.head _)
      have hunit : ∀ op ∈ lateColumns.take 2, op.target = "Unit" := by decide
      exact absurd ((hunit op hop).symm.trans htarget) (by decide)
    · rw [schema_after]
      decide

end Store

end ProgramFacts.Fact
