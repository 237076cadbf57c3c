import ProgramFacts.Proofs.History
import ProgramFacts.Proofs.RowOrder

/-! Emissions in any order.  Rows that are emitted with the same columns for the same relation make
the same store in every order and with any repetitions, and so the same texts, in which each row
stands once and in its place. -/

namespace ProgramFacts.Fact

/-- A row that is emitted into a relation, with the columns that this gets if it has none. -/
structure Emission where
  name : String
  schema : Schema
  row : Tuple
deriving DecidableEq, Repr

namespace Emission

def operation (e : Emission) : Operation := .emit e.name e.schema e.row

/-- What an emission says, however it was said: a row of a relation. -/
def fact (e : Emission) : String × Tuple := (e.name, e.row)

/-- The same columns come with a relation everywhere, and rows that fit them. -/
structure Coherent (es : List Emission) : Prop where
  schema : ∀ e ∈ es, ∀ e' ∈ es, e.name = e'.name → e.schema = e'.schema
  length : ∀ e ∈ es, e.row.length = e.schema.length

/-- The store that emissions make from the empty one, in order. -/
def written (es : List Emission) : Store := .after (es.map operation)

/-- What an emission answers after others. -/
def answer (before : List Emission) (e : Emission) : Except ArityMismatch Bool :=
  (e.operation.apply (written before)).1

/-- The rows of a relation among emissions, each once and in ascending order. -/
structure Lists (es : List Emission) (name : String) (rows : List Tuple) : Prop where
  ascending : rows.Pairwise Tuple.Precedes
  mem : ∀ t, t ∈ rows ↔ (name, t) ∈ es.map fact

variable {es es' before since : List Emission} {e : Emission} {name : String} {t : Tuple}

theorem Coherent.mono (h : Coherent es) (hsub : ∀ e ∈ es', e ∈ es) : Coherent es' :=
  ⟨fun e he e' he' => h.schema e (hsub e he) e' (hsub e' he'), fun e he => h.length e (hsub e he)⟩

/-- Emissions up to one of them are coherent if all are. -/
theorem Coherent.upTo (h : Coherent (before ++ e :: since)) : Coherent (before ++ [e]) := by
  refine h.mono fun e' he' => ?_
  rw [List.append_cons]
  exact List.mem_append_left since he'

theorem schema_written {schema : Schema}
    (hschema : ((written es).relation name).schema = some schema) :
    ∃ e ∈ es, e.name = name ∧ e.schema = schema := by
  rw [written, Store.schema_after, List.findSome?_map] at hschema
  obtain ⟨e, he, hcolumns⟩ := List.exists_of_findSome?_eq_some hschema
  unfold Function.comp Operation.columnsFor at hcolumns
  split at hcolumns
  · exact ⟨e, he, ‹_›, Option.some.inj hcolumns⟩
  · contradiction

/-! ## What coherent emissions write -/

/-- The columns of a relation are those of any emission into it. -/
theorem Coherent.schema_eq (h : Coherent es) (he : e ∈ es) :
    ((written es).relation e.name).schema = some e.schema := by
  cases hschema : ((written es).relation e.name).schema with
  | none =>
    rw [written, Store.schema_after, List.findSome?_eq_none_iff] at hschema
    have hnone := hschema _ (List.mem_map_of_mem he)
    rw [Operation.columnsFor, if_pos (show e.operation.target = e.name from rfl)] at hnone
    contradiction
  | some schema =>
    obtain ⟨e', he', hname, rfl⟩ := schema_written hschema
    rw [h.schema e' he' e he hname]

theorem Coherent.accepts (h : Coherent (before ++ [e])) :
    e.operation.Accepts (written before) e.name e.row := by
  refine ⟨rfl, rfl, ?_⟩
  cases hanswer : (e.operation.apply (written before)).1 with
  | ok isNew => exact ⟨isNew, rfl⟩
  | error mismatch =>
    obtain ⟨row, schema, hrow, hforce, hlength, _⟩ := Operation.apply_eq_error.mp hanswer
    obtain rfl := Option.some.inj hrow
    -- The columns in force are the ones given, or those of an earlier emission.
    have hgiven : schema = e.schema := by
      cases hold : ((written before).relation e.name).schema with
      | none =>
        rw [Operation.inForce, show e.operation.target = e.name from rfl, hold] at hforce
        exact (Option.some.inj hforce).symm
      | some old =>
        rw [Operation.inForce, show e.operation.target = e.name from rfl, hold] at hforce
        obtain ⟨e', he', hname, rfl⟩ := schema_written hold
        obtain rfl := Option.some.inj hforce
        exact h.schema e' (List.mem_append_left _ he') e (by simp) hname
    rw [hgiven] at hlength
    exact absurd (h.length e (by simp)).symm hlength

/-- A relation has the rows that were emitted into it. -/
theorem Coherent.mem_written (h : Coherent es) :
    t ∈ ((written es).relation name).tuples ↔ (name, t) ∈ es.map fact := by
  rw [written, Store.mem_after, List.mem_map]
  constructor
  · rintro ⟨before, op, since, hops, ⟨htarget, hrow, _⟩, _⟩
    have hop : op ∈ es.map operation := hops ▸ List.mem_append_right _ (.head _)
    obtain ⟨e, he, rfl⟩ := List.mem_map.mp hop
    exact ⟨e, he, Prod.ext htarget (Option.some.inj hrow)⟩
  · rintro ⟨e, he, hfact⟩
    obtain ⟨rfl, rfl⟩ := Prod.mk.inj hfact
    obtain ⟨before, since, rfl⟩ := List.append_of_mem he
    refine ⟨before.map operation, e.operation, since.map operation, by simp, ?_, ?_⟩
    · exact h.upTo.accepts
    · intro hremoved
      obtain ⟨e', _, he'⟩ := List.mem_map.mp hremoved
      contradiction

/-- An emission says that its row is new exactly if no earlier one was of the same fact. -/
theorem Coherent.answer_eq (h : Coherent (before ++ [e])) :
    answer before e = .ok (decide (e.fact ∉ before.map fact)) := by
  obtain ⟨_, _, isNew, hanswer⟩ := h.accepts
  obtain ⟨r, _, happlied⟩ := Operation.applied_apply (written before) e.operation
  have hbefore : Coherent before := h.mono fun e' he' => List.mem_append_left _ he'
  rw [answer, hanswer]
  rw [hanswer] at happlied
  cases happlied with
  | accepted hrow _ =>
    obtain rfl := Option.some.inj hrow
    have hcontains : ((written before).relation e.name).tuples.contains e.row =
        decide (e.fact ∈ before.map fact) := by
      rw [Bool.eq_iff_iff, decide_eq_true_iff, Std.ExtTreeSet.contains_iff_mem]
      exact hbefore.mem_written
    show Except.ok (!((written before).relation e.name).tuples.contains e.row) = _
    rw [hcontains, decide_not]
  | installed hop => contradiction
  | erased hop => contradiction

theorem Coherent.lists (h : Coherent es) (name : String) :
    Lists es name ((written es).relation name).tuples.toList where
  ascending := Std.ExtTreeSet.ordered_toList.imp Tuple.compare_eq_lt.mp
  mem _ := Std.ExtTreeSet.mem_toList.trans h.mem_written

/-- The relations that are written are those that were emitted into. -/
theorem exists_relation?_written :
    (∃ r, (written es).relation? name = some r) ↔ ∃ e ∈ es, e.name = name := by
  rw [written, Store.exists_relation?_after]
  simp [operation, Operation.target]

/-! ## Emissions of the same facts -/

theorem Coherent.relation?_eq_some (h : Coherent es) (hsame : ∀ e, e ∈ es' ↔ e ∈ es)
    {r : Relation} (hr : (written es).relation? name = some r) :
    (written es').relation? name = some r := by
  have h' : Coherent es' := h.mono fun e he => (hsame e).mp he
  obtain ⟨e, he, rfl⟩ := exists_relation?_written.mp ⟨r, hr⟩
  obtain ⟨r', hr'⟩ := exists_relation?_written.mpr ⟨e, (hsame e).mpr he, rfl⟩
  have hschema := h.schema_eq he
  have hschema' := h'.schema_eq ((hsame e).mpr he)
  have hrows (t : Tuple) : t ∈ ((written es').relation e.name).tuples ↔
      t ∈ ((written es).relation e.name).tuples := by
    rw [h.mem_written, h'.mem_written, List.mem_map, List.mem_map]
    simp only [hsame]
  rw [Store.relation_of_relation? hr] at hschema hrows
  rw [Store.relation_of_relation? hr'] at hschema' hrows
  obtain ⟨schema, tuples⟩ := r
  obtain ⟨schema', tuples'⟩ := r'
  obtain rfl : schema' = schema := hschema'.trans hschema.symm
  obtain rfl : tuples' = tuples := Std.ExtTreeSet.ext_mem fun {t} => hrows t
  exact hr'

theorem Coherent.written_eq (h : Coherent es) (hsame : ∀ e, e ∈ es' ↔ e ∈ es) :
    written es = written es' := by
  refine Store.ext_relation? fun name => ?_
  cases hr : (written es).relation? name with
  | some r => exact (h.relation?_eq_some hsame hr).symm
  | none =>
    cases hr' : (written es').relation? name with
    | none => rfl
    | some r' =>
      have h' : Coherent es' := h.mono fun e he => (hsame e).mp he
      have hr'' := h'.relation?_eq_some (fun e => (hsame e).symm) hr'
      rw [hr] at hr''
      contradiction

/-! ## Texts -/

/-- The text of a relation has its columns and then its rows, in order. -/
theorem Coherent.mem_serialize (h : Coherent es) {text : String} :
    (name, text) ∈ (written es).serialize ↔
      ∃ e ∈ es, e.name = name ∧ text = blockText (some e.schema)
        (((written es).relation name).tuples.toList.map Tuple.text) := by
  rw [Store.mem_serialize]
  constructor
  · rintro ⟨r, hr, _, rfl⟩
    obtain ⟨e, he, rfl⟩ := exists_relation?_written.mp ⟨r, hr⟩
    have hschema := h.schema_eq he
    rw [Store.relation_of_relation? hr] at hschema ⊢
    exact ⟨e, he, rfl, by rw [Relation.text, hschema]⟩
  · rintro ⟨e, he, rfl, rfl⟩
    obtain ⟨r, hr⟩ := exists_relation?_written.mpr ⟨e, he, rfl⟩
    have hschema := h.schema_eq he
    have hrow : e.row ∈ ((written es).relation e.name).tuples :=
      h.mem_written.mpr (List.mem_map_of_mem he)
    rw [Store.relation_of_relation? hr] at hschema hrow ⊢
    exact ⟨r, hr, isEmpty_eq_false_of_mem hrow, by rw [Relation.text, hschema]⟩

/-- The order and repetition of emissions do not matter.  Rows are totally ordered, as they are
compared: by their first difference, numbers before strings before truth values, and strings by code
points.  Let each relation be emitted into with the same columns everywhere, and with rows that fit
them.  Then other emissions of the same members, in any order and with any repetitions, make the
same store and the same texts; a relation has each of its rows once and in ascending order, and so
does its text; and an emission says that its row is new exactly if no earlier one was of the same
fact. -/
theorem emission_order_irrelevant (h : Coherent es) (hsame : ∀ e, e ∈ es' ↔ e ∈ es) :
    IsStrictTotalOrder Tuple Tuple.Precedes ∧
    (∀ t u : Tuple, (compare t u = .lt ↔ t.Precedes u) ∧ (compare t u = .eq ↔ t = u)) ∧
    written es = written es' ∧ (written es).serialize = (written es').serialize ∧
    (∀ name, Lists es name ((written es).relation name).tuples.toList) ∧
    (∀ name text, (name, text) ∈ (written es).serialize ↔
      ∃ e ∈ es, e.name = name ∧ text = blockText (some e.schema)
        (((written es).relation name).tuples.toList.map Tuple.text)) ∧
    ∀ before e since, es = before ++ e :: since →
      answer before e = .ok (decide (e.fact ∉ before.map fact)) := by
  refine ⟨isStrictTotalOrder_precedes, fun t u => ⟨Tuple.compare_eq_lt, ?_⟩, h.written_eq hsame,
    congrArg Store.serialize (h.written_eq hsame), h.lists, fun name text => h.mem_serialize, ?_⟩
  · exact Std.LawfulEqCmp.compare_eq_iff_eq
  · rintro before e since rfl
    exact h.upTo.answer_eq

/-- Rows of two relations, not in their order. -/
def scattered : List Emission :=
  [⟨"Local", Schema.ofNames ["id", "name"], [.int 7, .str "b"]⟩,
    ⟨"Unit", Schema.ofNames ["id"], [.int 7]⟩,
    ⟨"Local", Schema.ofNames ["id", "name"], [.int 7, .bool true]⟩,
    ⟨"Local", Schema.ofNames ["id", "name"], [.int 3, .str "a"]⟩]

theorem emission_order_irrelevant_scattered :
    Coherent scattered ∧
      written scattered = written (scattered.reverse ++ scattered) ∧
      Tuple.Precedes [.int 7, .str "b"] [.int 7, .bool true] ∧
      answer (scattered.take 3) ⟨"Local", Schema.ofNames ["id", "name"], [.int 3, .str "a"]⟩ =
        .ok true := by
  have hcoherent : Coherent scattered := ⟨by decide, by decide⟩
  have hsame : ∀ e, e ∈ scattered.reverse ++ scattered ↔ e ∈ scattered := by simp
  obtain ⟨_, horder, hwritten, _, _, _, hanswers⟩ := emission_order_irrelevant hcoherent hsame
  refine ⟨hcoherent, hwritten, (horder _ _).1.mp (by decide), ?_⟩
  exact hanswers _ _ [] rfl

end Emission

end ProgramFacts.Fact
