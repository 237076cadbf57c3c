import Mathlib.Data.List.Induction
import ProgramFacts.Proofs.Catalogue
import ProgramFacts.Proofs.Order
import ProgramFacts.Proofs.Store

/-! Stores of the encoding.  A store presents a set of rows when it has these and no others, in
relations with the columns of the encoding, none of which is empty; there is one such store at
most.  Extraction gives the store that presents the facts of the program. -/

namespace ProgramFacts.Extraction

open Program ProgramFacts.Fact ProgramFacts.Flow

/-- The store has exactly the rows of `P`, and no relation without rows. -/
structure Presents (s : Store) (P : Rel → Tuple → Prop) : Prop where
  mem : ∀ {rel t}, t ∈ (s.relation rel.name).tuples ↔ P rel t
  relation : ∀ {name r}, s.relation? name = some r →
    ∃ rel : Rel, rel.name = name ∧ r.schema = some rel.columns ∧ ∃ t, t ∈ r.tuples

theorem presents_empty : Presents .empty fun _ _ => False := by
  constructor <;> simp [Relation.empty]

namespace Presents

variable {s t : Store} {P Q : Rel → Tuple → Prop}

theorem congr (h : Presents s P) (hPQ : ∀ rel t, P rel t ↔ Q rel t) : Presents s Q :=
  ⟨h.mem.trans (hPQ _ _), h.relation⟩

theorem schema_eq (h : Presents s P) {rel : Rel} {r : Relation}
    (hr : s.relation? rel.name = some r) : r.schema = some rel.columns := by
  obtain ⟨rel', hname, hschema, _⟩ := h.relation hr
  obtain rfl := Rel.name_injective hname
  exact hschema

theorem schema_of_installed (h : Presents s P) {rel : Rel} {old : Schema}
    (hold : (s.relation rel.name).schema = some old) : old = rel.columns := by
  cases hr : s.relation? rel.name with
  | none =>
    simp [Store.relation, hr, Relation.empty] at hold
  | some r =>
    rw [Store.relation_of_relation? hr, h.schema_eq hr] at hold
    exact (Option.some.inj hold).symm

/-- A store has one relation for a name at most: what a store presents determines it. -/
theorem relation?_eq_some (h : Presents s P) (h' : Presents t P) {name : String} {r : Relation}
    (hr : s.relation? name = some r) : t.relation? name = some r := by
  obtain ⟨rel, rfl, hschema, u, hu⟩ := h.relation hr
  have hmem (v : Tuple) : v ∈ (t.relation rel.name).tuples ↔ v ∈ r.tuples := by
    rw [← Store.relation_of_relation? hr, h.mem, h'.mem]
  cases hr' : t.relation? rel.name with
  | none =>
    have := (hmem u).mpr hu
    simp [Store.relation, hr', Relation.empty] at this
  | some r' =>
    have hschema' := h'.schema_eq hr'
    rw [Store.relation_of_relation? hr'] at hmem
    obtain ⟨schema, tuples⟩ := r
    obtain ⟨schema', tuples'⟩ := r'
    obtain rfl : schema = schema' := hschema.trans hschema'.symm
    obtain rfl : tuples' = tuples := Std.ExtTreeSet.ext_mem fun v => hmem v
    rfl

theorem unique (h : Presents s P) (h' : Presents t P) : s = t := by
  refine Store.ext_relation? fun name => ?_
  cases hs : s.relation? name with
  | some r => exact (h.relation?_eq_some h' hs).symm
  | none =>
    cases ht : t.relation? name with
    | none => rfl
    | some r =>
      have := h'.relation?_eq_some h ht
      rw [hs] at this
      contradiction

/-- A row that fits its relation can be emitted. -/
theorem emit (h : Presents s P) {r : Row} (hr : r.Fits) :
    ∃ fresh s', s.emit r.rel.name r.rel.columns r.tuple = (.ok fresh, s') ∧
      Presents s' fun rel t => (⟨rel, t⟩ : Row) = r ∨ P rel t := by
  refine ⟨_, _, Store.emit_eq_of_length (fun _ => h.schema_of_installed) hr.length_eq, ?_, ?_⟩
  · intro rel t
    rw [Store.relation_put]
    split
    · rename_i hname
      obtain rfl := Rel.name_injective hname
      rw [Std.ExtTreeSet.mem_insert, h.mem, Std.LawfulEqCmp.compare_eq_iff_eq]
      obtain ⟨rel, u⟩ := r
      simp [eq_comm]
    · rename_i hname
      rw [h.mem]
      refine ⟨.inr, fun ht => ht.resolve_left ?_⟩
      rintro rfl
      exact hname rfl
  · intro name r' hr'
    rw [Store.relation?_put] at hr'
    split at hr'
    · rename_i hname
      obtain rfl := Option.some.inj hr'
      exact ⟨r.rel, hname, rfl, r.tuple, Std.ExtTreeSet.mem_insert_self⟩
    · exact h.relation hr'

end Presents

/-- Rows that fit their relations can be collected, in any order and with repetitions. -/
theorem collect_presents {rows : List Row} (hfits : ∀ r ∈ rows, r.Fits) :
    ∃ s, collect rows = .ok s ∧ Presents s fun rel t => (⟨rel, t⟩ : Row) ∈ rows := by
  induction rows using List.reverseRecOn with
  | nil => exact ⟨.empty, rfl, presents_empty.congr fun _ _ => by simp⟩
  | append_singleton rows r ih =>
    obtain ⟨hrows, hr⟩ := List.forall_mem_append.mp hfits
    obtain ⟨s, hs, hpresents⟩ := ih hrows
    obtain ⟨fresh, s', he, hs'⟩ := hpresents.emit (hr r (.head _))
    refine ⟨s', ?_, hs'.congr fun rel t => ?_⟩
    · unfold collect at hs ⊢
      rw [List.foldlM_append, hs]
      simp only [bind, Except.bind, List.foldlM_cons, insertRow, he]
      rfl
    · rw [List.mem_append, List.mem_singleton, or_comm]

variable {g : Arena} {c : FlowGraph}

theorem Fact.fits {order : List StmtId} {E : List (StmtId × StmtId)} {rel : Rel} {t : Tuple}
    (h : Fact g c order E rel t) : (⟨rel, t⟩ : Row).Fits := by
  cases h with
  | stmt _ _ _ hrow => cases hrow <;> rfl
  | definition _ _ _ _ hrow => cases hrow <;> rfl
  | type _ _ hrow => cases hrow <;> rfl
  | _ => rfl

/-- The rows that a pass gathers can be collected. -/
theorem collect_of_pass {p : Progress} (h : pass g c = .ok p) :
    ∃ s, collect p.gathered.rows.reverse = .ok s ∧
      Presents s (Fact g c p.begun.reverse c.edges) := by
  obtain ⟨hexact, _⟩ := pass_exact h
  have hfits (r : Row) (hr : r ∈ p.gathered.rows.reverse) : r.Fits :=
    (hexact.rows r (List.mem_reverse.mp hr)).fits
  obtain ⟨s, hs, hpresents⟩ := collect_presents hfits
  exact ⟨s, hs, hpresents.congr fun _ _ => by rw [List.mem_reverse, hexact.mem_rows_iff]⟩

theorem exists_extract_of_pass {p : Progress} (h : pass g c = .ok p) :
    ∃ s, extract g c = .ok s := by
  obtain ⟨s, hs, _⟩ := collect_of_pass h
  refine ⟨s, ?_⟩
  rw [extract, h, result, hs]
  rfl

/-- Extraction fails only when the pass ends early. -/
theorem extract_eq_error {failure : Failure} :
    extract g c = .error failure ↔
      ∃ stop, pass g c = .error stop ∧ failure = stop.failure := by
  cases h : pass g c with
  | error stop => simp [extract, result, h, eq_comm]
  | ok p =>
    obtain ⟨s, hs⟩ := exists_extract_of_pass h
    simp [hs]

/-- The statements of an extraction, in order: the rounds from the registered ones, which are all
that these lead to. -/
structure Order (g : Arena) (c : FlowGraph) (order : List StmtId) : Prop where
  rounds : Rounds g [] c.nodes order
  mem : ∀ {id}, id ∈ order ↔ Reached g c id

theorem Order.met_iff {order : List StmtId} (horder : Order g c order) {p : Part} :
    Met g c (· ∈ order) p ↔ Met g c (Reached g c) p :=
  ⟨fun hp => hp.mono fun _ => horder.mem.mp, fun hp => hp.mono fun _ => horder.mem.mpr⟩

/-- What an extraction leads to: it has the facts of the statements that the registered ones lead
to. -/
theorem exact_of_extract {s : Store} (h : extract g c = .ok s) :
    ∃ order a, Order g c order ∧ Exact g c order c.edges a ∧
      Presents s (Fact g c order c.edges) := by
  unfold extract result at h
  cases hp : pass g c with
  | error stop =>
    rw [hp] at h
    contradiction
  | ok p =>
    obtain ⟨s', hs', hpresents⟩ := collect_of_pass hp
    obtain ⟨hexact, hbegun⟩ := pass_exact hp
    simp only [hp, hs', Except.mapError] at h
    obtain rfl := Except.ok.inj h
    refine ⟨p.begun.reverse, p.gathered, ⟨pass_rounds hp, ?_⟩, hexact, hpresents⟩
    exact fun {id} => List.mem_reverse.trans (hbegun id)

end ProgramFacts.Extraction
