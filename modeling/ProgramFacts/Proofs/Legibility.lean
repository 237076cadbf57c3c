import ProgramFacts.Proofs.Faithful
import ProgramFacts.Proofs.Reading
import ProgramFacts.Proofs.Replayability
import ProgramFacts.Proofs.Succession

/-! The texts of extracted stores and of their deltas can be read, if no name in the program has a
tab or a line feed: the encoding fixes the columns of each relation, and with them how each value is
read.  So the texts of a session rebuild the facts of each of its iterations. -/

namespace ProgramFacts

open Program ProgramFacts.Flow ProgramFacts.Fact ProgramFacts.Random

namespace Extraction

/-- No string of the store divides its row. -/
def Plain (s : Store) : Prop := ∀ name, ∀ t ∈ (s.relation name).tuples, ∀ d ∈ t, d.Plain

/-- The facts of some program, none of whose strings divides its row, or nothing. -/
def Printable (s : Option Store) : Prop :=
  ∀ facts, s = some facts → (∃ g c, extract g c = .ok facts) ∧ Plain facts

theorem Rel.legible_columns (rel : Rel) : rel.columns.Legible := by
  have hall : ∀ rel ∈ Rel.all, rel.columns.Legible := by decide +kernel
  exact hall rel rel.mem_all

/-! ## Stores -/

theorem plain_empty : Plain .empty := by
  simp [Plain, Relation.empty]

theorem Encoded.legible {s : Store} (h : Encoded s) (hplain : Plain s) : s.Legible := by
  intro name r hr
  obtain ⟨rel, rfl, hschema, ⟨t, ht⟩, hfits⟩ := h name r hr
  have hrelation := Store.relation_of_relation? hr
  refine ⟨rel.columns, hschema, rel.legible_columns, isEmpty_eq_false_of_mem ht,
    fun t ht => ⟨hfits t ht, ?_⟩⟩
  exact hplain rel.name t (hrelation ▸ ht)

/-- A relation of the encoding has its columns if it is there, and else it is empty. -/
theorem Encoded.schema_or_empty {s : Store} (h : Encoded s) (rel : Rel) :
    (s.relation rel.name).schema = some rel.columns ∨ s.relation rel.name = .empty := by
  cases hr : s.relation? rel.name with
  | none => exact .inr (by simp [Store.relation, hr])
  | some r =>
    obtain ⟨rel', hname, hschema, _⟩ := h _ r hr
    obtain rfl := Rel.name_injective hname
    exact .inl (by rw [Store.relation_of_relation? hr, hschema])

theorem Encoded.tuple_legible {s : Store} (h : Encoded s) (hplain : Plain s) {rel : Rel} {t : Tuple}
    (ht : t ∈ (s.relation rel.name).tuples) : t.Legible rel.columns := by
  obtain ⟨rel', hname, _, hfits⟩ := h.exists_rel ht
  obtain rfl := Rel.name_injective hname
  exact ⟨hfits, hplain _ t ht⟩

/-! ## Deltas -/

/-- A change of an extracted store is legible. -/
theorem legible_between {a b : Store} (ha : Encoded a) (hb : Encoded b) (hplain : Plain a)
    (hplain' : Plain b) : (Delta.between (some a) (some b)).Legible := by
  intro name change hchange
  have hne := Delta.exists_change_iff_tuples_ne.mp ⟨change, hchange⟩
  obtain rfl := Delta.get?_between_eq_some hchange
  simp only [Option.getD_some] at hne ⊢
  obtain ⟨rel, rfl⟩ := ha.exists_rel_of_ne hb hne
  refine ⟨rel.columns, ?_, rel.legible_columns, ?_, fun t ht => ?_, fun t ht => ?_⟩
  · rcases ha.schema_or_empty rel with hschema | hempty
    · simp [RelationDelta.between, hschema]
    · rcases hb.schema_or_empty rel with hschema | hempty'
      · simp [RelationDelta.between, hempty, Relation.empty, hschema]
      · exact absurd (hempty ▸ hempty' ▸ rfl) hne
  · exact Bool.eq_false_iff.mpr fun hempty => hne (RelationDelta.isEmpty_between.mp hempty)
  · exact ha.tuple_legible hplain (Std.ExtTreeSet.mem_diff_iff.mp ht).1
  · exact hb.tuple_legible hplain' (Std.ExtTreeSet.mem_diff_iff.mp ht).1

theorem Printable.getD {s : Option Store} (h : Printable s) :
    Encoded (s.getD .empty) ∧ Plain (s.getD .empty) := by
  cases s with
  | none => exact ⟨encoded_empty, plain_empty⟩
  | some facts =>
    obtain ⟨⟨g, c, hfacts⟩, hplain⟩ := h facts rfl
    exact ⟨encoded_of_extract hfacts, hplain⟩

theorem Printable.legible {previous current : Option Store} (hprevious : Printable previous)
    (hcurrent : Printable current) : (Delta.between previous current).Legible :=
  legible_between hprevious.getD.1 hcurrent.getD.1 hprevious.getD.2 hcurrent.getD.2

theorem Printable.read?_serialize {s : Store} (h : Printable (some s)) :
    Store.read? s.serialize = some s :=
  (h.getD.1.legible h.getD.2).read?_serialize

/-! ## String constants -/

theorem undivided_dropBlanks (s : String) : Undivided (Text.dropBlanks s) := by
  have hblank {c : Char} (hc : c = '\t' ∨ c = '\n') : c ∉ (Text.dropBlanks s).toList := by
    rw [Text.mem_dropBlanks, Text.isBlank_of_separator hc]
    simp
  exact ⟨hblank (.inl rfl), hblank (.inr rfl)⟩

theorem plain_of_stringConst {g : Arena} {c : FlowGraph} {order : List StmtId}
    {E : List (StmtId × StmtId)} {t : Tuple} (h : Fact g c order E .stringConst t) :
    ∀ d ∈ t, d.Plain := by
  cases h with
  | definition _ _ _ _ hrow =>
    cases hrow
    intro d hd s hs
    rcases List.mem_pair.mp hd with rfl | rfl
    · contradiction
    · exact Datum.str.inj hs ▸ undivided_dropBlanks _
  | stmt _ _ _ hrow => cases hrow
  | type _ _ hrow => cases hrow

/-- String constants are recorded without white space, so they never divide a row. -/
theorem plain_stringConst {g : Arena} {c : FlowGraph} {s : Store} (h : extract g c = .ok s) :
    ∀ t ∈ (s.relation Rel.stringConst.name).tuples, ∀ d ∈ t, d.Plain := by
  obtain ⟨order, _, _, _, hpresents⟩ := exact_of_extract h
  exact fun t ht => plain_of_stringConst (hpresents.mem.mp ht)

/-! ## A program with a string -/

theorem presents_quoted (text : String) : ∃ s, extract (quoted text) quotedFlow = .ok s ∧
    Presents s fun rel t => (⟨rel, t⟩ : Row) ∈ quotedRows (Text.dropBlanks text) := by
  have hfits : ∀ r ∈ (quotedRows (Text.dropBlanks text)).reverse, r.Fits := by
    intro r hr
    simp only [quotedRows, List.mem_reverse, List.mem_cons, List.not_mem_nil, or_false] at hr
    rcases hr with rfl | rfl | rfl | rfl | rfl | rfl | rfl <;> rfl
  obtain ⟨s, hs, hpresents⟩ := collect_presents hfits
  refine ⟨s, ?_, hpresents.congr fun _ _ => List.mem_reverse⟩
  rw [extract, pass_quoted, result, hs]
  rfl

theorem printable_quoted {text : String} {s : Store}
    (h : extract (quoted text) quotedFlow = .ok s) : Printable (some s) := by
  obtain ⟨s', hs', hpresents⟩ := presents_quoted text
  obtain rfl := Except.ok.inj (h.symm.trans hs')
  rintro _ ⟨⟩
  refine ⟨⟨_, _, h⟩, fun name t ht d hd str hstr => ?_⟩
  obtain ⟨rel, rfl, _⟩ := (encoded_of_extract h).exists_rel ht
  subst hstr
  have hname : Undivided "run" ∧ Undivided "A" := by decide
  have hmem := hpresents.mem.mp ht
  simp only [quotedRows, List.mem_cons, Row.mk.injEq, List.not_mem_nil, or_false] at hmem
  rcases hmem with ⟨_, rfl⟩ | ⟨_, rfl⟩ | ⟨_, rfl⟩ | ⟨_, rfl⟩ | ⟨_, rfl⟩ | ⟨_, rfl⟩ | ⟨_, rfl⟩ <;>
    simp only [token, List.mem_cons, Datum.str.injEq, reduceCtorEq, List.not_mem_nil, or_false,
      false_or] at hd
  · exact hd ▸ undivided_dropBlanks text
  · rcases hd with rfl | rfl
    · exact hname.1
    · exact hname.2

end Extraction

namespace Session

open Extraction

variable {σ : Type}

/-! ## Sessions -/

/-- The texts of the deltas of a session. -/
def batches (u : Setup σ) (g : Arena) (sink : σ) : List Batch :=
  (deltas u g sink).map fun e => ⟨e.1, e.2.blocks⟩

/-- The store that the texts of a session tell, if they can be read and have rows. -/
def rebuild (texts : List Batch) : Option Store := do
  let ds ← texts.mapM fun b => (Delta.read? b.blocks).map fun d => (b.iteration, d)
  match replayAll ds with
  | .ok facts => facts
  | .error _ => none

/-- The deltas that the memory sink is given tell what it keeps. -/
theorem projects_memory :
    Projects (fun s => (⟨s.1.resets, s.2.map fun e => ⟨e.1, e.2.blocks⟩⟩ : Memory))
      Memory.sink.recording Memory.sink where
  reset _ := rfl
  persist i d s := by simp [Memory.sink, Memory.add, Sink.recording, SinkStep.map]

/-- A sink in memory keeps the texts of the session. -/
theorem batches_memory (config : Config) (mutator : Mutation.Mutator) (flow : FlowGraph)
    (g : Arena) :
    (run ⟨config, mutator, flow, Memory.sink⟩ g .empty).sink.batches =
      batches ⟨config, mutator, flow, Memory.sink⟩ g .empty := by
  have hrun : run ⟨config, mutator, flow, Memory.sink⟩ g .empty = _ :=
    run_withSink (u := ⟨config, mutator, flow, Memory.sink⟩) projects_memory g (.empty, [])
  rw [hrun]
  rfl

/-- The texts up to an iteration tell its facts, if they and those before are printable. -/
theorem rebuild_batches (u : Setup σ) (g : Arena) (sink : σ) {k : Nat}
    (hk : k < (deltas u g sink).length) (hprintable : ∀ j ≤ k, Printable (factsAt u g j)) :
    ∃ facts, factsAt u g k = some facts ∧
      rebuild ((batches u g sink).take (k + 1)) = some facts := by
  obtain ⟨_, gk, r, facts, _, hprogram, hfacts, hreplay⟩ := (rebuilds_deltas u g sink).1 k hk
  refine ⟨facts, factsAt_eq_some.mpr ⟨gk, r, hprogram, hfacts⟩, ?_⟩
  have hread : ∀ e ∈ (deltas u g sink).take (k + 1), Delta.read? e.2.blocks = some e.2 := by
    intro e he
    obtain ⟨j, hj, rfl⟩ := List.mem_take_iff_getElem.mp he
    have hjk : j ≤ k := by omega
    obtain ⟨current, hcurrent, hd⟩ := leads_deltas u g sink j (by omega)
    rw [(List.getElem?_eq_some_iff.mp hd).2]
    have hbefore : Printable (factsBefore u g j) := by
      cases j with
      | zero => exact nofun
      | succ j => exact hprintable j (by omega)
    exact (hbefore.legible (hcurrent ▸ hprintable j hjk)).read?_blocks
  unfold rebuild batches
  rw [← List.map_take, mapM_map_eq_some fun e he => ?_]
  · simp only [bind, Option.bind, hreplay]
  · dsimp only
    rw [hread e he]
    rfl

/-- The texts tell all.  Let no string of some extracted stores have a tab or a line feed.  Then
each block of the delta between two of them, of which the first may be missing, has a line for the
columns and one for each row, and equal blocks are of equal deltas; equal texts are of equal stores;
and the texts of a session, whatever its rules and its sink, rebuild the facts of each iteration.
String constants never have such characters. -/
theorem texts_tell_facts :
    (∀ P Q, Printable P → Printable Q → ∀ name block, (name, block) ∈ (Delta.between P Q).blocks →
      ∃ change, (Delta.between P Q).get? name = some change ∧
        (pieces '\n' block).length = 1 + change.deleted.size + change.inserted.size) ∧
    (∀ P Q P' Q', Printable P → Printable Q → Printable P' → Printable Q' →
      (Delta.between P Q).blocks = (Delta.between P' Q').blocks →
      Delta.between P Q = Delta.between P' Q') ∧
    (∀ P P', Printable (some P) → Printable (some P') → P.serialize = P'.serialize → P = P') ∧
    (∀ g c s, extract g c = .ok s →
      ∀ t ∈ (s.relation "StringConstant").tuples, ∀ d ∈ t, d.Plain) ∧
    ∀ (σ : Type) (u : Setup σ) (g : Arena) (sink : σ) (k : Nat), k < (deltas u g sink).length →
      (∀ j ≤ k, Printable (factsAt u g j)) → ∃ facts, factsAt u g k = some facts ∧
        rebuild ((batches u g sink).take (k + 1)) = some facts := by
  refine ⟨fun P Q hP hQ name block hblock => ?_, fun P Q P' Q' hP hQ hP' hQ' hblocks => ?_,
    fun P P' hP hP' htexts => ?_, fun g c s hs => plain_stringConst hs,
    fun σ u g sink k hk hprintable => rebuild_batches u g sink hk hprintable⟩
  · have hlegible := hP.legible hQ
    rw [hlegible.blocks_eq] at hblock
    obtain ⟨e, he, heq⟩ := List.mem_map.mp hblock
    obtain ⟨rfl, rfl⟩ := Prod.mk.inj heq
    have hchange := Delta.mem_relations_toList.mp he
    obtain ⟨schema, hchanged⟩ := hlegible e.1 e.2 hchange
    exact ⟨e.2, hchange, hchanged.length_pieces_text⟩
  · have hread := (hP.legible hQ).read?_blocks
    rw [hblocks, (hP'.legible hQ').read?_blocks] at hread
    exact (Option.some.inj hread).symm
  · have hread := hP.read?_serialize
    rw [htexts, hP'.read?_serialize] at hread
    exact (Option.some.inj hread).symm

/-- Two programs that differ in a string, which has a tab in the one and looks like a number in the
other, have different texts. -/
theorem texts_tell_facts_quoted : ∃ P Q, extract (quoted "a\tb") quotedFlow = .ok P ∧
    extract (quoted "-1") quotedFlow = .ok Q ∧ Printable (some P) ∧ Printable (some Q) ∧
      P.serialize ≠ Q.serialize := by
  obtain ⟨_, _, hserialize, _, _⟩ := texts_tell_facts
  obtain ⟨P, hP, hrows⟩ := presents_quoted "a\tb"
  obtain ⟨Q, hQ, hrows'⟩ := presents_quoted "-1"
  refine ⟨P, Q, hP, hQ, printable_quoted hP, printable_quoted hQ, fun htexts => ?_⟩
  obtain rfl := hserialize P Q (printable_quoted hP) (printable_quoted hQ) htexts
  have hrow : [token ⟨2⟩, .str "ab"] ∈ (P.relation Rel.stringConst.name).tuples :=
    hrows.mem.mpr (by decide +kernel)
  have hnone : (⟨.stringConst, [token ⟨2⟩, .str "ab"]⟩ : Row) ∉
      quotedRows (Text.dropBlanks "-1") := by decide +kernel
  exact hnone (hrows'.mem.mp hrow)

end Session

end ProgramFacts
