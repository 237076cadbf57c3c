import ProgramFacts.Proofs.ClosedWorld
import ProgramFacts.Proofs.Recording
import ProgramFacts.Proofs.Replay

/-! Deltas between extracted stores rebuild these: all extracted stores have the same columns for a
relation, and none has a relation without rows.  So the deltas of a session, replayed one after the
other from no store, give the facts of each of its iterations. -/

namespace ProgramFacts.Extraction

open Program ProgramFacts.Fact ProgramFacts.Flow

/-! ## Extracted stores -/

/-- Every relation of the store is one of the encoding, with its columns, at least one row, and rows
that fit. -/
def Encoded (s : Store) : Prop :=
  ∀ name r, s.relation? name = some r → ∃ rel : Rel, rel.name = name ∧
    r.schema = some rel.columns ∧ (∃ t, t ∈ r.tuples) ∧ ∀ t ∈ r.tuples, (⟨rel, t⟩ : Row).Fits

theorem encoded_empty : Encoded .empty := by
  simp [Encoded]

theorem encoded_of_extract {g : Arena} {c : FlowGraph} {s : Store} (h : extract g c = .ok s) :
    Encoded s := by
  obtain ⟨order, _, _, _, hpresents⟩ := exact_of_extract h
  intro name r hr
  obtain ⟨rel, rfl, hschema, hrow⟩ := hpresents.relation hr
  refine ⟨rel, rfl, hschema, hrow, fun t ht => ?_⟩
  rw [← Store.relation_of_relation? hr, hpresents.mem] at ht
  exact ht.fits

/-- A relation of the encoding has its columns, or none if it is missing. -/
theorem Encoded.schema_eq {s : Store} (h : Encoded s) {rel : Rel} {schema : Schema}
    (hs : (s.relation rel.name).schema = some schema) : schema = rel.columns := by
  cases hr : s.relation? rel.name with
  | none => simp [Store.relation, hr, Relation.empty] at hs
  | some r =>
    obtain ⟨rel', hname, hschema, _⟩ := h _ r hr
    obtain rfl := Rel.name_injective hname
    rw [Store.relation_of_relation? hr, hschema] at hs
    exact (Option.some.inj hs).symm

theorem Encoded.exists_rel {s : Store} (h : Encoded s) {name : String} {t : Tuple}
    (ht : t ∈ (s.relation name).tuples) :
    ∃ rel : Rel, rel.name = name ∧ (s.relation name).schema = some rel.columns ∧
      (⟨rel, t⟩ : Row).Fits := by
  cases hr : s.relation? name with
  | none => simp [Store.relation, hr, Relation.empty] at ht
  | some r =>
    rw [Store.relation_of_relation? hr] at ht ⊢
    obtain ⟨rel, hname, hschema, _, hfits⟩ := h name r hr
    exact ⟨rel, hname, hschema, hfits t ht⟩

theorem Encoded.exists_rel_of_ne {a b : Store} (ha : Encoded a) (hb : Encoded b) {name : String}
    (h : (a.relation name).tuples ≠ (b.relation name).tuples) : ∃ rel : Rel, rel.name = name := by
  refine Classical.not_not.mp fun hnone => h (Std.ExtTreeSet.ext_mem fun t => ?_)
  refine iff_of_false (fun ht => hnone ?_) (fun ht => hnone ?_)
  · exact (ha.exists_rel ht).imp fun _ h => h.1
  · exact (hb.exists_rel ht).imp fun _ h => h.1

/-- The rows that one store of the encoding has and another lacks fit the columns of both. -/
theorem replayable_between {s t : Store} (hs : Encoded s) (ht : Encoded t) (name : String) :
    Replayable (s.relation name) (.between (s.relation name) (t.relation name)) := by
  intro schema hschema row hrow
  have hmem := (Std.ExtTreeSet.mem_diff_iff.mp hrow).1
  obtain ⟨rel, rfl, hcolumns, hfits⟩ := ht.exists_rel hmem
  suffices schema = rel.columns by
    rw [this]
    exact hfits.length_eq
  cases hold : (s.relation rel.name).schema with
  | some old =>
    simp only [hold, RelationDelta.between] at hschema
    exact Option.some.inj hschema ▸ hs.schema_eq hold
  | none =>
    simp only [hold, hcolumns, RelationDelta.between] at hschema
    exact (Option.some.inj hschema).symm

/-- The replay of the delta between two stores of the encoding rebuilds the second one. -/
theorem applyTo_between {previous : Option Store} {current : Store}
    (hprevious : Encoded (previous.getD .empty)) (hcurrent : Encoded current) :
    (Delta.between previous (some current)).applyTo previous = .ok current := by
  have hreplayable (name : String) : Replayable ((previous.getD .empty).relation name)
      (.between ((previous.getD .empty).relation name)
        (((some current).getD .empty).relation name)) :=
    replayable_between hprevious hcurrent name
  obtain ⟨s, hs, hrelation⟩ := Delta.applyTo_between hreplayable
  suffices s = current by rw [hs, this]
  refine Store.ext_relation? fun name => (hrelation name).trans ?_
  simp only [Option.getD_some]
  cases hr : current.relation? name with
  | none => simp [Store.relation, hr, Relation.empty]
  | some r =>
    rw [Store.relation_of_relation? hr]
    obtain ⟨rel, rfl, hschema, ⟨t, ht⟩, _⟩ := hcurrent name r hr
    rw [isEmpty_eq_false_of_mem ht, if_neg (by simp)]
    have hcolumns : ((previous.getD .empty).relation rel.name).tuples = r.tuples →
        ((previous.getD .empty).relation rel.name).schema = r.schema := by
      intro hsame
      obtain ⟨rel', hname, hold, _⟩ := hprevious.exists_rel (hsame ▸ ht)
      obtain rfl := Rel.name_injective hname
      rw [hold, hschema]
    have hjoined : (((previous.getD .empty).relation rel.name).schema <|> r.schema) = r.schema := by
      cases hold : ((previous.getD .empty).relation rel.name).schema with
      | none => rfl
      | some old => exact (congrArg some (hprevious.schema_eq hold)).trans hschema.symm
    obtain ⟨schema, tuples⟩ := r
    congr 2
    split
    · rename_i hsame
      exact hcolumns hsame
    · exact hjoined

end ProgramFacts.Extraction

namespace ProgramFacts.Session

open Program ProgramFacts.Flow ProgramFacts.Fact ProgramFacts.Random Extraction

variable {σ : Type}

/-! ## The deltas of a session -/

/-- The program of a session after some mutations, and the generator. -/
def programAt (u : Setup σ) (g : Arena) : Nat → Option (Arena × Generator)
  | 0 => some (g, .ofSeed u.config.seed)
  | k + 1 =>
    (programAt u g k).bind fun p =>
      let attempt := u.mutator.mutate p.1 u.flow p.2
      match attempt.result with
      | .ok (some _) => some (attempt.arena, attempt.generator)
      | _ => none

/-- The store that deltas lead to from no store, replayed one after the other. -/
def replayAll (ds : List (Nat × Delta)) : Except ArityMismatch (Option Store) :=
  ds.foldlM (fun base e => (e.2.applyTo base).map some) none

/-- The delta of iteration `k` stands at position `k`, and the deltas up to it rebuild the facts of
the program after `k` mutations. -/
def Rebuilds (u : Setup σ) (g : Arena) (ds : List (Nat × Delta)) (k : Nat) : Prop :=
  ∃ d gk r facts, ds[k]? = some (k, d) ∧ programAt u g k = some (gk, r) ∧
    extract gk u.flow = .ok facts ∧ replayAll (ds.take (k + 1)) = .ok (some facts)

theorem replayAll_concat (ds : List (Nat × Delta)) (e : Nat × Delta) :
    replayAll (ds ++ [e]) = (replayAll ds).bind fun base => (e.2.applyTo base).map some := by
  unfold replayAll
  rw [List.foldlM_append]
  cases ds.foldlM (fun base e => (e.2.applyTo base).map some) none with
  | error e' => rfl
  | ok base => exact bind_pure ((e.2.applyTo base).map some)

theorem Rebuilds.concat {u : Setup σ} {g : Arena} {ds : List (Nat × Delta)} {k : Nat}
    (h : Rebuilds u g ds k) (e : Nat × Delta) : Rebuilds u g (ds ++ [e]) k := by
  obtain ⟨d, gk, r, facts, hd, hprogram, hfacts, hreplay⟩ := h
  have hk : k < ds.length := (List.getElem?_eq_some_iff.mp hd).1
  refine ⟨d, gk, r, facts, ?_, hprogram, hfacts, ?_⟩
  · rw [List.getElem?_append_left hk, hd]
  · rw [List.take_append_of_le_length hk, hreplay]

/-- The record of a session that has given `count` deltas to its sink and has applied `mutated`
mutations. -/
structure Synced (u : Setup σ) (g : Arena) (count mutated : Nat)
    (s : State (σ × List (Nat × Delta))) : Prop where
  length : s.sink.2.length = count
  program : programAt u g mutated = some (s.arena, s.generator)
  previous : replayAll s.sink.2 = .ok s.previous
  encoded : Encoded (s.previous.getD .empty)
  rebuilds : ∀ k < count, Rebuilds u g s.sink.2 k

/-- An extraction adds the delta that rebuilds its facts. -/
theorem Synced.persist {u : Setup σ} {g : Arena} {i : Nat} {s : State (σ × List (Nat × Delta))}
    (h : Synced u g i i s) {current : Store} (hcurrent : extract s.arena u.flow = .ok current) :
    replayAll (s.sink.2 ++ [(i, .between s.previous (some current))]) = .ok (some current) ∧
      ∀ k < i + 1, Rebuilds u g (s.sink.2 ++ [(i, .between s.previous (some current))]) k := by
  have hreplay : replayAll (s.sink.2 ++ [(i, .between s.previous (some current))]) =
      .ok (some current) := by
    rw [replayAll_concat, h.previous]
    simp only [Except.bind]
    rw [applyTo_between h.encoded (encoded_of_extract hcurrent)]
    rfl
  refine ⟨hreplay, fun k hk => ?_⟩
  rcases Nat.lt_succ_iff_lt_or_eq.mp hk with hk | rfl
  · exact (h.rebuilds k hk).concat _
  · refine ⟨.between s.previous (some current), s.arena, s.generator, current, ?_, h.program,
      hcurrent, ?_⟩
    · rw [List.getElem?_append_right (Nat.le_of_eq h.length), h.length]
      simp
    · rw [List.take_of_length_le (by simp [h.length]), hreplay]

theorem Synced.observe {u : Setup σ} {g : Arena} {i : Nat} {s s' : State (σ × List (Nat × Delta))}
    (h : Synced u g i i s) (ho : Observed u.recording i s (.ok ()) s') :
    Synced u g (i + 1) i s' := by
  cases ho with
  | @done current log log' mid hcurrent hused =>
    obtain ⟨hsink, harena, hgenerator, _⟩ := hused.kept
    have hds : mid.sink.2 = s.sink.2 ++ [(i, .between s.previous (some current))] :=
      congrArg Prod.snd hsink
    obtain ⟨hreplay, hrebuilds⟩ := h.persist hcurrent
    rw [← hds] at hreplay hrebuilds
    refine ⟨?_, ?_, hreplay, encoded_of_extract hcurrent, hrebuilds⟩
    · simp [hds, h.length]
    · simpa [harena, hgenerator] using h.program

/-- A failed extraction adds nothing, and one that is not taken adds its delta all the same. -/
theorem Synced.observe_error {u : Setup σ} {g : Arena} {i : Nat}
    {s s' : State (σ × List (Nat × Delta))} (h : Synced u g i i s) {failure : Failure}
    (ho : Observed u.recording i s (.error failure) s') :
    ∀ k < s'.sink.2.length, Rebuilds u g s'.sink.2 k := by
  cases ho with
  | failed => exact fun k hk => h.rebuilds k (h.length ▸ hk)
  | @aborted current failure log s' hcurrent hused =>
    have hds : s'.sink.2 = s.sink.2 ++ [(i, .between s.previous (some current))] :=
      congrArg Prod.snd hused.kept.1
    obtain ⟨_, hrebuilds⟩ := h.persist hcurrent
    rw [← hds] at hrebuilds
    intro k hk
    refine hrebuilds k ?_
    simpa [hds, h.length] using hk

theorem Synced.advance {u : Setup σ} {g : Arena} {n i : Nat}
    {s s' : State (σ × List (Nat × Delta))} (h : Synced u g n i s)
    (ha : Advanced u.recording s (.ok true) s') : Synced u g n (i + 1) s' := by
  cases ha with
  | applied hresult =>
    refine ⟨h.length, ?_, h.previous, h.encoded, h.rebuilds⟩
    have hattempt : (u.mutator.mutate s.arena u.flow s.generator).result = _ := hresult
    simp [programAt, h.program, hattempt, Setup.recording]

/-- A mutation gives the sink nothing. -/
theorem Advanced.sink_eq {u : Setup σ} {s s' : State σ} {result : Except Failure Bool}
    (h : Advanced u s result s') : s'.sink = s.sink := by
  cases h <;> rfl

theorem Synced.iterate {u : Setup σ} {g : Arena} {left i : Nat}
    {s s' : State (σ × List (Nat × Delta))} {result : Except Failure (Nat × Termination)}
    (h : Synced u g i i s) (hi : Iterated u.recording left i s result s') :
    (∀ k < s'.sink.2.length, Rebuilds u g s'.sink.2 k) ∧
      ∀ n t, result = .ok (n, t) → n = s'.sink.2.length := by
  induction hi with
  | fault ho => exact ⟨h.observe_error ho, fun _ _ hr => by contradiction⟩
  | last ho =>
    have hmid := h.observe ho
    refine ⟨fun k hk => hmid.rebuilds k (hmid.length ▸ hk), fun n t hr => ?_⟩
    rw [hmid.length, (Prod.mk.inj (Except.ok.inj hr)).1]
  | stuck ho ha =>
    have hmid := h.observe ho
    rw [ha.sink_eq]
    exact ⟨fun k hk => hmid.rebuilds k (hmid.length ▸ hk), fun _ _ hr => by contradiction⟩
  | exhausted ho ha =>
    have hmid := h.observe ho
    rw [ha.sink_eq]
    refine ⟨fun k hk => hmid.rebuilds k (hmid.length ▸ hk), fun n t hr => ?_⟩
    rw [hmid.length, (Prod.mk.inj (Except.ok.inj hr)).1]
  | next ho ha _ ih => exact ih ((h.observe ho).advance ha)

/-- The state of a session after the reset of its sink. -/
theorem synced_reset {u : Setup σ} {g : Arena} {sink : σ} {s : State (σ × List (Nat × Delta))}
    {policy : FailurePolicy} {result : Except Failure Unit}
    (h : Used policy (u.recording.sink.reset (sink, [])) (.initial u.config g (sink, [])) result
      s) : Synced u g 0 0 s := by
  obtain ⟨hsink, harena, hgenerator, hprevious⟩ := h.kept
  refine ⟨by rw [hsink]; rfl, by rw [harena, hgenerator]; rfl, ?_, ?_, by simp⟩
  · rw [hsink, hprevious]
    rfl
  · rw [hprevious]
    exact encoded_empty

theorem rebuilds_deltas (u : Setup σ) (g : Arena) (sink : σ) :
    (∀ k < (deltas u g sink).length, Rebuilds u g (deltas u g sink) k) ∧
      ∀ report, (run u g sink).report = .ok report →
        report.iterations = (deltas u g sink).length := by
  have hran := ran_session u.recording (.initial u.config g (sink, []))
  have hdeltas : deltas u g sink =
      (exec (session u.recording) (.initial u.config g (sink, []))).2.sink.2 := rfl
  have hreport : (run u g sink).report =
      (exec (session u.recording) (.initial u.config g (sink, []))).1 := by
    rw [run_recording]
    rfl
  rw [hdeltas, hreport]
  generalize exec (session u.recording) (.initial u.config g (sink, [])) = ended at hran ⊢
  obtain ⟨result, s⟩ := ended
  cases hran with
  | unready hused =>
    have hsynced := synced_reset hused
    refine ⟨fun k hk => ?_, fun _ hr => by contradiction⟩
    exact absurd (hsynced.length ▸ hk) (Nat.not_lt_zero k)
  | fault hused hiterated =>
    exact ⟨((synced_reset hused).iterate hiterated).1, fun _ hr => by contradiction⟩
  | ended hused hiterated =>
    obtain ⟨hrebuilds, hlength⟩ := (synced_reset hused).iterate hiterated
    refine ⟨hrebuilds, fun report hr => ?_⟩
    obtain rfl := Except.ok.inj hr
    exact hlength _ _ rfl

/-- A session of one iteration over `loop`, with its deltas kept in memory. -/
def single : Setup Memory := ⟨{ iterationBudget := 0 }, .builtIn .fresh, loopFlow, Memory.sink⟩

theorem exists_report_single :
    ∃ report, (run single loop .empty).report = .ok report ∧ report.iterations = 1 := by
  have hran := ran_session single (.initial single.config loop .empty)
  have hbudget : single.config.iterationBudget.toNat = 0 := rfl
  have hreport : (run single loop .empty).report =
      (exec (session single) (.initial single.config loop .empty)).1 := rfl
  rw [hreport]
  generalize exec (session single) (.initial single.config loop .empty) = ended at hran ⊢
  obtain ⟨result, s⟩ := ended
  -- neither the sink nor the extraction fails, so only the last case is left
  cases hran with
  | unready hused =>
    cases hused
    contradiction
  | fault hused hiterated =>
    rw [hbudget] at hiterated
    cases hiterated with
    | fault hobserved =>
      cases hobserved with
      | failed hextract =>
        obtain ⟨facts, hfacts⟩ := exists_extract_loop
        rw [hused.kept.2.1] at hextract
        exact absurd (hfacts.symm.trans hextract) (by simp)
      | aborted _ hpersist =>
        cases hpersist
        contradiction
  | ended hused hiterated =>
    rw [hbudget] at hiterated
    cases hiterated
    exact ⟨_, rfl, rfl⟩

end ProgramFacts.Session
