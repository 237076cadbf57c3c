import ProgramFacts.Proofs.Endurance
import ProgramFacts.Proofs.Independence

/-! The calls of a session to its sink, with the answers, whatever these are.  A session that ends
with a report has reset the sink once and then given it one delta for each iteration, in order; the
report counts the calls that failed. -/

namespace ProgramFacts.Session

open Program ProgramFacts.Flow ProgramFacts.Fact Mutation ProgramFacts.Random Extraction

variable {σ : Type}

/-- A call of an operation of a sink. -/
inductive Call
  | reset
  | persist (iteration : Nat) (d : Delta)

/-- A call with its answer. -/
structure Exchange where
  call : Call
  answer : Except Failure Unit

def Exchange.failed (x : Exchange) : Bool := !x.answer.isOk

/-- The sink that also keeps its calls, with the answers. -/
def Sink.traced (k : Sink σ) : Sink (σ × List Exchange) where
  reset s :=
    let step := k.reset s.1
    ⟨step.result, (step.state, s.2 ++ [⟨.reset, step.result⟩]), step.log⟩
  persist iteration d s :=
    let step := k.persist iteration d s.1
    ⟨step.result, (step.state, s.2 ++ [⟨.persist iteration d, step.result⟩]), step.log⟩

/-- The calls of a session to its sink, with the answers, in order. -/
def calls (u : Setup σ) (g : Arena) (sink : σ) : List Exchange :=
  (run (u.withSink u.sink.traced) g (sink, [])).sink.2

/-! ## Calls and deltas -/

/-- The deltas that were persisted since the last reset. -/
def persisted (xs : List Exchange) : List (Nat × Delta) :=
  xs.foldl
    (fun ds x =>
      match x.call with
      | .reset => []
      | .persist iteration d => ds ++ [(iteration, d)])
    []

theorem persisted_reset (xs : List Exchange) (answer : Except Failure Unit) :
    persisted (xs ++ [⟨.reset, answer⟩]) = [] := List.foldl_concat ..

theorem persisted_persist (xs : List Exchange) (iteration : Nat) (d : Delta)
    (answer : Except Failure Unit) :
    persisted (xs ++ [⟨.persist iteration d, answer⟩]) = persisted xs ++ [(iteration, d)] :=
  List.foldl_concat ..

theorem projects_traced (k : Sink σ) : Projects Prod.fst k.traced k :=
  ⟨fun _ => rfl, fun _ _ _ => rfl⟩

/-- The calls tell the deltas. -/
theorem projects_persisted (k : Sink σ) :
    Projects (fun s => (s.1, persisted s.2)) k.traced k.recording where
  reset s := by simp only [Sink.recording, Sink.traced, SinkStep.map, persisted_reset]
  persist i d s := by simp only [Sink.recording, Sink.traced, SinkStep.map, persisted_persist]

theorem deltas_eq_persisted (u : Setup σ) (g : Arena) (sink : σ) :
    deltas u g sink = persisted (calls u g sink) := by
  have h : run u.recording g (sink, []) = _ :=
    run_withSink (u := u.recording) (projects_persisted u.sink) g (sink, [])
  unfold deltas
  rw [h]
  rfl

/-! ## The trace of a session -/

/-- The sink of a session was reset once and has been given deltas since; the failures among its
answers are counted. -/
structure Traced (policy : FailurePolicy) (s : State (σ × List Exchange)) : Prop where
  calls : s.sink.2.map Exchange.call =
    .reset :: (persisted s.sink.2).map fun e => .persist e.1 e.2
  failures : s.persistenceFailures = s.sink.2.countP Exchange.failed
  abort : policy = .abort → s.persistenceFailures = 0

/-- A call that does not end the session is counted if it failed, which it did not if failures end
the session. -/
theorem Used.counts {policy : FailurePolicy} {step : SinkStep (σ × List Exchange)}
    {s s' : State (σ × List Exchange)} (h : Used policy step s (.ok ()) s') {call : Call}
    (htrace : step.state.2 = s.sink.2 ++ [⟨call, step.result⟩])
    (hfailures : s.persistenceFailures = s.sink.2.countP Exchange.failed) :
    s'.persistenceFailures = s'.sink.2.countP Exchange.failed ∧
      (policy = .abort → s'.persistenceFailures = s.persistenceFailures) := by
  cases h with
  | done hresult => simp [htrace, hresult, hfailures, Exchange.failed, Except.isOk, Except.toBool]
  | ignored hresult hpolicy =>
    simp [htrace, hresult, hpolicy, hfailures, Exchange.failed, Except.isOk, Except.toBool]

variable {u : Setup σ} {g : Arena} {sink : σ} {s s' : State (σ × List Exchange)}

theorem traced_reset (h : Used u.config.persistenceFailure (u.sink.traced.reset (sink, []))
    (.initial u.config g (sink, [])) (.ok ()) s) : Traced u.config.persistenceFailure s := by
  have hsink : s.sink.2 = [⟨.reset, (u.sink.reset sink).result⟩] := congrArg Prod.snd h.kept.1
  obtain ⟨hfailures, habort⟩ := h.counts rfl rfl
  exact ⟨by rw [hsink]; rfl, hfailures, habort⟩

theorem Traced.observe {i : Nat} (h : Traced u.config.persistenceFailure s)
    (ho : Observed (u.withSink u.sink.traced) i s (.ok ()) s') :
    Traced u.config.persistenceFailure s' := by
  cases ho with
  | @done current _ _ mid _ hused =>
    have hused : Used u.config.persistenceFailure
      (u.sink.traced.persist i (.between s.previous (some current)) s.sink) _ (.ok ()) mid := hused
    obtain ⟨hfailures, habort⟩ := hused.counts rfl h.failures
    refine ⟨?_, hfailures, fun hpolicy => (habort hpolicy).trans (h.abort hpolicy)⟩
    have hsink : mid.sink.2 = s.sink.2 ++ [⟨.persist i (.between s.previous (some current)),
      (u.sink.persist i (.between s.previous (some current)) s.sink.1).result⟩] :=
      congrArg Prod.snd hused.kept.1
    simp [hsink, persisted_persist, h.calls]

theorem Traced.advance (h : Traced u.config.persistenceFailure s) {again : Bool}
    (ha : Advanced (u.withSink u.sink.traced) s (.ok again) s') :
    Traced u.config.persistenceFailure s' := by
  cases ha with
  | exhausted => exact ⟨h.calls, h.failures, h.abort⟩
  | applied => exact ⟨h.calls, h.failures, h.abort⟩

theorem Traced.iterate {left i : Nat} {ended : Nat × Termination}
    (h : Traced u.config.persistenceFailure s)
    (hi : Iterated (u.withSink u.sink.traced) left i s (.ok ended) s') :
    Traced u.config.persistenceFailure s' := by
  generalize hresult : Except.ok ended = result at hi
  induction hi with
  | fault => contradiction
  | last ho => exact h.observe ho
  | stuck => contradiction
  | exhausted ho ha => exact (h.observe ho).advance ha
  | next ho ha _ ih => exact ih ((h.observe ho).advance ha) hresult

/-- What a session with a report has called, and which of the calls it has counted. -/
theorem traced_run {report : Report} (h : (run u g sink).report = .ok report) :
    (calls u g sink).map Exchange.call =
        .reset :: (deltas u g sink).map (fun e => .persist e.1 e.2) ∧
      report.persistenceFailures = (calls u g sink).countP Exchange.failed ∧
      (u.config.persistenceFailure = .abort → report.persistenceFailures = 0) := by
  have hran := ran_session (u.withSink u.sink.traced) (.initial u.config g (sink, []))
  have hrun : run u g sink = _ := run_withSink (projects_traced u.sink) g (sink, [])
  have hreport : (exec (session (u.withSink u.sink.traced)) (.initial u.config g (sink, []))).1 =
      .ok report := by
    rw [hrun] at h
    exact h
  have hcalls : calls u g sink =
      (exec (session (u.withSink u.sink.traced)) (.initial u.config g (sink, []))).2.sink.2 := rfl
  rw [deltas_eq_persisted, hcalls]
  generalize exec (session (u.withSink u.sink.traced)) _ = ended at hran hreport ⊢
  obtain ⟨result, s⟩ := ended
  cases hran with
  | unready => contradiction
  | fault => contradiction
  | ended hused hiterated =>
    obtain rfl := Except.ok.inj hreport
    have htraced := (traced_reset hused).iterate hiterated
    exact ⟨htraced.calls, htraced.failures, htraced.abort⟩

/-! ## Reports -/

/-- What a report says of a session: which calls it made to its sink and which of these failed, how
many mutations it applied and why it ended, and that its last iteration has extracted the program
that it leaves. -/
structure Settled (u : Setup σ) (g : Arena) (sink : σ) (report : Report) : Prop where
  calls : (calls u g sink).map Exchange.call =
    .reset :: (deltas u g sink).map fun e => .persist e.1 e.2
  indices : (deltas u g sink).map Prod.fst = List.range report.iterations
  iterations : report.iterations = report.mutations.length + 1
  bound : report.iterations ≤ u.config.iterationBudget.toNat + 1
  termination : report.termination = .budgetReached ↔
    report.iterations = u.config.iterationBudget.toNat + 1
  failures : report.persistenceFailures = (Session.calls u g sink).countP Exchange.failed
  abort : u.config.persistenceFailure = .abort → report.persistenceFailures = 0
  program : ∃ r, programAt u g (report.iterations - 1) = some ((run u g sink).arena, r)
  facts : ∃ facts, extract (run u g sink).arena u.flow = .ok facts ∧
    replayAll (deltas u g sink) = .ok (some facts)

/-- The deltas of a session carry the numbers of their iterations. -/
theorem map_fst_deltas (u : Setup σ) (g : Arena) (sink : σ) :
    (deltas u g sink).map Prod.fst = List.range (deltas u g sink).length := by
  refine List.ext_getElem? fun k => ?_
  rw [List.getElem?_map]
  by_cases hk : k < (deltas u g sink).length
  · obtain ⟨d, _, _, _, hd, _⟩ := (rebuilds_deltas u g sink).1 k hk
    rw [hd, List.getElem?_range hk]
    rfl
  · rw [List.getElem?_eq_none (by omega), List.getElem?_eq_none (by simp; omega)]
    rfl

theorem settled_of_report {report : Report} (h : (run u g sink).report = .ok report) :
    Settled u g sink report := by
  obtain ⟨hcalls, hfailures, habort⟩ := traced_run h
  have haccounted := (run_accounted u g sink).2 report h
  obtain ⟨hrebuilds, hlength⟩ := rebuilds_deltas u g sink
  have hcount := hlength report h
  have hiterations := haccounted.iterations
  obtain ⟨r, hprogram⟩ := haccounted.program
  refine ⟨hcalls, hcount ▸ map_fst_deltas u g sink, hiterations, ?_, ?_, hfailures, habort,
    ⟨r, ?_⟩, ?_⟩
  · have := haccounted.mutations
    omega
  · rw [haccounted.budget]
    omega
  · rw [hiterations, Nat.add_sub_cancel, hprogram]
  · -- The last delta rebuilds the facts of the last program.
    obtain ⟨_, last, _, facts, _, hlast, hfacts, hreplay⟩ :=
      hrebuilds report.mutations.length (by omega)
    obtain ⟨rfl, _⟩ := Prod.mk.inj (Option.some.inj (hprogram.symm.trans hlast))
    rw [List.take_of_length_le (by omega)] at hreplay
    exact ⟨facts, hfacts, hreplay⟩

end ProgramFacts.Session
