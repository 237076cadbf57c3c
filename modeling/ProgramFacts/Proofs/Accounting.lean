import ProgramFacts.Proofs.Edits
import ProgramFacts.Proofs.Rebuilding

/-! What a session has done when it ends.  One that ends with a report has applied as many mutations
as its program has seen, one fewer than its iterations; one that fails does so with an extraction or
a mutation of its last program, or, if its settings say so, with the first failure of its sink. -/

namespace ProgramFacts.Session

open Program ProgramFacts.Flow ProgramFacts.Fact Mutation ProgramFacts.Random Extraction

variable {σ : Type} {u : Setup σ} {g : Arena} {sink : σ}

/-! ## The answers of a sink -/

/-- The state of a sink after a reset and some deltas, and what it answered, in order. -/
def Sink.feed (k : Sink σ) (s : σ) (ds : List (Nat × Delta)) : σ × List (Except Failure Unit) :=
  ds.foldl
    (fun fed e =>
      let step := k.persist e.1 e.2 fed.1
      (step.state, fed.2 ++ [step.result]))
    ((k.reset s).state, [(k.reset s).result])

theorem Sink.feed_concat (k : Sink σ) (s : σ) (ds : List (Nat × Delta)) (i : Nat) (d : Delta) :
    k.feed s (ds ++ [(i, d)]) =
      ((k.persist i d (k.feed s ds).1).state,
        (k.feed s ds).2 ++ [(k.persist i d (k.feed s ds).1).result]) :=
  List.foldl_concat ..

/-- The sink takes everything before its last answer, which is the given failure. -/
def Refuses (k : Sink σ) (s : σ) (ds : List (Nat × Delta)) (failure : Failure) : Prop :=
  ∃ taken, (k.feed s ds).2 = taken ++ [.error failure] ∧ ∀ answer ∈ taken, answer = .ok ()

theorem Used.of_error {policy : FailurePolicy} {step : SinkStep σ} {s s' : State σ}
    {failure : Failure} (h : Used policy step s (.error failure) s') :
    policy = .abort ∧ step.result = .error failure := by
  cases h with
  | aborted hresult hpolicy => exact ⟨hpolicy, hresult⟩

theorem Used.of_abort {step : SinkStep σ} {s s' : State σ} (h : Used .abort step s (.ok ()) s') :
    step.result = .ok () := by
  cases h with
  | done hresult => exact hresult
  | ignored _ hpolicy => contradiction

/-! ## Programs of a session -/

theorem programAt_succ {k : Nat} {g' : Arena} {r' : Generator} :
    programAt u g (k + 1) = some (g', r') ↔
      ∃ gk r m, programAt u g k = some (gk, r) ∧
        (u.mutator.mutate gk u.flow r).result = .ok (some m) ∧
        (u.mutator.mutate gk u.flow r).arena = g' ∧
        (u.mutator.mutate gk u.flow r).generator = r' := by
  rw [programAt]
  cases programAt u g k with
  | none => simp
  | some p =>
    obtain ⟨gk, r⟩ := p
    simp only [Option.bind_some, Option.some.injEq, Prod.mk.injEq]
    constructor
    · intro h
      split at h
      · rename_i m hm
        obtain ⟨harena, hgenerator⟩ := Prod.mk.inj (Option.some.inj h)
        exact ⟨gk, r, m, ⟨rfl, rfl⟩, hm, harena, hgenerator⟩
      · contradiction
    · rintro ⟨_, _, m, ⟨rfl, rfl⟩, hm, rfl, rfl⟩
      rw [hm]

/-- What the first program has, and what each mutation hands on, every program of a session has,
while the tokens of its nodes are distinct. -/
theorem of_programAt {P : Nat → Arena → Prop} (hstart : P 0 g)
    (hstep : ∀ k gk r m, gk.size < UInt32.size → P k gk →
      (u.mutator.mutate gk u.flow r).result = .ok (some m) →
      P (k + 1) (u.mutator.mutate gk u.flow r).arena)
    {k : Nat} {gk : Arena} {r : Generator} (hk : programAt u g k = some (gk, r))
    (hsize : gk.size < UInt32.size) : P k gk := by
  induction k generalizing gk r with
  | zero =>
    obtain ⟨rfl, _⟩ := Prod.mk.inj (Option.some.inj hk)
    exact hstart
  | succ k ih =>
    obtain ⟨before, r', m, hbefore, hm, rfl, _⟩ := programAt_succ.mp hk
    have hsize : before.size < UInt32.size := Nat.lt_of_le_of_lt (le_size_mutate ..) hsize
    exact hstep k before r' m hsize (ih hbefore hsize) hm

/-! ## Iterations -/

/-- The record of a session that has given `count` deltas to its sink and has applied `mutated`
mutations, and whose sink has not ended it. -/
structure Stage (u : Setup σ) (g : Arena) (sink : σ) (count mutated : Nat)
    (s : State (σ × List (Nat × Delta))) : Prop extends Synced u g count mutated s where
  mutations : s.mutations.length = mutated
  fed : (u.sink.feed sink s.sink.2).1 = s.sink.1
  taken : u.config.persistenceFailure = .abort →
    ∀ answer ∈ (u.sink.feed sink s.sink.2).2, answer = .ok ()

/-- What fails when a session fails, in the state that it leaves: its sink, or an extraction or a
mutation of a program that is no larger than the one it leaves. -/
inductive Broken (u : Setup σ) (g : Arena) (sink : σ) (s : State (σ × List (Nat × Delta))) :
    Failure → Prop
  | sink {failure : Failure} :
      u.config.persistenceFailure = .abort → Refuses u.sink sink s.sink.2 failure →
      Broken u g sink s failure
  | extraction {failure : Failure} {k : Nat} {gk : Arena} {r : Generator} :
      programAt u g k = some (gk, r) → gk.size ≤ s.arena.size →
      extract gk u.flow = .error failure → Broken u g sink s failure
  | mutation {failure : Failure} {k : Nat} {gk : Arena} {r : Generator} :
      programAt u g k = some (gk, r) → gk.size ≤ s.arena.size →
      (u.mutator.mutate gk u.flow r).result = .error failure → Broken u g sink s failure

/-- What a report says of a session that starts from `g` and ends with `arena`, when the budget
allows `left` mutations. -/
structure Accounted (u : Setup σ) (g : Arena) (left : Nat) (report : Report) (arena : Arena) :
    Prop where
  iterations : report.iterations = report.mutations.length + 1
  mutations : report.mutations.length ≤ left
  budget : report.termination = .budgetReached ↔ report.mutations.length = left
  program : ∃ r, programAt u g report.mutations.length = some (arena, r)

section Stage

variable {count i : Nat} {s s' : State (σ × List (Nat × Delta))}

theorem Stage.observe (h : Stage u g sink i i s) (ho : Observed u.recording i s (.ok ()) s') :
    Stage u g sink (i + 1) i s' := by
  have hsynced := h.toSynced.observe ho
  cases ho with
  | @done current log log' mid hcurrent hused =>
    have hmutations : mid.mutations = s.mutations := by cases hused <;> rfl
    have hsink : mid.sink = (_, s.sink.2 ++ [(i, _)]) := hused.kept.1
    refine ⟨hsynced, hmutations ▸ h.mutations, ?_, fun hpolicy => ?_⟩
    · simp only [hsink, Sink.feed_concat, h.fed]
    · have hused : Used u.config.persistenceFailure _ _ (.ok ()) mid := hused
      rw [hpolicy] at hused
      have hanswer := hused.of_abort
      simp only [hsink, Sink.feed_concat, h.fed]
      exact List.forall_mem_append.mpr ⟨h.taken hpolicy, List.forall_mem_singleton.mpr hanswer⟩

theorem Stage.observe_error (h : Stage u g sink i i s) {failure : Failure}
    (ho : Observed u.recording i s (.error failure) s') : Broken u g sink s' failure := by
  cases ho with
  | failed hextract => exact .extraction h.program (Nat.le_refl _) hextract
  | aborted hcurrent hused =>
    obtain ⟨hpolicy, hanswer⟩ := hused.of_error
    refine .sink hpolicy ⟨_, ?_, h.taken hpolicy⟩
    have hsink : s'.sink = (_, s.sink.2 ++ [(i, _)]) := hused.kept.1
    simp only [hsink, Sink.feed_concat, h.fed]
    exact congrArg (fun answer => _ ++ [answer]) hanswer

theorem Stage.advance (h : Stage u g sink count i s)
    (ha : Advanced u.recording s (.ok true) s') : Stage u g sink count (i + 1) s' := by
  have hsynced := h.toSynced.advance ha
  cases ha with
  | applied => exact ⟨hsynced, by simp [h.mutations], h.fed, h.taken⟩

theorem Stage.advance_error (h : Stage u g sink count i s) {failure : Failure}
    (ha : Advanced u.recording s (.error failure) s') : Broken u g sink s' failure := by
  cases ha with
  | failed hresult => exact .mutation h.program (le_size_mutate ..) hresult

theorem Stage.advance_false (h : Stage u g sink count i s)
    (ha : Advanced u.recording s (.ok false) s') :
    s'.mutations.length = i ∧ programAt u g i = some (s'.arena, s'.generator) := by
  cases ha with
  | exhausted hresult =>
    obtain ⟨harena, hgenerator⟩ := mutate_of_result_none hresult
    refine ⟨h.mutations, ?_⟩
    dsimp only
    rw [harena, hgenerator]
    exact h.program

/-- Iterations come to an end that accounts for all that they did. -/
theorem Stage.iterate {left : Nat} {result : Except Failure (Nat × Termination)}
    (h : Stage u g sink i i s) (hi : Iterated u.recording left i s result s') :
    (∀ failure, result = .error failure → Broken u g sink s' failure) ∧
      ∀ n t, result = .ok (n, t) →
        Accounted u g (i + left) ⟨n, s'.mutations, s'.persistenceFailures, t⟩ s'.arena := by
  induction hi with
  | fault ho => exact ⟨fun _ hf => Except.error.inj hf ▸ h.observe_error ho, nofun⟩
  | last ho =>
    refine ⟨nofun, fun n t hr => ?_⟩
    obtain ⟨rfl, rfl⟩ := Prod.mk.inj (Except.ok.inj hr)
    have hmid := h.observe ho
    have hlength := hmid.mutations
    exact ⟨by simp [hlength], by simp [hlength], by simp [hlength], _, hlength ▸ hmid.program⟩
  | stuck ho ha => exact ⟨fun _ hf => Except.error.inj hf ▸ (h.observe ho).advance_error ha, nofun⟩
  | exhausted ho ha =>
    refine ⟨nofun, fun n t hr => ?_⟩
    obtain ⟨rfl, rfl⟩ := Prod.mk.inj (Except.ok.inj hr)
    obtain ⟨hlength, hprogram⟩ := (h.observe ho).advance_false ha
    exact ⟨by simp [hlength], by simp [hlength], by simp [hlength], _, hlength ▸ hprogram⟩
  | @next left iteration _ _ _ _ _ ho ha _ ih =>
    rw [show iteration + (left + 1) = iteration + 1 + left by omega]
    exact ih ((h.observe ho).advance ha)

end Stage

/-! ## Sessions -/

/-- The state in which the session with a record ends. -/
def lastState (u : Setup σ) (g : Arena) (sink : σ) : State (σ × List (Nat × Delta)) :=
  (exec (session u.recording) (.initial u.config g (sink, []))).2

theorem run_lastState : (run u g sink).arena = (lastState u g sink).arena ∧
    deltas u g sink = (lastState u g sink).sink.2 := by
  rw [run_recording]
  exact ⟨rfl, rfl⟩

theorem stage_reset {s : State (σ × List (Nat × Delta))}
    (h : Used u.config.persistenceFailure (u.recording.sink.reset (sink, []))
      (.initial u.config g (sink, [])) (.ok ()) s) : Stage u g sink 0 0 s := by
  have hsink : s.sink = ((u.sink.reset sink).state, []) := h.kept.1
  refine ⟨synced_reset h, ?_, ?_, fun hpolicy => ?_⟩
  · cases h <;> rfl
  · rw [hsink]
    rfl
  · rw [hpolicy] at h
    rw [hsink]
    exact List.forall_mem_singleton.mpr h.of_abort

/-- A session either fails with what it breaks on, or ends with a report that accounts for it. -/
theorem run_accounted (u : Setup σ) (g : Arena) (sink : σ) :
    (∀ failure, (run u g sink).report = .error failure →
      Broken u g sink (lastState u g sink) failure) ∧
    ∀ report, (run u g sink).report = .ok report →
      Accounted u g u.config.iterationBudget.toNat report (run u g sink).arena := by
  have hran := ran_session u.recording (.initial u.config g (sink, []))
  have hreport : (run u g sink).report =
      (exec (session u.recording) (.initial u.config g (sink, []))).1 := by
    rw [run_recording]
    rfl
  rw [hreport, run_lastState.1, lastState]
  generalize exec (session u.recording) (.initial u.config g (sink, [])) = ended at hran ⊢
  obtain ⟨result, s⟩ := ended
  cases hran with
  | unready hused =>
    refine ⟨fun failure hf => ?_, nofun⟩
    obtain rfl := Except.error.inj hf
    obtain ⟨hpolicy, hanswer⟩ := hused.of_error
    have hsink : s.sink = ((u.sink.reset sink).state, []) := hused.kept.1
    refine .sink hpolicy ⟨[], ?_, by simp⟩
    rw [hsink]
    exact congrArg (fun answer => [answer]) hanswer
  | fault hused hiterated =>
    refine ⟨fun failure hf => ?_, nofun⟩
    exact ((stage_reset hused).iterate hiterated).1 failure (congrArg _ (Except.error.inj hf))
  | @ended _ _ _ _ s' hused hiterated =>
    refine ⟨nofun, fun report hr => ?_⟩
    obtain rfl := Except.ok.inj hr
    have haccounted := ((stage_reset hused).iterate hiterated).2 _ _ rfl
    rwa [Nat.zero_add] at haccounted

/-! ## The size of the program -/

theorem Observed.arena_eq {i : Nat} {s s' : State σ} {result : Except Failure Unit}
    (h : Observed u i s result s') : s'.arena = s.arena := by
  cases h with
  | failed => rfl
  | done _ hused => exact hused.kept.2.1
  | aborted _ hused => exact hused.kept.2.1

theorem Advanced.size_le {s s' : State σ} {result : Except Failure Bool}
    (h : Advanced u s result s') : s'.arena.size ≤ s.arena.size + 1 := by
  cases h <;> exact size_mutate_le ..

theorem Iterated.size_le {left i : Nat} {s s' : State σ}
    {result : Except Failure (Nat × Termination)} (h : Iterated u left i s result s') :
    s'.arena.size ≤ s.arena.size + left := by
  induction h with
  | fault ho => exact Nat.le_add_right_of_le (Nat.le_of_eq (congrArg Arena.size ho.arena_eq))
  | last ho => exact Nat.le_of_eq (congrArg Arena.size ho.arena_eq)
  | stuck ho ha =>
    have := ho.arena_eq ▸ ha.size_le
    omega
  | exhausted ho ha =>
    have := ho.arena_eq ▸ ha.size_le
    omega
  | next ho ha _ ih =>
    have := ho.arena_eq ▸ ha.size_le
    omega

/-- A session adds one node at most for each mutation that its budget allows. -/
theorem size_run_le (u : Setup σ) (g : Arena) (sink : σ) :
    (run u g sink).arena.size ≤ g.size + u.config.iterationBudget.toNat := by
  have hran := ran_session u (.initial u.config g sink)
  rw [run_eq]
  generalize exec (session u) (.initial u.config g sink) = ended at hran ⊢
  obtain ⟨result, s⟩ := ended
  have hstart {mid : State σ} {answer : Except Failure Unit}
      (hused : Used u.config.persistenceFailure (u.sink.reset sink) (.initial u.config g sink)
        answer mid) : mid.arena = g := hused.kept.2.1
  cases hran with
  | unready hused =>
    exact Nat.le_add_right_of_le (Nat.le_of_eq (congrArg Arena.size (hstart hused)))
  | fault hused hiterated => exact hstart hused ▸ hiterated.size_le
  | ended hused hiterated => exact hstart hused ▸ hiterated.size_le

end ProgramFacts.Session
