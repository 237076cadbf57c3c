import ProgramFacts.Proofs.Running

/-! The deltas of a session, as its sink is given them.  A sink that keeps more than another one and
otherwise does the same leads to the same session; so does a sink that records the deltas. -/

namespace ProgramFacts.Session

open Program ProgramFacts.Flow ProgramFacts.Fact Mutation ProgramFacts.Random

variable {σ τ : Type}

/-- The sink that also keeps the deltas that it is given since its last reset, with their
iterations. -/
def Sink.recording (k : Sink σ) : Sink (σ × List (Nat × Delta)) where
  reset s :=
    let step := k.reset s.1
    ⟨step.result, (step.state, []), step.log⟩
  persist iteration d s :=
    let step := k.persist iteration d s.1
    ⟨step.result, (step.state, s.2 ++ [(iteration, d)]), step.log⟩

/-- A session with a recording sink. -/
def Setup.recording (u : Setup σ) : Setup (σ × List (Nat × Delta)) :=
  ⟨u.config, u.mutator, u.flow, u.sink.recording⟩

/-- The deltas that a session gives to its sink, with their iterations, in order. -/
def deltas (u : Setup σ) (g : Arena) (sink : σ) : List (Nat × Delta) :=
  (run u.recording g (sink, [])).sink.2

/-! ## What a sink keeps besides does not interfere -/

variable {f : τ → σ}

def State.mapSink (f : τ → σ) (s : State τ) : State σ :=
  ⟨s.arena, s.generator, f s.sink, s.previous, s.mutations, s.persistenceFailures, s.log, s.asked⟩

def SinkStep.map (f : τ → σ) (step : SinkStep τ) : SinkStep σ :=
  ⟨step.result, f step.state, step.log⟩

/-- The sink `k'` does what `k` does, on states that `f` leads to those of `k`. -/
structure Projects (f : τ → σ) (k' : Sink τ) (k : Sink σ) : Prop where
  reset : ∀ s, k.reset (f s) = (k'.reset s).map f
  persist : ∀ iteration d s, k.persist iteration d (f s) = (k'.persist iteration d s).map f

/-- The same session with another sink. -/
def Setup.withSink (u : Setup σ) (k' : Sink τ) : Setup τ := ⟨u.config, u.mutator, u.flow, k'⟩

/-- `x'` does what `x` does, on states of the sink that `f` leads to those of the sink of `x`. -/
def Simulates {α : Type} (f : τ → σ) (x' : Run τ α) (x : Run σ α) : Prop :=
  ∀ s, exec x (s.mapSink f) = ((exec x' s).1, (exec x' s).2.mapSink f)

theorem Simulates.bind {α β : Type} {x' : Run τ α} {x : Run σ α} {y' : α → Run τ β}
    {y : α → Run σ β} (hx : Simulates f x' x) (hy : ∀ a, Simulates f (y' a) (y a)) :
    Simulates f (x' >>= y') (x >>= y) := by
  intro s
  rw [exec_bind, exec_bind, hx]
  rcases exec x' s with ⟨failure | a, mid⟩
  · rfl
  · exact hy a mid

/-- What is read from the state is the same but for the sink's. -/
theorem simulates_get_bind {α : Type} {y' : State τ → Run τ α} {y : State σ → Run σ α}
    (h : ∀ s, Simulates f (y' s) (y (s.mapSink f))) :
    Simulates f (get >>= y') (get >>= y) := by
  intro s
  rw [exec_bind, exec_bind]
  exact h s s

theorem simulates_pure {α : Type} (a : α) :
    Simulates f (pure a : Run τ α) (pure a : Run σ α) := fun _ => rfl

theorem simulates_lift {α : Type} (result : Except Failure α) :
    Simulates f (liftM result : Run τ α) (liftM result : Run σ α) := by
  intro s
  rw [exec_lift, exec_lift]

theorem simulates_modify {y' : State τ → State τ} {y : State σ → State σ}
    (h : ∀ s, y (s.mapSink f) = (y' s).mapSink f) :
    Simulates f (modify y' : Run τ PUnit) (modify y : Run σ PUnit) := fun s =>
  congrArg (fun s => (Except.ok PUnit.unit, s)) (h s)

theorem simulates_say (messages : List Message) :
    Simulates f (say messages : Run τ Unit) (say messages : Run σ Unit) :=
  simulates_modify fun _ => rfl

theorem simulates_useSink (policy : FailurePolicy) {operation' : τ → SinkStep τ}
    {operation : σ → SinkStep σ} (h : ∀ s, operation (f s) = (operation' s).map f) :
    Simulates f (useSink policy operation') (useSink policy operation) := by
  intro s
  rw [exec_useSink, exec_useSink]
  have hs : operation (s.mapSink f).sink = (operation' s.sink).map f := h s.sink
  rw [hs]
  simp only [SinkStep.map]
  cases (operation' s.sink).result with
  | ok u => rfl
  | error failure => cases policy <;> rfl

theorem simulates_advance (u : Setup σ) (k' : Sink τ) :
    Simulates f (advance (u.withSink k')) (advance u) := by
  refine simulates_get_bind fun s => .bind (fun _ => rfl) fun _ => ?_
  refine (simulates_lift _).bind fun edit => ?_
  cases edit with
  | none => exact simulates_pure false
  | some m => exact (simulates_modify (f := f) fun _ => rfl).bind fun _ => simulates_pure true

section Projects

variable {u : Setup σ} {k' : Sink τ} (h : Projects f k' u.sink)
include h

theorem simulates_observe (iteration : Nat) :
    Simulates f (observe (u.withSink k') iteration) (observe u iteration) := by
  refine simulates_get_bind fun s => ?_
  refine (simulates_say _).bind fun _ => (simulates_lift _).bind fun current => ?_
  refine simulates_get_bind fun s => (simulates_say _).bind fun _ => ?_
  exact (simulates_useSink _ (h.persist iteration _)).bind fun _ => simulates_modify fun _ => rfl

theorem simulates_iterate (left iteration : Nat) :
    Simulates f (iterate (u.withSink k') left iteration) (iterate u left iteration) := by
  induction left generalizing iteration with
  | zero => exact (simulates_observe h iteration).bind fun _ => simulates_pure _
  | succ left ih =>
    refine (simulates_observe h iteration).bind fun _ => ?_
    refine (simulates_advance u k').bind fun again => ?_
    cases again with
    | true => exact ih (iteration + 1)
    | false => exact simulates_pure _

theorem simulates_session : Simulates f (session (u.withSink k')) (session u) := by
  refine (simulates_useSink _ h.reset).bind fun _ => ?_
  refine (simulates_iterate h _ 0).bind fun ended => simulates_get_bind fun s => ?_
  exact (simulates_say _).bind fun _ => simulates_pure _

/-- A session is the same with a sink that keeps more. -/
theorem run_withSink (g : Arena) (sink : τ) :
    run u g (f sink) =
      let outcome := run (u.withSink k') g sink
      ⟨outcome.report, outcome.arena, f outcome.sink, outcome.log, outcome.asked⟩ := by
  have hsession : exec (session u) (.initial u.config g (f sink)) = _ :=
    simulates_session h (.initial u.config g sink)
  rw [run_eq, run_eq, hsession]
  rfl

end Projects

theorem projects_recording (k : Sink σ) : Projects Prod.fst k.recording k :=
  ⟨fun _ => rfl, fun _ _ _ => rfl⟩

/-- A session is the same with the record and without it. -/
theorem run_recording (u : Setup σ) (g : Arena) (sink : σ) :
    run u g sink =
      let outcome := run u.recording g (sink, [])
      ⟨outcome.report, outcome.arena, outcome.sink.1, outcome.log, outcome.asked⟩ :=
  run_withSink (projects_recording u.sink) g (sink, [])

end ProgramFacts.Session
