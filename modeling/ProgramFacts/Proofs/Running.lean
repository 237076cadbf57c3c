import ProgramFacts.Session.Run

/-! The steps of a session as relations between states: what the use of a sink, the extraction of an
iteration, and a mutation can lead to, and from these the iterations of a session. -/

namespace ProgramFacts.Session

open Program ProgramFacts.Flow ProgramFacts.Fact Mutation ProgramFacts.Random

variable {σ : Type}

/-! ## Runs from a state -/

/-- What a part of a session leads to from a state. -/
def exec {α : Type} (x : Run σ α) (s : State σ) : Except Failure α × State σ := x.run.run s

theorem exec_bind {α β : Type} (x : Run σ α) (f : α → Run σ β) (s : State σ) :
    exec (x >>= f) s =
      match exec x s with
      | (.ok a, s') => exec (f a) s'
      | (.error failure, s') => (.error failure, s') := by
  unfold exec
  rw [ExceptT.run_bind, StateT.run_bind]
  rcases x.run.run s with ⟨_ | _, s'⟩ <;> rfl

@[simp] theorem exec_pure {α : Type} (a : α) (s : State σ) :
    exec (pure a : Run σ α) s = (.ok a, s) := rfl

@[simp] theorem exec_get (s : State σ) : exec (get : Run σ (State σ)) s = (.ok s, s) := rfl

@[simp] theorem exec_set (s s' : State σ) : exec (set s' : Run σ PUnit) s = (.ok ⟨⟩, s') := rfl

@[simp] theorem exec_modify (f : State σ → State σ) (s : State σ) :
    exec (modify f : Run σ PUnit) s = (.ok ⟨⟩, f s) := rfl

@[simp] theorem exec_throw {α : Type} (failure : Failure) (s : State σ) :
    exec (throw failure : Run σ α) s = (.error failure, s) := rfl

@[simp] theorem exec_lift {α : Type} (result : Except Failure α) (s : State σ) :
    exec (liftM result : Run σ α) s = (result, s) := by
  cases result <;> rfl

@[simp] theorem exec_say (messages : List Message) (s : State σ) :
    exec (say messages) s = (.ok ⟨⟩, { s with log := messages.reverse ++ s.log }) := rfl

/-- A use of the sink that leads from `s` to `s'`, where `step` is what the sink did. -/
inductive Used (policy : FailurePolicy) (step : SinkStep σ) (s : State σ) :
    Except Failure Unit → State σ → Prop
  | done {log : List Message} :
      step.result = .ok () → Used policy step s (.ok ()) { s with sink := step.state, log }
  | ignored {failure : Failure} {log : List Message} :
      step.result = .error failure → policy = .proceed →
      Used policy step s (.ok ())
        { s with sink := step.state, log, persistenceFailures := s.persistenceFailures + 1 }
  | aborted {failure : Failure} {log : List Message} :
      step.result = .error failure → policy = .abort →
      Used policy step s (.error failure) { s with sink := step.state, log }

/-- A use of the sink leaves the program and the facts as they are. -/
theorem Used.kept {policy : FailurePolicy} {step : SinkStep σ} {s s' : State σ}
    {result : Except Failure Unit} (h : Used policy step s result s') :
    s'.sink = step.state ∧ s'.arena = s.arena ∧ s'.generator = s.generator ∧
      s'.previous = s.previous := by
  cases h <;> exact ⟨rfl, rfl, rfl, rfl⟩

theorem exec_useSink (policy : FailurePolicy) (operation : σ → SinkStep σ) (s : State σ) :
    exec (useSink policy operation) s =
      match (operation s.sink).result, policy with
      | .ok (), _ =>
        (.ok (), { s with
          sink := (operation s.sink).state
          log := (operation s.sink).log.reverse ++ s.log })
      | .error failure, .abort =>
        (.error failure, { s with
          sink := (operation s.sink).state
          log := (operation s.sink).log.reverse ++ s.log })
      | .error failure, .proceed =>
        (.ok (), { s with
          sink := (operation s.sink).state
          log := ignoredMessage failure :: ((operation s.sink).log.reverse ++ s.log)
          persistenceFailures := s.persistenceFailures + 1 }) := by
  unfold useSink
  simp only [exec_bind, exec_get, exec_modify, exec_say]
  cases h : (operation s.sink).result with
  | ok u => simp
  | error failure => cases policy <;> simp [exec_bind]

theorem used_useSink (policy : FailurePolicy) (operation : σ → SinkStep σ) (s : State σ) :
    Used policy (operation s.sink) s (exec (useSink policy operation) s).1
      (exec (useSink policy operation) s).2 := by
  rw [exec_useSink]
  cases h : (operation s.sink).result with
  | ok u => exact .done h
  | error failure =>
    cases policy with
    | abort => exact .aborted h rfl
    | proceed => exact .ignored h rfl

/-- The extraction of an iteration that leads from `s` to `s'`. -/
inductive Observed (u : Setup σ) (iteration : Nat) (s : State σ) :
    Except Failure Unit → State σ → Prop
  | failed {failure : Failure} {log : List Message} :
      Extraction.extract s.arena u.flow = .error failure →
      Observed u iteration s (.error failure) { s with log }
  | done {current : Store} {log log' : List Message} {s' : State σ} :
      Extraction.extract s.arena u.flow = .ok current →
      Used u.config.persistenceFailure
        (u.sink.persist iteration (.between s.previous (some current)) s.sink)
        { s with log } (.ok ()) s' →
      Observed u iteration s (.ok ()) { s' with previous := some current, log := log' }
  | aborted {current : Store} {failure : Failure} {log : List Message} {s' : State σ} :
      Extraction.extract s.arena u.flow = .ok current →
      Used u.config.persistenceFailure
        (u.sink.persist iteration (.between s.previous (some current)) s.sink)
        { s with log } (.error failure) s' →
      Observed u iteration s (.error failure) s'

theorem exec_observe (u : Setup σ) (iteration : Nat) (s : State σ) :
    exec (observe u iteration) s =
      match Extraction.extractLogged s.arena u.flow with
      | (.error failure, log) => (.error failure, { s with log := log.reverse ++ s.log })
      | (.ok current, log) =>
        let d := Delta.between s.previous (some current)
        let log := iterationMessage iteration current d :: d.message :: (log.reverse ++ s.log)
        match exec (useSink u.config.persistenceFailure (u.sink.persist iteration d))
          { s with log } with
        | (.ok _, s') => (.ok (), { s' with previous := some current })
        | (.error failure, s') => (.error failure, s') := by
  unfold observe
  simp only [exec_bind, exec_get]
  rcases Extraction.extractLogged s.arena u.flow with ⟨failure | current, log⟩
  · simp
  · simp only [exec_lift, exec_say, exec_modify, List.reverse_cons, List.reverse_nil,
      List.nil_append, List.cons_append]
    generalize exec (useSink _ _) _ = used
    obtain ⟨failure | _, s'⟩ := used <;> rfl

theorem observed_observe (u : Setup σ) (iteration : Nat) (s : State σ) :
    Observed u iteration s (exec (observe u iteration) s).1 (exec (observe u iteration) s).2 := by
  rw [exec_observe]
  have hfst := Extraction.extractLogged_fst s.arena u.flow
  generalize Extraction.extractLogged s.arena u.flow = extracted at hfst ⊢
  obtain ⟨failure | current, log⟩ := extracted
  · exact .failed hfst.symm
  · have hused := used_useSink u.config.persistenceFailure
      (u.sink.persist iteration (.between s.previous (some current)))
      { s with
        log := iterationMessage iteration current (.between s.previous (some current)) ::
          (Delta.between s.previous (some current)).message :: (log.reverse ++ s.log) }
    dsimp only
    split
    · rename_i h
      rw [h] at hused
      exact .done hfst.symm hused
    · rename_i h
      rw [h] at hused
      exact .aborted hfst.symm hused

/-- A mutation that leads from `s` to `s'`, and whether a rule applied. -/
inductive Advanced (u : Setup σ) (s : State σ) : Except Failure Bool → State σ → Prop
  | failed {failure : Failure} {log : List Message} {asked : List Query} :
      (u.mutator.mutate s.arena u.flow s.generator).result = .error failure →
      Advanced u s (.error failure)
        { s with
          arena := (u.mutator.mutate s.arena u.flow s.generator).arena
          generator := (u.mutator.mutate s.arena u.flow s.generator).generator
          log, asked }
  | exhausted {log : List Message} {asked : List Query} :
      (u.mutator.mutate s.arena u.flow s.generator).result = .ok none →
      Advanced u s (.ok false)
        { s with
          arena := (u.mutator.mutate s.arena u.flow s.generator).arena
          generator := (u.mutator.mutate s.arena u.flow s.generator).generator
          log, asked }
  | applied {m : Edit} {log : List Message} {asked : List Query} :
      (u.mutator.mutate s.arena u.flow s.generator).result = .ok (some m) →
      Advanced u s (.ok true)
        { s with
          arena := (u.mutator.mutate s.arena u.flow s.generator).arena
          generator := (u.mutator.mutate s.arena u.flow s.generator).generator
          mutations := s.mutations ++ [m]
          log, asked }

theorem advanced_advance (u : Setup σ) (s : State σ) :
    Advanced u s (exec (advance u) s).1 (exec (advance u) s).2 := by
  unfold advance
  simp only [exec_bind, exec_get, exec_set, exec_lift]
  cases h : (u.mutator.mutate s.arena u.flow s.generator).result with
  | error failure => exact .failed h
  | ok edit =>
    cases edit with
    | none => exact .exhausted h
    | some m => exact .applied h

/-- The iterations that lead from `s` to `s'`. -/
inductive Iterated (u : Setup σ) :
    Nat → Nat → State σ → Except Failure (Nat × Termination) → State σ → Prop
  | fault {left iteration : Nat} {s s' : State σ} {failure : Failure} :
      Observed u iteration s (.error failure) s' →
      Iterated u left iteration s (.error failure) s'
  | last {iteration : Nat} {s s' : State σ} :
      Observed u iteration s (.ok ()) s' →
      Iterated u 0 iteration s (.ok (iteration + 1, .budgetReached)) s'
  | stuck {left iteration : Nat} {s mid s' : State σ} {failure : Failure} :
      Observed u iteration s (.ok ()) mid → Advanced u mid (.error failure) s' →
      Iterated u (left + 1) iteration s (.error failure) s'
  | exhausted {left iteration : Nat} {s mid s' : State σ} :
      Observed u iteration s (.ok ()) mid → Advanced u mid (.ok false) s' →
      Iterated u (left + 1) iteration s (.ok (iteration + 1, .exhausted)) s'
  | next {left iteration : Nat} {s mid next s' : State σ}
      {result : Except Failure (Nat × Termination)} :
      Observed u iteration s (.ok ()) mid → Advanced u mid (.ok true) next →
      Iterated u left (iteration + 1) next result s' →
      Iterated u (left + 1) iteration s result s'

theorem iterated_iterate (u : Setup σ) (left iteration : Nat) (s : State σ) :
    Iterated u left iteration s (exec (iterate u left iteration) s).1
      (exec (iterate u left iteration) s).2 := by
  induction left generalizing iteration s with
  | zero =>
    have hobserved := observed_observe u iteration s
    unfold iterate
    simp only [exec_bind, exec_pure]
    generalize exec (observe u iteration) s = observed at hobserved ⊢
    obtain ⟨failure | _, mid⟩ := observed
    · exact .fault hobserved
    · exact .last hobserved
  | succ left ih =>
    have hobserved := observed_observe u iteration s
    unfold iterate
    simp only [exec_bind]
    generalize exec (observe u iteration) s = observed at hobserved ⊢
    obtain ⟨failure | _, mid⟩ := observed
    · exact .fault hobserved
    · have hadvanced := advanced_advance u mid
      dsimp only
      generalize exec (advance u) mid = advanced at hadvanced ⊢
      obtain ⟨failure | _ | _, next⟩ := advanced
      · exact .stuck hobserved hadvanced
      · exact .exhausted hobserved hadvanced
      · exact .next hobserved hadvanced (ih (iteration + 1) next)

/-- A whole session that leads from `s` to `s'`. -/
inductive Ran (u : Setup σ) (s : State σ) : Except Failure Report → State σ → Prop
  | unready {failure : Failure} {s' : State σ} :
      Used u.config.persistenceFailure (u.sink.reset s.sink) s (.error failure) s' →
      Ran u s (.error failure) s'
  | fault {failure : Failure} {mid s' : State σ} :
      Used u.config.persistenceFailure (u.sink.reset s.sink) s (.ok ()) mid →
      Iterated u u.config.iterationBudget.toNat 0 mid (.error failure) s' →
      Ran u s (.error failure) s'
  | ended {iterations : Nat} {t : Termination} {log : List Message} {mid s' : State σ} :
      Used u.config.persistenceFailure (u.sink.reset s.sink) s (.ok ()) mid →
      Iterated u u.config.iterationBudget.toNat 0 mid (.ok (iterations, t)) s' →
      Ran u s (.ok ⟨iterations, s'.mutations, s'.persistenceFailures, t⟩) { s' with log }

theorem ran_session (u : Setup σ) (s : State σ) :
    Ran u s (exec (session u) s).1 (exec (session u) s).2 := by
  have hused := used_useSink u.config.persistenceFailure u.sink.reset s
  unfold session
  simp only [exec_bind]
  generalize exec (useSink u.config.persistenceFailure u.sink.reset) s = used at hused ⊢
  obtain ⟨failure | _, mid⟩ := used
  · exact .unready hused
  · have hiterated := iterated_iterate u u.config.iterationBudget.toNat 0 mid
    dsimp only
    generalize exec (iterate u u.config.iterationBudget.toNat 0) mid = iterated at hiterated ⊢
    obtain ⟨failure | ⟨iterations, t⟩, s'⟩ := iterated
    · exact .fault hused hiterated
    · exact .ended hused hiterated

/-- What a session leads to, through the states that it runs from and to. -/
theorem run_eq (u : Setup σ) (g : Arena) (sink : σ) :
    run u g sink =
      let (report, s) := exec (session u) (.initial u.config g sink)
      ⟨report, s.arena, s.sink, s.log.reverse, s.asked.reverse⟩ := rfl

end ProgramFacts.Session
