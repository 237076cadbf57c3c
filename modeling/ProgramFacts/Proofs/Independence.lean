import ProgramFacts.Proofs.Recording

/-! Sessions with different sinks.  A session that passes over the failures of its sink takes the
same course with any sink: the same programs, facts, mutations and deltas.  Only what it says and
the failures that it counts depend on the sink. -/

namespace ProgramFacts.Session

open Program ProgramFacts.Flow ProgramFacts.Fact Mutation ProgramFacts.Random

variable {σ τ : Type}

/-! ## Two sessions side by side -/

/-- From states that `R` relates, `x` and `y` lead to the same result and to such states again. -/
def Couples {α : Type} (R : State σ → State τ → Prop) (x : Run σ α) (y : Run τ α) : Prop :=
  ∀ s t, R s t → (exec x s).1 = (exec y t).1 ∧ R (exec x s).2 (exec y t).2

section Couples

variable {R : State σ → State τ → Prop} {α β : Type}

theorem Couples.bind {x : Run σ α} {y : Run τ α} {x' : α → Run σ β} {y' : α → Run τ β}
    (h : Couples R x y) (h' : ∀ a, Couples R (x' a) (y' a)) :
    Couples R (x >>= x') (y >>= y') := by
  intro s t hst
  obtain ⟨hresult, hmid⟩ := h s t hst
  rw [exec_bind, exec_bind]
  generalize exec x s = left at hresult hmid ⊢
  generalize exec y t = right at hresult hmid ⊢
  obtain ⟨result, s'⟩ := left
  obtain ⟨_, t'⟩ := right
  obtain rfl := hresult
  cases result with
  | error failure => exact ⟨rfl, hmid⟩
  | ok a => exact h' a s' t' hmid

/-- The states that are read are related. -/
theorem couples_get_bind {x : State σ → Run σ α} {y : State τ → Run τ α}
    (h : ∀ s t, R s t → Couples R (x s) (y t)) : Couples R (get >>= x) (get >>= y) := by
  intro s t hst
  rw [exec_bind, exec_bind]
  exact h s t hst s t hst

theorem couples_pure (a : α) : Couples R (pure a) (pure a) := fun _ _ hst => ⟨rfl, hst⟩

/-- What comes after a result needs to be considered for that result only. -/
theorem couples_lift_bind {result : Except Failure α} {x : α → Run σ β} {y : α → Run τ β}
    (h : ∀ a, result = .ok a → Couples R (x a) (y a)) :
    Couples R (liftM result >>= x) (liftM result >>= y) := by
  intro s t hst
  rw [exec_bind, exec_bind, exec_lift, exec_lift]
  cases result with
  | error failure => exact ⟨rfl, hst⟩
  | ok a => exact h a rfl s t hst

theorem couples_set {s' : State σ} {t' : State τ} (h : R s' t') : Couples R (set s') (set t') :=
  fun _ _ _ => ⟨rfl, h⟩

theorem couples_modify {f : State σ → State σ} {f' : State τ → State τ}
    (h : ∀ s t, R s t → R (f s) (f' t)) : Couples R (modify f) (modify f') :=
  fun s t hst => ⟨rfl, h s t hst⟩

/-- Related states have the same program, generator and mutations, and stay related when these
change alike, whatever they log. -/
structure Shares (R : State σ → State τ → Prop) : Prop where
  arena : ∀ {s t}, R s t → s.arena = t.arena
  generator : ∀ {s t}, R s t → s.generator = t.generator
  mutations : ∀ {s t}, R s t → s.mutations = t.mutations
  change : ∀ {s t}, R s t → ∀ {arena arena' generator generator' mutations mutations'},
    arena = arena' → generator = generator' → mutations = mutations' → ∀ {log log' asked asked'},
    R { s with arena, generator, mutations, log, asked }
      { t with
        arena := arena'
        generator := generator'
        mutations := mutations'
        log := log'
        asked := asked' }

variable (hR : Shares R)
include hR

theorem couples_say (messages : List Message) : Couples R (say messages) (say messages) := by
  exact couples_modify fun s t hst =>
    hR.change hst (hR.arena hst) (hR.generator hst) (hR.mutations hst)

variable {u : Setup σ} {v : Setup τ}

theorem couples_advance (hmutator : u.mutator = v.mutator) (hflow : u.flow = v.flow) :
    Couples R (advance u) (advance v) := by
  refine couples_get_bind fun s t hst => ?_
  rw [hmutator, hflow, hR.arena hst, hR.generator hst]
  refine Couples.bind (couples_set (hR.change hst rfl rfl (hR.mutations hst))) fun _ =>
    couples_lift_bind fun edit _ => ?_
  cases edit with
  | none => exact couples_pure false
  | some m =>
    refine Couples.bind (couples_modify fun s t hst => ?_) fun _ => couples_pure true
    exact hR.change hst (hR.arena hst) (hR.generator hst)
      (congrArg (· ++ [m]) (hR.mutations hst))

omit hR in
theorem couples_iterate (hadvance : Couples R (advance u) (advance v)) {left i : Nat}
    (hobserve : ∀ j ≤ i + left, Couples R (observe u j) (observe v j)) :
    Couples R (iterate u left i) (iterate v left i) := by
  induction left generalizing i with
  | zero => exact (hobserve i (by omega)).bind fun _ => couples_pure _
  | succ left ih =>
    refine (hobserve i (by omega)).bind fun _ => hadvance.bind fun again => ?_
    cases again with
    | true => exact ih fun j hj => hobserve j (by omega)
    | false => exact couples_pure _

end Couples

/-! ## Sessions on the same course -/

/-- The states of a sink with the record of its deltas. -/
abbrev Recorded (σ : Type) := σ × List (Nat × Delta)

/-- What a session is at, apart from its sink. -/
structure Course where
  arena : Arena
  generator : Generator
  previous : Option Store
  mutations : List Edit
  /-- The deltas that the sink was given. -/
  deltas : List (Nat × Delta)

def State.course (s : State (Recorded σ)) : Course :=
  ⟨s.arena, s.generator, s.previous, s.mutations, s.sink.2⟩

def SameCourse (s : State (Recorded σ)) (t : State (Recorded τ)) : Prop := s.course = t.course

theorem shares_sameCourse : Shares (SameCourse (σ := σ) (τ := τ)) where
  arena h := congrArg Course.arena h
  generator h := congrArg Course.generator h
  mutations h := congrArg Course.mutations h
  change h _ _ _ _ _ _ harena hgenerator hmutations := by
    subst harena hgenerator hmutations
    exact congrArg (fun c : Course => (⟨_, _, c.previous, _, c.deltas⟩ : Course)) h

/-- A failure that is passed over changes the course no more than a success. -/
theorem exec_useSink_proceed (operation : Recorded σ → SinkStep (Recorded σ))
    (s : State (Recorded σ)) :
    (exec (useSink .proceed operation) s).1 = .ok () ∧
      (exec (useSink .proceed operation) s).2.course =
        { s.course with deltas := (operation s.sink).state.2 } := by
  rw [exec_useSink]
  cases (operation s.sink).result with
  | ok u => exact ⟨rfl, rfl⟩
  | error failure => exact ⟨rfl, rfl⟩

theorem couples_useSink {policy : FailurePolicy} (hpolicy : policy = .proceed)
    {operation : Recorded σ → SinkStep (Recorded σ)}
    {operation' : Recorded τ → SinkStep (Recorded τ)}
    (h : ∀ s t, s.2 = t.2 → (operation s).state.2 = (operation' t).state.2) :
    Couples SameCourse (useSink policy operation) (useSink policy operation') := by
  subst hpolicy
  intro s t (hst : s.course = t.course)
  obtain ⟨hresult, hcourse⟩ := exec_useSink_proceed operation s
  obtain ⟨hresult', hcourse'⟩ := exec_useSink_proceed operation' t
  refine ⟨hresult.trans hresult'.symm, ?_⟩
  unfold SameCourse
  rw [hcourse, hcourse', hst, h s.sink t.sink (congrArg Course.deltas hst)]

/-- A session without its end. -/
def start (u : Setup σ) : Run σ (Nat × Termination) := do
  useSink u.config.persistenceFailure u.sink.reset
  iterate u u.config.iterationBudget.toNat 0

theorem exec_session (u : Setup σ) (s : State σ) :
    exec (session u) s =
      match exec (start u) s with
      | (.ok (iterations, t), s') =>
        (.ok ⟨iterations, s'.mutations, s'.persistenceFailures, t⟩,
          { s' with log := endMessage iterations t s'.mutations.length :: s'.log })
      | (.error failure, s') => (.error failure, s') := by
  unfold session start
  simp only [exec_bind]
  generalize exec (useSink _ _) s = used
  obtain ⟨failure | _, mid⟩ := used
  · rfl
  · dsimp only
    generalize exec (iterate _ _ _) mid = ended
    obtain ⟨failure | ⟨iterations, t⟩, s'⟩ := ended <;> rfl

/-- What a report says apart from the failures of the sink. -/
def Report.outline (r : Report) : Nat × List Edit × Termination :=
  (r.iterations, r.mutations, r.termination)

section Proceed

variable {u : Setup σ} (hpolicy : u.config.persistenceFailure = .proceed) (k : Sink τ)
include hpolicy

theorem couples_observe (iteration : Nat) :
    Couples SameCourse (observe u.recording iteration)
      (observe (u.withSink k).recording iteration) := by
  refine couples_get_bind fun s t hst => ?_
  rw [shares_sameCourse.arena hst]
  refine (couples_say shares_sameCourse _).bind fun _ => couples_lift_bind fun current _ => ?_
  refine couples_get_bind fun s t hst => ?_
  have hprevious : s.previous = t.previous := congrArg Course.previous hst
  rw [hprevious]
  refine (couples_say shares_sameCourse _).bind fun _ => ?_
  refine (couples_useSink hpolicy fun _ _ hds => congrArg (· ++ _) hds).bind fun _ => ?_
  exact couples_modify fun s t hst =>
    congrArg (fun c : Course => ({ c with previous := some current } : Course)) hst

theorem couples_start :
    Couples SameCourse (start u.recording) (start (u.withSink k).recording) := by
  refine Couples.bind (couples_useSink hpolicy fun _ _ _ => rfl) fun _ => ?_
  exact couples_iterate (u := u.recording) (v := (u.withSink k).recording)
    (couples_advance shares_sameCourse rfl rfl) fun j _ => couples_observe hpolicy k j

theorem same_session {s : State (Recorded σ)} {t : State (Recorded τ)}
    (hst : s.course = t.course) :
    (exec (session u.recording) s).1.map Report.outline =
        (exec (session (u.withSink k).recording) t).1.map Report.outline ∧
      (exec (session u.recording) s).2.course =
        (exec (session (u.withSink k).recording) t).2.course := by
  obtain ⟨hresult, hcourse⟩ := couples_start hpolicy k s t hst
  rw [exec_session, exec_session]
  generalize exec (start u.recording) s = left at hresult hcourse ⊢
  generalize exec (start (u.withSink k).recording) t = right at hresult hcourse ⊢
  obtain ⟨result, s'⟩ := left
  obtain ⟨_, t'⟩ := right
  obtain rfl := hresult
  cases result with
  | error failure => exact ⟨rfl, hcourse⟩
  | ok ended =>
    have hmutations : s'.mutations = t'.mutations := congrArg Course.mutations hcourse
    exact ⟨congrArg (fun mutations => Except.ok (ended.1, mutations, ended.2)) hmutations, hcourse⟩

/-- A session that passes over the failures of its sink comes to the same end with another one, or
fails alike, with the same deltas and the same last program. -/
theorem run_agrees (g : Arena) (sink : σ) (sink' : τ) :
    (run u g sink).report.map Report.outline =
        (run (u.withSink k) g sink').report.map Report.outline ∧
      deltas u g sink = deltas (u.withSink k) g sink' ∧
      (run u g sink).arena = (run (u.withSink k) g sink').arena := by
  have h := same_session hpolicy k (s := .initial u.config g (sink, []))
    (t := .initial u.config g (sink', [])) rfl
  rw [run_recording u, run_recording (u.withSink k)]
  exact ⟨h.1, congrArg Course.deltas h.2, congrArg Course.arena h.2⟩

end Proceed

end ProgramFacts.Session
