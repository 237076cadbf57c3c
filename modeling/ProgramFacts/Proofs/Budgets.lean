import ProgramFacts.Proofs.Endurance
import ProgramFacts.Proofs.Independence

/-! Sessions that differ in their budgets.  A larger budget lets a session go on where a smaller one
ends it, and changes nothing before that: iterations with a larger budget are those with the smaller
one and then, unless no rule applied, a mutation and further iterations. -/

namespace ProgramFacts.Session

open Program ProgramFacts.Flow ProgramFacts.Fact Mutation ProgramFacts.Random Extraction

variable {σ : Type}

/-! ## Iterations that go on -/

/-- An iteration and the mutation after it; says whether a rule applied. -/
def turn (u : Setup σ) (iteration : Nat) : Run σ Bool := do
  observe u iteration
  advance u

/-- What follows iterations that have ended, where `more` may follow the next one. -/
def resume (u : Setup σ) (more : Nat) : Nat × Termination → Run σ (Nat × Termination)
  | (iterations, .exhausted) => return (iterations, .exhausted)
  | (iterations, .budgetReached) => do
    if ← advance u then iterate u more iterations
    else return (iterations, .exhausted)

theorem iterate_succ (u : Setup σ) (left iteration : Nat) :
    iterate u (left + 1) iteration = do
      if ← turn u iteration then iterate u left (iteration + 1)
      else return (iteration + 1, .exhausted) := by
  rw [iterate, turn, bind_assoc]

/-- A larger budget resumes what a smaller one ends. -/
theorem iterate_add (u : Setup σ) (left more iteration : Nat) :
    iterate u (left + (more + 1)) iteration = iterate u left iteration >>= resume u more := by
  induction left generalizing iteration with
  | zero =>
    rw [Nat.zero_add, iterate, iterate, bind_assoc]
    simp only [pure_bind, resume]
  | succ left ih =>
    rw [show left + 1 + (more + 1) = left + (more + 1) + 1 by omega, iterate_succ, iterate_succ,
      bind_assoc]
    refine bind_congr fun again => ?_
    cases again with
    | true => exact ih (iteration + 1)
    | false => exact (pure_bind _ _).symm

/-- The same settings with another budget. -/
def Setup.withBudget (u : Setup σ) (budget : UInt64) : Setup σ :=
  { u with config := { u.config with iterationBudget := budget } }

/-- Only the number of iterations that may follow depends on the budget. -/
theorem iterate_withBudget (u : Setup σ) (budget : UInt64) (left iteration : Nat) :
    iterate (u.withBudget budget) left iteration = iterate u left iteration := by
  induction left generalizing iteration with
  | zero => rfl
  | succ left ih =>
    rw [iterate_succ, iterate_succ, ih]
    rfl

theorem start_withBudget_add (u : Setup σ) {b b' : UInt64} {more : Nat}
    (h : b'.toNat = b.toNat + (more + 1)) :
    start (u.withBudget b') = start (u.withBudget b) >>= resume u more := by
  unfold start
  rw [bind_assoc]
  refine bind_congr fun _ => ?_
  rw [iterate_withBudget, iterate_withBudget, ← iterate_add]
  exact congrArg (iterate u · 0) h

/-! ## What stays -/

/-- All that `s` has applied and kept stands in `s'` too, before anything else. -/
structure Extends (s s' : State Memory) : Prop where
  mutations : s.mutations <+: s'.mutations
  batches : s.sink.batches <+: s'.sink.batches

theorem Extends.refl (s : State Memory) : Extends s s :=
  ⟨List.prefix_refl _, List.prefix_refl _⟩

theorem Extends.trans {s s' s'' : State Memory} (h : Extends s s') (h' : Extends s' s'') :
    Extends s s'' :=
  ⟨h.mutations.trans h'.mutations, h.batches.trans h'.batches⟩

section Memory

variable {u : Setup Memory} (hsink : u.sink = Memory.sink)
include hsink

theorem Observed.extends {iteration : Nat} {s s' : State Memory} {result : Except Failure Unit}
    (h : Observed u iteration s result s') : Extends s s' := by
  have hadd (d : Delta) : s.sink.batches <+: (u.sink.persist iteration d s.sink).state.batches := by
    rw [hsink]
    exact List.prefix_append _ _
  cases h with
  | failed => exact ⟨List.prefix_refl _, List.prefix_refl _⟩
  | done _ hused => cases hused <;> exact ⟨List.prefix_refl _, hadd _⟩
  | aborted _ hused =>
    cases hused
    exact ⟨List.prefix_refl _, hadd _⟩

omit hsink in
theorem Advanced.extends {s s' : State Memory} {result : Except Failure Bool}
    (h : Advanced u s result s') : Extends s s' := by
  cases h with
  | failed => exact ⟨List.prefix_refl _, List.prefix_refl _⟩
  | exhausted => exact ⟨List.prefix_refl _, List.prefix_refl _⟩
  | applied => exact ⟨List.prefix_append _ _, List.prefix_refl _⟩

theorem Iterated.extends {left iteration : Nat} {s s' : State Memory}
    {result : Except Failure (Nat × Termination)} (h : Iterated u left iteration s result s') :
    Extends s s' := by
  induction h with
  | fault ho => exact ho.extends hsink
  | last ho => exact ho.extends hsink
  | stuck ho ha => exact (ho.extends hsink).trans ha.extends
  | exhausted ho ha => exact (ho.extends hsink).trans ha.extends
  | next ho ha _ ih => exact ((ho.extends hsink).trans ha.extends).trans ih

theorem extends_resume (more : Nat) (ended : Nat × Termination) (s : State Memory) :
    Extends s (exec (resume u more ended) s).2 := by
  obtain ⟨iterations, t⟩ := ended
  cases t with
  | exhausted => exact .refl s
  | budgetReached =>
    have hadvanced := (advanced_advance u s).extends
    rw [resume, exec_bind]
    generalize exec (advance u) s = advanced at hadvanced ⊢
    obtain ⟨failure | _ | _, next⟩ := advanced
    · exact hadvanced
    · exact hadvanced
    · exact hadvanced.trans ((iterated_iterate u more iterations next).extends hsink)

end Memory

/-! ## Programs -/

/-- The programs that iterations extract, in order.  Only the extraction of the last one may
fail. -/
def extracted (u : Setup σ) : (left iteration : Nat) → State σ → List Arena
  | 0, _, s => [s.arena]
  | left + 1, iteration, s =>
    s.arena ::
      match exec (turn u iteration) s with
      | (.ok true, next) => extracted u left (iteration + 1) next
      | _ => []

/-- The programs that a session extracts, in order. -/
def programs (u : Setup σ) (g : Arena) (sink : σ) : List Arena :=
  match exec (useSink u.config.persistenceFailure u.sink.reset) (.initial u.config g sink) with
  | (.ok _, s) => extracted u u.config.iterationBudget.toNat 0 s
  | _ => []

theorem exec_iterate_succ (u : Setup σ) (left iteration : Nat) (s : State σ) :
    exec (iterate u (left + 1) iteration) s =
      match exec (turn u iteration) s with
      | (.ok true, next) => exec (iterate u left (iteration + 1)) next
      | (.ok false, next) => (.ok (iteration + 1, .exhausted), next)
      | (.error failure, next) => (.error failure, next) := by
  rw [iterate_succ, exec_bind]
  rcases exec (turn u iteration) s with ⟨failure | _ | _, next⟩ <;> rfl

/-- An iteration that does not fail is an extraction and then a mutation. -/
theorem of_turn {u : Setup σ} {iteration : Nat} {again : Bool} {s s' : State σ}
    (h : exec (turn u iteration) s = (.ok again, s')) :
    ∃ mid, Observed u iteration s (.ok ()) mid ∧ Advanced u mid (.ok again) s' := by
  have hobserved := observed_observe u iteration s
  rw [turn, exec_bind] at h
  generalize exec (observe u iteration) s = observed at hobserved h
  obtain ⟨failure | _, mid⟩ := observed
  · cases h
  · have hadvanced := advanced_advance u mid
    rw [show exec (advance u) mid = (.ok again, s') from h] at hadvanced
    exact ⟨mid, hobserved, hadvanced⟩

/-- A mutation that finds nothing leaves the program that was extracted before it. -/
theorem arena_turn_false {u : Setup σ} {iteration : Nat} {s s' : State σ}
    (h : exec (turn u iteration) s = (.ok false, s')) : s'.arena = s.arena := by
  obtain ⟨mid, hobserved, hadvanced⟩ := of_turn h
  cases hadvanced with
  | exhausted hresult => exact (mutate_of_result_none hresult).1.trans hobserved.arena_eq

/-- Iterations that end are as many as the programs that they extract, and leave the last one. -/
theorem last_extracted {u : Setup σ} {left iteration n : Nat} {t : Termination} {s s' : State σ}
    (h : exec (iterate u left iteration) s = (.ok (n, t), s')) :
    n = iteration + (extracted u left iteration s).length ∧
      (extracted u left iteration s).getLast? = some s'.arena := by
  induction left generalizing iteration s with
  | zero =>
    have hiterated := iterated_iterate u 0 iteration s
    rw [h] at hiterated
    cases hiterated with
    | last hobserved => exact ⟨rfl, congrArg some hobserved.arena_eq.symm⟩
  | succ left ih =>
    rw [exec_iterate_succ] at h
    rw [extracted]
    rcases hturn : exec (turn u iteration) s with ⟨failure | _ | _, next⟩ <;> rw [hturn] at h
    · cases h
    · cases h
      exact ⟨rfl, congrArg some (arena_turn_false hturn).symm⟩
    · obtain ⟨hlength, hlast⟩ := ih h
      dsimp only
      constructor
      · rw [hlength, List.length_cons]
        omega
      · rw [List.getLast?_cons, hlast]
        rfl

/-- With a larger budget, the same programs are extracted first. -/
theorem extracted_prefix (u : Setup σ) {left left' : Nat} (hle : left ≤ left') (iteration : Nat)
    (s : State σ) : extracted u left iteration s <+: extracted u left' iteration s := by
  induction left generalizing left' iteration s with
  | zero => cases left' <;> exact List.cons_prefix_cons.mpr ⟨rfl, List.nil_prefix⟩
  | succ left ih =>
    obtain _ | left' := left'
    · contradiction
    · rw [extracted, extracted]
      refine List.cons_prefix_cons.mpr ⟨rfl, ?_⟩
      split
      · exact ih (Nat.le_of_succ_le_succ hle) _ _
      · exact List.prefix_refl _

theorem extracted_withBudget (u : Setup σ) (budget : UInt64) (left iteration : Nat) (s : State σ) :
    extracted (u.withBudget budget) left iteration s = extracted u left iteration s := by
  induction left generalizing iteration s with
  | zero => rfl
  | succ left ih =>
    rw [extracted, extracted]
    simp only [ih]
    rfl

theorem programs_withBudget (u : Setup σ) (budget : UInt64) (g : Arena) (sink : σ) :
    programs (u.withBudget budget) g sink =
      match exec (useSink u.config.persistenceFailure u.sink.reset) (.initial u.config g sink) with
      | (.ok _, s) => extracted u budget.toNat 0 s
      | _ => [] := by
  unfold programs
  simp only [extracted_withBudget]
  rfl

theorem programAt_withBudget (u : Setup σ) (budget : UInt64) (g : Arena) (k : Nat) :
    programAt (u.withBudget budget) g k = programAt u g k := by
  induction k with
  | zero => rfl
  | succ k ih =>
    rw [programAt, programAt, ih]
    rfl

/-- A session extracts the programs first that it extracts with a smaller budget. -/
theorem programs_prefix (u : Setup σ) (g : Arena) (sink : σ) {b b' : UInt64} (hb : b ≤ b') :
    programs (u.withBudget b) g sink <+: programs (u.withBudget b') g sink := by
  rw [programs_withBudget, programs_withBudget]
  split
  · exact extracted_prefix u hb 0 _
  · exact List.prefix_refl _

/-- A session that ends with a report has as many iterations as it extracts programs, and leaves the
last of these. -/
theorem last_programs {u : Setup σ} {g : Arena} {sink : σ} {n : Nat} {t : Termination}
    {s : State σ} (h : exec (start u) (.initial u.config g sink) = (.ok (n, t), s)) :
    n = (programs u g sink).length ∧ (programs u g sink).getLast? = some s.arena := by
  unfold programs
  rw [start, exec_bind] at h
  generalize exec (useSink _ _) _ = used at h ⊢
  obtain ⟨failure | _, mid⟩ := used
  · cases h
  · obtain ⟨hlength, hlast⟩ := last_extracted h
    exact ⟨hlength.trans (Nat.zero_add _), hlast⟩

/-- An iteration and the mutation after it lead from a program of the session to the next one. -/
theorem programAt_turn {u : Setup σ} {g : Arena} {iteration : Nat} {s s' : State σ}
    (hs : programAt u g iteration = some (s.arena, s.generator))
    (h : exec (turn u iteration) s = (.ok true, s')) :
    programAt u g (iteration + 1) = some (s'.arena, s'.generator) := by
  obtain ⟨mid, hobserved, hadvanced⟩ := of_turn h
  have hmid : programAt u g iteration = some (mid.arena, mid.generator) := by
    cases hobserved with
    | done _ hused =>
      obtain ⟨_, harena, hgenerator, _⟩ := hused.kept
      simpa only [harena, hgenerator] using hs
  cases hadvanced with
  | applied hresult => exact programAt_succ.mpr ⟨_, _, _, hmid, hresult, rfl, rfl⟩

theorem programAt_of_extracted {u : Setup σ} {g gk : Arena} {left iteration k : Nat} {s : State σ}
    (hs : programAt u g iteration = some (s.arena, s.generator))
    (h : (extracted u left iteration s)[k]? = some gk) :
    ∃ r, programAt u g (iteration + k) = some (gk, r) := by
  induction left generalizing iteration k s with
  | zero =>
    obtain _ | k := k
    · obtain rfl := Option.some.inj h
      exact ⟨_, hs⟩
    · simp [extracted] at h
  | succ left ih =>
    obtain _ | k := k
    · obtain rfl := Option.some.inj h
      exact ⟨_, hs⟩
    · rw [extracted, List.getElem?_cons_succ] at h
      split at h
      · rename_i hturn
        rw [show iteration + (k + 1) = iteration + 1 + k by omega]
        exact ih (programAt_turn hs hturn) h
      · simp at h

/-- The program that a session extracts in an iteration is that of as many mutations. -/
theorem programAt_of_programs {u : Setup σ} {g gk : Arena} {sink : σ} {k : Nat}
    (h : (programs u g sink)[k]? = some gk) : ∃ r, programAt u g k = some (gk, r) := by
  have hused := used_useSink u.config.persistenceFailure u.sink.reset (.initial u.config g sink)
  unfold programs at h
  generalize exec (useSink _ _) _ = used at hused h
  obtain ⟨failure | _, s⟩ := used
  · simp at h
  · obtain ⟨_, harena, hgenerator, _⟩ := hused.kept
    have hs : programAt u g 0 = some (s.arena, s.generator) := by
      rw [harena, hgenerator]
      rfl
    obtain ⟨r, hr⟩ := programAt_of_extracted hs h
    exact ⟨r, Nat.zero_add k ▸ hr⟩

/-! ## Sessions -/

section Sessions

variable {u : Setup σ} {g : Arena} {sink : σ}

theorem run_congr {u' : Setup σ}
    (h : exec (start u) (.initial u.config g sink) = exec (start u') (.initial u'.config g sink)) :
    run u g sink = run u' g sink := by
  rw [run_eq, run_eq, exec_session, exec_session, h]

theorem run_start :
    (run u g sink).sink = (exec (start u) (.initial u.config g sink)).2.sink ∧
      (run u g sink).arena = (exec (start u) (.initial u.config g sink)).2.arena := by
  rw [run_eq, exec_session]
  rcases exec (start u) (.initial u.config g sink) with ⟨failure | ended, s⟩ <;> exact ⟨rfl, rfl⟩

theorem report_eq_ok_iff {report : Report} :
    (run u g sink).report = .ok report ↔
      ∃ n t s, exec (start u) (.initial u.config g sink) = (.ok (n, t), s) ∧
        report = ⟨n, s.mutations, s.persistenceFailures, t⟩ := by
  rw [run_eq, exec_session]
  rcases exec (start u) (.initial u.config g sink) with ⟨failure | ⟨iterations, t⟩, s⟩
  · simp
  · simp [eq_comm]

end Sessions

/-- With a larger budget a session goes on where it ends without it, if the budget ends it, and
otherwise does the same. -/
theorem start_of_le {u : Setup Memory} (hsink : u.sink = Memory.sink) {b b' : UInt64} (hb : b ≤ b')
    (s : State Memory) :
    Extends (exec (start (u.withBudget b)) s).2 (exec (start (u.withBudget b')) s).2 ∧
      (exec (start (u.withBudget b')) s = exec (start (u.withBudget b)) s ∨
        ∃ n, (exec (start (u.withBudget b)) s).1 = .ok (n, .budgetReached)) := by
  obtain heq | hlt := Nat.eq_or_lt_of_le (UInt64.le_iff_toNat_le.mp hb)
  · obtain rfl := UInt64.toNat_inj.mp heq
    exact ⟨.refl _, .inl rfl⟩
  · obtain ⟨more, hmore⟩ := Nat.exists_eq_add_of_lt hlt
    rw [start_withBudget_add u hmore, exec_bind]
    rcases exec (start (u.withBudget b)) s with ⟨failure | ⟨n, _ | _⟩, s'⟩
    · exact ⟨.refl s', .inl rfl⟩
    · exact ⟨.refl s', .inl rfl⟩
    · exact ⟨extends_resume hsink more (n, .budgetReached) s', .inr ⟨n, rfl⟩⟩

end ProgramFacts.Session
