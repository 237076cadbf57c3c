import ProgramFacts.Proofs.Accounting
import ProgramFacts.Proofs.Lockstep

/-! Well-formed programs in sessions.  The built-in rules keep a program well formed, and neither
the extraction nor the mutation of a well-formed program fails, so only a sink can end a session
with a failure.  This needs types that are not nested in themselves, for a mutation writes texts: a
session can otherwise run without end. -/

namespace ProgramFacts

open Program ProgramFacts.Flow ProgramFacts.Fact ProgramFacts.Random Extraction

namespace Mutation

variable {g g' : Arena} {c : FlowGraph} {m : Edit}

/-- All that the registered statements lead to is of the kind that its place asks for, no value
there is nested in itself, and every statement there has an owner and, if it is a lookup switch, as
many labels as targets. -/
structure WellFormed (g : Arena) (c : FlowGraph) : Prop where
  kinds : WellKinded g c
  acyclic : Acyclic g (Met g c (Reached g c))
  owned : Owned c (Reached g c)
  even : Even g (Reached g c)

theorem WellFormed.exists_extract (h : WellFormed g c) : ∃ facts, extract g c = .ok facts :=
  Extraction.exists_extract h.kinds h.acyclic h.owned h.even

theorem Patched.wellFormed (h : Patched g g' m (.intConst 0)) (hg : WellFormed g c) :
    WellFormed g' c where
  kinds := h.wellKinded rfl rfl hg.kinds
  acyclic := h.acyclic rfl hg.acyclic
  owned := h.owned hg.owned
  even := h.even hg.even

end Mutation

namespace Session

open Mutation

variable {σ : Type} {g : Arena} {c : FlowGraph} {config : Config} {ops : Sink σ}

/-- The mutation of a program of the session does not come to an end: it writes the text of a value
in which a value or a type is nested in itself. -/
def Endless (u : Setup σ) (gk : Arena) (r : Generator) (failure : Failure) : Prop :=
  ∃ node, Met gk u.flow (Reached gk u.flow) (.value node) ∧ ¬gk.FiniteText node ∧
    failure = .program (.cyclic node) ∧ (u.mutator.mutate gk u.flow r).result = .error failure

theorem Endless.result {u : Setup σ} {gk : Arena} {r : Generator} {failure : Failure}
    (h : Endless u gk r failure) : (u.mutator.mutate gk u.flow r).result = .error failure := by
  obtain ⟨_, _, _, _, hresult⟩ := h
  exact hresult

/-- The programs of a session are well formed if the first one is. -/
theorem wellFormed_programAt (h : WellFormed g c) {k : Nat} {gk : Arena} {r : Generator}
    (hk : programAt (.builtIn config c ops) g k = some (gk, r)) (hsize : gk.size < UInt32.size) :
    WellFormed gk c := by
  refine of_programAt (P := fun _ gk => WellFormed gk c) h (fun _ gk r m hsize hwell hm => ?_) hk
    hsize
  obtain ⟨rule, happlies⟩ := applies_of_result hwell.acyclic hsize hm
  exact (happlies.patched hsize hwell.acyclic).wellFormed hwell

/-- No extraction of a session's programs fails if the first one is well formed, and neither does a
mutation, but it may not come to an end. -/
theorem unfailing_programAt (h : WellFormed g c) {k : Nat} {gk : Arena} {r : Generator}
    (hk : programAt (.builtIn config c ops) g k = some (gk, r)) (hsize : gk.size < UInt32.size) :
    (∃ facts, extract gk c = .ok facts) ∧
      ((∃ found, ((Mutator.builtIn config.identityPolicy).mutate gk c r).result = .ok found) ∨
        ∃ failure, Endless (.builtIn config c ops) gk r failure) := by
  have hwell := wellFormed_programAt h hk hsize
  refine ⟨hwell.exists_extract, ?_⟩
  rcases result_builtIn hwell.kinds hwell.acyclic hsize config.identityPolicy r with
    hfound | ⟨node, hmet, hinfinite, hresult⟩
  · exact .inl hfound
  · exact .inr ⟨_, node, hmet, hinfinite, rfl, hresult⟩

/-- If no types are nested in themselves at first, none are later on. -/
theorem not_endless (h : WellFormed g c) (htypes : AcyclicTypes g (Met g c (Reached g c)))
    {k : Nat} {gk : Arena} {r : Generator} {failure : Failure}
    (hk : programAt (.builtIn config c ops) g k = some (gk, r)) (hsize : gk.size < UInt32.size) :
    ¬Endless (.builtIn config c ops) gk r failure := by
  have hsound : Sound gk c :=
    of_programAt (P := fun _ gk => Sound gk c) ⟨h.kinds, h.acyclic, htypes⟩
      (fun _ _ r _ hsize hsound _ => hsound.mutate hsize _ r) hk hsize
  rintro ⟨node, hmet, hinfinite, _⟩
  exact hinfinite (hsound.finiteText hmet)

/-- Only a sink can make the session fail, unless it does not come to an end. -/
theorem refuses_or_endless (h : WellFormed g c) {sink : σ} {failure : Failure}
    (hsize : (run (.builtIn config c ops) g sink).arena.size < UInt32.size)
    (hreport : (run (.builtIn config c ops) g sink).report = .error failure) :
    config.persistenceFailure = .abort ∧
        Refuses ops sink (deltas (.builtIn config c ops) g sink) failure ∨
      ∃ k gk r, programAt (.builtIn config c ops) g k = some (gk, r) ∧ gk.size < UInt32.size ∧
        Endless (.builtIn config c ops) gk r failure := by
  rw [run_lastState.1] at hsize
  cases (run_accounted _ g sink).1 failure hreport with
  | sink hpolicy hrefuses => exact .inl ⟨hpolicy, run_lastState.2 ▸ hrefuses⟩
  | extraction hk hle hextract =>
    obtain ⟨⟨facts, hfacts⟩, _⟩ := unfailing_programAt h hk (Nat.lt_of_le_of_lt hle hsize)
    exact absurd (hfacts.symm.trans hextract) (by simp)
  | mutation hk hle hresult =>
    have hlt := Nat.lt_of_le_of_lt hle hsize
    obtain ⟨_, ⟨found, hfound⟩ | ⟨failure', hendless⟩⟩ := unfailing_programAt h hk hlt
    · exact absurd (hfound.symm.trans hresult) (by simp)
    · obtain rfl := Except.error.inj (hendless.result.symm.trans hresult)
      exact .inr ⟨_, _, _, hk, hlt, hendless⟩

theorem exists_report (h : WellFormed g c) (htypes : AcyclicTypes g (Met g c (Reached g c)))
    (hpolicy : config.persistenceFailure ≠ .abort) {sink : σ}
    (hsize : (run (.builtIn config c ops) g sink).arena.size < UInt32.size) :
    ∃ report, (run (.builtIn config c ops) g sink).report = .ok report := by
  cases hreport : (run (.builtIn config c ops) g sink).report with
  | ok report => exact ⟨report, rfl⟩
  | error failure =>
    rcases refuses_or_endless h hsize hreport with ⟨habort, _⟩ | ⟨k, gk, r, hk, hlt, hendless⟩
    · exact absurd habort hpolicy
    · exact absurd hendless (not_endless h htypes hk hlt)

/-- A session with the built-in rules on a well-formed program ends with a report, whatever its
settings and its sink, unless the settings let the first failure of the sink end it, or a mutation
writes a text that has no end.  No extraction and no mutation of any of its programs fails
otherwise.  If no type is nested in itself, all mutations come to an end. -/
theorem session_unbroken (h : WellFormed g c) (config : Config) (ops : Sink σ) (sink : σ)
    (hsize : (run (.builtIn config c ops) g sink).arena.size < UInt32.size) :
    let u := Setup.builtIn config c ops
    ((∃ report, (run u g sink).report = .ok report) ∨
      ∃ failure, (run u g sink).report = .error failure ∧
        (config.persistenceFailure = .abort ∧ Refuses ops sink (deltas u g sink) failure ∨
          ∃ k gk r, programAt u g k = some (gk, r) ∧ gk.size < UInt32.size ∧
            Endless u gk r failure)) ∧
    ∀ k gk r, programAt u g k = some (gk, r) → gk.size < UInt32.size →
      (∃ facts, extract gk c = .ok facts) ∧
        ((∃ found, (u.mutator.mutate gk c r).result = .ok found) ∨
          ∃ failure, Endless u gk r failure) ∧
        (AcyclicTypes g (Met g c (Reached g c)) → ∀ failure, ¬Endless u gk r failure) := by
  intro u
  constructor
  · cases hreport : (run u g sink).report with
    | ok report => exact .inl ⟨report, rfl⟩
    | error failure => exact .inr ⟨failure, rfl, refuses_or_endless h hsize hreport⟩
  · intro k gk r hk hlt
    obtain ⟨hextract, hresult⟩ := unfailing_programAt h hk hlt
    exact ⟨hextract, hresult, fun htypes failure => not_endless h htypes hk hlt⟩

/-- A sink that takes nothing. -/
def refusing : Sink Unit where
  reset _ := ⟨.error (.files .notFound), (), []⟩
  persist _ _ _ := ⟨.error (.files .notFound), (), []⟩

theorem wellFormed_loop : WellFormed loop loopFlow :=
  ⟨wellKinded_of_tokensFit tokensFit_loop, acyclic_of_valuesEarlier (by decide) _, owned_loop,
    even_loop⟩

theorem acyclicTypes_loop : AcyclicTypes loop (Met loop loopFlow (Reached loop loopFlow)) :=
  acyclicTypes_of_typesEarlier (by decide) _

/-- A session whose sink takes nothing ends with a report all the same, if its settings say so. -/
theorem session_unbroken_refusing :
    WellFormed loop loopFlow ∧ AcyclicTypes loop (Met loop loopFlow (Reached loop loopFlow)) ∧
      (run (.builtIn { iterationBudget := 3 } loopFlow refusing) loop ()).arena.size <
        UInt32.size ∧
      ∃ report, (run (.builtIn { iterationBudget := 3 } loopFlow refusing) loop ()).report =
        .ok report := by
  have hsize : (run (.builtIn { iterationBudget := 3 } loopFlow refusing) loop ()).arena.size <
      UInt32.size := Nat.lt_of_le_of_lt (size_run_le ..) (by decide)
  refine ⟨wellFormed_loop, acyclicTypes_loop, hsize, ?_⟩
  obtain ⟨hreport, hprograms⟩ :=
    session_unbroken wellFormed_loop { iterationBudget := 3 } refusing () hsize
  rcases hreport with hreport | ⟨failure, _, ⟨hpolicy, _⟩ | ⟨k, gk, r, hk, hlt, hendless⟩⟩
  · exact hreport
  · contradiction
  · exact absurd hendless ((hprograms k gk r hk hlt).2.2 acyclicTypes_loop failure)

/-! ## A type that is nested in itself -/

/-- A session whose first mutation gives no result ends without a report. -/
theorem report_ne_ok {u : Setup σ} {sink : σ} {failure : Failure}
    (hbudget : 0 < u.config.iterationBudget.toNat)
    (hm : (u.mutator.mutate g u.flow (.ofSeed u.config.seed)).result = .error failure)
    (report : Report) : (run u g sink).report ≠ .ok report := by
  have hran := ran_session u (.initial u.config g sink)
  rw [run_eq]
  generalize exec (session u) (.initial u.config g sink) = ended at hran ⊢
  obtain ⟨result, s⟩ := ended
  intro hreport
  obtain ⟨left, hleft⟩ := Nat.exists_eq_add_of_lt hbudget
  rw [Nat.zero_add] at hleft
  cases hran with
  | unready | fault => contradiction
  | @ended _ _ _ mid _ hused hiterated =>
    obtain ⟨_, harena, hgenerator, _⟩ := hused.kept
    rw [hleft] at hiterated
    have hstart {next : State σ} (ho : Observed u 0 mid (.ok ()) next) :
        (u.mutator.mutate next.arena u.flow next.generator).result = .error failure := by
      cases ho with
      | done _ hlater =>
        obtain ⟨_, harena', hgenerator', _⟩ := hlater.kept
        dsimp only at harena' hgenerator' ⊢
        rw [harena', hgenerator', harena, hgenerator]
        exact hm
    cases hiterated with
    | exhausted ho ha =>
      cases ha with
      | exhausted hresult => exact absurd ((hstart ho).symm.trans hresult) (by simp)
    | next ho ha _ =>
      cases ha with
      | applied hresult => exact absurd ((hstart ho).symm.trans hresult) (by simp)

/-- The assignment of a field of an object whose type is an array of itself. -/
def knot : Arena :=
  ⟨#[.type (.array ⟨0⟩), .type (.prim .int), .method ⟨"run", "A", true, ⟨1⟩, []⟩,
    .field ⟨"f", "A", ⟨1⟩⟩, .value (.localVar "x" ⟨1⟩), .value (.thisRef ⟨0⟩),
    .value (.instanceField ⟨5⟩ ⟨3⟩), .stmt (.assign ⟨4⟩ ⟨6⟩)]⟩

def knotFlow : FlowGraph := (FlowGraph.empty.insertNode ⟨7⟩).setOwner ⟨7⟩ ⟨2⟩

theorem reached_knot {id : StmtId} (h : Reached knot knotFlow id) : id = ⟨7⟩ := by
  have hnodes : knotFlow.nodes = [⟨7⟩] := by decide +kernel
  induction h with
  | node hid =>
    rw [hnodes] at hid
    exact List.mem_singleton.mp hid
  | target _ hs ht ih =>
    subst ih
    obtain rfl := Except.ok.inj hs
    contradiction

theorem wellFormed_knot : WellFormed knot knotFlow where
  kinds := wellKinded_of_tokensFit (by decide +kernel)
  acyclic := acyclic_of_valuesEarlier (by decide) _
  owned id hid := by
    obtain rfl := reached_knot hid
    have howner : knotFlow.owner ⟨7⟩ = .ok ⟨2⟩ := by decide +kernel
    exact ⟨_, howner⟩
  even id _ _ _ _ hid hs := by
    obtain rfl := reached_knot hid
    cases hs

/-- The field is found, but its text has no end. -/
theorem result_knot (policy : IdentityPolicy) (r : Generator) :
    ((Mutator.builtIn policy).mutate knot knotFlow r).result = .error (.program (.cyclic ⟨6⟩)) := by
  have hquiet : Tries knot builtInRules [⟨7⟩] ⟨⟨7⟩, 0⟩ ⟨4⟩ (.ok (.localVar "x" ⟨1⟩)) _ :=
    .quiet rfl (.no rfl (.no rfl .nil))
  have hfound : Tries knot builtInRules [⟨7⟩] ⟨⟨7⟩, 1⟩ ⟨6⟩
      (.error (.ok ⟨⟨⟨7⟩, 1⟩, ⟨6⟩, fieldReferenceRule, []⟩)) _ := .found rfl (.no rfl (.yes rfl .nil))
  have hexplores : Explores knot builtInRules [] [(⟨7⟩, [])] _ _ :=
    .stop List.not_mem_nil rfl (.next hquiet .nil (.stop hfound))
  have hroots : roots knotFlow = [(⟨7⟩, [])] := by
    have hnodes : knotFlow.nodes = [⟨7⟩] := by decide +kernel
    rw [roots, hnodes]
    rfl
  have htext : knot.valueText? ⟨6⟩ = none := by decide +kernel
  rw [result_of_explores (acyclic_of_valuesEarlier (by decide) _) (hroots ▸ hexplores),
    applyRule_of_text_none rfl htext]
  rfl

/-- Where a type is nested in itself, a well-formed program can keep a session from its end,
although no failure of the sink would. -/
theorem session_unending :
    let config : Config := { iterationBudget := 1 }
    WellFormed knot knotFlow ∧ config.persistenceFailure = .proceed ∧
      (run (.builtIn config knotFlow refusing) knot ()).arena.size < UInt32.size ∧
      ∀ report, (run (.builtIn config knotFlow refusing) knot ()).report ≠ .ok report := by
  intro config
  have hsize : (run (.builtIn config knotFlow refusing) knot ()).arena.size < UInt32.size :=
    Nat.lt_of_le_of_lt (size_run_le ..) (by decide)
  exact ⟨wellFormed_knot, rfl, hsize, report_ne_ok (by decide) (result_knot _ _)⟩

end Session

end ProgramFacts
