import ProgramFacts.Proofs.Rebuilding

/-! What the deltas of a session are taken between.  The delta of an iteration leads to the facts of
its program from those of the program one mutation earlier, and the first one starts from
nothing. -/

namespace ProgramFacts.Session

open Program ProgramFacts.Flow ProgramFacts.Fact ProgramFacts.Random Extraction

variable {σ : Type} {u : Setup σ} {g : Arena} {k i : Nat}

/-- The facts of the program after some mutations, if there are any. -/
def factsAt (u : Setup σ) (g : Arena) (k : Nat) : Option Store :=
  (programAt u g k).bind fun p => (extract p.1 u.flow).toOption

/-- The facts that the delta of an iteration starts from. -/
def factsBefore (u : Setup σ) (g : Arena) : Nat → Option Store
  | 0 => none
  | k + 1 => factsAt u g k

theorem factsAt_eq_some {facts : Store} :
    factsAt u g k = some facts ↔
      ∃ gk r, programAt u g k = some (gk, r) ∧ extract gk u.flow = .ok facts := by
  unfold factsAt
  cases programAt u g k with
  | none => simp
  | some p =>
    obtain ⟨gk, r⟩ := p
    cases hfacts : extract gk u.flow <;> simp [Except.toOption, hfacts]

/-- The delta of iteration `k` stands at position `k`. -/
def Leads (u : Setup σ) (g : Arena) (ds : List (Nat × Delta)) (k : Nat) : Prop :=
  ∃ facts, factsAt u g k = some facts ∧
    ds[k]? = some (k, .between (factsBefore u g k) (some facts))

theorem Leads.concat {ds : List (Nat × Delta)} (h : Leads u g ds k) (e : Nat × Delta) :
    Leads u g (ds ++ [e]) k := by
  obtain ⟨facts, hfacts, hd⟩ := h
  have hk : k < ds.length := (List.getElem?_eq_some_iff.mp hd).1
  exact ⟨facts, hfacts, by rw [List.getElem?_append_left hk, hd]⟩

section Synced

variable {s s' : State (σ × List (Nat × Delta))}

/-- The facts that a session keeps for the next delta are those of its last iteration. -/
theorem Synced.previous_eq {mutated : Nat} (h : Synced u g i mutated s) :
    s.previous = factsBefore u g i := by
  cases i with
  | zero =>
    have hreplay := h.previous
    rw [List.length_eq_zero_iff.mp h.length] at hreplay
    exact (Except.ok.inj hreplay).symm
  | succ i =>
    obtain ⟨_, gk, r, facts, _, hprogram, hfacts, hreplay⟩ := h.rebuilds i (Nat.lt_succ_self i)
    rw [List.take_of_length_le (Nat.le_of_eq h.length), h.previous] at hreplay
    rw [Except.ok.inj hreplay]
    exact (factsAt_eq_some.mpr ⟨gk, r, hprogram, hfacts⟩).symm

theorem Synced.leads_persist (h : Synced u g i i s) (hleads : ∀ k < i, Leads u g s.sink.2 k)
    {current : Store} (hcurrent : extract s.arena u.flow = .ok current) :
    ∀ k < i + 1, Leads u g (s.sink.2 ++ [(i, .between s.previous (some current))]) k := by
  intro k hk
  rcases Nat.lt_succ_iff_lt_or_eq.mp hk with hk | rfl
  · exact (hleads k hk).concat _
  · refine ⟨current, factsAt_eq_some.mpr ⟨_, _, h.program, hcurrent⟩, ?_⟩
    rw [List.getElem?_append_right (Nat.le_of_eq h.length), h.length, ← h.previous_eq]
    simp

/-- An extraction adds one delta at most. -/
theorem Synced.leads_observe (h : Synced u g i i s) (hleads : ∀ k < i, Leads u g s.sink.2 k)
    {result : Except Failure Unit} (ho : Observed u.recording i s result s') :
    ∀ k < s'.sink.2.length, Leads u g s'.sink.2 k := by
  cases ho with
  | failed => exact fun k hk => hleads k (h.length ▸ hk)
  | done hcurrent hused | aborted hcurrent hused =>
    have hds := congrArg Prod.snd hused.kept.1
    simp only [Setup.recording, Sink.recording] at hds
    simp only [hds]
    intro k hk
    exact h.leads_persist hleads hcurrent k (by simpa [h.length] using hk)

theorem Synced.leads_iterate {left : Nat} {result : Except Failure (Nat × Termination)}
    (h : Synced u g i i s) (hleads : ∀ k < i, Leads u g s.sink.2 k)
    (hi : Iterated u.recording left i s result s') :
    ∀ k < s'.sink.2.length, Leads u g s'.sink.2 k := by
  induction hi with
  | fault ho | last ho => exact h.leads_observe hleads ho
  | stuck ho ha | exhausted ho ha =>
    rw [ha.sink_eq]
    exact h.leads_observe hleads ho
  | next ho ha _ ih =>
    have hmid := h.observe ho
    have hleads := h.leads_observe hleads ho
    rw [hmid.length, ← ha.sink_eq] at hleads
    exact ih (hmid.advance ha) hleads

end Synced

/-- Every delta of a session leads from the facts of one iteration to those of the next. -/
theorem leads_deltas (u : Setup σ) (g : Arena) (sink : σ) :
    ∀ k < (deltas u g sink).length, Leads u g (deltas u g sink) k := by
  have hran := ran_session u.recording (.initial u.config g (sink, []))
  have hdeltas : deltas u g sink =
      (exec (session u.recording) (.initial u.config g (sink, []))).2.sink.2 := rfl
  rw [hdeltas]
  generalize exec (session u.recording) (.initial u.config g (sink, [])) = ended at hran ⊢
  obtain ⟨result, s⟩ := ended
  cases hran with
  | unready hused =>
    exact fun k hk => absurd ((synced_reset hused).length ▸ hk) (Nat.not_lt_zero k)
  | fault hused hiterated =>
    exact (synced_reset hused).leads_iterate (fun k hk => absurd hk (Nat.not_lt_zero k)) hiterated
  | ended hused hiterated =>
    have hleads := (synced_reset hused).leads_iterate
      (fun k hk => absurd hk (Nat.not_lt_zero k)) hiterated
    exact hleads

end ProgramFacts.Session
