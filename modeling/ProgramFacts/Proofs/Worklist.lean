import ProgramFacts.Proofs.Emission

/-! The worklist of a pass: the statements that have begun are exact, and every target of one of
them has begun or waits on the stack.  So a pass that ends without a fault has begun exactly the
statements that the registered ones lead to. -/

namespace ProgramFacts.Extraction

open Program ProgramFacts.Fact ProgramFacts.Flow

variable {g : Arena} {c : FlowGraph}

/-- The state of a pass while the statements of `stack` wait. -/
structure Worklist (g : Arena) (c : FlowGraph) (E : List (StmtId × StmtId)) (stack : List StmtId)
    (p : Progress) : Prop where
  exact : Exact g c p.begun.reverse E p.gathered
  begun : ∀ id ∈ p.begun, Reached g c id
  waiting : ∀ id ∈ stack, Reached g c id
  targets : ∀ id ∈ p.begun, ∀ s, g.stmt id = .ok s → ∀ t ∈ s.targets, t ∈ p.begun ∨ t ∈ stack

theorem emitStmt_eq_ok {id : StmtId} {p q : Progress} {waiting : List StmtId} :
    emitStmt g c id p = .ok (waiting, q) ↔
      ∃ s a, g.stmt id = .ok s ∧ visitStmt g c id s p.gathered = .ok a ∧
        q = ⟨id :: p.begun, a⟩ ∧
        waiting = (s.targets.filter fun t => !(id :: p.begun).contains t).reverse := by
  unfold emitStmt
  cases hs : g.stmt id with
  | error fault => simp
  | ok s =>
    cases ha : visitStmt g c id s p.gathered with
    | error fault => simp [ha]
    | ok a => simp [ha, eq_comm, and_comm]

/-- What a statement that has begun adds to the stack are targets of it. -/
theorem reached_of_mem_waiting {id : StmtId} (hid : Reached g c id) {p q : Progress}
    {waiting : List StmtId} (he : emitStmt g c id p = .ok (waiting, q)) {t : StmtId}
    (ht : t ∈ waiting) : Reached g c t := by
  obtain ⟨s, a, hs, _, _, rfl⟩ := emitStmt_eq_ok.mp he
  exact hid.target hs (List.mem_filter.mp (List.mem_reverse.mp ht)).1

theorem Worklist.emitStmt {E : List (StmtId × StmtId)} {stack waiting : List StmtId}
    {p q : Progress} (h : Worklist g c E stack p) {id : StmtId} (hid : Reached g c id)
    (he : Extraction.emitStmt g c id p = .ok (waiting, q)) :
    Worklist g c E (waiting ++ stack) q := by
  have hwaiting (t : StmtId) (ht : t ∈ waiting) : Reached g c t := reached_of_mem_waiting hid he ht
  obtain ⟨s, a, hs, ha, rfl, rfl⟩ := emitStmt_eq_ok.mp he
  refine ⟨?_, ?_, fun t ht => ?_, ?_⟩
  · simpa using h.exact.visitStmt hs ha
  · exact List.forall_mem_cons.mpr ⟨hid, h.begun⟩
  · rcases List.mem_append.mp ht with ht | ht
    · exact hwaiting t ht
    · exact h.waiting t ht
  · refine List.forall_mem_cons.mpr ⟨fun s' hs' t ht => ?_, fun j hj s' hs' t ht => ?_⟩
    · obtain rfl : s = s' := Except.ok.inj (hs.symm.trans hs')
      by_cases htb : t ∈ id :: p.begun
      · exact .inl htb
      · exact .inr (List.mem_append_left _ (List.mem_reverse.mpr
          (List.mem_filter.mpr ⟨ht, by simpa using htb⟩)))
    · rcases h.targets j hj s' hs' t ht with ht | ht
      · exact .inl (.tail _ ht)
      · exact .inr (List.mem_append_right _ ht)

/-- A statement on the stack that has begun is passed over. -/
theorem Worklist.pop {E : List (StmtId × StmtId)} {id : StmtId} {rest : List StmtId} {p : Progress}
    (h : Worklist g c E (id :: rest) p) (hid : id ∈ p.begun) : Worklist g c E rest p := by
  refine ⟨h.exact, h.begun, fun t ht => h.waiting t (.tail _ ht), fun j hj s hs t ht => ?_⟩
  rcases h.targets j hj s hs t ht with ht | ht
  · exact .inl ht
  · rcases List.mem_cons.mp ht with rfl | ht
    · exact .inl hid
    · exact .inr ht

/-- Once a statement has begun, its place on the stack is not needed. -/
theorem Worklist.drop {E : List (StmtId × StmtId)} {id : StmtId} {waiting rest : List StmtId}
    {p : Progress} (h : Worklist g c E (waiting ++ id :: rest) p) (hid : id ∈ p.begun) :
    Worklist g c E (waiting ++ rest) p := by
  have hmem {t : StmtId} (ht : t ∈ waiting ++ rest) : t ∈ waiting ++ id :: rest := by
    rcases List.mem_append.mp ht with ht | ht
    · exact List.mem_append_left _ ht
    · exact List.mem_append_right _ (.tail _ ht)
  refine ⟨h.exact, h.begun, fun t ht => h.waiting t (hmem ht), fun j hj s hs t ht => ?_⟩
  rcases h.targets j hj s hs t ht with ht | ht
  · exact .inl ht
  · rcases List.mem_append.mp ht with ht | ht
    · exact .inr (List.mem_append_left _ ht)
    · rcases List.mem_cons.mp ht with rfl | ht
      · exact .inl hid
      · exact .inr (List.mem_append_right _ ht)

theorem Worklist.drain {E : List (StmtId × StmtId)} {stack : List StmtId} {p q : Progress}
    (h : Worklist g c E stack p) (hd : Extraction.drain g c stack p = .ok q) :
    Worklist g c E [] q ∧ p.begun ⊆ q.begun := by
  fun_induction Extraction.drain g c stack p with
  | case1 p =>
    obtain rfl := Except.ok.inj hd
    exact ⟨h, List.Subset.refl _⟩
  | case2 p id rest hnew ih => exact ih (h.pop hnew) hd
  | case3 => contradiction
  | case4 p id rest hnew waiting mid he ih =>
    have hid : Reached g c id := h.waiting id (.head _)
    have hmid := (emitStmt_ok he).2
    have hbegun : p.begun ⊆ mid.begun := hmid ▸ List.subset_cons_self ..
    obtain ⟨hq, hsub⟩ := ih ((h.emitStmt hid he).drop (hmid ▸ .head _)) hd
    exact ⟨hq, fun j hj => hsub (hbegun hj)⟩

theorem emitRoot_eq_ok {p q : Progress} {root : StmtId} :
    emitRoot g c p root = .ok q ↔ ∃ waiting mid last, emitStmt g c root p = .ok (waiting, mid) ∧
      drain g c waiting mid = .ok last ∧
      q = ⟨last.begun, last.gathered.emit ((c.successors root).map (edgeRow root))⟩ := by
  unfold emitRoot
  cases he : emitStmt g c root p with
  | error stop => simp [bind, Except.bind]
  | ok r =>
    obtain ⟨waiting, mid⟩ := r
    cases hd : Extraction.drain g c waiting mid with
    | error stop => simp [bind, Except.bind, hd]
    | ok last =>
      simp only [bind, Except.bind, hd, pure, Except.pure]
      constructor
      · intro h
        exact ⟨waiting, mid, last, rfl, hd, (Except.ok.inj h).symm⟩
      · rintro ⟨waiting', mid', last', hw, hd', rfl⟩
        obtain ⟨rfl, rfl⟩ := Prod.mk.inj (Except.ok.inj hw)
        obtain rfl := Except.ok.inj (hd.symm.trans hd')
        rfl

/-- The pass of a program whose one statement leads to no other. -/
theorem pass_of_emitStmt {id : StmtId} (hnodes : c.nodes = [id]) {p : Progress}
    (h : emitStmt g c id ⟨[], .empty⟩ = .ok ([], p)) :
    pass g c =
      .ok { p with gathered := p.gathered.emit ((c.successors id).map (edgeRow id)) } := by
  have hdrain : drain g c [] p = .ok p := by rw [drain]
  unfold pass
  rw [hnodes, List.foldlM_cons, emitRoot_eq_ok.mpr ⟨[], p, p, h, hdrain, rfl⟩]
  rfl

/-- The edges of a statement. -/
def edgesOf (c : FlowGraph) (id : StmtId) : List (StmtId × StmtId) :=
  (c.successors id).map fun t => (id, t)

theorem Worklist.emitRoot {E : List (StmtId × StmtId)} {p q : Progress} {root : StmtId}
    (h : Worklist g c E [] p) (hroot : root ∈ c.nodes)
    (he : Extraction.emitRoot g c p root = .ok q) :
    Worklist g c (E ++ edgesOf c root) [] q ∧ root ∈ q.begun ∧ p.begun ⊆ q.begun := by
  obtain ⟨waiting, mid, last, hs, hd, rfl⟩ := emitRoot_eq_ok.mp he
  have hmid := (emitStmt_ok hs).2
  obtain ⟨hlast, hsub⟩ := (h.emitStmt (.node hroot) hs).drain (by simpa using hd)
  refine ⟨⟨?_, hlast.begun, hlast.waiting, hlast.targets⟩, hsub (hmid ▸ .head _),
    fun j hj => hsub (hmid ▸ .tail _ hj)⟩
  simpa [edgesOf, Function.comp_def] using hlast.exact.emit_edges (edgesOf c root)

theorem mem_edgesOf {id : StmtId} {e : StmtId × StmtId} :
    e ∈ edgesOf c id ↔ e ∈ c.edges ∧ e.1 = id := by
  simp only [edgesOf, FlowGraph.successors, List.map_map, List.mem_map, List.mem_filter,
    Function.comp_apply, beq_iff_eq]
  constructor
  · rintro ⟨e', ⟨he, rfl⟩, rfl⟩
    exact ⟨he, rfl⟩
  · rintro ⟨he, rfl⟩
    exact ⟨e, ⟨he, rfl⟩, rfl⟩

theorem Worklist.roots {roots : List StmtId} (hroots : ∀ id ∈ roots, id ∈ c.nodes)
    {E : List (StmtId × StmtId)} {p q : Progress} (h : Worklist g c E [] p)
    (hf : roots.foldlM (Extraction.emitRoot g c) p = .ok q) :
    Worklist g c (E ++ roots.flatMap (edgesOf c)) [] q ∧ roots ⊆ q.begun ∧ p.begun ⊆ q.begun := by
  induction roots generalizing E p with
  | nil =>
    obtain rfl := Except.ok.inj hf
    exact ⟨by simpa using h, by simp, List.Subset.refl _⟩
  | cons root roots ih =>
    obtain ⟨hroot, hrest⟩ := List.forall_mem_cons.mp hroots
    rw [List.foldlM_cons] at hf
    cases he : Extraction.emitRoot g c p root with
    | error stop =>
      rw [he] at hf
      contradiction
    | ok mid =>
      rw [he] at hf
      obtain ⟨hmid, hmem, hsub⟩ := h.emitRoot hroot he
      obtain ⟨hq, hroots, hsub'⟩ := ih hrest hmid hf
      refine ⟨by simpa using hq, fun j hj => ?_, fun j hj => hsub' (hsub hj)⟩
      rcases List.mem_cons.mp hj with rfl | hj
      · exact hsub' hmem
      · exact hroots hj

/-- A pass that ends without a fault has begun exactly the reached statements, and has gathered what
the encoding has for them and for the edges of the graph. -/
theorem pass_exact {p : Progress} (h : pass g c = .ok p) :
    Exact g c p.begun.reverse c.edges p.gathered ∧ ∀ id, id ∈ p.begun ↔ Reached g c id := by
  have hempty : Worklist g c [] [] ⟨[], .empty⟩ := by
    constructor <;> simp [exact_empty]
  obtain ⟨hp, hroots, _⟩ := hempty.roots (fun _ hid => hid) h
  refine ⟨hp.exact.congr_edges fun e => ?_, fun id => ⟨hp.begun id, fun hid => ?_⟩⟩
  · simp only [List.nil_append, List.mem_flatMap, mem_edgesOf]
    exact ⟨fun ⟨_, _, he, _⟩ => he, fun he => ⟨e.1, (c.ends_mem e he).1, he, rfl⟩⟩
  · induction hid with
    | node hid => exact hroots hid
    | target _ hs ht ih => exact (hp.targets _ ih _ hs _ ht).resolve_right (by simp)

end ProgramFacts.Extraction
