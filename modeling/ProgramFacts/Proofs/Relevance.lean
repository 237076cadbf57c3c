import ProgramFacts.Proofs.Exactness

/-! What an extraction looks at: the registered statements, the owners that the control flow gives,
and what the nodes at these tokens hold, over and over.  Arenas that agree there have the same
facts, or none for the same reason, however large they are and whatever else they hold. -/

namespace ProgramFacts.Extraction

open Program ProgramFacts.Fact ProgramFacts.Flow

/-- The tokens that the registered statements and the owners lead to. -/
inductive Relevant (g : Arena) (c : FlowGraph) : NodeId → Prop
  | node {id : StmtId} : id ∈ c.nodes → Relevant g c id
  | owner {id : StmtId} {m : MethodId} : c.owner id = .ok m → Relevant g c m
  | held {id : NodeId} {n : Node} {e : NodeKind × NodeId} :
      Relevant g c id → g.node? id = some n → e ∈ handles n → Relevant g c e.2

section Relevant

variable {g : Arena} {c : FlowGraph}

theorem mem_handles_of_mem_nodeRefs {n : Node} {q : Part} (h : q ∈ nodeRefs n) :
    (q.kind, q.id) ∈ handles n := by
  cases n with
  | stmt s => contradiction
  | value v => exact List.mem_append_right _ (List.mem_map.mpr ⟨q, h, rfl⟩)
  | _ => exact List.mem_map.mpr ⟨q, h, rfl⟩

theorem Relevant.ref {id : NodeId} (hid : Relevant g c id) {n : Node} (hn : g.node? id = some n)
    {q : Part} (hq : q ∈ nodeRefs n) : Relevant g c q.id :=
  .held hid hn (mem_handles_of_mem_nodeRefs hq)

theorem Relevant.operand {v : ValueId} (hv : Relevant g c v) {x : Value}
    (hn : g.node? v = some (.value x)) {w : ValueId} (hw : w ∈ x.operands) : Relevant g c w :=
  .held (e := (.value, w)) hv hn (List.mem_append_left _ (List.mem_map_of_mem hw))

theorem Relevant.target {id t : StmtId} (hid : Relevant g c id) {s : Stmt} (hs : g.stmt id = .ok s)
    (ht : t ∈ s.targets) : Relevant g c t :=
  .held (e := (.stmt, t)) hid (Arena.stmt_eq_ok.mp hs)
    (List.mem_append_left _ (List.mem_map_of_mem ht))

theorem Relevant.mention {id : StmtId} {v : ValueId} (hid : Relevant g c id) {s : Stmt}
    (hs : g.stmt id = .ok s) (hv : v ∈ s.operands ++ s.labels) : Relevant g c v :=
  .held (e := (.value, v)) hid (Arena.stmt_eq_ok.mp hs)
    (List.mem_append_right _ (List.mem_map_of_mem hv))

/-- What a relevant part leads to is relevant, if the owner is. -/
theorem closed_relevant {owner : MethodId} (howner : Relevant g c owner) :
    Closed g owner fun p => Relevant g c p.id := by
  intro p n hp hn q hq
  cases n with
  | value v =>
    rcases mem_valueParts.mp hq with ⟨w, hw, rfl⟩ | hq | ⟨_, rfl⟩
    · exact hp.operand hn.1 hw
    · exact hp.ref hn.1 hq
    · exact howner
  | _ => exact hp.ref hn.1 hq

theorem relevant_of_reached {id : StmtId} (h : Reached g c id) : Relevant g c id := by
  induction h with
  | node hid => exact .node hid
  | target _ hs ht ih => exact ih.target hs ht

theorem Relevant.mentions {id : StmtId} (hid : Relevant g c id) {v : ValueId}
    (h : Mentions g id v) : Relevant g c v := by
  induction h with
  | top hs hv => exact hid.mention hs hv
  | operand _ hop ih =>
    obtain ⟨x, hx, hw⟩ := hop
    exact ih.operand (Arena.value_eq_ok.mp hx) hw

/-- All that is met from the registered statements is relevant. -/
theorem relevant_of_met {p : Part} (h : Met g c (Reached g c) p) : Relevant g c p.id := by
  induction h with
  | owner _ hm => exact .owner hm
  | value hid hv => exact (relevant_of_reached hid).mentions hv
  | ref _ hn hq ih => exact ih.ref hn.1 hq

theorem acyclic_of_relevant (h : Acyclic g fun p => Relevant g c p.id) :
    Acyclic g (Met g c (Reached g c)) :=
  fun v hv => h v (relevant_of_met hv)

end Relevant

/-! ## Failures -/

section Errors

variable {α β ε φ : Type} {f : ε → φ}

/-- Computations that end alike, up to what `f` leaves of their errors. -/
theorem ok_or_error_of_mapError {x₁ x₂ : Except ε α} (h : x₁.mapError f = x₂.mapError f) :
    (∃ a, x₁ = .ok a ∧ x₂ = .ok a) ∨
      ∃ e₁ e₂, x₁ = .error e₁ ∧ x₂ = .error e₂ ∧ f e₁ = f e₂ := by
  match x₁, x₂, h with
  | .ok a, .ok a', h => exact .inl ⟨a, rfl, congrArg Except.ok (Except.ok.inj h).symm⟩
  | .error e, .error e', h => exact .inr ⟨e, e', rfl, rfl, Except.error.inj h⟩

theorem eq_ok_of_mapError {x₁ x₂ : Except ε α} (h : x₁.mapError f = x₂.mapError f) {a : α}
    (hx : x₁ = .ok a) : x₂ = .ok a := by
  rcases ok_or_error_of_mapError h with ⟨_, rfl, rfl⟩ | ⟨_, _, rfl, _, _⟩
  · exact hx
  · contradiction

theorem exists_error_of_mapError {x₁ x₂ : Except ε α} (h : x₁.mapError f = x₂.mapError f) {e : ε}
    (hx : x₁ = .error e) : ∃ e₂, x₂ = .error e₂ ∧ f e = f e₂ := by
  rcases ok_or_error_of_mapError h with ⟨_, rfl, _⟩ | ⟨e₁, e₂, rfl, rfl, he⟩
  · contradiction
  · exact ⟨e₂, rfl, Except.error.inj hx ▸ he⟩

/-- They still do so when what follows them does. -/
theorem bind_mapError_congr {x₁ x₂ : Except ε α} {y₁ y₂ : α → Except ε β}
    (hx : x₁.mapError f = x₂.mapError f)
    (hy : ∀ a, x₁ = .ok a → x₂ = .ok a → (y₁ a).mapError f = (y₂ a).mapError f) :
    (x₁ >>= y₁).mapError f = (x₂ >>= y₂).mapError f := by
  rcases ok_or_error_of_mapError hx with ⟨a, rfl, rfl⟩ | ⟨e₁, e₂, rfl, rfl, he⟩
  · exact hy a rfl rfl
  · exact congrArg Except.error he

theorem map_mapError_congr {x₁ x₂ : Except ε α} (hx : x₁.mapError f = x₂.mapError f) (y : α → β) :
    (x₁.map y).mapError f = (x₂.map y).mapError f := by
  rcases ok_or_error_of_mapError hx with ⟨a, rfl, rfl⟩ | ⟨e₁, e₂, rfl, rfl, he⟩
  · rfl
  · exact congrArg Except.error he

end Errors

/-- A dangling token is reported without the size of the arena. -/
theorem resolve_congr {α : Type} {g₁ g₂ : Arena} {id : NodeId} (h : g₁.node? id = g₂.node? id)
    (expected : NodeKind) (content : Node → Option α) :
    (g₁.resolve expected content id).mapError Failure.ofFault =
      (g₂.resolve expected content id).mapError Failure.ofFault := by
  unfold Arena.resolve
  rw [h]
  cases g₂.node? id with
  | none => rfl
  | some n => rfl

theorem value_congr {g₁ g₂ : Arena} {id : ValueId} (h : g₁.node? id = g₂.node? id) :
    (g₁.value id).mapError Failure.ofFault = (g₂.value id).mapError Failure.ofFault :=
  resolve_congr h _ _

theorem stmt_congr {g₁ g₂ : Arena} {id : StmtId} (h : g₁.node? id = g₂.node? id) :
    (g₁.stmt id).mapError Failure.ofFault = (g₂.stmt id).mapError Failure.ofFault :=
  resolve_congr h _ _

theorem type_congr {g₁ g₂ : Arena} {id : TypeId} (h : g₁.node? id = g₂.node? id) :
    (g₁.type id).mapError Failure.ofFault = (g₂.type id).mapError Failure.ofFault :=
  resolve_congr h _ _

theorem method_congr {g₁ g₂ : Arena} {id : MethodId} (h : g₁.node? id = g₂.node? id) :
    (g₁.method id).mapError Failure.ofFault = (g₂.method id).mapError Failure.ofFault :=
  resolve_congr h _ _

theorem field_congr {g₁ g₂ : Arena} {id : FieldId} (h : g₁.node? id = g₂.node? id) :
    (g₁.field id).mapError Failure.ofFault = (g₂.field id).mapError Failure.ofFault :=
  resolve_congr h _ _

/-! ## Arenas that agree on what is relevant -/

section Agreement

variable {g₁ g₂ : Arena} {c : FlowGraph}
  (hsame : ∀ id, Relevant g₁ c id → g₁.node? id = g₂.node? id)
include hsame

theorem relevant_of_relevant {id : NodeId} (h : Relevant g₁ c id) : Relevant g₂ c id := by
  induction h with
  | node hid => exact .node hid
  | owner hm => exact .owner hm
  | held hid hn he ih => exact .held ih (hsame _ hid ▸ hn) he

theorem relevant_of_relevant_right {id : NodeId} (h : Relevant g₂ c id) : Relevant g₁ c id := by
  induction h with
  | node hid => exact .node hid
  | owner hm => exact .owner hm
  | held _ hn he ih => exact .held ih ((hsame _ ih).trans hn) he

theorem partNode_congr {p : Part} (hp : Relevant g₁ c p.id) :
    (partNode g₁ p).mapError Failure.ofFault = (partNode g₂ p).mapError Failure.ofFault := by
  have h := hsame _ hp
  cases p <;> exact map_mapError_congr (resolve_congr h _ _) _

theorem operand_of_operand {v w : ValueId} (hv : Relevant g₁ c v) (h : Operand g₂ v w) :
    Operand g₁ v w ∧ Relevant g₁ c w := by
  obtain ⟨x, hx, hw⟩ := h
  have hn : g₁.node? v = some (.value x) := (hsame v hv).trans (Arena.value_eq_ok.mp hx)
  exact ⟨⟨x, Arena.value_eq_ok.mpr hn, hw⟩, hv.operand hn hw⟩

theorem acyclic_of_acyclic (h : Acyclic g₁ fun p => Relevant g₁ c p.id) :
    Acyclic g₂ fun p => Relevant g₂ c p.id := by
  have nested {v w : ValueId} (hv : Relevant g₁ c v) (hvw : Relation.TransGen (Operand g₂) v w) :
      Relation.TransGen (Operand g₁) v w ∧ Relevant g₁ c w := by
    induction hvw with
    | single hop =>
      obtain ⟨hop, hw⟩ := operand_of_operand hsame hv hop
      exact ⟨.single hop, hw⟩
    | tail _ hop ih =>
      obtain ⟨hop, hw⟩ := operand_of_operand hsame ih.2 hop
      exact ⟨ih.1.tail hop, hw⟩
  intro v hv hcycle
  have hv : Relevant g₁ c v := relevant_of_relevant_right hsame hv
  exact h v hv (nested hv hcycle).1

end Agreement

/-- What a relevant statement adds to the stack is relevant. -/
theorem relevant_of_mem_waiting {g : Arena} {id : StmtId} (hid : Relevant g c id)
    {p q : Progress} {waiting : List StmtId} (he : emitStmt g c id p = .ok (waiting, q)) :
    ∀ t ∈ waiting, Relevant g c t := by
  obtain ⟨s, a, hs, _, _, rfl⟩ := emitStmt_eq_ok.mp he
  exact fun t ht => hid.target hs (List.mem_filter.mp (List.mem_reverse.mp ht)).1

theorem drain_of_emitStmt_error {g : Arena} {c : FlowGraph} {id : StmtId} {rest : List StmtId}
    {p : Progress} (hnew : id ∉ p.begun) {stop : Stop} (he : emitStmt g c id p = .error stop) :
    drain g c (id :: rest) p = .error stop := by
  rw [drain, dif_neg hnew]
  split
  · rename_i stop' he'
    exact congrArg Except.error (Except.error.inj (he'.symm.trans he))
  · rename_i he'
    rw [he] at he'
    contradiction

theorem drain_of_emitStmt_ok {g : Arena} {c : FlowGraph} {id : StmtId} {rest waiting : List StmtId}
    {p q : Progress} (hnew : id ∉ p.begun) (he : emitStmt g c id p = .ok (waiting, q)) :
    drain g c (id :: rest) p = drain g c (waiting ++ rest) q := by
  rw [drain, dif_neg hnew]
  split
  · rename_i he'
    rw [he] at he'
    contradiction
  · rename_i he'
    obtain ⟨rfl, rfl⟩ := Prod.mk.inj (Except.ok.inj (he.symm.trans he'))
    rfl

/-! ## Two extractions -/

section Extractions

variable {g₁ g₂ : Arena} {c : FlowGraph} {owner : MethodId}
  (hsame : ∀ id, Relevant g₁ c id → g₁.node? id = g₂.node? id)
  (hacyclic : Acyclic g₁ fun p => Relevant g₁ c p.id)

theorem foldlM_visit_congr {d₁ d₂ : Nat}
    (hvisit : ∀ {p : Part} {a : Gathered}, Relevant g₁ c p.id → Room g₁ a.seen d₁ p →
      Room g₂ a.seen d₂ p → (visit g₁ owner d₁ p a).mapError Failure.ofFault =
        (visit g₂ owner d₂ p a).mapError Failure.ofFault)
    {ps : List Part} {a : Gathered} (hps : ∀ p ∈ ps, Relevant g₁ c p.id)
    (hroom₁ : ∀ p ∈ ps, Room g₁ a.seen d₁ p) (hroom₂ : ∀ p ∈ ps, Room g₂ a.seen d₂ p) :
    (ps.foldlM (fun a p => visit g₁ owner d₁ p a) a).mapError Failure.ofFault =
      (ps.foldlM (fun a p => visit g₂ owner d₂ p a) a).mapError Failure.ofFault := by
  induction ps generalizing a with
  | nil => rfl
  | cons p ps ih =>
    obtain ⟨hp, hps⟩ := List.forall_mem_cons.mp hps
    obtain ⟨hp₁, hroom₁⟩ := List.forall_mem_cons.mp hroom₁
    obtain ⟨hp₂, hroom₂⟩ := List.forall_mem_cons.mp hroom₂
    rw [List.foldlM_cons, List.foldlM_cons]
    refine bind_mapError_congr (hvisit hp hp₁ hp₂) fun mid hmid _ => ?_
    -- a visit leaves no less room for those that follow
    have hgrows := (visits_of_visit hmid .nil).grows.seen
    exact ih hps (fun q hq => (hroom₁ q hq).mono hgrows) fun q hq => (hroom₂ q hq).mono hgrows

include hsame hacyclic

/-- The visits of a part end alike, if the depth is enough in both arenas. -/
theorem visit_congr (howner : Relevant g₁ c owner) {d₁ d₂ : Nat} {p : Part} {a : Gathered}
    (hp : Relevant g₁ c p.id) (hroom₁ : Room g₁ a.seen d₁ p) (hroom₂ : Room g₂ a.seen d₂ p) :
    (visit g₁ owner d₁ p a).mapError Failure.ofFault =
      (visit g₂ owner d₂ p a).mapError Failure.ofFault := by
  induction d₁ generalizing d₂ p a with
  | zero => exact absurd hroom₁.entity (Nat.not_lt_zero _)
  | succ d₁ ih =>
    obtain ⟨d₂, rfl⟩ : ∃ d, d₂ = d + 1 := ⟨d₂ - 1, by have := hroom₂.entity; omega⟩
    have parts {n : Node} (hn₁ : Resolves g₁ p n) (hn₂ : Resolves g₂ p n)
        (hnew : once n = true → p.id ∉ a.seen) :
        ((nodeParts owner n).foldlM (fun a q => visit g₁ owner d₁ q a)
          (a.define owner p.id n)).mapError Failure.ofFault =
        ((nodeParts owner n).foldlM (fun a q => visit g₂ owner d₂ q a)
          (a.define owner p.id n)).mapError Failure.ofFault :=
      foldlM_visit_congr ih (closed_relevant howner p n hp hn₁)
        (hroom₁.parts hacyclic hp hn₁ hnew owner)
        (hroom₂.parts (acyclic_of_acyclic hsame hacyclic) (relevant_of_relevant hsame hp) hn₂ hnew
          owner)
    by_cases hk : p.kind = .value
    · rw [part_eq_value hk, visit_value, visit_value]
      rcases ok_or_error_of_mapError (value_congr (hsame _ hp)) with
        ⟨v, hv₁, hv₂⟩ | ⟨fault₁, fault₂, hv₁, hv₂, hfault⟩
      · have hn₁ : Resolves g₁ p (.value v) := part_eq_value hk ▸ resolves_value.mpr ⟨v, rfl, hv₁⟩
        have hn₂ : Resolves g₂ p (.value v) := part_eq_value hk ▸ resolves_value.mpr ⟨v, rfl, hv₂⟩
        simp only [hv₁, hv₂]
        split
        · rfl
        · rename_i hs
          exact parts hn₁ hn₂ fun honce hseen => hs ⟨honce, hseen⟩
      · simp only [hv₁, hv₂]
        exact congrArg Except.error hfault
    · rw [visit_entity d₁ hk, visit_entity d₂ hk]
      split
      · rfl
      · rename_i hs
        rcases ok_or_error_of_mapError (partNode_congr hsame hp) with
          ⟨n, hn₁, hn₂⟩ | ⟨fault₁, fault₂, hn₁, hn₂, hfault⟩
        · simp only [hn₁, hn₂]
          exact parts (partNode_eq_ok.mp hn₁) (partNode_eq_ok.mp hn₂) fun _ => hs
        · simp only [hn₁, hn₂]
          exact congrArg Except.error hfault

theorem visitAll_congr (howner : Relevant g₁ c owner) {ps : List Part}
    (hps : ∀ p ∈ ps, Relevant g₁ c p.id) (a : Gathered) :
    (visitAll g₁ owner ps a).mapError Failure.ofFault =
      (visitAll g₂ owner ps a).mapError Failure.ofFault :=
  foldlM_visit_congr (visit_congr hsame hacyclic howner) hps
    (fun p _ => room_depthBound a.seen p) fun p _ => room_depthBound a.seen p

theorem visitStmt_congr {id : StmtId} (hid : Relevant g₁ c id) {s : Stmt} (hs : g₁.stmt id = .ok s)
    (a : Gathered) : (visitStmt g₁ c id s a).mapError Failure.ofFault =
      (visitStmt g₂ c id s a).mapError Failure.ofFault := by
  have values {vs : List ValueId} (hvs : vs ⊆ s.operands ++ s.labels) :
      ∀ p ∈ vs.map Part.value, Relevant g₁ c p.id := by
    intro p hp
    obtain ⟨v, hv, rfl⟩ := List.mem_map.mp hp
    exact hid.mention hs (hvs hv)
  unfold visitStmt
  refine bind_mapError_congr rfl fun m hm _ => ?_
  have howner : Relevant g₁ c m := .owner hm
  have hparts : ∀ p ∈ Part.method m :: s.operands.map .value, Relevant g₁ c p.id :=
    List.forall_mem_cons.mpr ⟨howner, values (List.subset_append_left ..)⟩
  refine bind_mapError_congr (visitAll_congr hsame hacyclic howner hparts _) fun a _ _ => ?_
  refine bind_mapError_congr rfl fun _ _ _ => ?_
  exact visitAll_congr hsame hacyclic howner (values (List.subset_append_right ..)) a

theorem emitStmt_congr {id : StmtId} (hid : Relevant g₁ c id) (p : Progress) :
    (emitStmt g₁ c id p).mapError Stop.failure = (emitStmt g₂ c id p).mapError Stop.failure := by
  unfold emitStmt
  rcases ok_or_error_of_mapError (stmt_congr (hsame id hid)) with
    ⟨s, hs₁, hs₂⟩ | ⟨fault₁, fault₂, hs₁, hs₂, hfault⟩
  · simp only [hs₁, hs₂]
    rcases ok_or_error_of_mapError (visitStmt_congr hsame hacyclic hid hs₁ p.gathered) with
      ⟨a, ha₁, ha₂⟩ | ⟨fault₁, fault₂, ha₁, ha₂, hfault⟩
    · simp only [ha₁, ha₂]
    · simp only [ha₁, ha₂]
      exact congrArg Except.error hfault
  · simp only [hs₁, hs₂]
    exact congrArg Except.error hfault

theorem drain_congr {stack : List StmtId} (hstack : ∀ id ∈ stack, Relevant g₁ c id)
    (p : Progress) :
    (drain g₁ c stack p).mapError Stop.failure = (drain g₂ c stack p).mapError Stop.failure := by
  fun_induction drain g₁ c stack p with
  | case1 p => rw [drain]
  | case2 p id rest hmem ih =>
    rw [drain, dif_pos hmem]
    exact ih (List.forall_mem_cons.mp hstack).2
  | case3 p id rest hnew stop he =>
    have hemit := emitStmt_congr hsame hacyclic (hstack id (.head _)) p
    obtain ⟨stop₂, he₂, hstop⟩ := exists_error_of_mapError hemit he
    rw [drain_of_emitStmt_error hnew he₂]
    exact congrArg Except.error hstop
  | case4 p id rest hnew waiting mid he ih =>
    have hid := hstack id (.head _)
    have he₂ := eq_ok_of_mapError (emitStmt_congr hsame hacyclic hid p) he
    rw [drain_of_emitStmt_ok hnew he₂]
    refine ih fun t ht => ?_
    rcases List.mem_append.mp ht with ht | ht
    · exact relevant_of_mem_waiting hid he t ht
    · exact hstack t (.tail _ ht)

theorem emitRoot_congr {root : StmtId} (hroot : root ∈ c.nodes) (p : Progress) :
    (emitRoot g₁ c p root).mapError Stop.failure =
      (emitRoot g₂ c p root).mapError Stop.failure := by
  have hid : Relevant g₁ c root := .node hroot
  unfold emitRoot
  refine bind_mapError_congr (emitStmt_congr hsame hacyclic hid p) fun next he _ => ?_
  have hwaiting : ∀ t ∈ next.1, Relevant g₁ c t := relevant_of_mem_waiting hid he
  exact bind_mapError_congr (drain_congr hsame hacyclic hwaiting next.2) fun _ _ _ => rfl

/-- The passes end alike. -/
theorem pass_congr : (pass g₁ c).mapError Stop.failure = (pass g₂ c).mapError Stop.failure := by
  have roots {roots : List StmtId} (hroots : roots ⊆ c.nodes) (p : Progress) :
      (roots.foldlM (emitRoot g₁ c) p).mapError Stop.failure =
        (roots.foldlM (emitRoot g₂ c) p).mapError Stop.failure := by
    induction roots generalizing p with
    | nil => rfl
    | cons root roots ih =>
      obtain ⟨hroot, hroots⟩ := List.cons_subset.mp hroots
      rw [List.foldlM_cons, List.foldlM_cons]
      exact bind_mapError_congr (emitRoot_congr hsame hacyclic hroot p) fun mid _ _ =>
        ih hroots mid
  exact roots (List.Subset.refl _) _

/-- Arenas that agree on what is relevant have the same facts, or fail alike. -/
theorem extract_congr : extract g₁ c = extract g₂ c := by
  unfold extract
  rcases ok_or_error_of_mapError (pass_congr hsame hacyclic) with
    ⟨p, hp₁, hp₂⟩ | ⟨stop₁, stop₂, hp₁, hp₂, hstop⟩
  · rw [hp₁, hp₂]
  · rw [hp₁, hp₂]
    exact congrArg Except.error hstop

end Extractions

end ProgramFacts.Extraction
