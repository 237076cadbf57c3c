import ProgramFacts.Proofs.Descent
import ProgramFacts.Proofs.Presentation

/-! Programs in which every token that the registered statements lead to is of the kind that its
place asks for.  Of these, extraction gives exactly the facts, unless a statement has no owner or a
switch is uneven.  A check of the arena finds such programs. -/

namespace ProgramFacts.Extraction

open Program ProgramFacts.Fact ProgramFacts.Flow

variable {g : Arena} {c : FlowGraph}

/-- Every token that the registered statements lead to resolves to the kind that its place asks
for. -/
structure WellKinded (g : Arena) (c : FlowGraph) : Prop where
  stmt : ∀ {id}, Reached g c id → ∃ s, g.stmt id = .ok s
  part : ∀ {p}, Met g c (Reached g c) p → ∃ n, Resolves g p n

/-! ## A check of programs -/

/-- The tokens of a node, with the kinds that their places ask for. -/
def handles : Node → List (NodeKind × NodeId)
  | .stmt s =>
    s.targets.map (fun t => (.stmt, t)) ++ (s.operands ++ s.labels).map fun v => (.value, v)
  | .value v => v.operands.map (fun w => (.value, w)) ++ (valueRefs v).map fun p => (p.kind, p.id)
  | n => (nodeRefs n).map fun p => (p.kind, p.id)

/-- Whether a token resolves to a node of a kind. -/
def fits (g : Arena) (h : NodeKind × NodeId) : Bool :=
  (g.node? h.2).any fun n => decide (n.kind = h.1)

/-- Whether all tokens of a program fit. -/
def tokensFit (g : Arena) (c : FlowGraph) : Bool :=
  c.nodes.all (fun id => fits g (.stmt, id)) &&
    c.owners.toList.all (fun e => fits g (.method, e.2)) &&
    g.nodes.toList.all fun n => (handles n).all (fits g)

/-- Whether all values have their operands at earlier positions. -/
def valuesEarlier (g : Arena) : Bool :=
  g.nodes.toList.zipIdx.all fun e =>
    match e.1 with
    | .value v => v.operands.all fun w => w.index < e.2
    | _ => true

theorem fits_iff {h : NodeKind × NodeId} :
    fits g h = true ↔ ∃ n, g.node? h.2 = some n ∧ n.kind = h.1 := by
  simp [fits, Option.any_eq_true]

theorem exists_stmt_of_fits {id : StmtId} (h : fits g (.stmt, id) = true) :
    ∃ s, g.stmt id = .ok s := by
  obtain ⟨n, hn, hk⟩ := fits_iff.mp h
  cases n <;> first | contradiction | exact ⟨_, Arena.stmt_eq_ok.mpr hn⟩

section Check

variable (h : tokensFit g c = true)
include h

theorem fits_of_mem_nodes {id : StmtId} (hid : id ∈ c.nodes) : fits g (.stmt, id) = true := by
  simp only [tokensFit, Bool.and_eq_true, List.all_eq_true] at h
  exact h.1.1 id hid

theorem fits_of_owner {id : StmtId} {m : MethodId} (hm : c.owner id = .ok m) :
    fits g (.method, m) = true := by
  simp only [tokensFit, Bool.and_eq_true, List.all_eq_true] at h
  unfold FlowGraph.owner at hm
  split at hm
  · rename_i m' hm'
    obtain rfl := Except.ok.inj hm
    exact h.1.2 _ (Std.ExtTreeMap.mem_toList_iff_getElem?_eq_some.mpr hm')
  · contradiction

theorem fits_of_mem_handles {id : NodeId} {n : Node} (hn : g.node? id = some n)
    {e : NodeKind × NodeId} (he : e ∈ handles n) : fits g e = true := by
  simp only [tokensFit, Bool.and_eq_true, List.all_eq_true] at h
  exact h.2 n (Array.mem_toList_iff.mpr (Array.mem_of_getElem? hn)) e he

theorem fits_of_mentions {id : StmtId} {v : ValueId} (hv : Mentions g id v) :
    fits g (.value, v) = true := by
  cases hv with
  | @top s v hs hv =>
    exact fits_of_mem_handles h (Arena.stmt_eq_ok.mp hs)
      (List.mem_append_right _ (List.mem_map_of_mem hv))
  | operand _ hop =>
    obtain ⟨x, hx, hv⟩ := hop
    exact fits_of_mem_handles h (Arena.value_eq_ok.mp hx)
      (List.mem_append_left _ (List.mem_map_of_mem hv))

theorem fits_of_met {S : StmtId → Prop} {q : Part} (hq : Met g c S q) :
    fits g (q.kind, q.id) = true := by
  cases hq with
  | owner _ hm => exact fits_of_owner h hm
  | value _ hv => exact fits_of_mentions h hv
  | @ref p _ n _ hn hq =>
    refine fits_of_mem_handles h hn.1 ?_
    cases n with
    | stmt s => simp [nodeRefs] at hq
    | value v => exact List.mem_append_right _ (List.mem_map.mpr ⟨q, hq, rfl⟩)
    | _ => exact List.mem_map.mpr ⟨q, hq, rfl⟩

theorem wellKinded_of_tokensFit : WellKinded g c where
  stmt hid := by
    cases hid with
    | node hid => exact exists_stmt_of_fits (fits_of_mem_nodes h hid)
    | target _ hs ht =>
      exact exists_stmt_of_fits (fits_of_mem_handles h (Arena.stmt_eq_ok.mp hs)
        (List.mem_append_left _ (List.mem_map_of_mem ht)))
  part hp := fits_iff.mp (fits_of_met h hp)

end Check

theorem mem_zipIdx_nodes {id : NodeId} {n : Node} (h : g.node? id = some n) :
    (n, id.index) ∈ g.nodes.toList.zipIdx :=
  List.mk_mem_zipIdx_iff_getElem?.mpr (by simpa [Arena.node?] using h)

/-- No token leads back to itself along tokens of earlier positions. -/
theorem not_transGen_of_index_lt {r : NodeId → NodeId → Prop}
    (h : ∀ v w, r v w → w.index < v.index) (v : NodeId) : ¬Relation.TransGen r v v := by
  have hlt {u w : NodeId} (huw : Relation.TransGen r u w) : w.index < u.index := by
    induction huw with
    | single hw => exact h _ _ hw
    | tail _ hw ih => exact Nat.lt_trans (h _ _ hw) ih
  exact fun hv => Nat.lt_irrefl _ (hlt hv)

/-- Values that hold earlier ones only are not nested in themselves. -/
theorem acyclic_of_valuesEarlier (h : valuesEarlier g = true) (P : Part → Prop) : Acyclic g P := by
  refine fun v _ => not_transGen_of_index_lt (fun v w hvw => ?_) v
  obtain ⟨x, hx, hw⟩ := hvw
  have hall := List.all_eq_true.mp h _ (mem_zipIdx_nodes (Arena.value_eq_ok.mp hx))
  simp only [List.all_eq_true, decide_eq_true_eq] at hall
  exact hall w hw

/-- `x := 7` and a jump back to it, in a method without parameters. -/
def loop : Arena :=
  ⟨#[.type (.prim .int), .method ⟨"run", "A", true, ⟨0⟩, []⟩, .value (.localVar "x" ⟨0⟩),
    .value (.intConst 7), .stmt (.assign ⟨2⟩ ⟨3⟩), .stmt (.goto ⟨4⟩)]⟩

/-- The control flow of `loop`. -/
def loopFlow : FlowGraph :=
  (((FlowGraph.empty.insertEdge ⟨4⟩ ⟨5⟩).insertEdge ⟨5⟩ ⟨4⟩).setOwner ⟨4⟩ ⟨1⟩).setOwner ⟨5⟩ ⟨1⟩

theorem tokensFit_loop : tokensFit loop loopFlow = true := by decide +kernel

/-! ## Extraction -/

/-- Every statement has an owner. -/
def Owned (c : FlowGraph) (S : StmtId → Prop) : Prop := ∀ id, S id → ∃ m, c.owner id = .ok m

/-- Every lookup switch has as many labels as targets. -/
def Even (g : Arena) (S : StmtId → Prop) : Prop :=
  ∀ id key labels targets default, S id →
    g.stmt id = .ok (.lookupSwitch key labels targets default) → labels.length = targets.length

theorem checkCases_eq_ok {id : StmtId} {s : Stmt} : checkCases id s = .ok () ↔
    ∀ key labels targets default, s = .lookupSwitch key labels targets default →
      labels.length = targets.length := by
  cases s with
  | lookupSwitch key labels targets default =>
    by_cases heven : labels.length = targets.length
    · simp only [checkCases, heven, if_true, true_iff]
      rintro _ _ _ _ ⟨⟩
      exact heven
    · simp only [checkCases, heven, if_false, reduceCtorEq, false_iff]
      exact fun h => heven (h key labels targets default rfl)
  | _ => simp [checkCases]

theorem owned_of_extract {s : Store} (h : extract g c = .ok s) : Owned c (Reached g c) := by
  obtain ⟨order, a, horder, hexact, _⟩ := exact_of_extract h
  intro id hid
  obtain ⟨_, m, he⟩ := hexact.emitted id (horder.mem.mpr hid)
  exact ⟨m, he.owner⟩

theorem even_of_extract {s : Store} (h : extract g c = .ok s) : Even g (Reached g c) := by
  obtain ⟨order, a, horder, hexact, _⟩ := exact_of_extract h
  intro id key labels targets default hid hs
  obtain ⟨s', _, he⟩ := hexact.emitted id (horder.mem.mpr hid)
  obtain rfl := Except.ok.inj (hs.symm.trans he.stmt)
  exact checkCases_eq_ok.mp he.even key labels targets default rfl

/-- A program with owners and even switches that is blocked is so by a token that does not fit. -/
theorem Blocked.token (howned : Owned c (Reached g c)) (heven : Even g (Reached g c))
    {fault : Fault} (h : Blocked g c (Reached g c) fault) :
    (∃ id, Reached g c id ∧ g.stmt id = .error fault) ∨
      ∃ p, Met g c (Reached g c) p ∧ partNode g p = .error fault := by
  cases h with
  | stmt hid hs => exact .inl ⟨_, hid, hs⟩
  | owner hid hm =>
    obtain ⟨m, hm'⟩ := howned _ hid
    rw [hm'] at hm
    contradiction
  | @uneven id s _ hid hs he =>
    have hok : checkCases id s = .ok () := by
      refine checkCases_eq_ok.mpr ?_
      rintro key labels targets default rfl
      exact heven id key labels targets default hid hs
    rw [hok] at he
    contradiction
  | part hp hn => exact .inr ⟨_, hp, hn⟩

/-- Nothing blocks a well-kinded program with owners and even switches. -/
theorem not_blocked (hkinds : WellKinded g c) (howned : Owned c (Reached g c))
    (heven : Even g (Reached g c)) (fault : Fault) : ¬Blocked g c (Reached g c) fault := by
  intro h
  rcases h.token howned heven with ⟨id, hid, hs⟩ | ⟨p, hp, hn⟩
  · obtain ⟨s, hs'⟩ := hkinds.stmt hid
    rw [hs'] at hs
    contradiction
  · obtain ⟨n, hn'⟩ := hkinds.part hp
    rw [partNode_eq_ok.mpr hn'] at hn
    contradiction

/-- A well-kinded program with owners and even switches, without values nested in themselves, is
extracted. -/
theorem exists_extract (hkinds : WellKinded g c) (hacyclic : Acyclic g (Met g c (Reached g c)))
    (howned : Owned c (Reached g c)) (heven : Even g (Reached g c)) :
    ∃ s, extract g c = .ok s := by
  cases h : extract g c with
  | ok s => exact ⟨s, rfl⟩
  | error failure =>
    obtain ⟨stop, hstop, _⟩ := extract_eq_error.mp h
    exact absurd (blocked_of_pass_error hacyclic hstop) (not_blocked hkinds howned heven _)

/-- The extraction of a well-kinded program without values nested in themselves succeeds exactly if
all statements have owners and all switches are even; it then gives the facts of the program. -/
theorem extract_exact (hkinds : WellKinded g c) (hacyclic : Acyclic g (Met g c (Reached g c))) :
    ((∃ s, extract g c = .ok s) ↔ Owned c (Reached g c) ∧ Even g (Reached g c)) ∧
      ∀ s, extract g c = .ok s →
        ∃ order, Order g c order ∧ Presents s (Fact g c order c.edges) := by
  refine ⟨⟨?_, ?_⟩, fun s hs => ?_⟩
  · rintro ⟨s, hs⟩
    exact ⟨owned_of_extract hs, even_of_extract hs⟩
  · rintro ⟨howned, heven⟩
    exact exists_extract hkinds hacyclic howned heven
  · obtain ⟨order, _, horder, _, hpresents⟩ := exact_of_extract hs
    exact ⟨order, horder, hpresents⟩

theorem reached_loop {id : StmtId} (h : Reached loop loopFlow id) : id = ⟨4⟩ ∨ id = ⟨5⟩ := by
  have hnodes : loopFlow.nodes = [⟨4⟩, ⟨5⟩] := by decide +kernel
  induction h with
  | node hid => simpa [hnodes] using hid
  | @target id t s _ hs ht ih =>
    rcases ih with rfl | rfl
    · obtain rfl : Stmt.assign ⟨2⟩ ⟨3⟩ = s := Except.ok.inj hs
      simp [Stmt.targets] at ht
    · obtain rfl : Stmt.goto ⟨4⟩ = s := Except.ok.inj hs
      exact .inl (List.mem_singleton.mp ht)

theorem owned_loop : Owned loopFlow (Reached loop loopFlow) := by
  intro id hid
  have hm : loopFlow.owner ⟨4⟩ = .ok ⟨1⟩ ∧ loopFlow.owner ⟨5⟩ = .ok ⟨1⟩ := by decide +kernel
  rcases reached_loop hid with rfl | rfl
  · exact ⟨_, hm.1⟩
  · exact ⟨_, hm.2⟩

theorem even_loop : Even loop (Reached loop loopFlow) := by
  intro id key labels targets default hid hs
  rcases reached_loop hid with rfl | rfl <;> cases hs

theorem exists_extract_loop : ∃ s, extract loop loopFlow = .ok s :=
  exists_extract (wellKinded_of_tokensFit tokensFit_loop)
    (acyclic_of_valuesEarlier (by decide) _) owned_loop even_loop

/-- The loop has owners and no switches, so its facts are extracted. -/
theorem extract_exact_loop : ∃ s order, extract loop loopFlow = .ok s ∧ Order loop loopFlow order ∧
    Presents s (Fact loop loopFlow order loopFlow.edges) := by
  obtain ⟨hok, hfacts⟩ := extract_exact (wellKinded_of_tokensFit tokensFit_loop)
    (acyclic_of_valuesEarlier (by decide) _)
  obtain ⟨s, hs⟩ := hok.mpr ⟨owned_loop, even_loop⟩
  obtain ⟨order, horder, hpresents⟩ := hfacts s hs
  exact ⟨s, order, hs, horder, hpresents⟩

end ProgramFacts.Extraction
