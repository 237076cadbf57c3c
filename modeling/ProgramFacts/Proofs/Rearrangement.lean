import ProgramFacts.Proofs.MinimalDelta

/-! Extraction does not depend on the order of registration.  Graphs with the same statements, edges
and owners lead to the same nodes, although a pass begins the statements in different orders.  That
order shows only in the owner of a variable, and not even there if all statements that mention the
variable have one owner. -/

namespace ProgramFacts

open Program ProgramFacts.Fact ProgramFacts.Flow Mutation

/-- There is no change between a store and itself. -/
theorem Fact.Delta.between_self (s : Store) : Delta.between (some s) (some s) = ⟨∅⟩ := by
  have hget (name : String) : (Delta.between (some s) (some s)).relations[name]? = none := by
    have := Delta.get?_between (some s) (some s) name
    rwa [if_pos (RelationDelta.isEmpty_between.mpr rfl)] at this
  generalize Delta.between (some s) (some s) = d at hget
  obtain ⟨relations⟩ := d
  exact congrArg Delta.mk (Std.ExtTreeMap.ext_getElem? fun {name} => by simp [hget name])

namespace Extraction

/-- The graphs have the same statements, edges and owners, whatever the orders of registration. -/
structure SameContent (c c' : FlowGraph) : Prop where
  nodes : ∀ {id}, id ∈ c.nodes ↔ id ∈ c'.nodes
  edges : ∀ {e}, e ∈ c.edges ↔ e ∈ c'.edges
  owners : c.owners = c'.owners

namespace SameContent

variable {g : Arena} {c c' : FlowGraph}

theorem symm (h : SameContent c c') : SameContent c' c :=
  ⟨h.nodes.symm, h.edges.symm, h.owners.symm⟩

theorem owner_eq (h : SameContent c c') (id : StmtId) : c.owner id = c'.owner id := by
  unfold FlowGraph.owner
  rw [h.owners]

theorem reached (h : SameContent c c') {id : StmtId} (hid : Reached g c id) : Reached g c' id := by
  induction hid with
  | node hid => exact .node (h.nodes.mp hid)
  | target _ hs ht ih => exact ih.target hs ht

theorem met (h : SameContent c c') {S S' : StmtId → Prop} (hS : ∀ id, S id → S' id) {p : Part}
    (hp : Met g c S p) : Met g c' S' p := by
  induction hp with
  | owner hid hm => exact .owner (hS _ hid) (h.owner_eq _ ▸ hm)
  | value hid hv => exact .value (hS _ hid) hv
  | ref _ hn hq ih => exact .ref ih hn hq

theorem wellKinded (h : SameContent c c') (hkinds : WellKinded g c) : WellKinded g c' :=
  ⟨fun hid => hkinds.stmt (h.symm.reached hid),
    fun hp => hkinds.part (h.symm.met (fun _ => h.symm.reached) hp)⟩

theorem acyclic (h : SameContent c c') (hacyclic : Acyclic g (Met g c (Reached g c))) :
    Acyclic g (Met g c' (Reached g c')) :=
  fun v hv => hacyclic v (h.symm.met (fun _ => h.symm.reached) hv)

theorem owned (h : SameContent c c') (howned : Owned c (Reached g c)) :
    Owned c' (Reached g c') := by
  intro id hid
  obtain ⟨m, hm⟩ := howned id (h.symm.reached hid)
  exact ⟨m, h.owner_eq id ▸ hm⟩

theorem even (h : SameContent c c') (heven : Even g (Reached g c)) : Even g (Reached g c') :=
  fun id key labels targets default hid => heven id key labels targets default (h.symm.reached hid)

theorem localsOwned (h : SameContent c c') (hlocals : LocalsOwned g c) : LocalsOwned g c' := by
  intro v name ty id id' m m' hv hid hid' hmention hmention' hm hm'
  rw [← h.owner_eq] at hm hm'
  exact hlocals v name ty id id' m m' hv (h.symm.reached hid) (h.symm.reached hid') hmention
    hmention' hm hm'

theorem mem_order (h : SameContent c c') {order order' : List StmtId} (horder : Order g c order)
    (horder' : Order g c' order') : ∀ id ∈ order, id ∈ order' :=
  fun _ hid => horder'.mem.mpr (h.reached (horder.mem.mp hid))

/-- Only the row of a variable's owner depends on which statement comes first, and that row is the
same for all statements that mention the variable. -/
theorem fact (h : SameContent c c') (hlocals : LocalsOwned g c) (howned : Owned c (Reached g c))
    {order order' : List StmtId} (horder : Order g c order) (horder' : Order g c' order')
    {rel : Rel} {t : Tuple} (hfact : Fact g c order c.edges rel t) :
    Fact g c' order' c'.edges rel t := by
  have hmem := h.mem_order horder horder'
  cases hfact with
  | unit hid => exact .unit (hmem _ hid)
  | methodOfUnit hid hm => exact .methodOfUnit (hmem _ hid) (h.owner_eq _ ▸ hm)
  | stmt hid hs hm hrow => exact .stmt (hmem _ hid) hs (h.owner_eq _ ▸ hm) hrow
  | tableCase hid hs ht => exact .tableCase (hmem _ hid) hs ht
  | lookupCase hid hs hl ht => exact .lookupCase (hmem _ hid) hs hl ht
  | edge he => exact .edge (h.edges.mp he)
  | value hid hv => exact .value (hmem _ hid) hv
  | definition hid hv hx hm hrow =>
    exact .definition (hmem _ hid) hv hx (h.owner_eq _ ▸ hm) hrow
  | argument hid hv hx ha => exact .argument (hmem _ hid) hv hx ha
  | size hid hv hx hz => exact .size (hmem _ hid) hv hx hz
  | methodOfLocal hfirst hx hm =>
    exact fact_methodOfLocal (h.localsOwned hlocals) (h.owned howned) horder' (hmem _ hfirst.mem) hx
      (h.owner_eq _ ▸ hm) hfirst.mentions
  | method hp hm => exact .method (h.met hmem hp) hm
  | parameter hp hm ht => exact .parameter (h.met hmem hp) hm ht
  | field hp hf => exact .field (h.met hmem hp) hf
  | type hp ht hrow => exact .type (h.met hmem hp) ht hrow

theorem extract_eq (h : SameContent c c') (hlocals : LocalsOwned g c) {s s' : Store}
    (hs : extract g c = .ok s) (hs' : extract g c' = .ok s') : s = s' := by
  obtain ⟨order, _, horder, _, hpresents⟩ := exact_of_extract hs
  obtain ⟨order', _, horder', _, hpresents'⟩ := exact_of_extract hs'
  refine hpresents.unique (hpresents'.congr fun rel t => ⟨fun hfact => ?_, fun hfact => ?_⟩)
  · exact h.symm.fact (h.localsOwned hlocals) (owned_of_extract hs') horder' horder hfact
  · exact h.fact hlocals (owned_of_extract hs) horder horder' hfact

theorem exists_extract (h : SameContent c c') (hkinds : WellKinded g c)
    (hacyclic : Acyclic g (Met g c (Reached g c))) {s : Store} (hs : extract g c = .ok s) :
    ∃ s', extract g c' = .ok s' :=
  Extraction.exists_extract (h.wellKinded hkinds) (h.acyclic hacyclic)
    (h.owned (owned_of_extract hs)) (h.even (even_of_extract hs))

end SameContent

/-- If all tokens of a program fit, no value is nested in itself, and every variable is mentioned by
the statements of one method only, then extraction fails for both of two graphs with the same
content or gives the same facts, with the same text and no change from one to the other. -/
theorem registration_order_irrelevant {g : Arena} {c c' : FlowGraph} (h : SameContent c c')
    (hkinds : WellKinded g c) (hacyclic : Acyclic g (Met g c (Reached g c)))
    (hlocals : LocalsOwned g c) :
    (∃ failure failure', extract g c = .error failure ∧ extract g c' = .error failure') ∨
      ∃ s s', extract g c = .ok s ∧ extract g c' = .ok s' ∧ s = s' ∧
        s.serialize = s'.serialize ∧ Delta.between (some s) (some s') = ⟨∅⟩ := by
  cases hs : extract g c with
  | ok s =>
    obtain ⟨s', hs'⟩ := h.exists_extract hkinds hacyclic hs
    obtain rfl := h.extract_eq hlocals hs hs'
    exact .inr ⟨s, s, rfl, hs', rfl, rfl, Delta.between_self s⟩
  | error failure =>
    cases hs' : extract g c' with
    | error failure' => exact .inl ⟨failure, failure', rfl, rfl⟩
    | ok s' =>
      obtain ⟨s, hok⟩ :=
        h.symm.exists_extract (h.wellKinded hkinds) (h.acyclic hacyclic) hs'
      rw [hs] at hok
      contradiction

/-- The control flow of `loop`, registered from the jump on. -/
def loopFlowFromJump : FlowGraph :=
  (((FlowGraph.empty.insertEdge ⟨5⟩ ⟨4⟩).insertEdge ⟨4⟩ ⟨5⟩).setOwner ⟨5⟩ ⟨1⟩).setOwner ⟨4⟩ ⟨1⟩

theorem sameContent_loop : SameContent loopFlow loopFlowFromJump where
  nodes {id} := by
    have hnodes : loopFlow.nodes = [⟨4⟩, ⟨5⟩] ∧ loopFlowFromJump.nodes = [⟨5⟩, ⟨4⟩] := by
      decide +kernel
    simp [hnodes, or_comm]
  edges {e} := by
    have hedges : loopFlow.edges = [(⟨4⟩, ⟨5⟩), (⟨5⟩, ⟨4⟩)] ∧
        loopFlowFromJump.edges = [(⟨5⟩, ⟨4⟩), (⟨4⟩, ⟨5⟩)] := by decide +kernel
    simp [hedges, or_comm]
  owners := by decide +kernel

/-- The loop has the same facts when its jump, which reaches the assignment as a target, is
registered before it. -/
theorem registration_order_irrelevant_loop : loopFlow.nodes ≠ loopFlowFromJump.nodes ∧
    ∃ s, extract loop loopFlow = .ok s ∧ extract loop loopFlowFromJump = .ok s := by
  obtain ⟨s, hs⟩ := exists_extract_loop
  refine ⟨by decide +kernel, s, hs, ?_⟩
  rcases registration_order_irrelevant sameContent_loop (wellKinded_of_tokensFit tokensFit_loop)
    (acyclic_of_valuesEarlier (by decide) _) localsOwned_loop with ⟨_, _, hfail, _⟩ | hok
  · rw [hs] at hfail
    contradiction
  · obtain ⟨s₁, s₂, hs₁, hs₂, rfl, _⟩ := hok
    obtain rfl := Except.ok.inj (hs.symm.trans hs₁)
    exact hs₂

end Extraction

end ProgramFacts
