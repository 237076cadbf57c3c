import ProgramFacts.Proofs.Edits
import ProgramFacts.Proofs.Rendering

/-! What a program keeps when a constant takes the place of one of its values: the statements that
the registered ones lead to, their targets and labels, the kinds of nodes, and that no value and no type
is nested in itself.  It may lose mentions, and gains those of the constant only. -/

namespace ProgramFacts.Mutation

open Program ProgramFacts.Flow ProgramFacts.Random Extraction

variable {g g' : Arena} {c : FlowGraph} {m : Edit} {v : Value}

/-! ## Both ways to store a value -/

/-- What an operand position holds after the mutation. -/
def Edit.redirect (m : Edit) (id : NodeId) (i : Nat) (w : ValueId) : ValueId :=
  if (⟨id, i⟩ : Slot) = m.slot then m.replacement else w

/-- The node of a token after the mutation, unless it is the replacement. -/
def Edit.patch (m : Edit) (id : NodeId) (n : Node) : Node := n.mapOperands (m.redirect id)

/-- What both ways to store a value have in common: the slot holds the replacement, whose content is
`v`; if this was a node before, only the slot held it; and all else is as before. -/
structure Patched (g g' : Arena) (m : Edit) (v : Value) : Prop where
  content : g'.value m.replacement = .ok v
  others : ∀ id, id ≠ m.replacement → g'.node? id = (g.node? id).map (m.patch id)
  parent_ne : m.slot.parent ≠ m.replacement
  kind : ∀ n, g.node? m.replacement = some n → n.kind = .value
  alone : ∀ h n, g.node? m.replacement = some n → Holds g h m.replacement → h = .operand m.slot

namespace Edit

theorem patch_parent (n : Node) :
    m.patch m.slot.parent n = n.setOperand m.slot.index m.replacement := by
  refine congrArg n.mapOperands (funext fun i => funext fun w => ?_)
  have hslot : (⟨m.slot.parent, i⟩ : Slot) = m.slot ↔ i = m.slot.index :=
    ⟨congrArg Slot.index, fun h => h ▸ rfl⟩
  unfold redirect
  rw [if_congr hslot rfl rfl]

theorem patch_of_ne {id : NodeId} (h : id ≠ m.slot.parent) (n : Node) : m.patch id n = n := by
  have hid : m.redirect id = fun _ w => w :=
    funext fun i => funext fun w => if_neg fun hs => h (congrArg Slot.parent hs)
  rw [patch, hid, n.mapOperands_id]

theorem map_patch_of_ne {id : NodeId} (h : id ≠ m.slot.parent) (o : Option Node) :
    o.map (m.patch id) = o := by
  rw [funext (patch_of_ne h)]
  exact Option.map_id'

theorem getElem?_redirect {id : NodeId} {operands : List ValueId} {i : Nat} {w : ValueId}
    (h : (operands.mapIdx (m.redirect id))[i]? = some w) :
    operands[i]? = some w ∨ (⟨id, i⟩ : Slot) = m.slot ∧ w = m.replacement := by
  rw [List.getElem?_mapIdx, Option.map_eq_some_iff] at h
  obtain ⟨u, hu, rfl⟩ := h
  unfold redirect
  split
  · rename_i hslot
    exact .inr ⟨hslot, rfl⟩
  · exact .inl hu

theorem getElem?_redirect_of_ne {id : NodeId} {operands : List ValueId} {i : Nat} {w : ValueId}
    (hne : (⟨id, i⟩ : Slot) ≠ m.slot) (h : operands[i]? = some w) :
    (operands.mapIdx (m.redirect id))[i]? = some w := by
  rw [List.getElem?_mapIdx, h, Option.map_some, redirect, if_neg hne]

theorem getElem?_redirect_slot {operands : List ValueId} {w : ValueId}
    (h : operands[m.slot.index]? = some w) :
    (operands.mapIdx (m.redirect m.slot.parent))[m.slot.index]? = some m.replacement := by
  rw [List.getElem?_mapIdx, h, Option.map_some, redirect, if_pos rfl]

theorem mem_redirect {id : NodeId} {operands : List ValueId} {w : ValueId}
    (h : w ∈ operands.mapIdx (m.redirect id)) : w ∈ operands ∨ w = m.replacement := by
  obtain ⟨i, hi⟩ := List.mem_iff_getElem?.mp h
  rcases getElem?_redirect hi with hw | ⟨_, hw⟩
  · exact .inl (List.mem_of_getElem? hw)
  · exact .inr hw

@[simp] theorem kind_patch (id : NodeId) (n : Node) : (m.patch id n).kind = n.kind :=
  n.kind_mapOperands _

@[simp] theorem nodeRefs_patch (id : NodeId) (n : Node) : nodeRefs (m.patch id n) = nodeRefs n := by
  cases n with
  | value x => cases x <;> rfl
  | _ => rfl

end Edit

theorem Rewired.patched (h : Rewired g g' m v) : Patched g g' m v := by
  have hnone : g.node? m.replacement = none :=
    Array.getElem?_eq_none (Nat.le_of_eq h.index.symm)
  obtain ⟨n, hn, hn'⟩ := h.parent
  have hno (k : Node) (hk : g.node? m.replacement = some k) : False := by
    rw [hnone] at hk
    contradiction
  constructor
  · exact h.content
  · intro id hid
    by_cases hp : id = m.slot.parent
    · rw [hp, hn, hn', Option.map_some, Edit.patch_parent]
    · rw [h.others id hid hp, Edit.map_patch_of_ne hp]
  · exact fun heq => hno n (heq ▸ hn)
  · exact fun k hk => (hno k hk).elim
  · exact fun _ k hk => (hno k hk).elim

/-- The slot holds the node that is overwritten before and after, unless that holds itself. -/
theorem Overwritten.patched (h : Overwritten g g' m v) {x : Value}
    (hx : g.value m.replaced = .ok x) (hloop : ¬Operand g m.replaced m.replaced) :
    Patched g g' m v := by
  have hx := Arena.value_eq_ok.mp hx
  obtain ⟨n, hn, hv⟩ := Arena.slot_eq_ok.mp ((h.alone _).mpr rfl)
  have hne : m.slot.parent ≠ m.replaced := by
    intro heq
    obtain rfl : Node.value x = n := Option.some.inj (hx.symm.trans (heq ▸ hn))
    exact hloop ⟨x, Arena.value_eq_ok.mpr hx, List.mem_of_getElem? hv⟩
  -- the slot holds the same token as before, so the patch of its parent changes nothing
  have hpatch (id : NodeId) (k : Node) (hk : g.node? id = some k) : m.patch id k = k := by
    by_cases hp : id = m.slot.parent
    · subst hp
      obtain rfl := Option.some.inj (hn.symm.trans hk)
      rw [Edit.patch_parent, h.same, Node.setOperand_eq_self hv]
    · exact Edit.patch_of_ne hp k
  constructor
  · rw [h.same]
    exact h.content
  · intro id hid
    rw [h.others id (h.same ▸ hid)]
    cases hk : g.node? id with
    | none => rfl
    | some k => rw [Option.map_some, hpatch id k hk]
  · rwa [h.same]
  · intro k hk
    obtain rfl := Option.some.inj (hx.symm.trans (h.same ▸ hk))
    rfl
  · exact fun holder _ _ hholds => (h.alone holder).mp (h.same ▸ hholds)

/-! ## Nodes -/

namespace Patched

variable (h : Patched g g' m v)
include h

theorem node?_replacement : g'.node? m.replacement = some (.value v) :=
  Arena.value_eq_ok.mp h.content

theorem node?_eq {id : NodeId} {n : Node} (hid : id ≠ m.replacement) (hn : g.node? id = some n) :
    g'.node? id = some (m.patch id n) := by
  rw [h.others id hid, hn, Option.map_some]

theorem exists_node {id : NodeId} {n' : Node} (hn' : g'.node? id = some n') :
    (id = m.replacement ∧ n' = .value v) ∨ ∃ n, g.node? id = some n ∧ n' = m.patch id n := by
  by_cases hid : id = m.replacement
  · subst hid
    exact .inl ⟨rfl, Option.some.inj (hn'.symm.trans h.node?_replacement)⟩
  · rw [h.others id hid, Option.map_eq_some_iff] at hn'
    obtain ⟨n, hn, rfl⟩ := hn'
    exact .inr ⟨n, hn, rfl⟩

theorem ne_of_kind {id : NodeId} {n : Node} (hn : g.node? id = some n) (hk : n.kind ≠ .value) :
    id ≠ m.replacement := by
  rintro rfl
  exact hk (h.kind n hn)

theorem exists_kind {id : NodeId} {n : Node} (hn : g.node? id = some n) :
    ∃ n', g'.node? id = some n' ∧ n'.kind = n.kind := by
  by_cases hid : id = m.replacement
  · subst hid
    exact ⟨_, h.node?_replacement, (h.kind n hn).symm⟩
  · exact ⟨_, h.node?_eq hid hn, n.kind_mapOperands _⟩

theorem node?_of_entity {id : NodeId} {n : Node} (hn : g'.node? id = some n)
    (hs : n.kind ≠ .stmt) (hv : n.kind ≠ .value) : g.node? id = some n := by
  rcases h.exists_node hn with ⟨_, rfl⟩ | ⟨k, hk, rfl⟩
  · exact absurd rfl hv
  · cases k with
    | stmt s => exact absurd rfl hs
    | value x => exact absurd rfl hv
    | _ => exact hk

theorem field {id : FieldId} {f : Field} (hf : g'.field id = .ok f) : g.field id = .ok f :=
  Arena.field_eq_ok.mpr
    (h.node?_of_entity (Arena.field_eq_ok.mp hf) (by simp [Node.kind]) (by simp [Node.kind]))

theorem type {id : TypeId} {t : Ty} (ht : g'.type id = .ok t) : g.type id = .ok t :=
  Arena.type_eq_ok.mpr
    (h.node?_of_entity (Arena.type_eq_ok.mp ht) (by simp [Node.kind]) (by simp [Node.kind]))

theorem stmt_eq_ok {id : StmtId} {s' : Stmt} :
    g'.stmt id = .ok s' ↔ ∃ s, g.stmt id = .ok s ∧ s' = s.mapOperands (m.redirect id) := by
  simp only [Arena.stmt_eq_ok]
  constructor
  · intro hs'
    rcases h.exists_node hs' with ⟨_, hv⟩ | ⟨n, hn, hs⟩
    · contradiction
    · cases n with
      | stmt s => exact ⟨s, hn, Node.stmt.inj hs⟩
      | _ => contradiction
  · rintro ⟨s, hs, rfl⟩
    exact h.node?_eq (h.ne_of_kind hs (by simp [Node.kind])) hs

theorem value_eq_ok {id : ValueId} (hid : id ≠ m.replacement) {x' : Value} :
    g'.value id = .ok x' ↔ ∃ x, g.value id = .ok x ∧ x' = x.mapOperands (m.redirect id) := by
  simp only [Arena.value_eq_ok]
  constructor
  · intro hx'
    rcases h.exists_node hx' with ⟨hr, _⟩ | ⟨n, hn, hx⟩
    · exact absurd hr hid
    · cases n with
      | value x => exact ⟨x, hn, Node.value.inj hx⟩
      | _ => contradiction
  · rintro ⟨x, hx, rfl⟩
    exact h.node?_eq hid hx

/-! ## What the registered statements lead to -/

theorem reached {id : StmtId} : Reached g' c id ↔ Reached g c id := by
  constructor
  · intro hid
    induction hid with
    | node hid => exact .node hid
    | target _ hs' ht ih =>
      obtain ⟨s, hs, rfl⟩ := h.stmt_eq_ok.mp hs'
      rw [Stmt.targets_mapOperands] at ht
      exact ih.target hs ht
  · intro hid
    induction hid with
    | node hid => exact .node hid
    | @target id t s _ hs ht ih =>
      rw [← s.targets_mapOperands (m.redirect id)] at ht
      exact ih.target (h.stmt_eq_ok.mpr ⟨s, hs, rfl⟩) ht

theorem owned (howned : Owned c (Reached g c)) : Owned c (Reached g' c) :=
  fun id hid => howned id (h.reached.mp hid)

theorem even (heven : Even g (Reached g c)) : Even g' (Reached g' c) := by
  intro id key labels targets default hid hs'
  obtain ⟨s, hs, heq⟩ := h.stmt_eq_ok.mp hs'
  cases s with
  | lookupSwitch key' labels' targets' default' =>
    obtain ⟨_, rfl, rfl, _⟩ := Stmt.lookupSwitch.inj heq
    exact heven id key' labels targets default' (h.reached.mp hid) hs
  | _ => cases heq

theorem resolves {p : Part} {n : Node} (hn : Resolves g p n) : ∃ n', Resolves g' p n' := by
  obtain ⟨n', hn', hkind⟩ := h.exists_kind hn.1
  exact ⟨n', hn', hkind.trans hn.2⟩

variable (hleaf : v.operands = [])
include hleaf

theorem not_operand (w : ValueId) : ¬Operand g' m.replacement w := by
  rintro ⟨x, hx, hw⟩
  obtain rfl := Except.ok.inj (h.content.symm.trans hx)
  rw [hleaf] at hw
  exact List.not_mem_nil hw

theorem operand {u w : ValueId} (hw : Operand g' u w) : Operand g u w ∨ w = m.replacement := by
  have hu : u ≠ m.replacement := by
    rintro rfl
    exact h.not_operand hleaf w hw
  obtain ⟨x', hx', hw⟩ := hw
  obtain ⟨x, hx, rfl⟩ := (h.value_eq_ok hu).mp hx'
  rw [Value.operands_mapOperands] at hw
  exact (Edit.mem_redirect hw).imp_left fun hw => ⟨x, hx, hw⟩

theorem mentions {id : StmtId} {w : ValueId} (hw : Mentions g' id w) :
    Mentions g id w ∨ w = m.replacement := by
  induction hw with
  | top hs' hw =>
    obtain ⟨s, hs, rfl⟩ := h.stmt_eq_ok.mp hs'
    rw [Stmt.operands_mapOperands, Stmt.labels_mapOperands] at hw
    rcases List.mem_append.mp hw with hw | hw
    · exact (Edit.mem_redirect hw).imp_left fun hw => .top hs (List.mem_append_left _ hw)
    · exact .inl (.top hs (List.mem_append_right _ hw))
  | @operand u w _ hop ih =>
    rcases h.operand hleaf hop with hop' | hw
    · have hu : u ≠ m.replacement := by
        rintro rfl
        exact h.not_operand hleaf w hop
      exact .inl ((ih.resolve_right hu).operand hop')
    · exact .inr hw

theorem nested {u w : ValueId} (hw : Relation.TransGen (Operand g') u w) :
    Relation.TransGen (Operand g) u w ∨ w = m.replacement := by
  induction hw with
  | single hop => exact (h.operand hleaf hop).imp_left .single
  | @tail x w _ hop ih =>
    rcases h.operand hleaf hop with hop' | hw
    · have hx : x ≠ m.replacement := by
        rintro rfl
        exact h.not_operand hleaf w hop
      exact .inl ((ih.resolve_right hx).tail hop')
    · exact .inr hw

theorem acyclic (hacyclic : Acyclic g (Met g c (Reached g c))) :
    Acyclic g' (Met g' c (Reached g' c)) := by
  intro w hmet hcycle
  have hw : w ≠ m.replacement := by
    rintro rfl
    obtain ⟨u, hop, _⟩ := Relation.TransGen.head'_iff.mp hcycle
    exact h.not_operand hleaf u hop
  obtain ⟨id, hid, hmentions⟩ := hmet.mentions
  have hbefore := (h.mentions hleaf hmentions).resolve_right hw
  exact hacyclic w (.value (h.reached.mp hid) hbefore) ((h.nested hleaf hcycle).resolve_right hw)

variable (hrefs : valueRefs v = [])
include hrefs

theorem met {p : Part} (hp : Met g' c (Reached g' c) p) :
    Met g c (Reached g c) p ∨ p = .value m.replacement := by
  induction hp with
  | owner hid hm => exact .inl (.owner (h.reached.mp hid) hm)
  | value hid hw =>
    exact (h.mentions hleaf hw).imp (.value (h.reached.mp hid)) (congrArg Part.value)
  | @ref p q n' _ hn' hq ih =>
    obtain ⟨hnode, hkind⟩ := hn'
    by_cases hid : p.id = m.replacement
    · rw [hid, h.node?_replacement] at hnode
      obtain rfl := Option.some.inj hnode
      rw [nodeRefs, hrefs] at hq
      contradiction
    · rw [h.others _ hid, Option.map_eq_some_iff] at hnode
      obtain ⟨n, hn, rfl⟩ := hnode
      rw [Edit.nodeRefs_patch] at hq
      rw [Edit.kind_patch] at hkind
      have hp : p ≠ .value m.replacement := fun hp => hid (congrArg Part.id hp)
      exact .inl (.ref (ih.resolve_right hp) ⟨hn, hkind⟩ hq)

theorem acyclicTypes (htypes : AcyclicTypes g (Met g c (Reached g c))) :
    AcyclicTypes g' (Met g' c (Reached g' c)) := by
  intro t hmet hloop
  have helement : g'.Element ≤ g.Element := fun _ _ he => h.type he
  have hbefore := (h.met hleaf hrefs hmet).resolve_right (by simp)
  exact htypes t hbefore (Relation.TransGen.mono helement _ _ hloop)

theorem wellKinded (hkinds : WellKinded g c) : WellKinded g' c := by
  constructor
  · intro id hid
    obtain ⟨s, hs⟩ := hkinds.stmt (h.reached.mp hid)
    exact ⟨_, h.stmt_eq_ok.mpr ⟨s, hs, rfl⟩⟩
  · intro p hp
    rcases h.met hleaf hrefs hp with hp | rfl
    · obtain ⟨n, hn⟩ := hkinds.part hp
      exact h.resolves hn
    · exact ⟨.value v, h.node?_replacement, rfl⟩

end Patched

/-! ## Mutations -/

section Applies

variable {s : Mutator} {rule : Rule}

theorem Applies.acyclic_replaced (h : Applies s g g' c m rule v)
    (hacyclic : Acyclic g (Met g c (Reached g c))) :
    ¬Relation.TransGen (Operand g) m.replaced m.replaced := by
  obtain ⟨ancestors, hplace, _⟩ := h.place
  obtain ⟨id, hid, hmentions, _⟩ := hplace.mentions
  exact hacyclic m.replaced (.value hid hmentions)

theorem Applies.patched (h : Applies s g g' c m rule v) (hsize : g.size < UInt32.size)
    (hacyclic : Acyclic g (Met g c (Reached g c))) : Patched g g' m v := by
  rcases h.rewired_or_overwritten hsize with hrewired | hoverwritten
  · exact hrewired.patched
  · obtain ⟨x, hx⟩ := h.resolves
    exact hoverwritten.patched hx fun hop => h.acyclic_replaced hacyclic (.single hop)

end Applies

end ProgramFacts.Mutation
