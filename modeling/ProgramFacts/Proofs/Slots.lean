import Mathlib.Data.List.Nodup
import ProgramFacts.Program.Arena

/-! What one operand of one node may hold, and where a value is held.  Putting a value into a slot
changes one operand and keeps the rest of its node; the places that hold a value, operands and case
labels, are as many as its reference count says. -/

namespace ProgramFacts.Program

/-! ## The operands of a node -/

theorem mapIdx_snd {α : Type} (l : List α) : l.mapIdx (fun _ x => x) = l :=
  List.ext_getElem? fun i => by simp

theorem mapIdx_eq_set {α : Type} (l : List α) (i : Nat) (a : α) :
    l.mapIdx (fun j x => if j = i then a else x) = l.set i a := by
  refine List.ext_getElem? fun j => ?_
  rw [List.getElem?_mapIdx, List.getElem?_set]
  by_cases h : j = i
  · subst h
    by_cases hj : j < l.length <;> simp [hj]
  · simp [h, Ne.symm h]

namespace Value

theorem mapOperands_mapOperands (f f' : Nat → ValueId → ValueId) (v : Value) :
    (v.mapOperands f).mapOperands f' = v.mapOperands fun i x => f' i (f i x) := by
  cases v <;> simp [mapOperands, List.mapIdx_mapIdx, Function.comp_def]

theorem mapOperands_id (v : Value) : v.mapOperands (fun _ x => x) = v := by
  cases v <;> simp [mapOperands, mapIdx_snd]

@[simp] theorem mapOperands_eq_intConst {f : Nat → ValueId → ValueId} {v : Value} {k : Int32} :
    v.mapOperands f = .intConst k ↔ v = .intConst k := by
  cases v <;> simp [mapOperands]

theorem mapOperands_eq_of_operands {f f' : Nat → ValueId → ValueId} {v : Value}
    (h : v.operands.mapIdx f = v.operands.mapIdx f') : v.mapOperands f = v.mapOperands f' := by
  cases v <;> simp_all [operands, mapOperands]

end Value

namespace Stmt

theorem mapOperands_mapOperands (f f' : Nat → ValueId → ValueId) (s : Stmt) :
    (s.mapOperands f).mapOperands f' = s.mapOperands fun i x => f' i (f i x) := by
  cases s <;> rfl

theorem mapOperands_id (s : Stmt) : s.mapOperands (fun _ x => x) = s := by
  cases s <;> rfl

theorem mapOperands_eq_of_operands {f f' : Nat → ValueId → ValueId} {s : Stmt}
    (h : s.operands.mapIdx f = s.operands.mapIdx f') : s.mapOperands f = s.mapOperands f' := by
  cases s <;> simp_all [operands, mapOperands]

@[simp] theorem labels_mapOperands (f : Nat → ValueId → ValueId) (s : Stmt) :
    (s.mapOperands f).labels = s.labels := by
  cases s <;> rfl

@[simp] theorem targets_mapOperands (f : Nat → ValueId → ValueId) (s : Stmt) :
    (s.mapOperands f).targets = s.targets := by
  cases s <;> rfl

end Stmt

namespace Node

theorem mapOperands_mapOperands (f f' : Nat → ValueId → ValueId) (n : Node) :
    (n.mapOperands f).mapOperands f' = n.mapOperands fun i x => f' i (f i x) := by
  cases n with
  | stmt s => exact congrArg stmt (s.mapOperands_mapOperands f f')
  | value v => exact congrArg value (v.mapOperands_mapOperands f f')
  | _ => rfl

theorem mapOperands_id (n : Node) : n.mapOperands (fun _ x => x) = n := by
  cases n with
  | stmt s => exact congrArg stmt s.mapOperands_id
  | value v => exact congrArg value v.mapOperands_id
  | _ => rfl

theorem mapOperands_eq_of_operands {f f' : Nat → ValueId → ValueId} {n : Node}
    (h : n.operands.mapIdx f = n.operands.mapIdx f') : n.mapOperands f = n.mapOperands f' := by
  cases n with
  | stmt s => exact congrArg stmt (Stmt.mapOperands_eq_of_operands h)
  | value v => exact congrArg value (Value.mapOperands_eq_of_operands h)
  | _ => rfl

@[simp] theorem labels_mapOperands (f : Nat → ValueId → ValueId) (n : Node) :
    (n.mapOperands f).labels = n.labels := by
  cases n with
  | stmt s => exact s.labels_mapOperands f
  | _ => rfl

/-- What is left of a node without its operands. -/
def skeleton (n : Node) : Node := n.mapOperands fun _ _ => ⟨0⟩

@[simp] theorem skeleton_mapOperands (f : Nat → ValueId → ValueId) (n : Node) :
    (n.mapOperands f).skeleton = n.skeleton := mapOperands_mapOperands f _ n

/-- A node with the skeleton of another one is the latter with its own operands. -/
theorem eq_mapOperands_of_skeleton {n n' : Node} (h : n'.skeleton = n.skeleton) :
    n' = n.mapOperands fun i _ => n'.operands.getD i ⟨0⟩ := by
  have hself : n'.mapOperands (fun i _ => n'.operands.getD i ⟨0⟩) = n' := by
    refine Eq.trans (mapOperands_eq_of_operands ?_) n'.mapOperands_id
    refine List.ext_getElem? fun i => ?_
    cases hi : n'.operands[i]? <;> simp [hi]
  have hskeleton (k : Node) : k.skeleton.mapOperands (fun i _ => n'.operands.getD i ⟨0⟩) =
      k.mapOperands fun i _ => n'.operands.getD i ⟨0⟩ := k.mapOperands_mapOperands _ _
  rw [← hskeleton n, ← h, hskeleton, hself]

/-- Puts a value into one operand position; the node keeps the rest. -/
def setOperand (n : Node) (i : Nat) (v : ValueId) : Node :=
  n.mapOperands fun j x => if j = i then v else x

@[simp] theorem kind_setOperand (n : Node) (i : Nat) (v : ValueId) :
    (n.setOperand i v).kind = n.kind := kind_mapOperands _ n

theorem setOperand_setOperand (n : Node) (i : Nat) (v w : ValueId) :
    (n.setOperand i v).setOperand i w = n.setOperand i w := by
  unfold setOperand
  rw [mapOperands_mapOperands]
  refine mapOperands_eq_of_operands (congrArg (n.operands.mapIdx ·) ?_)
  funext j x
  split <;> rfl

theorem setOperand_eq_self {n : Node} {i : Nat} {v : ValueId} (h : n.operands[i]? = some v) :
    n.setOperand i v = n := by
  refine Eq.trans (mapOperands_eq_of_operands ?_) n.mapOperands_id
  obtain ⟨hi, rfl⟩ := List.getElem?_eq_some_iff.mp h
  rw [mapIdx_eq_set, List.set_getElem_self, mapIdx_snd]

end Node

/-! ## Look-ups after a change -/

namespace Arena

variable {g : Arena}

theorem index_lt_of_node? {id : NodeId} {n : Node} (h : g.node? id = some n) : id.index < g.size :=
  (Array.getElem?_eq_some_iff.mp h).1

@[simp] theorem size_put (id : NodeId) (n : Node) : (g.put id n).size = g.size :=
  Array.size_setIfInBounds

theorem node?_put_same {id : NodeId} (h : id.index < g.size) (n : Node) :
    (g.put id n).node? id = some n :=
  Array.getElem?_setIfInBounds_self_of_lt h

theorem node?_put_ne {id other : NodeId} (h : other ≠ id) (n : Node) :
    (g.put id n).node? other = g.node? other :=
  Array.getElem?_setIfInBounds_ne fun hi => h (NodeId.ext_index hi.symm)

@[simp] theorem size_alloc (n : Node) : (g.alloc n).2.size = g.size + 1 := Array.size_push n

theorem node?_alloc_same (h : g.size < UInt32.size) (n : Node) :
    (g.alloc n).2.node? (.ofIndex g.size) = some n := by
  unfold node?
  rw [NodeId.index_ofIndex h]
  exact Array.getElem?_push_size

theorem node?_alloc_ne {id : NodeId} (h : id.index ≠ g.size) (n : Node) :
    (g.alloc n).2.node? id = g.node? id := by
  exact (Array.getElem?_push ..).trans (if_neg h)

theorem overwriteValue_eq_ok {g' : Arena} {id : ValueId} {v old : Value}
    (h : g.overwriteValue id v = .ok (old, g')) :
    (∃ x, g.value id = .ok x) ∧ g' = g.put id (.value v) := by
  unfold overwriteValue at h
  cases hx : g.value id with
  | error fault => simp [hx, bind, Except.bind] at h
  | ok x =>
    rw [hx] at h
    exact ⟨⟨x, rfl⟩, (Prod.mk.inj (Except.ok.inj h)).2.symm⟩

theorem replaceSlot_eq_ok {g' : Arena} {slot : Slot} {v old : ValueId}
    (h : g.replaceSlot slot v = .ok (old, g')) :
    ∃ n, g.node? slot.parent = some n ∧ g' = g.put slot.parent (n.setOperand slot.index v) := by
  unfold replaceSlot node at h
  cases hx : g.value v with
  | error fault => simp [hx, bind, Except.bind] at h
  | ok x =>
    cases hn : g.node? slot.parent with
    | none => simp [hx, hn, bind, Except.bind] at h
    | some n =>
      rw [hx, hn] at h
      cases hv : n.operands[slot.index]? with
      | none => simp [hv, bind, Except.bind] at h
      | some w =>
        simp only [bind, Except.bind, hv] at h
        exact ⟨n, rfl, (Prod.mk.inj (Except.ok.inj h)).2.symm⟩

theorem slot_eq_ok {slot : Slot} {v : ValueId} :
    g.slot slot = .ok v ↔ ∃ n, g.node? slot.parent = some n ∧ n.operands[slot.index]? = some v := by
  unfold Arena.slot Arena.node
  cases hn : g.node? slot.parent with
  | none => simp [bind, Except.bind]
  | some n => cases hv : n.operands[slot.index]? <;> simp [bind, Except.bind, hv, pure, Except.pure]

end Arena

/-! ## The places that hold a value -/

/-- A place that may hold a value: an operand, or a case label. -/
inductive Holder
  | operand (slot : Slot)
  | label (parent : NodeId) (index : Nat)
deriving DecidableEq, Repr

def Holder.parent : Holder → NodeId
  | .operand slot => slot.parent
  | .label parent _ => parent

def Holds (g : Arena) : Holder → ValueId → Prop
  | .operand slot, v => g.slot slot = .ok v
  | .label parent i, v => ∃ n, g.node? parent = some n ∧ n.labels[i]? = some v

/-- The entries of a list, each with a name for its position. -/
def named {α β : Type} (name : Nat → α) (l : List β) : List (α × β) :=
  l.mapIdx fun i b => (name i, b)

/-- Two places at least hold the value. -/
def HeldTwice (g : Arena) (v : ValueId) : Prop := ∃ h h', h ≠ h' ∧ Holds g h v ∧ Holds g h' v

/-- The places in a node, with what they hold. -/
def Node.holders (id : NodeId) (n : Node) : List (Holder × ValueId) :=
  named (fun i => .operand ⟨id, i⟩) n.operands ++ named (.label id) n.labels

def Arena.holders (g : Arena) : List (Holder × ValueId) :=
  g.nodes.toList.zipIdx.flatMap fun e => e.1.holders (.ofIndex e.2)

section Named

variable {α β : Type} {name : Nat → α} {l : List β}

theorem map_snd_named : (named name l).map Prod.snd = l :=
  List.ext_getElem? fun i => by simp [named, Function.comp_def]

theorem mem_named {e : α × β} : e ∈ named name l ↔ ∃ i, l[i]? = some e.2 ∧ e.1 = name i := by
  unfold named
  rw [List.mem_mapIdx]
  constructor
  · rintro ⟨i, hi, rfl⟩
    exact ⟨i, List.getElem?_eq_getElem hi, rfl⟩
  · rintro ⟨i, hb, ha⟩
    obtain ⟨hi, hb⟩ := List.getElem?_eq_some_iff.mp hb
    exact ⟨i, hi, Prod.ext ha.symm hb⟩

theorem nodup_named (hname : name.Injective) : (named name l).Nodup := by
  refine List.Nodup.of_map Prod.fst ?_
  have hfst : (named name l).map Prod.fst = (List.range l.length).map name :=
    List.ext_getElem (by simp [named]) fun i _ _ => by simp [named]
  rw [hfst]
  exact List.nodup_range.map hname

end Named

theorem Node.mem_holders {id : NodeId} {n : Node} {h : Holder} {v : ValueId} :
    (h, v) ∈ n.holders id ↔ (∃ i : Nat, n.operands[i]? = some v ∧ h = .operand ⟨id, i⟩) ∨
      ∃ i : Nat, n.labels[i]? = some v ∧ h = .label id i := by
  rw [holders, List.mem_append, mem_named, mem_named]

theorem Node.parent_of_mem_holders {id : NodeId} {n : Node} {e : Holder × ValueId}
    (he : e ∈ n.holders id) : e.1.parent = id := by
  rcases mem_holders.mp he with ⟨i, _, hi⟩ | ⟨i, _, hi⟩ <;> rw [hi] <;> rfl

theorem Node.nodup_holders (id : NodeId) (n : Node) : (n.holders id).Nodup := by
  refine List.Nodup.append (nodup_named ?_) (nodup_named ?_) ?_
  · intro i j h
    exact (Slot.mk.inj (Holder.operand.inj h)).2
  · intro i j h
    exact (Holder.label.inj h).2
  · intro e ho hl
    obtain ⟨i, _, hi⟩ := mem_named.mp ho
    obtain ⟨j, _, hj⟩ := mem_named.mp hl
    exact Holder.noConfusion (hi.symm.trans hj)

theorem Node.map_snd_holders (id : NodeId) (n : Node) :
    (n.holders id).map Prod.snd = n.mentions := by
  rw [holders, mentions, List.map_append, map_snd_named, map_snd_named]

namespace Arena

variable {g : Arena}

theorem map_snd_holders : g.holders.map Prod.snd = g.nodes.toList.flatMap Node.mentions := by
  unfold holders
  rw [List.map_flatMap]
  simp only [Node.map_snd_holders]
  rw [← List.flatMap_map Prod.fst Node.mentions, List.zipIdx_map_fst]

theorem referenceCount_eq (v : ValueId) :
    g.referenceCount v = (g.holders.filter fun e => e.2 = v).length := by
  unfold referenceCount
  rw [← map_snd_holders, List.count, List.countP_map, List.countP_eq_length_filter]
  congr 2

theorem mem_zipIdx_nodes {id : NodeId} {n : Node} :
    (n, id.index) ∈ g.nodes.toList.zipIdx ↔ g.node? id = some n := by
  rw [List.mk_mem_zipIdx_iff_getElem?, Array.getElem?_toList]
  rfl

theorem index_of_mem_zipIdx (hsize : g.size ≤ UInt32.size) {e : Node × Nat}
    (he : e ∈ g.nodes.toList.zipIdx) : (NodeId.ofIndex e.2).index = e.2 := by
  have hlt : e.2 < g.size := by simpa [size] using List.snd_lt_of_mem_zipIdx he
  exact NodeId.index_ofIndex (Nat.lt_of_lt_of_le hlt hsize)

theorem mem_holders (hsize : g.size ≤ UInt32.size) {h : Holder} {v : ValueId} :
    (h, v) ∈ g.holders ↔ Holds g h v := by
  unfold holders
  rw [List.mem_flatMap]
  constructor
  · rintro ⟨⟨n, i⟩, he, hv⟩
    have hi := index_of_mem_zipIdx hsize he
    have hn : g.node? (.ofIndex i) = some n := mem_zipIdx_nodes.mp (hi.symm ▸ he)
    rcases Node.mem_holders.mp hv with ⟨j, hj, rfl⟩ | ⟨j, hj, rfl⟩
    · exact slot_eq_ok.mpr ⟨n, hn, hj⟩
    · exact ⟨n, hn, hj⟩
  · cases h with
    | operand slot =>
      intro hv
      obtain ⟨n, hn, hv⟩ := slot_eq_ok.mp hv
      refine ⟨(n, slot.parent.index), mem_zipIdx_nodes.mpr hn, Node.mem_holders.mpr (.inl ?_)⟩
      exact ⟨slot.index, hv, by rw [NodeId.ofIndex_index]⟩
    | label parent i =>
      rintro ⟨n, hn, hv⟩
      refine ⟨(n, parent.index), mem_zipIdx_nodes.mpr hn, Node.mem_holders.mpr (.inr ?_)⟩
      exact ⟨i, hv, by rw [NodeId.ofIndex_index]⟩

theorem nodup_holders (hsize : g.size ≤ UInt32.size) : g.holders.Nodup := by
  unfold holders
  refine List.nodup_flatMap.mpr ⟨fun e _ => Node.nodup_holders _ e.1, ?_⟩
  have hpositions : g.nodes.toList.zipIdx.Pairwise fun e e' => e.2 ≠ e'.2 := by
    rw [← List.pairwise_map, List.zipIdx_map_snd]
    exact List.nodup_range'
  refine hpositions.imp_of_mem fun {e e'} he he' hne p hp hp' => hne ?_
  rw [← index_of_mem_zipIdx hsize he, ← index_of_mem_zipIdx hsize he',
    ← Node.parent_of_mem_holders hp, Node.parent_of_mem_holders hp']

/-- The operand slots of an arena, with what they hold. -/
def slots (g : Arena) : List (Slot × ValueId) :=
  g.holders.filterMap fun e =>
    match e.1 with
    | .operand slot => some (slot, e.2)
    | .label .. => none

theorem mem_slots (hsize : g.size ≤ UInt32.size) {slot : Slot} {v : ValueId} :
    (slot, v) ∈ g.slots ↔ g.slot slot = .ok v := by
  unfold slots
  rw [List.mem_filterMap]
  constructor
  · rintro ⟨⟨_ | _, w⟩, he, heq⟩
    · obtain ⟨rfl, rfl⟩ := Prod.mk.inj (Option.some.inj heq)
      exact (mem_holders hsize).mp he
    · contradiction
  · exact fun hslot => ⟨(.operand slot, v), (mem_holders hsize).mpr hslot, rfl⟩

theorem nodup_slots (hsize : g.size ≤ UInt32.size) : g.slots.Nodup := by
  refine (nodup_holders hsize).filterMap ?_
  rintro ⟨_ | _, v⟩ ⟨_ | _, w⟩ e he he'
  · obtain rfl := Option.some.inj he
    obtain ⟨rfl, rfl⟩ := Prod.mk.inj (Option.some.inj he')
    rfl
  all_goals contradiction

/-- A value is counted once at most exactly if one place at most holds it. -/
theorem referenceCount_le_one_iff (hsize : g.size ≤ UInt32.size) {v : ValueId} :
    g.referenceCount v ≤ 1 ↔ ∀ h h', Holds g h v → Holds g h' v → h = h' := by
  have hmem (e : Holder × ValueId) :
      e ∈ g.holders.filter (fun e => e.2 = v) ↔ Holds g e.1 v ∧ e.2 = v := by
    rw [List.mem_filter, ← mem_holders hsize]
    constructor
    · rintro ⟨he, hv⟩
      have hv : e.2 = v := by simpa using hv
      exact ⟨hv ▸ he, hv⟩
    · rintro ⟨he, rfl⟩
      exact ⟨he, by simp⟩
  have hnodup := (nodup_holders hsize).filter (fun e => e.2 = v)
  rw [referenceCount_eq]
  generalize g.holders.filter (fun e => e.2 = v) = l at hmem hnodup
  match l with
  | [] =>
    refine iff_of_true (Nat.zero_le 1) fun h _ hh => ?_
    exact absurd ((hmem (h, v)).mpr ⟨hh, rfl⟩) List.not_mem_nil
  | [e] =>
    refine iff_of_true (Nat.le_refl 1) fun h h' hh hh' => ?_
    have he := List.mem_singleton.mp ((hmem (h, v)).mpr ⟨hh, rfl⟩)
    have he' := List.mem_singleton.mp ((hmem (h', v)).mpr ⟨hh', rfl⟩)
    exact congrArg Prod.fst (he.trans he'.symm)
  | e :: e' :: rest =>
    obtain ⟨he, hv⟩ := (hmem e).mp (.head _)
    obtain ⟨he', hv'⟩ := (hmem e').mp (.tail _ (.head _))
    -- two entries of a list without repetitions, for one value, are two places
    refine iff_of_false (by simp) fun hone => ?_
    obtain rfl : e = e' := Prod.ext (hone _ _ he he') (hv.trans hv'.symm)
    exact (List.nodup_cons.mp hnodup).1 (.head _)

theorem one_lt_referenceCount_iff (hsize : g.size ≤ UInt32.size) {v : ValueId} :
    1 < g.referenceCount v ↔ HeldTwice g v := by
  rw [← Nat.not_le, referenceCount_le_one_iff hsize, HeldTwice]
  push Not
  constructor
  · rintro ⟨h, h', hh, hh', hne⟩
    exact ⟨h, h', hne, hh, hh'⟩
  · rintro ⟨h, h', hne, hh, hh'⟩
    exact ⟨h, h', hh, hh', hne⟩

end Arena

end ProgramFacts.Program
