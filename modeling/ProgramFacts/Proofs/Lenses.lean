import ProgramFacts.Proofs.Slots

/-! Slots are lenses.  What is put into a slot is read from it, what was put before does not matter,
and putting back what is there changes nothing.  Every other slot and every other node stay as they
are, and so does the rest of the parent. -/

namespace ProgramFacts.Program

/-! ## Nodes of the same form -/

/-- The values are the same but for their operands, of which they have the same number. -/
inductive Value.SameForm : Value → Value → Prop
  | refl (v : Value) : SameForm v v
  | instanceField (base base' : ValueId) (field : FieldId) :
      SameForm (.instanceField base field) (.instanceField base' field)
  | arrayElement (base base' index index' : ValueId) :
      SameForm (.arrayElement base index) (.arrayElement base' index')
  | instanceInvoke (dispatch : Dispatch) (base base' : ValueId) (method : MethodId)
      {args args' : List ValueId} : args'.length = args.length →
      SameForm (.instanceInvoke dispatch base method args)
        (.instanceInvoke dispatch base' method args')
  | staticInvoke (method : MethodId) {args args' : List ValueId} : args'.length = args.length →
      SameForm (.staticInvoke method args) (.staticInvoke method args')
  | binary (op : Operator) (left left' right right' : ValueId) :
      SameForm (.binary op left right) (.binary op left' right')
  | negate (op op' : ValueId) : SameForm (.negate op) (.negate op')
  | lengthOf (op op' : ValueId) : SameForm (.lengthOf op) (.lengthOf op')
  | cast (op op' : ValueId) (ty : TypeId) : SameForm (.cast op ty) (.cast op' ty)
  | instanceOf (op op' : ValueId) (ty : TypeId) : SameForm (.instanceOf op ty) (.instanceOf op' ty)
  | newArray (element : TypeId) (size size' : ValueId) :
      SameForm (.newArray element size) (.newArray element size')
  | newMultiArray (element : TypeId) {sizes sizes' : List ValueId} :
      sizes'.length = sizes.length →
      SameForm (.newMultiArray element sizes) (.newMultiArray element sizes')

/-- The statements are the same but for their operands: in their targets and labels too. -/
inductive Stmt.SameForm : Stmt → Stmt → Prop
  | refl (s : Stmt) : SameForm s s
  | identity (left left' right right' : ValueId) :
      SameForm (.identity left right) (.identity left' right')
  | assign (left left' right right' : ValueId) :
      SameForm (.assign left right) (.assign left' right')
  | returnValue (op op' : ValueId) : SameForm (.returnValue op) (.returnValue op')
  | invoke (expr expr' : ValueId) : SameForm (.invoke expr) (.invoke expr')
  | ifGoto (condition condition' : ValueId) (target : StmtId) :
      SameForm (.ifGoto condition target) (.ifGoto condition' target)
  | tableSwitch (key key' : ValueId) (low : Int32) (targets : List StmtId) (default : StmtId) :
      SameForm (.tableSwitch key low targets default) (.tableSwitch key' low targets default)
  | lookupSwitch (key key' : ValueId) (labels : List ValueId) (targets : List StmtId)
      (default : StmtId) :
      SameForm (.lookupSwitch key labels targets default)
        (.lookupSwitch key' labels targets default)
  | throwValue (op op' : ValueId) : SameForm (.throwValue op) (.throwValue op')
  | enterMonitor (op op' : ValueId) : SameForm (.enterMonitor op) (.enterMonitor op')
  | exitMonitor (op op' : ValueId) : SameForm (.exitMonitor op) (.exitMonitor op')

inductive Node.SameForm : Node → Node → Prop
  | refl (n : Node) : SameForm n n
  | stmt {s s' : Stmt} : s.SameForm s' → SameForm (.stmt s) (.stmt s')
  | value {v v' : Value} : v.SameForm v' → SameForm (.value v) (.value v')

theorem Value.sameForm_mapOperands (f : Nat → ValueId → ValueId) (v : Value) :
    v.SameForm (v.mapOperands f) := by
  cases v with
  | instanceField base field => exact .instanceField ..
  | arrayElement base index => exact .arrayElement ..
  | instanceInvoke dispatch base method args =>
    exact .instanceInvoke dispatch _ _ method List.length_mapIdx
  | staticInvoke method args => exact .staticInvoke method List.length_mapIdx
  | binary op left right => exact .binary ..
  | negate op => exact .negate ..
  | lengthOf op => exact .lengthOf ..
  | cast op ty => exact .cast ..
  | instanceOf op ty => exact .instanceOf ..
  | newArray element size => exact .newArray ..
  | newMultiArray element sizes => exact .newMultiArray element List.length_mapIdx
  | _ => exact .refl _

theorem Stmt.sameForm_mapOperands (f : Nat → ValueId → ValueId) (s : Stmt) :
    s.SameForm (s.mapOperands f) := by
  cases s with
  | identity left right => exact .identity ..
  | assign left right => exact .assign ..
  | returnValue op => exact .returnValue ..
  | invoke expr => exact .invoke ..
  | ifGoto condition target => exact .ifGoto ..
  | tableSwitch key low targets default => exact .tableSwitch ..
  | lookupSwitch key labels targets default => exact .lookupSwitch ..
  | throwValue op => exact .throwValue ..
  | enterMonitor op => exact .enterMonitor ..
  | exitMonitor op => exact .exitMonitor ..
  | returnVoid => exact .refl _
  | goto target => exact .refl _

namespace Node

theorem sameForm_mapOperands (f : Nat → ValueId → ValueId) (n : Node) :
    n.SameForm (n.mapOperands f) := by
  cases n with
  | stmt s => exact .stmt (s.sameForm_mapOperands f)
  | value v => exact .value (v.sameForm_mapOperands f)
  | _ => exact .refl _

theorem mapIdx_blank {l l' : List ValueId} (hlength : l'.length = l.length) :
    (l'.mapIdx fun _ _ => (⟨0⟩ : ValueId)) = l.mapIdx fun _ _ => ⟨0⟩ :=
  List.ext_getElem (by simp [hlength]) fun i _ _ => by simp

theorem SameForm.skeleton_eq {n n' : Node} (h : n.SameForm n') : n'.skeleton = n.skeleton := by
  cases h with
  | refl => rfl
  | stmt h => cases h <;> rfl
  | value h =>
    refine congrArg Node.value ?_
    cases h with
    | instanceInvoke dispatch base base' method hargs =>
      exact congrArg (Value.instanceInvoke dispatch ⟨0⟩ method) (mapIdx_blank hargs)
    | staticInvoke method hargs =>
      exact congrArg (Value.staticInvoke method) (mapIdx_blank hargs)
    | newMultiArray element hsizes =>
      exact congrArg (Value.newMultiArray element) (mapIdx_blank hsizes)
    | _ => rfl

/-- Nothing but its operands is open about a node of a given form. -/
theorem SameForm.unique {n n' n'' : Node} (h : n.SameForm n') (h' : n.SameForm n'')
    (hoperands : n'.operands = n''.operands) : n' = n'' := by
  rw [eq_mapOperands_of_skeleton h.skeleton_eq, eq_mapOperands_of_skeleton h'.skeleton_eq,
    hoperands]

theorem operands_setOperand (n : Node) (i : Nat) (v : ValueId) :
    (n.setOperand i v).operands = n.operands.set i v :=
  (n.operands_mapOperands _).trans (mapIdx_eq_set n.operands i v)

end Node

/-! ## Replacement -/

namespace Arena

variable {g g' : Arena} {s : Slot} {v w old : ValueId}

/-- A replacement looks up the value and then the parent, and changes one operand of the latter. -/
theorem replaceSlot_eq (g : Arena) (s : Slot) (v : ValueId) :
    g.replaceSlot s v =
      ((g.value v).map fun _ => ()).bind fun _ => (g.node s.parent).bind fun n =>
        match n.operands[s.index]? with
        | some old => .ok (old, g.put s.parent (n.setOperand s.index v))
        | none => .error (.noSlot s.parent s.index) := by
  unfold replaceSlot
  cases g.value v with
  | error fault => rfl
  | ok x => rfl

theorem replaceSlot_eq_ok_iff : g.replaceSlot s v = .ok (old, g') ↔
    (∃ x, g.value v = .ok x) ∧ ∃ n, g.node? s.parent = some n ∧ n.operands[s.index]? = some old ∧
      g' = g.put s.parent (n.setOperand s.index v) := by
  rw [replaceSlot_eq]
  unfold node
  cases g.value v with
  | error fault => simp [Except.bind, Except.map]
  | ok x =>
    cases hn : g.node? s.parent with
    | none => simp [Except.bind, Except.map]
    | some n =>
      cases hold : n.operands[s.index]? <;> simp [Except.bind, Except.map, hold, eq_comm]

/-- A replacement succeeds exactly if the value is one and the slot can be read. -/
theorem exists_replaceSlot_iff : (∃ r, g.replaceSlot s v = .ok r) ↔
    (∃ x, g.value v = .ok x) ∧ ∃ old, g.slot s = .ok old := by
  constructor
  · rintro ⟨⟨old, g'⟩, h⟩
    obtain ⟨hvalue, n, hn, hold, _⟩ := replaceSlot_eq_ok_iff.mp h
    exact ⟨hvalue, old, slot_eq_ok.mpr ⟨n, hn, hold⟩⟩
  · rintro ⟨hvalue, old, hslot⟩
    obtain ⟨n, hn, hold⟩ := slot_eq_ok.mp hslot
    exact ⟨_, replaceSlot_eq_ok_iff.mpr ⟨hvalue, n, hn, hold, rfl⟩⟩

@[simp] theorem put_put (g : Arena) (id : NodeId) (n n' : Node) :
    (g.put id n).put id n' = g.put id n' :=
  congrArg Arena.mk (Array.setIfInBounds_setIfInBounds ..)

theorem put_self {id : NodeId} {n : Node} (h : g.node? id = some n) : g.put id n = g := by
  obtain ⟨hi, rfl⟩ := Array.getElem?_eq_some_iff.mp h
  unfold put Array.setIfInBounds
  rw [dif_pos hi, Array.set_getElem_self]

theorem slot_eq_of_node? {n : Node} (hn : g.node? s.parent = some n) : g.slot s =
    match n.operands[s.index]? with
    | some old => .ok old
    | none => .error (.noSlot s.parent s.index) := by
  unfold slot node
  rw [hn]
  rfl

/-- Whether a token resolves to a value depends on the kind of its node. -/
theorem map_value_eq (g : Arena) (w : ValueId) :
    (g.value w).map (fun _ => ()) =
      match g.node? w with
      | none => .error (.dangling w g.size)
      | some n => if n.kind = .value then .ok () else .error (.wrongKind w .value n.kind) := by
  unfold value resolve
  cases g.node? w with
  | none => rfl
  | some n => cases n <;> rfl

section Put

variable {n : Node} (hn : g.node? s.parent = some n)
include hn

/-- Every other slot reads as before, or fails as before. -/
theorem slot_put_of_ne {other : Slot} (hne : other ≠ s) :
    (g.put s.parent (n.setOperand s.index v)).slot other = g.slot other := by
  obtain ⟨parent, index⟩ := other
  by_cases hparent : parent = s.parent
  · subst hparent
    have hindex : s.index ≠ index := fun hindex => hne (hindex ▸ rfl)
    have hput := node?_put_same (index_lt_of_node? hn) (n.setOperand s.index v)
    rw [slot_eq_of_node? (s := ⟨s.parent, index⟩) hput,
      slot_eq_of_node? (s := ⟨s.parent, index⟩) hn, Node.operands_setOperand,
      List.getElem?_set_ne hindex]
  · unfold slot node
    rw [node?_put_ne hparent, size_put]

/-- Whether a token resolves to a value does not depend on the content of nodes. -/
theorem map_value_put {n' : Node} (hkind : n'.kind = n.kind) (w : ValueId) :
    ((g.put s.parent n').value w).map (fun _ => ()) = (g.value w).map fun _ => () := by
  rw [map_value_eq, map_value_eq, size_put]
  by_cases hw : w = s.parent
  · rw [hw, node?_put_same (index_lt_of_node? hn), hn]
    simp only [hkind]
  · rw [node?_put_ne hw]

/-- What was put into a slot before does not matter for what is put there now. -/
theorem replaceSlot_put (w : ValueId) :
    ((g.put s.parent (n.setOperand s.index v)).replaceSlot s w).map Prod.snd =
      (g.replaceSlot s w).map Prod.snd := by
  rw [replaceSlot_eq, replaceSlot_eq, map_value_put hn (n.kind_setOperand s.index v)]
  unfold node
  rw [node?_put_same (index_lt_of_node? hn), hn]
  cases (g.value w).map fun _ => () with
  | error fault => rfl
  | ok u =>
    simp only [Except.bind, Node.operands_setOperand, Node.setOperand_setOperand, put_put]
    by_cases hi : s.index < n.operands.length
    · rw [List.getElem?_set_self hi, List.getElem?_eq_getElem hi]
      rfl
    · rw [List.getElem?_eq_none (by simpa using hi), List.getElem?_eq_none (by omega)]

end Put

/-! ## Failure -/

/-- Replacement in the arena at hand, which is changed last: it gives what the slot held. -/
def rewire (s : Slot) (v : ValueId) : ExceptT Fault (StateM Arena) ValueId := do
  let _ ← ((← get).value v : Except Fault Value)
  let n ← ((← get).node s.parent : Except Fault Node)
  match n.operands[s.index]? with
  | some old =>
    modify fun g => g.put s.parent (n.setOperand s.index v)
    return old
  | none => throw (.noSlot s.parent s.index)

theorem run_get_bind {α : Type} (f : Arena → ExceptT Fault (StateM Arena) α) (g : Arena) :
    (get >>= f).run.run g = (f g).run.run g := rfl

theorem run_lift_bind {α β : Type} (r : Except Fault α) (f : α → ExceptT Fault (StateM Arena) β)
    (g : Arena) :
    (liftM r >>= f).run.run g =
      match r with
      | .ok a => (f a).run.run g
      | .error fault => (.error fault, g) := by
  cases r <;> rfl

/-- A replacement that fails leaves the arena at hand as it is. -/
theorem run_rewire (g : Arena) (s : Slot) (v : ValueId) :
    (rewire s v).run.run g =
      match g.replaceSlot s v with
      | .ok (old, g') => (.ok old, g')
      | .error fault => (.error fault, g) := by
  rw [replaceSlot_eq]
  unfold rewire
  rw [run_get_bind, run_lift_bind]
  cases g.value v with
  | error fault => rfl
  | ok x =>
    simp only [run_get_bind, run_lift_bind, Except.map, Except.bind]
    cases g.node s.parent with
    | error fault => rfl
    | ok n =>
      dsimp only
      cases n.operands[s.index]? <;> rfl

/-! ## The laws -/

/-- The arena `g'` is `g` with `v` in the slot, which held `old`. -/
structure Replaced (g : Arena) (s : Slot) (v old : ValueId) (g' : Arena) : Prop where
  before : g.slot s = .ok old
  after : g'.slot s = .ok v
  others : ∀ other, other ≠ s → g'.slot other = g.slot other
  parent : ∃ n n', g.node? s.parent = some n ∧ g'.node? s.parent = some n' ∧ n.SameForm n' ∧
    n'.operands = n.operands.set s.index v
  nodes : ∀ i, i ≠ s.parent.index → g'.nodes[i]? = g.nodes[i]?

theorem replaced_of_replaceSlot (h : g.replaceSlot s v = .ok (old, g')) :
    Replaced g s v old g' := by
  obtain ⟨_, n, hn, hold, rfl⟩ := replaceSlot_eq_ok_iff.mp h
  have hput := node?_put_same (index_lt_of_node? hn) (n.setOperand s.index v)
  have hoperands := n.operands_setOperand s.index v
  have hi : s.index < n.operands.length := (List.getElem?_eq_some_iff.mp hold).1
  refine ⟨slot_eq_ok.mpr ⟨n, hn, hold⟩, slot_eq_ok.mpr ⟨_, hput, ?_⟩,
    fun other hne => slot_put_of_ne hn hne,
    ⟨n, _, hn, hput, n.sameForm_mapOperands _, hoperands⟩,
    fun i hne => Array.getElem?_setIfInBounds_ne (Ne.symm hne)⟩
  rw [hoperands, List.getElem?_set_self hi]

/-- There is one such arena at most. -/
theorem Replaced.unique {g'' : Arena} {old' : ValueId} (h : Replaced g s v old g')
    (h' : Replaced g s v old' g'') : g' = g'' := by
  obtain ⟨n, n', hn, hn', hform, hoperands⟩ := h.parent
  obtain ⟨m, n'', hm, hn'', hform', hoperands'⟩ := h'.parent
  obtain rfl := Option.some.inj (hn.symm.trans hm)
  obtain rfl := hform.unique hform' (hoperands.trans hoperands'.symm)
  have hnodes : g'.nodes = g''.nodes := by
    refine Array.ext_getElem? fun i => ?_
    by_cases hi : i = s.parent.index
    · rw [hi]
      exact hn'.trans hn''.symm
    · rw [h.nodes i hi, h'.nodes i hi]
  exact congrArg Arena.mk hnodes

/-- Putting back what a slot holds changes nothing. -/
theorem eq_of_replaceSlot_self (hslot : g.slot s = .ok v)
    (h : g.replaceSlot s v = .ok (old, g')) : g' = g := by
  obtain ⟨n, hn, hv⟩ := slot_eq_ok.mp hslot
  obtain ⟨_, n', hn', _, rfl⟩ := replaceSlot_eq_ok_iff.mp h
  obtain rfl := Option.some.inj (hn.symm.trans hn')
  rw [Node.setOperand_eq_self hv, put_self hn]

/-- Slots are lenses.  A replacement succeeds exactly if the value is one and the slot can be read.
It gives what the slot held, and leaves the one arena in which the slot holds the value, the parent
is the same but for that operand, and all other slots and nodes are as before.  A later replacement
in the same slot leads to the same arena as if it had been the first, putting back what the slot
holds leaves the arena equal, and a replacement that fails leaves it as it is. -/
theorem slots_are_lenses (g : Arena) (s : Slot) (v : ValueId) :
    ((∃ r, g.replaceSlot s v = .ok r) ↔
      (∃ x, g.value v = .ok x) ∧ ∃ old, g.slot s = .ok old) ∧
    (∀ old g', g.replaceSlot s v = .ok (old, g') →
      (∀ g'', Replaced g s v old g'' ↔ g'' = g') ∧
      (∀ w, (g'.replaceSlot s w).map Prod.snd = (g.replaceSlot s w).map Prod.snd) ∧
      (g.slot s = .ok v → g' = g) ∧
      (rewire s v).run.run g = (.ok old, g')) ∧
    ∀ fault, g.replaceSlot s v = .error fault → (rewire s v).run.run g = (.error fault, g) := by
  refine ⟨exists_replaceSlot_iff, fun old g' h => ⟨fun g'' => ⟨fun h'' => ?_, ?_⟩, fun w => ?_,
    fun hslot => eq_of_replaceSlot_self hslot h, ?_⟩, fun fault h => ?_⟩
  · exact h''.unique (replaced_of_replaceSlot h)
  · rintro rfl
    exact replaced_of_replaceSlot h
  · obtain ⟨_, n, hn, _, rfl⟩ := replaceSlot_eq_ok_iff.mp h
    exact replaceSlot_put hn w
  · rw [run_rewire, h]
  · rw [run_rewire, h]

/-- A call of a method with a receiver and two arguments. -/
def calling : Arena :=
  ⟨#[.value (.localVar "a" ⟨4⟩), .value (.localVar "b" ⟨4⟩),
    .value (.instanceInvoke .virtual ⟨0⟩ ⟨3⟩ [⟨1⟩, ⟨0⟩]),
    .method ⟨"m", "A", false, ⟨4⟩, [⟨4⟩, ⟨4⟩]⟩, .type .void]⟩

/-- The second argument is replaced, and neither the first one nor the receiver is; a third argument
is not there to be replaced, and a type cannot be put in the place of one. -/
theorem slots_are_lenses_calling :
    ∃ g', calling.replaceSlot ⟨⟨2⟩, 2⟩ ⟨1⟩ = .ok (⟨0⟩, g') ∧
      g'.value ⟨2⟩ = .ok (.instanceInvoke .virtual ⟨0⟩ ⟨3⟩ [⟨1⟩, ⟨1⟩]) ∧
      Replaced calling ⟨⟨2⟩, 2⟩ ⟨1⟩ ⟨0⟩ g' ∧
      (rewire ⟨⟨2⟩, 3⟩ ⟨1⟩).run.run calling = (.error (.noSlot ⟨2⟩ 3), calling) ∧
      (rewire ⟨⟨2⟩, 1⟩ ⟨4⟩).run.run calling =
        (.error (.wrongKind ⟨4⟩ .value .type), calling) := by
  obtain ⟨_, hreplaced, _⟩ := slots_are_lenses calling ⟨⟨2⟩, 2⟩ ⟨1⟩
  obtain ⟨_, _, hslot⟩ := slots_are_lenses calling ⟨⟨2⟩, 3⟩ ⟨1⟩
  obtain ⟨_, _, htype⟩ := slots_are_lenses calling ⟨⟨2⟩, 1⟩ ⟨4⟩
  have h : calling.replaceSlot ⟨⟨2⟩, 2⟩ ⟨1⟩ = .ok (⟨0⟩, _) := rfl
  exact ⟨_, h, rfl, ((hreplaced _ _ h).1 _).mpr rfl, hslot _ rfl, htype _ rfl⟩

end Arena

end ProgramFacts.Program
