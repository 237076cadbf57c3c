import Mathlib.Data.List.Nodup
import Mathlib.Data.List.Perm.Subperm
import ProgramFacts.Proofs.Likeness
import ProgramFacts.Proofs.Upkeep

/-! Which operand slots the built-in rules replace, without the rules: a slot is eligible for what
it holds and for the node that it belongs to.  A mutation takes an eligible slot and makes no other
slot eligible, so the eligible slots of the whole arena grow fewer. -/

namespace ProgramFacts.Mutation

open Program ProgramFacts.Flow Extraction

variable {g g' : Arena} {m : Edit}

/-- The value is one that the built-in rules replace inside the node `n`: an `int` constant other
than `0`, unless the node is an access to an array element, or a reference to an `int` field, unless
the node writes to it. -/
inductive Replaceable (g : Arena) (n : Node) (v : ValueId) : Prop
  | constant {k : Int32} :
      g.value v = .ok (.intConst k) → k ≠ 0 →
      (∀ base index, n ≠ .value (.arrayElement base index)) → Replaceable g n v
  | field {x : Value} {field : FieldId} {f : Field} :
      g.value v = .ok x → (x = .staticField field ∨ ∃ base, x = .instanceField base field) →
      g.field field = .ok f → g.type f.ty = .ok (.prim .int) →
      (∀ right, n ≠ .stmt (.assign v right)) → (∀ right, n ≠ .stmt (.identity v right)) →
      Replaceable g n v

/-- The slot holds `v`, which is replaceable inside the node of the slot. -/
def Eligible (g : Arena) (slot : Slot) (v : ValueId) : Prop :=
  ∃ n, g.node? slot.parent = some n ∧ n.operands[slot.index]? = some v ∧ Replaceable g n v

theorem Eligible.slot {slot : Slot} {v : ValueId} (h : Eligible g slot v) :
    g.slot slot = .ok v := by
  obtain ⟨n, hn, hv, _⟩ := h
  exact Arena.slot_eq_ok.mpr ⟨n, hn, hv⟩

/-! ## The test of a slot -/

theorem isArrayAccess_eq_false_iff {n : Node} :
    isArrayAccess n = false ↔ ∀ base index, n ≠ .value (.arrayElement base index) := by
  cases n with
  | value x => cases x <;> simp [isArrayAccess]
  | _ => simp [isArrayAccess]

theorem writes_eq_false_iff {n : Node} {v : ValueId} :
    writes v n = false ↔
      (∀ right, n ≠ .stmt (.assign v right)) ∧ ∀ right, n ≠ .stmt (.identity v right) := by
  cases n with
  | stmt s => cases s <;> simp [writes]
  | _ => simp [writes]

theorem referredField?_eq_some {x : Value} {field : FieldId} :
    referredField? x = some field ↔
      x = .staticField field ∨ ∃ base, x = .instanceField base field := by
  cases x <;> simp [referredField?]

theorem isInt_eq_true {t : Ty} : t.isInt = true ↔ t = .prim .int := by
  cases t with
  | prim p => cases p <;> simp [Ty.isInt]
  | _ => simp [Ty.isInt]

def isIntField (g : Arena) (field : FieldId) : Bool :=
  match g.field field with
  | .ok f => match g.type f.ty with
    | .ok t => t.isInt
    | .error _ => false
  | .error _ => false

theorem isIntField_eq_true {field : FieldId} :
    isIntField g field = true ↔ ∃ f, g.field field = .ok f ∧ g.type f.ty = .ok (.prim .int) := by
  unfold isIntField
  cases g.field field with
  | error fault => simp
  | ok f => cases ht : g.type f.ty <;> simp [ht, isInt_eq_true]

/-- Whether a value is replaceable inside a node. -/
def isReplaceable (g : Arena) (n : Node) (v : ValueId) : Bool :=
  match g.value v with
  | .ok (.intConst k) => k != 0 && !isArrayAccess n
  | .ok x => (referredField? x).any fun field => isIntField g field && !writes v n
  | .error _ => false

theorem isReplaceable_eq_true {n : Node} {v : ValueId} :
    isReplaceable g n v = true ↔ Replaceable g n v := by
  constructor
  · intro h
    unfold isReplaceable at h
    split at h
    · rename_i k hv
      rw [Bool.and_eq_true, Bool.not_eq_true', bne_iff_ne, isArrayAccess_eq_false_iff] at h
      exact .constant hv h.1 h.2
    · rename_i x _ hv
      obtain ⟨field, hfield, hint⟩ := (Option.any_eq_true ..).mp h
      rw [Bool.and_eq_true, Bool.not_eq_true', isIntField_eq_true, writes_eq_false_iff] at hint
      obtain ⟨⟨f, hf, ht⟩, hassign, hidentity⟩ := hint
      exact .field hv (referredField?_eq_some.mp hfield) hf ht hassign hidentity
    · contradiction
  · rintro (⟨hv, hk, harray⟩ | ⟨hv, hfield, hf, ht, hassign, hidentity⟩)
    · simp [isReplaceable, hv, hk, isArrayAccess_eq_false_iff.mpr harray]
    · have hint := isIntField_eq_true.mpr ⟨_, hf, ht⟩
      have hwrites := writes_eq_false_iff.mpr ⟨hassign, hidentity⟩
      rcases hfield with rfl | ⟨base, rfl⟩ <;>
        simp [isReplaceable, hv, referredField?, hint, hwrites]

instance (g : Arena) (slot : Slot) (v : ValueId) : Decidable (Eligible g slot v) :=
  decidable_of_iff ((g.node? slot.parent).any fun n =>
      n.operands[slot.index]? = some v && isReplaceable g n v) (by
    simp [Option.any_eq_true, isReplaceable_eq_true, Eligible])

/-! ## What the rules make of a slot -/

theorem lookUp_bind_eq_ok {α β : Type} {r : Except Fault α} {f : α → Except Failure β} {b : β} :
    (lookUp r >>= f) = .ok b ↔ ∃ a, r = .ok a ∧ f a = .ok b := by
  cases r <;> simp [lookUp, Except.mapError, bind, Except.bind]

theorem replaceable_of_intConstantRule {ancestors : List NodeId} {n : Node} {v : ValueId}
    (hn : parent? g ancestors = .ok (some n))
    (h : intConstantRule.applies g v ancestors = .ok true) : Replaceable g n v := by
  obtain ⟨x, hv, _⟩ := lookUp_bind_eq_ok.mp h
  rw [intConstantRule_applies hv hn] at h
  cases x with
  | intConst k =>
    have h := Except.ok.inj h
    rw [Bool.and_eq_true, Bool.not_eq_true', bne_iff_ne, isArrayAccess_eq_false_iff] at h
    exact .constant hv h.1 h.2
  | _ => cases h

theorem replaceable_of_fieldReferenceRule {ancestors : List NodeId} {n : Node} {v : ValueId}
    (hn : parent? g ancestors = .ok (some n))
    (h : fieldReferenceRule.applies g v ancestors = .ok true) : Replaceable g n v := by
  obtain ⟨x, hv, hx⟩ := lookUp_bind_eq_ok.mp h
  cases hfield : referredField? x with
  | none =>
    rw [fieldReferenceRule_applies_none hv hfield] at h
    cases h
  | some field =>
    simp only [hfield] at hx
    obtain ⟨f, hf, hx⟩ := lookUp_bind_eq_ok.mp hx
    obtain ⟨t, ht, _⟩ := lookUp_bind_eq_ok.mp hx
    rw [fieldReferenceRule_applies hv hfield hf ht hn] at h
    have h := Except.ok.inj h
    rw [Bool.and_eq_true, Bool.not_eq_true', isInt_eq_true, writes_eq_false_iff] at h
    obtain ⟨rfl, hassign, hidentity⟩ := h
    exact .field hv (referredField?_eq_some.mp hfield) hf ht hassign hidentity

/-- Some built-in rule applies exactly where a value is replaceable, whether or not rules fail. -/
theorem replaceable_iff {ancestors : List NodeId} {n : Node} {v : ValueId}
    (hn : parent? g ancestors = .ok (some n)) :
    Replaceable g n v ↔ ∃ rule ∈ builtInRules, rule.applies g v ancestors = .ok true := by
  constructor
  · rintro (⟨hv, hk, harray⟩ | ⟨hv, hfield, hf, ht, hassign, hidentity⟩)
    · refine ⟨intConstantRule, .head _, ?_⟩
      rw [intConstantRule_applies hv hn]
      simp [hk, isArrayAccess_eq_false_iff.mpr harray]
    · refine ⟨fieldReferenceRule, .tail _ (.head _), ?_⟩
      rw [fieldReferenceRule_applies hv (referredField?_eq_some.mpr hfield) hf ht hn]
      simp [Ty.isInt, writes_eq_false_iff.mpr ⟨hassign, hidentity⟩]
  · rintro ⟨rule, hrule, happlies⟩
    rcases List.mem_pair.mp hrule with rfl | rfl
    · exact replaceable_of_intConstantRule hn happlies
    · exact replaceable_of_fieldReferenceRule hn happlies

theorem eligible_iff {ancestors : List NodeId} {slot : Slot} {v : ValueId}
    (ha : ancestors.getLast? = some slot.parent) (hslot : g.slot slot = .ok v) :
    Eligible g slot v ↔ ∃ rule ∈ builtInRules, rule.applies g v ancestors = .ok true := by
  obtain ⟨n, hn, hv⟩ := Arena.slot_eq_ok.mp hslot
  rw [← replaceable_iff (parent?_eq ha hn)]
  constructor
  · rintro ⟨n', hn', _, h⟩
    obtain rfl := Option.some.inj (hn.symm.trans hn')
    exact h
  · exact fun h => ⟨n, hn, hv, h⟩

theorem Applies.eligible {policy : IdentityPolicy} {c : FlowGraph} {rule : Rule} {v : Value}
    (h : Applies (.builtIn policy) g g' c m rule v) : Eligible g m.slot m.replaced := by
  obtain ⟨ancestors, hplace, happlies⟩ := h.place
  exact (eligible_iff hplace.enclosed.last h.slot).mpr ⟨rule, h.mem, happlies⟩

/-! ## What a mutation makes of other slots -/

theorem not_replaceable_of_isZero {n : Node} {v : ValueId} (h : IsZero g v) :
    ¬Replaceable g n v := by
  rintro (⟨hv, hk, _⟩ | ⟨hv, hfield, _⟩)
  · exact hk (Value.intConst.inj (Except.ok.inj (hv.symm.trans h)))
  · obtain rfl := Except.ok.inj (hv.symm.trans h)
    simp at hfield

theorem operand_of_writes {n : Node} {v : ValueId} (h : writes v n = true) :
    n.operands[0]? = some v := by
  cases n with
  | stmt s => cases s <;> simp_all [writes, Node.operands, Stmt.operands]
  | _ => contradiction

theorem writes_mapOperands {f : Nat → ValueId → ValueId} {n : Node} {v : ValueId}
    (h : writes v n = true) (hf : f 0 v = v) : writes v (n.mapOperands f) = true := by
  cases n with
  | stmt s => cases s <;> simp_all [writes, Node.mapOperands, Stmt.mapOperands]
  | _ => contradiction

theorem not_replaceable_of_writes {n : Node} {v : ValueId} {x : Value} (hv : g.value v = .ok x)
    (hconst : ∀ k, x ≠ .intConst k) (h : writes v n = true) : ¬Replaceable g n v := by
  rintro (⟨hv', _, _⟩ | ⟨_, _, _, _, hassign, hidentity⟩)
  · exact hconst _ (Except.ok.inj (hv.symm.trans hv'))
  · rw [writes_eq_false_iff.mpr ⟨hassign, hidentity⟩] at h
    contradiction

/-- The left side of an assignment stays where it is, unless it is a constant. -/
theorem Edit.writes_patch (hm : Eligible g m.slot m.replaced) {id : NodeId} {n : Node}
    (hn : g.node? id = some n) {v : ValueId} {x : Value} (hv : g.value v = .ok x)
    (hconst : ∀ k, x ≠ .intConst k) (h : writes v n = true) : writes v (m.patch id n) = true := by
  refine writes_mapOperands h ?_
  unfold Edit.redirect
  split
  · rename_i hslot
    -- the slot of a mutation is eligible, and the left side of the assignment is not
    rw [← hslot] at hm
    obtain ⟨n', hn', hop, hreplaceable⟩ := hm
    obtain rfl := Option.some.inj (hn.symm.trans hn')
    obtain rfl := Option.some.inj ((operand_of_writes h).symm.trans hop)
    exact absurd hreplaceable (not_replaceable_of_writes hv hconst h)
  · rfl

namespace Patched

variable (h : Patched g g' m (.intConst 0))
include h

theorem ne_of_replaceable {n : Node} {v : ValueId} (hv : Replaceable g' n v) :
    v ≠ m.replacement := by
  rintro rfl
  exact not_replaceable_of_isZero h.content hv

variable (hm : Eligible g m.slot m.replaced)
include hm

theorem replaceable {id : NodeId} {n : Node} (hn : g.node? id = some n) {v : ValueId}
    (hv : Replaceable g' (m.patch id n) v) : Replaceable g n v := by
  have hne := h.ne_of_replaceable hv
  obtain ⟨hx', hk, harray⟩ | ⟨hx', hfield, hf, ht, hassign, hidentity⟩ := hv
  · obtain ⟨x, hx, heq⟩ := (h.value_eq_ok hne).mp hx'
    obtain rfl := Value.mapOperands_eq_intConst.mp heq.symm
    rw [← isArrayAccess_eq_false_iff, Edit.patch, isArrayAccess_mapOperands,
      isArrayAccess_eq_false_iff] at harray
    exact .constant hx hk harray
  · obtain ⟨x, hx, rfl⟩ := (h.value_eq_ok hne).mp hx'
    rw [← referredField?_eq_some, referredField?_mapOperands] at hfield
    have hconst (k : Int32) : x ≠ .intConst k := by
      rintro rfl
      contradiction
    -- a node that writes to the field before the mutation writes to it afterwards
    have hwrites : writes v n = false := by
      refine Bool.eq_false_iff.mpr fun hw => ?_
      have hpatch := Edit.writes_patch hm hn hx hconst hw
      rw [writes_eq_false_iff.mpr ⟨hassign, hidentity⟩] at hpatch
      contradiction
    obtain ⟨hassign, hidentity⟩ := writes_eq_false_iff.mp hwrites
    exact .field hx (referredField?_eq_some.mp hfield) (h.field hf) (h.type ht) hassign hidentity

/-- A mutation makes no slot eligible, and its own slot is not eligible any more. -/
theorem eligible {slot : Slot} {v : ValueId} (he : Eligible g' slot v) :
    Eligible g slot v ∧ slot ≠ m.slot := by
  obtain ⟨n', hn', hv, hreplaceable⟩ := he
  have hne := h.ne_of_replaceable hreplaceable
  rcases h.exists_node hn' with ⟨_, rfl⟩ | ⟨n, hn, rfl⟩
  · -- the constant that takes the place has no operands
    contradiction
  · rw [Edit.patch, Node.operands_mapOperands] at hv
    have hbefore := (Edit.getElem?_redirect hv).resolve_right fun hv => hne hv.2
    refine ⟨⟨n, hn, hbefore, h.replaceable hm hn hreplaceable⟩, ?_⟩
    rintro rfl
    exact hne (Option.some.inj (hv.symm.trans (Edit.getElem?_redirect_slot hbefore)))

end Patched

/-! ## The number of eligible slots -/

/-- The eligible slots of the whole arena, with what they hold. -/
def eligibleSlots (g : Arena) : List (Slot × ValueId) :=
  g.slots.filter fun e => decide (Eligible g e.1 e.2)

/-- The number of eligible slots of the whole arena. -/
def eligibleCount (g : Arena) : Nat := (eligibleSlots g).length

theorem mem_eligibleSlots (hsize : g.size ≤ UInt32.size) {slot : Slot} {v : ValueId} :
    (slot, v) ∈ eligibleSlots g ↔ Eligible g slot v := by
  unfold eligibleSlots
  rw [List.mem_filter, Arena.mem_slots hsize, decide_eq_true_eq]
  exact ⟨And.right, fun h => ⟨h.slot, h⟩⟩

/-- A mutation leaves fewer slots eligible. -/
theorem Patched.eligibleCount_lt (h : Patched g g' m (.intConst 0))
    (hm : Eligible g m.slot m.replaced) (hsize : g.size ≤ UInt32.size)
    (hsize' : g'.size ≤ UInt32.size) : eligibleCount g' < eligibleCount g := by
  have hnodup : ((m.slot, m.replaced) :: eligibleSlots g').Nodup := by
    refine List.nodup_cons.mpr ⟨fun hmem => ?_, (Arena.nodup_slots hsize').filter _⟩
    exact (h.eligible hm ((mem_eligibleSlots hsize').mp hmem)).2 rfl
  have hsubset : (m.slot, m.replaced) :: eligibleSlots g' ⊆ eligibleSlots g := by
    refine List.cons_subset.mpr ⟨(mem_eligibleSlots hsize).mpr hm, fun e he => ?_⟩
    exact (mem_eligibleSlots hsize).mpr (h.eligible hm ((mem_eligibleSlots hsize').mp he)).1
  exact (hnodup.subperm hsubset).length_le

/-- `x := 5` and `x := a[5]`, with one node for both constants. -/
def indexed : Arena :=
  ⟨#[.type (.prim .int), .type (.array ⟨0⟩), .value (.localVar "x" ⟨0⟩), .value (.localVar "a" ⟨1⟩),
    .value (.intConst 5), .value (.arrayElement ⟨3⟩ ⟨4⟩), .stmt (.assign ⟨2⟩ ⟨4⟩),
    .stmt (.assign ⟨2⟩ ⟨5⟩)]⟩

/-- The constant is eligible on the right side of the first assignment only. -/
example : eligibleSlots indexed = [(⟨⟨6⟩, 1⟩, ⟨4⟩)] := by decide +kernel

end ProgramFacts.Mutation
