import ProgramFacts.Proofs.Recursion

/-! Two arenas that hold the same program: from the common nodes on, they have the same nodes, but
that an operand may be one constant `0` in one arena and another one in the other.  No built-in rule
tells them apart, and the recursion takes the same course in both. -/

namespace ProgramFacts.Program.Node

def targets : Node → List StmtId
  | stmt s => s.targets
  | _ => []

@[simp] theorem targets_mapOperands (f : Nat → ValueId → ValueId) (n : Node) :
    (n.mapOperands f).targets = n.targets := by
  cases n with
  | stmt s => exact s.targets_mapOperands f
  | _ => rfl

end ProgramFacts.Program.Node

namespace ProgramFacts.Mutation

open Program ProgramFacts.Flow Extraction

def IsZero (g : Arena) (v : ValueId) : Prop := g.value v = .ok (.intConst 0)

section Relations

variable (g₁ g₂ : Arena) (L : NodeKind → NodeId → Prop)

/-- Operands that stand for the same value: one common node, or the constant `0` in each arena. -/
inductive SameOperand : ValueId → ValueId → Prop
  | common {v : ValueId} : L .value v → SameOperand v v
  | zero {v₁ v₂ : ValueId} : IsZero g₁ v₁ → IsZero g₂ v₂ → SameOperand v₁ v₂

/-- Nodes that differ in operands only, and in these only by constants `0`; all other tokens in them
are common. -/
structure Counterpart (n₁ n₂ : Node) : Prop where
  skeleton : n₁.skeleton = n₂.skeleton
  operands : List.Forall₂ (SameOperand g₁ g₂ L) n₁.operands n₂.operands
  labels : ∀ v ∈ n₁.labels, L .value v
  targets : ∀ t ∈ n₁.targets, L .stmt t
  refs : ∀ q ∈ nodeRefs n₁, L q.kind q.id

/-- The common tokens resolve to their kinds in both arenas, and to nodes that correspond. -/
structure Alike : Prop where
  node : ∀ {kind id}, L kind id → ∃ n₁ n₂, g₁.node? id = some n₁ ∧ g₂.node? id = some n₂ ∧
    n₁.kind = kind ∧ Counterpart g₁ g₂ L n₁ n₂

end Relations

variable {g g₁ g₂ : Arena} {L : NodeKind → NodeId → Prop} {rules : List Rule}

/-! ## Common nodes -/

theorem Counterpart.exists_map {n₁ n₂ : Node} (h : Counterpart g₁ g₂ L n₁ n₂) :
    ∃ f, n₂ = n₁.mapOperands f :=
  ⟨_, Node.eq_mapOperands_of_skeleton h.skeleton.symm⟩

theorem Counterpart.labels_eq {n₁ n₂ : Node} (h : Counterpart g₁ g₂ L n₁ n₂) :
    n₁.labels = n₂.labels := by
  obtain ⟨f, rfl⟩ := h.exists_map
  exact (n₁.labels_mapOperands f).symm

theorem Counterpart.targets_eq {n₁ n₂ : Node} (h : Counterpart g₁ g₂ L n₁ n₂) :
    n₁.targets = n₂.targets := by
  obtain ⟨f, rfl⟩ := h.exists_map
  exact (n₁.targets_mapOperands f).symm

theorem Counterpart.eq_of_kind {n₁ n₂ : Node} (h : Counterpart g₁ g₂ L n₁ n₂)
    (hs : n₁.kind ≠ .stmt) (hv : n₁.kind ≠ .value) : n₁ = n₂ := by
  obtain ⟨f, rfl⟩ := h.exists_map
  cases n₁ with
  | stmt s => exact absurd rfl hs
  | value x => exact absurd rfl hv
  | _ => rfl

namespace Alike

variable (h : Alike g₁ g₂ L)
include h

theorem stmt {id : StmtId} (hid : L .stmt id) : ∃ s₁ s₂, g₁.stmt id = .ok s₁ ∧
    g₂.stmt id = .ok s₂ ∧ Counterpart g₁ g₂ L (.stmt s₁) (.stmt s₂) := by
  obtain ⟨n₁, n₂, hn₁, hn₂, hk, hc⟩ := h.node hid
  obtain ⟨f, rfl⟩ := hc.exists_map
  cases n₁ with
  | stmt s => exact ⟨s, s.mapOperands f, Arena.stmt_eq_ok.mpr hn₁, Arena.stmt_eq_ok.mpr hn₂, hc⟩
  | _ => contradiction

theorem value {v : ValueId} (hv : L .value v) : ∃ x₁ x₂, g₁.value v = .ok x₁ ∧
    g₂.value v = .ok x₂ ∧ Counterpart g₁ g₂ L (.value x₁) (.value x₂) := by
  obtain ⟨n₁, n₂, hn₁, hn₂, hk, hc⟩ := h.node hv
  obtain ⟨f, rfl⟩ := hc.exists_map
  cases n₁ with
  | value x => exact ⟨x, x.mapOperands f, Arena.value_eq_ok.mpr hn₁, Arena.value_eq_ok.mpr hn₂, hc⟩
  | _ => contradiction

/-- A common node that is no statement and no value is the same node in both arenas. -/
theorem entity {kind : NodeKind} {id : NodeId} (hid : L kind id) (hs : kind ≠ .stmt)
    (hv : kind ≠ .value) : ∃ n, g₁.node? id = some n ∧ g₂.node? id = some n ∧ n.kind = kind ∧
      ∀ q ∈ nodeRefs n, L q.kind q.id := by
  obtain ⟨n₁, n₂, hn₁, hn₂, rfl, hc⟩ := h.node hid
  obtain rfl := hc.eq_of_kind hs hv
  exact ⟨n₁, hn₁, hn₂, rfl, hc.refs⟩

theorem type {id : TypeId} (hid : L .type id) : ∃ t, g₁.type id = .ok t ∧ g₂.type id = .ok t ∧
    ∀ q ∈ typeParts t, L q.kind q.id := by
  obtain ⟨n, hn₁, hn₂, hk, hrefs⟩ := h.entity hid (by simp) (by simp)
  cases n with
  | type t => exact ⟨t, Arena.type_eq_ok.mpr hn₁, Arena.type_eq_ok.mpr hn₂, hrefs⟩
  | _ => contradiction

theorem method {id : MethodId} (hid : L .method id) : ∃ m, g₁.method id = .ok m ∧
    g₂.method id = .ok m ∧ ∀ q ∈ methodParts m, L q.kind q.id := by
  obtain ⟨n, hn₁, hn₂, hk, hrefs⟩ := h.entity hid (by simp) (by simp)
  cases n with
  | method m => exact ⟨m, Arena.method_eq_ok.mpr hn₁, Arena.method_eq_ok.mpr hn₂, hrefs⟩
  | _ => contradiction

theorem field {id : FieldId} (hid : L .field id) : ∃ f, g₁.field id = .ok f ∧
    g₂.field id = .ok f ∧ L .type f.ty := by
  obtain ⟨n, hn₁, hn₂, hk, hrefs⟩ := h.entity hid (by simp) (by simp)
  cases n with
  | field f => exact ⟨f, Arena.field_eq_ok.mpr hn₁, Arena.field_eq_ok.mpr hn₂, hrefs _ (.head _)⟩
  | _ => contradiction

end Alike

/-- What two operands that stand for the same value hold: the same but for operands; unless it is
`0`, the operands are one common node. -/
theorem SameOperand.value {v₁ v₂ : ValueId} (hv : SameOperand g₁ g₂ L v₁ v₂)
    (h : Alike g₁ g₂ L) : ∃ x f, g₁.value v₁ = .ok x ∧ g₂.value v₂ = .ok (x.mapOperands f) ∧
      List.Forall₂ (SameOperand g₁ g₂ L) x.operands (x.mapOperands f).operands ∧
      (∀ q ∈ valueRefs x, L q.kind q.id) ∧ (x ≠ .intConst 0 → v₁ = v₂ ∧ L .value v₁) := by
  cases hv with
  | zero hz₁ hz₂ =>
    exact ⟨.intConst 0, fun _ w => w, hz₁, hz₂, .nil, by simp [valueRefs],
      fun hne => absurd rfl hne⟩
  | common hv =>
    obtain ⟨x₁, x₂, hx₁, hx₂, hc⟩ := h.value hv
    obtain ⟨f, hmap⟩ := hc.exists_map
    obtain rfl := Node.value.inj hmap
    exact ⟨x₁, f, hx₁, hx₂, hc.operands, hc.refs, fun _ => ⟨rfl, hv⟩⟩

/-! ## What the built-in rules answer -/

theorem parent?_eq {ancestors : List NodeId} {a : NodeId} {n : Node}
    (ha : ancestors.getLast? = some a) (hn : g.node? a = some n) :
    parent? g ancestors = .ok (some n) := by
  unfold parent? Arena.node
  rw [ha]
  simp only [hn]
  rfl

theorem intConstantRule_applies {v : ValueId} {ancestors : List NodeId} {x : Value} {n : Node}
    (hx : g.value v = .ok x) (hn : parent? g ancestors = .ok (some n)) :
    intConstantRule.applies g v ancestors =
      .ok (match x with
        | .intConst value => value != 0 && !isArrayAccess n
        | _ => false) := by
  unfold intConstantRule
  simp only [hx, hn, lookUp]
  cases x <;> rfl

theorem fieldReferenceRule_applies_none {v : ValueId} {ancestors : List NodeId} {x : Value}
    (hx : g.value v = .ok x) (hfield : referredField? x = none) :
    fieldReferenceRule.applies g v ancestors = .ok false := by
  unfold fieldReferenceRule
  simp only [hx, lookUp, Except.mapError, bind, Except.bind, hfield]
  rfl

theorem fieldReferenceRule_applies {v : ValueId} {ancestors : List NodeId} {x : Value} {n : Node}
    {field : FieldId} {f : Field} {t : Ty} (hx : g.value v = .ok x)
    (hfield : referredField? x = some field) (hf : g.field field = .ok f)
    (ht : g.type f.ty = .ok t) (hn : parent? g ancestors = .ok (some n)) :
    fieldReferenceRule.applies g v ancestors = .ok (t.isInt && !writes v n) := by
  unfold fieldReferenceRule
  simp only [hx, lookUp, Except.mapError, bind, Except.bind, hfield, hf, ht, hn]
  cases t.isInt <;> rfl

theorem applies_of_isZero {rule : Rule} (hrule : rule ∈ builtInRules) {v : ValueId}
    (hv : IsZero g v) {ancestors : List NodeId} {n : Node}
    (hn : parent? g ancestors = .ok (some n)) : rule.applies g v ancestors = .ok false := by
  rcases List.mem_pair.mp hrule with rfl | rfl
  · exact intConstantRule_applies hv hn
  · exact fieldReferenceRule_applies_none hv rfl

@[simp] theorem isArrayAccess_mapOperands (f : Nat → ValueId → ValueId) (n : Node) :
    isArrayAccess (n.mapOperands f) = isArrayAccess n := by
  cases n with
  | value x => cases x <;> rfl
  | _ => rfl

@[simp] theorem referredField?_mapOperands (f : Nat → ValueId → ValueId) (x : Value) :
    referredField? (x.mapOperands f) = referredField? x := by
  cases x <;> rfl

theorem mem_valueRefs_of_referredField? {x : Value} {field : FieldId}
    (h : referredField? x = some field) : Part.field field ∈ valueRefs x := by
  cases x with
  | instanceField base field' => exact List.mem_singleton.mpr (congrArg _ (Option.some.inj h).symm)
  | staticField field' => exact List.mem_singleton.mpr (congrArg _ (Option.some.inj h).symm)
  | _ => contradiction

theorem not_isZero_of_referredField? {v : ValueId} {x : Value} {field : FieldId}
    (hx : g.value v = .ok x) (h : referredField? x = some field) : ¬IsZero g v := by
  intro hz
  obtain rfl := Except.ok.inj (hx.symm.trans hz)
  contradiction

/-- A value that is not `0` is the left side of both statements or of none. -/
theorem Counterpart.writes_eq {n₁ n₂ : Node} (h : Counterpart g₁ g₂ L n₁ n₂) {v : ValueId}
    (h₁ : ¬IsZero g₁ v) (h₂ : ¬IsZero g₂ v) : writes v n₁ = writes v n₂ := by
  have left {a₁ a₂ : ValueId} {rest₁ rest₂ : List ValueId}
      (hops : List.Forall₂ (SameOperand g₁ g₂ L) (a₁ :: rest₁) (a₂ :: rest₂)) :
      (a₁ == v) = (a₂ == v) := by
    obtain ⟨hsame, _⟩ := List.forall₂_cons.mp hops
    cases hsame with
    | common _ => rfl
    | zero hz₁ hz₂ =>
      have hne₁ : a₁ ≠ v := fun heq => h₁ (heq ▸ hz₁)
      have hne₂ : a₂ ≠ v := fun heq => h₂ (heq ▸ hz₂)
      rw [beq_false_of_ne hne₁, beq_false_of_ne hne₂]
  obtain ⟨f, rfl⟩ := h.exists_map
  cases n₁ with
  | stmt s =>
    cases s with
    | assign a b => exact left h.operands
    | identity a b => exact left h.operands
    | _ => rfl
  | _ => rfl

/-- Every rule gives the same answer about a value in one arena and a value in the other, and none
fails. -/
def Agree (g₁ g₂ : Arena) (rules : List Rule) (ancestors : List NodeId) (v₁ v₂ : ValueId) : Prop :=
  ∀ rule ∈ rules, ∃ b, rule.applies g₁ v₁ ancestors = .ok b ∧ rule.applies g₂ v₂ ancestors = .ok b

section Agree

variable (h : Alike g₁ g₂ L) {ancestors : List NodeId} {n₁ n₂ : Node}
  (hparent : Counterpart g₁ g₂ L n₁ n₂) (hn₁ : parent? g₁ ancestors = .ok (some n₁))
  (hn₂ : parent? g₂ ancestors = .ok (some n₂))
include h hparent hn₁ hn₂

theorem Alike.intConstantRule_agrees {v : ValueId} (hv : L .value v) :
    ∃ b, intConstantRule.applies g₁ v ancestors = .ok b ∧
      intConstantRule.applies g₂ v ancestors = .ok b := by
  obtain ⟨x₁, x₂, hx₁, hx₂, hc⟩ := h.value hv
  obtain ⟨f, hmap⟩ := hc.exists_map
  obtain rfl := Node.value.inj hmap
  obtain ⟨f', rfl⟩ := hparent.exists_map
  refine ⟨_, intConstantRule_applies hx₁ hn₁, ?_⟩
  rw [intConstantRule_applies hx₂ hn₂, isArrayAccess_mapOperands]
  cases x₁ <;> rfl

theorem Alike.fieldReferenceRule_agrees {v : ValueId} (hv : L .value v) :
    ∃ b, fieldReferenceRule.applies g₁ v ancestors = .ok b ∧
      fieldReferenceRule.applies g₂ v ancestors = .ok b := by
  obtain ⟨x₁, x₂, hx₁, hx₂, hc⟩ := h.value hv
  have hsame : referredField? x₂ = referredField? x₁ := by
    obtain ⟨f, hmap⟩ := hc.exists_map
    rw [Node.value.inj hmap, referredField?_mapOperands]
  cases hfield : referredField? x₁ with
  | none =>
    exact ⟨false, fieldReferenceRule_applies_none hx₁ hfield,
      fieldReferenceRule_applies_none hx₂ (hsame.trans hfield)⟩
  | some field =>
    obtain ⟨d, hd₁, hd₂, hty⟩ := h.field (hc.refs _ (mem_valueRefs_of_referredField? hfield))
    obtain ⟨t, ht₁, ht₂, _⟩ := h.type hty
    refine ⟨_, fieldReferenceRule_applies hx₁ hfield hd₁ ht₁ hn₁, ?_⟩
    rw [fieldReferenceRule_applies hx₂ (hsame.trans hfield) hd₂ ht₂ hn₂,
      hparent.writes_eq (not_isZero_of_referredField? hx₁ hfield)
        (not_isZero_of_referredField? hx₂ (hsame.trans hfield))]

end Agree

/-- The built-in rules see the value, its field and the node around it only. -/
theorem Alike.agree (h : Alike g₁ g₂ L) {v₁ v₂ : ValueId} (hv : SameOperand g₁ g₂ L v₁ v₂)
    {ancestors : List NodeId} {kind : NodeKind} {a : NodeId} (ha : ancestors.getLast? = some a)
    (hL : L kind a) : Agree g₁ g₂ builtInRules ancestors v₁ v₂ := by
  obtain ⟨n₁, n₂, hn₁, hn₂, _, hparent⟩ := h.node hL
  have hn₁ := parent?_eq ha hn₁
  have hn₂ := parent?_eq ha hn₂
  intro rule hrule
  cases hv with
  | zero hz₁ hz₂ =>
    exact ⟨false, applies_of_isZero hrule hz₁ hn₁, applies_of_isZero hrule hz₂ hn₂⟩
  | common hv =>
    rcases List.mem_pair.mp hrule with rfl | rfl
    · exact h.intConstantRule_agrees hparent hn₁ hn₂ hv
    · exact h.fieldReferenceRule_agrees hparent hn₁ hn₂ hv

/-! ## The course of the recursion -/

theorem Answers.agree {v₁ v₂ : ValueId} {ancestors : List NodeId}
    {result : Except Failure (List Rule)} {count : Nat}
    (h : Answers g₁ v₁ ancestors rules result count)
    (hagree : Agree g₁ g₂ rules ancestors v₁ v₂) :
    (∃ applying, result = .ok applying) ∧ Answers g₂ v₂ ancestors rules result count := by
  induction h with
  | nil => exact ⟨⟨[], rfl⟩, .nil⟩
  | failed ha =>
    obtain ⟨b, hb, _⟩ := hagree _ (.head _)
    rw [ha] at hb
    contradiction
  | yes ha _ ih =>
    obtain ⟨⟨b, hb₁, hb₂⟩, hlater⟩ := List.forall_mem_cons.mp hagree
    obtain rfl := Except.ok.inj (ha.symm.trans hb₁)
    obtain ⟨⟨applying, rfl⟩, hanswers⟩ := ih hlater
    exact ⟨⟨_, rfl⟩, .yes hb₂ hanswers⟩
  | no ha _ ih =>
    obtain ⟨⟨b, hb₁, hb₂⟩, hlater⟩ := List.forall_mem_cons.mp hagree
    obtain rfl := Except.ok.inj (ha.symm.trans hb₁)
    obtain ⟨hok, hanswers⟩ := ih hlater
    exact ⟨hok, .no hb₂ hanswers⟩

/-- What ends a search, if anything does, is the position of a common value, and not a failure. -/
def FindsCommon {α : Type} (L : NodeKind → NodeId → Prop) (ending : Except Halt α) : Prop :=
  ∀ halt, ending = .error halt → ∃ p, halt = .ok p ∧ L .value p.node

/-- Operands at the same place that stand for the same value. -/
def SamePlace (g₁ g₂ : Arena) (L : NodeKind → NodeId → Prop) (e₁ e₂ : Slot × ValueId) : Prop :=
  e₁.1 = e₂.1 ∧ SameOperand g₁ g₂ L e₁.2 e₂.2

theorem samePlace_held {parent₁ parent₂ : NodeId} {l₁ l₂ : List ValueId}
    (h : List.Forall₂ (SameOperand g₁ g₂ L) l₁ l₂) (hparent : l₁ ≠ [] → parent₁ = parent₂) :
    List.Forall₂ (SamePlace g₁ g₂ L) (held parent₁ l₁) (held parent₂ l₂) := by
  by_cases hnil : l₁ = []
  · subst hnil
    cases h
    exact .nil
  · obtain rfl := hparent hnil
    obtain ⟨hlength, hget⟩ := List.forall₂_iff_get.mp h
    refine List.forall₂_iff_get.mpr ⟨by simp [held, named, hlength], fun i hi₁ hi₂ => ?_⟩
    simp only [held, named, List.length_mapIdx] at hi₁ hi₂
    simpa [SamePlace, held, named] using hget i hi₁ hi₂

/-- The test of an operand finds the same position in both arenas, that of a common value, or none in
either; the operands inside it then stand for the same values, and it is common if there are any. -/
theorem Alike.tries (h : Alike g₁ g₂ L) {v₁ v₂ : ValueId} (hv : SameOperand g₁ g₂ L v₁ v₂)
    {ancestors : List NodeId} {kind : NodeKind} {a : NodeId} (ha : ancestors.getLast? = some a)
    (hL : L kind a) {slot : Slot} {ending : Except Halt Value} {asked : List Query}
    (ht : Tries g₁ builtInRules ancestors slot v₁ ending asked) :
    (∃ p asked', ending = .error (.ok p) ∧ L .value p.node ∧
        Tries g₂ builtInRules ancestors slot v₂ (.error (.ok p)) asked') ∨
      ∃ x₁ x₂ asked', ending = .ok x₁ ∧ Tries g₂ builtInRules ancestors slot v₂ (.ok x₂) asked' ∧
        List.Forall₂ (SameOperand g₁ g₂ L) x₁.operands x₂.operands ∧
        (x₁.operands ≠ [] → v₁ = v₂ ∧ L .value v₁) := by
  have hagree := h.agree hv ha hL
  obtain ⟨x, f, hx₁, hx₂, hops, _, hcommon⟩ := hv.value h
  cases ht with
  | lost hx =>
    rw [hx₁] at hx
    contradiction
  | failed _ hanswers =>
    obtain ⟨⟨_, hok⟩, _⟩ := hanswers.agree hagree
    contradiction
  | @found _ first others _ hx hanswers =>
    have hne : x ≠ .intConst 0 := by
      rintro rfl
      obtain ⟨n₁, _, hn₁, _⟩ := h.node hL
      obtain ⟨hmem, happlies⟩ := hanswers.applies (.head _)
      rw [applies_of_isZero hmem hx₁ (parent?_eq ha hn₁)] at happlies
      contradiction
    obtain ⟨rfl, hnode⟩ := hcommon hne
    exact .inl ⟨_, _, rfl, hnode, .found hx₂ (hanswers.agree hagree).2⟩
  | quiet hx hanswers =>
    obtain rfl := Except.ok.inj (hx₁.symm.trans hx)
    refine .inr ⟨x, _, _, rfl, .quiet hx₂ (hanswers.agree hagree).2, hops, fun hne => hcommon ?_⟩
    rintro rfl
    exact hne rfl

/-- The test of operands takes the same course.  The nodes around them are the same, and the
innermost one is common, unless there are no operands. -/
theorem Alike.descends (h : Alike g₁ g₂ L) {ancestors₁ ancestors₂ : List NodeId}
    {places₁ places₂ : List (Slot × ValueId)}
    (hplaces : List.Forall₂ (SamePlace g₁ g₂ L) places₁ places₂)
    (hwithin : places₁ ≠ [] →
      ancestors₁ = ancestors₂ ∧ ∃ kind a, ancestors₁.getLast? = some a ∧ L kind a)
    {ending : Except Halt Unit} {asked : List Query}
    (hd : Descends g₁ builtInRules ancestors₁ places₁ ending asked) :
    FindsCommon L ending ∧ ∃ asked', Descends g₂ builtInRules ancestors₂ places₂ ending asked' := by
  have inner {ancestors : List NodeId} {v₁ v₂ : ValueId} {x : Value}
      (hcommon : x.operands ≠ [] → v₁ = v₂ ∧ L .value v₁) (hne : held v₁ x.operands ≠ []) :
      ancestors ++ [v₁] = ancestors ++ [v₂] ∧
        ∃ kind a, (ancestors ++ [v₁]).getLast? = some a ∧ L kind a := by
    -- two constants `0` may be different nodes, but there are no operands inside them
    obtain ⟨rfl, hv⟩ := hcommon fun hnil => hne (by rw [hnil]; rfl)
    exact ⟨rfl, .value, v₁, List.getLast?_concat .., hv⟩
  induction hd generalizing ancestors₂ places₂ with
  | nil =>
    cases hplaces
    exact ⟨nofun, _, .nil⟩
  | stop ht =>
    obtain ⟨rfl, kind, a, ha, hL⟩ := hwithin (List.cons_ne_nil _ _)
    obtain ⟨⟨_, v₂⟩, rest₂, ⟨rfl, hv⟩, _, rfl⟩ := List.forall₂_cons_left_iff.mp hplaces
    rcases h.tries hv ha hL ht with ⟨p, _, he, hp, ht₂⟩ | ⟨_, _, _, he, _⟩
    · obtain rfl := Except.error.inj he
      exact ⟨fun halt heq => ⟨p, (Except.error.inj heq).symm, hp⟩, _, .stop ht₂⟩
    · contradiction
  | inside ht _ ih =>
    obtain ⟨rfl, kind, a, ha, hL⟩ := hwithin (List.cons_ne_nil _ _)
    obtain ⟨⟨_, v₂⟩, rest₂, ⟨rfl, hv⟩, _, rfl⟩ := List.forall₂_cons_left_iff.mp hplaces
    rcases h.tries hv ha hL ht with ⟨_, _, he, _⟩ | ⟨_, x₂, _, he, ht₂, hops, hcommon⟩
    · contradiction
    · obtain rfl := Except.ok.inj he
      obtain ⟨hok, _, hd₂⟩ := ih (samePlace_held hops fun hne => (hcommon hne).1) (inner hcommon)
      exact ⟨hok, _, .inside ht₂ hd₂⟩
  | next ht _ _ ihInside ih =>
    obtain ⟨rfl, kind, a, ha, hL⟩ := hwithin (List.cons_ne_nil _ _)
    obtain ⟨⟨_, v₂⟩, rest₂, ⟨rfl, hv⟩, hrest, rfl⟩ := List.forall₂_cons_left_iff.mp hplaces
    rcases h.tries hv ha hL ht with ⟨_, _, he, _⟩ | ⟨_, x₂, _, he, ht₂, hops, hcommon⟩
    · contradiction
    · obtain rfl := Except.ok.inj he
      obtain ⟨_, _, hd₂⟩ :=
        ihInside (samePlace_held hops fun hne => (hcommon hne).1) (inner hcommon)
      obtain ⟨hok, _, hrest₂⟩ := ih hrest fun _ => ⟨rfl, kind, a, ha, hL⟩
      exact ⟨hok, _, .next ht₂ hd₂ hrest₂⟩

/-- The visit of common statements takes the same course and does not fail. -/
theorem Alike.explores (h : Alike g₁ g₂ L) {visited : List StmtId}
    {tasks : List (StmtId × List NodeId)} (htasks : ∀ e ∈ tasks, L .stmt e.1)
    {ending : Except Halt (List StmtId)} {asked : List Query}
    (he : Explores g₁ builtInRules visited tasks ending asked) :
    FindsCommon L ending ∧ ∃ asked', Explores g₂ builtInRules visited tasks ending asked' := by
  have descends {id : StmtId} (hid : L .stmt id) {s₁ : Stmt} (hs₁ : g₁.stmt id = .ok s₁)
      {ancestors : List NodeId} {ending : Except Halt Unit} {asked : List Query}
      (hd : Descends g₁ builtInRules (ancestors ++ [id]) (held id s₁.operands) ending asked) :
      FindsCommon L ending ∧ ∃ s₂ asked', g₂.stmt id = .ok s₂ ∧ s₂.targets = s₁.targets ∧
        (∀ t ∈ s₁.targets, L .stmt t) ∧
        Descends g₂ builtInRules (ancestors ++ [id]) (held id s₂.operands) ending asked' := by
    obtain ⟨s, s₂, hs, hs₂, hc⟩ := h.stmt hid
    obtain rfl := Except.ok.inj (hs.symm.trans hs₁)
    obtain ⟨hok, asked', hd₂⟩ := h.descends (samePlace_held hc.operands fun _ => rfl)
      (fun _ => ⟨rfl, .stmt, id, List.getLast?_concat .., hid⟩) hd
    exact ⟨hok, s₂, asked', hs₂, hc.targets_eq.symm, hc.targets, hd₂⟩
  have targets {id : StmtId} {s₁ : Stmt} {ancestors : List NodeId}
      (htargets : ∀ t ∈ s₁.targets, L .stmt t) :
      ∀ e ∈ s₁.targets.map fun t => (t, ancestors ++ [id]), L .stmt e.1 := by
    intro e he
    obtain ⟨t, ht, rfl⟩ := List.mem_map.mp he
    exact htargets t ht
  induction he with
  | nil => exact ⟨nofun, _, .nil⟩
  | again hid _ ih =>
    obtain ⟨hok, _, he₂⟩ := ih fun e he => htasks e (.tail _ he)
    exact ⟨hok, _, .again hid he₂⟩
  | lost _ hs =>
    obtain ⟨s₁, _, hs₁, _⟩ := h.stmt (htasks _ (.head _))
    rw [hs₁] at hs
    contradiction
  | stop hnew hs hd =>
    obtain ⟨hok, s₂, _, hs₂, _, _, hd₂⟩ := descends (htasks _ (.head _)) hs hd
    exact ⟨fun halt heq => hok halt (congrArg _ (Except.error.inj heq)), _, .stop hnew hs₂ hd₂⟩
  | inside hnew hs hd _ ih =>
    obtain ⟨_, s₂, _, hs₂, heq, htargets, hd₂⟩ := descends (htasks _ (.head _)) hs hd
    obtain ⟨hok, _, he₂⟩ := ih (targets htargets)
    exact ⟨hok, _, .inside hnew hs₂ hd₂ (heq ▸ he₂)⟩
  | next hnew hs hd _ _ ihTargets ih =>
    obtain ⟨hid, hrest⟩ := List.forall_mem_cons.mp htasks
    obtain ⟨_, s₂, _, hs₂, heq, htargets, hd₂⟩ := descends hid hs hd
    obtain ⟨_, _, he₂⟩ := ihTargets (targets htargets)
    obtain ⟨hok, _, hrest₂⟩ := ih hrest
    exact ⟨hok, _, .next hnew hs₂ hd₂ (heq ▸ he₂) hrest₂⟩

end ProgramFacts.Mutation
