import ProgramFacts.Proofs.Refinement

/-! What a mutation changes: either one operand, which then holds a new node, or the content of one
value that nothing else holds.  An attempt without a mutation changes nothing. -/

namespace ProgramFacts.Mutation

open Program ProgramFacts.Flow ProgramFacts.Random Extraction

variable {g g' : Arena} {c : FlowGraph}

/-- The slot holds a new node, whose content is `v`, and all else is as before. -/
structure Rewired (g g' : Arena) (m : Edit) (v : Value) : Prop where
  ne : m.replacement ≠ m.replaced
  index : m.replacement.index = g.size
  size : g'.size = g.size + 1
  content : g'.value m.replacement = .ok v
  parent : ∃ n, g.node? m.slot.parent = some n ∧
    g'.node? m.slot.parent = some (n.setOperand m.slot.index m.replacement)
  others : ∀ id, id ≠ m.replacement → id ≠ m.slot.parent → g'.node? id = g.node? id

/-- The node that only the slot held has the content `v`, and all else is as before. -/
structure Overwritten (g g' : Arena) (m : Edit) (v : Value) : Prop where
  same : m.replacement = m.replaced
  size : g'.size = g.size
  content : g'.value m.replaced = .ok v
  others : ∀ id, id ≠ m.replaced → g'.node? id = g.node? id
  alone : ∀ h, Holds g h m.replaced ↔ h = .operand m.slot

/-! ## Storing a value -/

theorem storeValue_inPlace {node : ValueId} {x : Value} (hx : g.value node = .ok x) (slot : Slot)
    (v : Value) : storeValue g slot node v true = (.ok node, g.put node (.value v)) := by
  simp [storeValue, Arena.overwriteValue, hx, bind, Except.bind, pure, Except.pure]

theorem storeValue_new (hsize : g.size < UInt32.size) {slot : Slot} {node : ValueId} {n : Node}
    (hn : g.node? slot.parent = some n) (hslot : n.operands[slot.index]? = some node) (v : Value) :
    storeValue g slot node v false = (.ok (.ofIndex g.size),
      (g.alloc (.value v)).2.put slot.parent (n.setOperand slot.index (.ofIndex g.size))) := by
  have hne : slot.parent.index ≠ g.size := Nat.ne_of_lt (Arena.index_lt_of_node? hn)
  have hparent : (g.alloc (.value v)).2.node? slot.parent = some n :=
    (Arena.node?_alloc_ne hne _).trans hn
  have hnew : (g.alloc (.value v)).2.value (.ofIndex g.size) = .ok v :=
    Arena.value_eq_ok.mpr (Arena.node?_alloc_same hsize _)
  have hreplace : (g.alloc (.value v)).2.replaceSlot slot (.ofIndex g.size) =
      .ok (node, (g.alloc (.value v)).2.put slot.parent
        (n.setOperand slot.index (.ofIndex g.size))) := by
    unfold Arena.replaceSlot Arena.node
    rw [hnew, hparent]
    simp only [bind, Except.bind, hslot]
    rfl
  have hid : (g.alloc (.value v)).1 = .ofIndex g.size := rfl
  unfold storeValue
  rw [if_neg Bool.false_ne_true]
  dsimp only
  rw [hid, hreplace]

theorem value_of_storeValue (hsize : g.size < UInt32.size) {slot : Slot} {node id : ValueId}
    {x v : Value} {inPlace : Bool} (hslot : g.slot slot = .ok node) (hx : g.value node = .ok x)
    (hstore : storeValue g slot node v inPlace = (.ok id, g')) : g'.value id = .ok v := by
  refine Arena.value_eq_ok.mpr ?_
  cases inPlace with
  | true =>
    rw [storeValue_inPlace hx, Prod.mk.injEq, Except.ok.injEq] at hstore
    obtain ⟨rfl, rfl⟩ := hstore
    exact Arena.node?_put_same (Arena.index_lt_of_resolve hx) _
  | false =>
    obtain ⟨n, hn, hv⟩ := Arena.slot_eq_ok.mp hslot
    rw [storeValue_new hsize hn hv, Prod.mk.injEq, Except.ok.injEq] at hstore
    obtain ⟨rfl, rfl⟩ := hstore
    have hparent := Arena.index_lt_of_node? hn
    have hindex : (NodeId.ofIndex g.size).index = g.size := NodeId.index_ofIndex hsize
    have hne : NodeId.ofIndex g.size ≠ slot.parent := fun h => by rw [h] at hindex; omega
    rw [Arena.node?_put_ne hne, Arena.node?_alloc_same hsize]

/-- What an attempt can leave of an arena. -/
inductive Stored (g : Arena) : Arena → Prop
  | unchanged : Stored g g
  | overwritten {node : ValueId} {x v : Value} :
      g.value node = .ok x → Stored g (g.put node (.value v))
  | allocated {v : Value} : Stored g (g.alloc (.value v)).2
  | rewired {slot : Slot} {n : Node} {v : Value} {id : ValueId} :
      (g.alloc (.value v)).2.node? slot.parent = some n →
      Stored g ((g.alloc (.value v)).2.put slot.parent (n.setOperand slot.index id))

theorem stored_storeValue (slot : Slot) (node : ValueId) (v : Value) (inPlace : Bool) :
    Stored g (storeValue g slot node v inPlace).2 := by
  unfold storeValue
  split
  · split
    · rename_i hg'
      obtain ⟨⟨x, hx⟩, rfl⟩ := Arena.overwriteValue_eq_ok hg'
      exact .overwritten hx
    · exact .unchanged
  · dsimp only
    split
    · rename_i hg'
      obtain ⟨n, hn, rfl⟩ := Arena.replaceSlot_eq_ok hg'
      exact .rewired hn
    · exact .allocated

theorem Stored.le_size (h : Stored g g') : g.size ≤ g'.size := by
  cases h <;> simp

theorem Stored.size_le (h : Stored g g') : g'.size ≤ g.size + 1 := by
  cases h <;> simp

theorem rewired_of_storeValue (hsize : g.size < UInt32.size) {m : Edit} {x v : Value}
    (hslot : g.slot m.slot = .ok m.replaced) (hx : g.value m.replaced = .ok x)
    (hstore : storeValue g m.slot m.replaced v false = (.ok m.replacement, g')) :
    Rewired g g' m v := by
  have hcontent := value_of_storeValue hsize hslot hx hstore
  obtain ⟨n, hn, hv⟩ := Arena.slot_eq_ok.mp hslot
  rw [storeValue_new hsize hn hv, Prod.mk.injEq, Except.ok.injEq] at hstore
  obtain ⟨hid, rfl⟩ := hstore
  have hindex : m.replacement.index = g.size := hid ▸ NodeId.index_ofIndex hsize
  have hparent := Arena.index_lt_of_node? hn
  rw [hid]
  constructor
  · rintro heq
    have := Arena.index_lt_of_resolve hx
    rw [← heq, hindex] at this
    omega
  · exact hindex
  · simp
  · rwa [hid] at hcontent
  · exact ⟨n, hn, Arena.node?_put_same (by simp; omega) _⟩
  · intro id hid' hne
    rw [Arena.node?_put_ne hne, Arena.node?_alloc_ne]
    exact fun h => hid' (NodeId.ext_index (h.trans hindex.symm))

theorem overwritten_of_storeValue (hsize : g.size ≤ UInt32.size) {m : Edit} {x v : Value}
    (hslot : g.slot m.slot = .ok m.replaced) (hx : g.value m.replaced = .ok x)
    (hcount : g.referenceCount m.replaced ≤ 1)
    (hstore : storeValue g m.slot m.replaced v true = (.ok m.replacement, g')) :
    Overwritten g g' m v := by
  rw [storeValue_inPlace hx, Prod.mk.injEq, Except.ok.injEq] at hstore
  obtain ⟨hid, rfl⟩ := hstore
  have honly := (Arena.referenceCount_le_one_iff hsize).mp hcount
  constructor
  · exact hid.symm
  · simp
  · exact Arena.value_eq_ok.mpr (Arena.node?_put_same (Arena.index_lt_of_resolve hx) _)
  · exact fun id hne => Arena.node?_put_ne hne _
  · intro h
    constructor
    · exact fun hh => honly h (.operand m.slot) hh hslot
    · rintro rfl
      exact hslot

/-! ## Attempts -/

/-- What an attempt that mutates applies: a rule of the mutator, at a place where it applies, with
the value that the rule gives. -/
structure Applies (s : Mutator) (g g' : Arena) (c : FlowGraph) (m : Edit) (rule : Rule)
    (v : Value) : Prop where
  mem : rule ∈ s.rules
  name : rule.name = m.rule
  place : ∃ ancestors, Place g c ancestors m.slot m.replaced ∧
    rule.applies g m.replaced ancestors = .ok true
  resolves : ∃ x, g.value m.replaced = .ok x
  replacement : rule.replacement g m.replaced = .ok v
  stored : storeValue g m.slot m.replaced v (keepsNode s.policy g m.replaced) =
    (.ok m.replacement, g')

theorem Applies.slot {s : Mutator} {m : Edit} {rule : Rule} {v : Value}
    (h : Applies s g g' c m rule v) : g.slot m.slot = .ok m.replaced := by
  obtain ⟨ancestors, hplace, _⟩ := h.place
  exact hplace.enclosed.slot

theorem exists_storeValue (hsize : g.size < UInt32.size) {slot : Slot} {node : ValueId} {x : Value}
    (hslot : g.slot slot = .ok node) (hx : g.value node = .ok x) (v : Value) (inPlace : Bool) :
    ∃ id g', storeValue g slot node v inPlace = (.ok id, g') := by
  cases inPlace with
  | true => exact ⟨_, _, storeValue_inPlace hx slot v⟩
  | false =>
    obtain ⟨n, hn, hv⟩ := Arena.slot_eq_ok.mp hslot
    exact ⟨_, _, storeValue_new hsize hn hv v⟩

/-- The search of an attempt has failed, has found nothing, or has found a place where a rule
applies; only a rule that gives no value, or a text that has no end, keeps the last from being a
mutation. -/
inductive Attempted (s : Mutator) (g : Arena) (c : FlowGraph) : Attempt → Prop
  | unchanged {a : Attempt} : (∀ m, a.result ≠ .ok (some m)) → a.arena = g → Attempted s g c a
  | applied {a : Attempt} {m : Edit} {rule : Rule} {v : Value} :
      a.result = .ok (some m) → Applies s g a.arena c m rule v → Attempted s g c a

/-- Where the text before has no end, neither has the replacement. -/
theorem applyRule_of_text_none {rule : Rule} {slot : Slot} {node : ValueId} {v : Value}
    (hv : rule.replacement g node = .ok v) (htext : g.valueText? node = none)
    (policy : IdentityPolicy) : applyRule policy g slot node rule = endless g node := by
  unfold applyRule
  rw [hv, htext]

/-- A rule that gives a value is applied, unless the text before or after has no end. -/
theorem applies_or_endless (hsize : g.size < UInt32.size) {s : Mutator} {rule : Rule}
    {ancestors : List NodeId} {slot : Slot} {node : ValueId} {x v : Value} {before : String}
    (hmem : rule ∈ s.rules) (hplace : Place g c ancestors slot node) (hx : g.value node = .ok x)
    (happlies : rule.applies g node ancestors = .ok true)
    (hv : rule.replacement g node = .ok v) (hbefore : g.valueText? node = some before) :
    let applied := applyRule s.policy g slot node rule
    ∃ id g', storeValue g slot node v (keepsNode s.policy g node) = (.ok id, g') ∧
      ((g'.valueText? id = none ∧ applied = endless g id) ∨
        applied.1 = .ok ⟨rule.name, slot, node, id⟩ ∧
          Applies s g applied.2.1 c ⟨rule.name, slot, node, id⟩ rule v) := by
  obtain ⟨id, g', hstore⟩ :=
    exists_storeValue hsize hplace.enclosed.slot hx v (keepsNode s.policy g node)
  refine ⟨id, g', hstore, ?_⟩
  unfold applyRule
  simp only [hv, hbefore, hstore]
  cases hafter : g'.valueText? id with
  | none => exact .inl ⟨rfl, rfl⟩
  | some after =>
    exact .inr ⟨rfl, hmem, rfl, ⟨ancestors, hplace, happlies⟩, ⟨x, hx⟩, hv, hstore⟩

/-- The rule that is drawn for a position. -/
def Position.drawn (p : Position) (r : Generator) : Rule :=
  p.rules.getD (r.below p.rules.length).1 p.firstRule

theorem Position.drawn_mem (p : Position) (r : Generator) : p.drawn r ∈ p.rules := by
  have hchoice : (r.below p.rules.length).1 < p.rules.length := below_lt r (Nat.succ_pos _)
  rw [drawn, List.getD_eq_getElem?_getD, List.getElem?_eq_getElem hchoice]
  exact List.getElem_mem hchoice

theorem mutate_of_search {s : Mutator} {p : Position} {asked : List Query}
    (h : (search g c s.rules).ask = (.ok (some p), asked)) (r : Generator) :
    let applied := applyRule s.policy g p.slot p.node (p.drawn r)
    s.mutate g c r =
      ⟨applied.1.map some, applied.2.1, (r.below p.rules.length).2, applied.2.2, asked⟩ := by
  unfold Mutator.mutate
  rw [h]
  rfl

theorem stored_applyRule (policy : IdentityPolicy) (slot : Slot) (node : ValueId) (rule : Rule) :
    Stored g (applyRule policy g slot node rule).2.1 := by
  unfold applyRule
  cases rule.replacement g node with
  | error failure => exact .unchanged
  | ok v =>
    cases g.valueText? node with
    | none => exact .unchanged
    | some before =>
      have hstore := stored_storeValue (g := g) slot node v (keepsNode policy g node)
      rcases hresult : storeValue g slot node v (keepsNode policy g node) with ⟨_ | id, g'⟩
      · simpa only [hresult] using hstore
      · simp only [hresult] at hstore ⊢
        cases g'.valueText? id with
        | none => exact .unchanged
        | some after => exact hstore

theorem stored_mutate (s : Mutator) (r : Generator) : Stored g (s.mutate g c r).arena := by
  rcases hask : (search g c s.rules).ask with ⟨_ | _ | p, asked⟩
  · unfold Mutator.mutate
    rw [hask]
    exact .unchanged
  · unfold Mutator.mutate
    rw [hask]
    exact .unchanged
  · rw [mutate_of_search hask]
    exact stored_applyRule ..

theorem size_mutate_le (s : Mutator) (r : Generator) :
    (s.mutate g c r).arena.size ≤ g.size + 1 := (stored_mutate s r).size_le

theorem le_size_mutate (s : Mutator) (r : Generator) : g.size ≤ (s.mutate g c r).arena.size :=
  (stored_mutate s r).le_size

/-- An attempt finds nothing exactly if its search does. -/
theorem result_eq_none_iff {s : Mutator} {r : Generator} :
    (s.mutate g c r).result = .ok none ↔ (search g c s.rules).ask.1 = .ok none := by
  rcases hask : (search g c s.rules).ask with ⟨_ | _ | p, asked⟩
  · unfold Mutator.mutate
    simp [hask]
  · unfold Mutator.mutate
    simp [hask]
  · rw [mutate_of_search hask]
    cases (applyRule s.policy g p.slot p.node (p.drawn r)).1 <;> simp [Except.map]

theorem mutate_of_result_none {s : Mutator} {r : Generator}
    (h : (s.mutate g c r).result = .ok none) :
    (s.mutate g c r).arena = g ∧ (s.mutate g c r).generator = r := by
  rcases hask : (search g c s.rules).ask with ⟨found, asked⟩
  obtain rfl : found = .ok none := by rw [← result_eq_none_iff.mp h, hask]
  unfold Mutator.mutate
  rw [hask]
  exact ⟨rfl, rfl⟩

theorem attempted_mutate (hacyclic : Acyclic g (Met g c (Reached g c)))
    (hsize : g.size < UInt32.size) (s : Mutator) (r : Generator) :
    Attempted s g c (s.mutate g c r) := by
  rcases hask : (search g c s.rules).ask with ⟨result, asked⟩
  obtain ⟨ending, he, rfl⟩ := (explores_iff hacyclic).mpr hask
  obtain ⟨_, hhalts⟩ := he.proper trail_of_mem_roots
  match ending, hhalts with
  | .ok _, _ =>
    unfold Mutator.mutate
    rw [hask]
    exact .unchanged (by simp [outcome]) rfl
  | .error (.error failure), _ =>
    unfold Mutator.mutate
    rw [hask]
    exact .unchanged (by simp [outcome]) rfl
  | .error (.ok p), hhalts =>
    obtain ⟨ancestors, x, count, hplace, hx, hanswers⟩ := hhalts _ rfl
    obtain ⟨hmem, happlies⟩ := hanswers.applies (p.drawn_mem r)
    rw [mutate_of_search hask]
    cases hv : (p.drawn r).replacement g p.node with
    | error failure =>
      unfold applyRule
      rw [hv]
      exact .unchanged (by simp [Except.map]) rfl
    | ok v =>
      cases hbefore : g.valueText? p.node with
      | none =>
        rw [applyRule_of_text_none hv hbefore]
        exact .unchanged (by simp [endless, Except.map]) rfl
      | some before =>
        obtain ⟨id, _, _, ⟨_, hendless⟩ | ⟨hresult, happlied⟩⟩ :=
          applies_or_endless hsize hmem hplace hx happlies hv hbefore
        · rw [hendless]
          exact .unchanged (by simp [endless, Except.map]) rfl
        · exact .applied (by rw [hresult]; rfl) happlied

theorem keepsNode_eq_false_iff (hsize : g.size ≤ UInt32.size) {policy : IdentityPolicy}
    {node : ValueId} :
    keepsNode policy g node = false ↔ policy = .fresh ∨ HeldTwice g node := by
  rw [← Arena.one_lt_referenceCount_iff hsize]
  cases policy <;> simp [keepsNode]

section Applies

variable {s : Mutator} {m : Edit} {rule : Rule} {v : Value}

theorem Applies.rewired (h : Applies s g g' c m rule v) (hsize : g.size < UInt32.size)
    (hkeeps : keepsNode s.policy g m.replaced = false) : Rewired g g' m v := by
  obtain ⟨x, hx⟩ := h.resolves
  exact rewired_of_storeValue hsize h.slot hx (hkeeps ▸ h.stored)

theorem Applies.overwritten (h : Applies s g g' c m rule v) (hsize : g.size < UInt32.size)
    (hkeeps : keepsNode s.policy g m.replaced = true) : Overwritten g g' m v := by
  obtain ⟨x, hx⟩ := h.resolves
  have hcount : g.referenceCount m.replaced ≤ 1 := by
    unfold keepsNode at hkeeps
    simpa using (Bool.and_eq_true_iff.mp hkeeps).2
  exact overwritten_of_storeValue (Nat.le_of_lt hsize) h.slot hx hcount (hkeeps ▸ h.stored)

theorem Applies.rewired_or_overwritten (h : Applies s g g' c m rule v)
    (hsize : g.size < UInt32.size) : Rewired g g' m v ∨ Overwritten g g' m v := by
  cases hkeeps : keepsNode s.policy g m.replaced with
  | false => exact .inl (h.rewired hsize hkeeps)
  | true => exact .inr (h.overwritten hsize hkeeps)

theorem Applies.rewired_iff (h : Applies s g g' c m rule v) (hsize : g.size < UInt32.size) :
    Rewired g g' m v ↔ s.policy = .fresh ∨ HeldTwice g m.replaced := by
  rw [← keepsNode_eq_false_iff (Nat.le_of_lt hsize)]
  constructor
  · intro hrewired
    cases hkeeps : keepsNode s.policy g m.replaced with
    | false => rfl
    | true => exact absurd (h.overwritten hsize hkeeps).same hrewired.ne
  · exact h.rewired hsize

theorem Applies.size_le (h : Applies s g g' c m rule v) : g'.size ≤ g.size + 1 := by
  have hstore := stored_storeValue m.slot m.replaced v (keepsNode s.policy g m.replaced) (g := g)
  rw [h.stored] at hstore
  exact hstore.size_le

end Applies

/-- When one rule applies at the place that is found, it is the one that is applied. -/
theorem result_of_explores (hacyclic : Acyclic g (Met g c (Reached g c))) {s : Mutator}
    {slot : Slot} {node : ValueId} {rule : Rule} {asked : List Query}
    (h : Explores g s.rules [] (roots c) (.error (.ok ⟨slot, node, rule, []⟩)) asked)
    (r : Generator) :
    (s.mutate g c r).result = (applyRule s.policy g slot node rule).1.map some := by
  have hask := (explores_iff hacyclic).mp ⟨_, h, rfl⟩
  obtain ⟨_, choice, hlt, _, hresult⟩ := concludes_mutate (c := c) hask r
  obtain rfl : choice = 0 := Nat.lt_one_iff.mp hlt
  exact hresult

theorem replacement_of_mem_builtInRules {rule : Rule} (hrule : rule ∈ builtInRules)
    {node : ValueId} {v : Value} (hv : rule.replacement g node = .ok v) : v = .intConst 0 := by
  rcases List.mem_pair.mp hrule with rfl | rfl <;> exact (Except.ok.inj hv).symm

/-- A mutation by the built-in rules puts the constant `0` where one of them applies. -/
theorem applies_of_result {policy : IdentityPolicy} {r : Generator} {m : Edit}
    (hacyclic : Acyclic g (Met g c (Reached g c))) (hsize : g.size < UInt32.size)
    (hm : ((Mutator.builtIn policy).mutate g c r).result = .ok (some m)) :
    ∃ rule, Applies (.builtIn policy) g ((Mutator.builtIn policy).mutate g c r).arena c m rule
      (.intConst 0) := by
  cases attempted_mutate hacyclic hsize (.builtIn policy) r with
  | unchanged hnone _ => exact absurd hm (hnone m)
  | applied hm' happlies =>
    obtain rfl := Option.some.inj (Except.ok.inj (hm.symm.trans hm'))
    obtain rfl := replacement_of_mem_builtInRules happlies.mem happlies.replacement
    exact ⟨_, happlies⟩

/-- A switch whose key is also its label, and which jumps to itself. -/
def keyed : Arena :=
  ⟨#[.value (.intConst 7), .stmt (.lookupSwitch ⟨0⟩ [⟨0⟩] [⟨1⟩] ⟨1⟩)]⟩

def keyedFlow : FlowGraph := FlowGraph.empty.insertNode ⟨1⟩

theorem result_keyed (r : Generator) :
    ((Mutator.builtIn .preserve).mutate keyed keyedFlow r).result =
      .ok (some ⟨"REPLACE_INT_CONSTANT", ⟨⟨1⟩, 0⟩, ⟨0⟩, ⟨2⟩⟩) := by
  have hacyclic := acyclic_of_valuesEarlier (g := keyed) (by decide)
    (Met keyed keyedFlow (Reached keyed keyedFlow))
  have hfound : Explores keyed builtInRules [] (roots keyedFlow)
      (.error (.ok ⟨⟨⟨1⟩, 0⟩, ⟨0⟩, intConstantRule, []⟩)) _ :=
    .stop List.not_mem_nil rfl (.stop (.found rfl (.yes rfl (.no rfl .nil))))
  rw [result_of_explores hacyclic hfound]
  rfl

end ProgramFacts.Mutation
