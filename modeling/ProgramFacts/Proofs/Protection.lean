import ProgramFacts.Proofs.Eligibility

/-! What the built-in rules never touch: the left sides of assignments that are no constants, and
the constants in accesses to array elements.  Other slots may hold the same nodes and be eligible; a
node is overwritten only if one slot alone holds it, and this slot is then not a guarded one. -/

namespace ProgramFacts.Mutation

open Program ProgramFacts.Flow ProgramFacts.Random Extraction

variable {g g' : Arena} {c : FlowGraph} {m : Edit} {slot : Slot} {v : ValueId} {x : Value}

/-- The node keeps an operand with the content `x` from the rules: an assignment its left side,
unless this is an `int` constant, and an access to an array element its `int` constants. -/
inductive Guards : Node → Nat → Value → Prop
  | assign {left right : ValueId} {x : Value} :
      (∀ k, x ≠ .intConst k) → Guards (.stmt (.assign left right)) 0 x
  | identity {left right : ValueId} {x : Value} :
      (∀ k, x ≠ .intConst k) → Guards (.stmt (.identity left right)) 0 x
  | access {base index : ValueId} {i : Nat} {k : Int32} :
      Guards (.value (.arrayElement base index)) i (.intConst k)

/-- The slot holds `v`, whose content is `x`, and the node of the slot keeps it there. -/
structure Guarded (g : Arena) (slot : Slot) (v : ValueId) (x : Value) : Prop where
  node : ∃ n, g.node? slot.parent = some n ∧ n.operands[slot.index]? = some v ∧
    Guards n slot.index x
  value : g.value v = .ok x

theorem Guarded.holds (h : Guarded g slot v x) : g.slot slot = .ok v := by
  obtain ⟨n, hn, hv, _⟩ := h.node
  exact Arena.slot_eq_ok.mpr ⟨n, hn, hv⟩

theorem Guards.mapOperands {n : Node} {i : Nat} (h : Guards n i x)
    (f f' : Nat → ValueId → ValueId) : Guards (n.mapOperands f) i (x.mapOperands f') := by
  have hconst (hx : ∀ k, x ≠ .intConst k) (k : Int32) : x.mapOperands f' ≠ .intConst k :=
    fun heq => hx k (Value.mapOperands_eq_intConst.mp heq)
  cases h with
  | assign hx => exact .assign (hconst hx)
  | identity hx => exact .identity (hconst hx)
  | access => exact .access

theorem Guards.not_replaceable {n : Node} {i : Nat} (h : Guards n i x)
    (hv : n.operands[i]? = some v) (hx : g.value v = .ok x) : ¬Replaceable g n v := by
  cases h with
  | assign hconst =>
    obtain rfl := Option.some.inj hv
    exact not_replaceable_of_writes hx hconst (beq_self_eq_true _)
  | identity hconst =>
    obtain rfl := Option.some.inj hv
    exact not_replaceable_of_writes hx hconst (beq_self_eq_true _)
  | access =>
    rintro (⟨_, _, harray⟩ | ⟨hx', hfield, _⟩)
    · exact harray _ _ rfl
    · obtain rfl := Except.ok.inj (hx.symm.trans hx')
      simp at hfield

theorem Guarded.not_eligible (h : Guarded g slot v x) : ¬Eligible g slot v := by
  rintro ⟨n, hn, hv, hreplaceable⟩
  obtain ⟨n', hn', _, hguards⟩ := h.node
  obtain rfl := Option.some.inj (hn.symm.trans hn')
  exact hguards.not_replaceable hv h.value hreplaceable

/-! ## One attempt -/

/-- A replaceable value guards none of its own operands. -/
theorem Replaceable.not_guards {n n' : Node} {w : ValueId} (hw : Replaceable g n' w)
    (hn : g.node? w = some n) {i : Nat} : ¬Guards n i x := by
  intro h
  rcases hw with ⟨hy, _⟩ | ⟨hy, hfield, _⟩
  · obtain rfl := Option.some.inj (hn.symm.trans (Arena.value_eq_ok.mp hy))
    contradiction
  · obtain rfl := Option.some.inj (hn.symm.trans (Arena.value_eq_ok.mp hy))
    cases h
    simp at hfield

/-- A node that is there before the mutation is the replacement only if it is overwritten. -/
theorem Applies.replacement_eq {s : Mutator} {rule : Rule} {w : Value} {n : Node}
    (h : Applies s g g' c m rule w) (hsize : g.size < UInt32.size)
    (hn : g.node? m.replacement = some n) : m.replacement = m.replaced := by
  rcases h.rewired_or_overwritten hsize with hrewired | hoverwritten
  · have hlt := Arena.index_lt_of_node? hn
    rw [hrewired.index] at hlt
    exact absurd hlt (Nat.lt_irrefl _)
  · exact hoverwritten.same

theorem Guarded.applies (h : Guarded g slot v x) {policy : IdentityPolicy} {rule : Rule}
    (happlies : Applies (.builtIn policy) g g' c m rule (.intConst 0))
    (hsize : g.size < UInt32.size) (hacyclic : Acyclic g (Met g c (Reached g c))) :
    ∃ f, Guarded g' slot v (x.mapOperands f) := by
  have hpatched := happlies.patched hsize hacyclic
  obtain ⟨n, hn, hv, hguards⟩ := h.node
  -- the mutation takes another slot, so it overwrites neither what this one holds nor its node
  have hslot : slot ≠ m.slot := by
    rintro rfl
    obtain rfl := Except.ok.inj (h.holds.symm.trans happlies.slot)
    exact h.not_eligible happlies.eligible
  have hne : v ≠ m.replacement := by
    rintro rfl
    exact hslot (Holder.operand.inj
      (hpatched.alone (.operand slot) _ (Arena.value_eq_ok.mp h.value) h.holds))
  have hparent : slot.parent ≠ m.replacement := by
    intro heq
    rw [heq] at hn
    obtain ⟨_, _, _, hreplaceable⟩ := happlies.eligible
    exact hreplaceable.not_guards (happlies.replacement_eq hsize hn ▸ hn) hguards
  refine ⟨m.redirect v, ⟨_, hpatched.node?_eq hparent hn, ?_, hguards.mapOperands _ _⟩,
    (hpatched.value_eq_ok hne).mpr ⟨x, h.value, rfl⟩⟩
  rw [Edit.patch, Node.operands_mapOperands]
  exact Edit.getElem?_redirect_of_ne hslot hv

/-- An attempt with the built-in rules leaves the arena as it is, or applies one of them. -/
theorem arena_eq_or_applies (hacyclic : Acyclic g (Met g c (Reached g c)))
    (hsize : g.size < UInt32.size) (policy : IdentityPolicy) (r : Generator) :
    let a := (Mutator.builtIn policy).mutate g c r
    a.arena = g ∨ ∃ m rule, Applies (.builtIn policy) g a.arena c m rule (.intConst 0) := by
  cases attempted_mutate hacyclic hsize (.builtIn policy) r with
  | unchanged _ harena => exact .inl harena
  | applied _ happlies =>
    obtain rfl := replacement_of_mem_builtInRules happlies.mem happlies.replacement
    exact .inr ⟨_, _, happlies⟩

/-! ## Any number of attempts -/

/-- The arenas that attempts with the built-in rules lead to, each with one of the control flows,
and with a policy and a generator of its own. -/
inductive Mutated (flows : FlowGraph → Prop) (g : Arena) : Arena → Prop
  | none : Mutated flows g g
  | next {g' : Arena} {c : FlowGraph} (policy : IdentityPolicy) (r : Generator) :
      flows c → Mutated flows g g' →
      Mutated flows g ((Mutator.builtIn policy).mutate g' c r).arena

/-- What every attempt keeps. -/
structure Keeps (flows : FlowGraph → Prop) (g : Arena) (slot : Slot) (v : ValueId) (x : Value) :
    Prop where
  acyclic : ∀ c, flows c → Acyclic g (Met g c (Reached g c))
  guarded : ∃ f, Guarded g slot v (x.mapOperands f)

section Mutated

variable {flows : FlowGraph → Prop}

theorem Keeps.mutate (h : Keeps flows g slot v x) (hsize : g.size < UInt32.size) (hc : flows c)
    (policy : IdentityPolicy) (r : Generator) :
    Keeps flows ((Mutator.builtIn policy).mutate g c r).arena slot v x := by
  have hacyclic := h.acyclic c hc
  rcases arena_eq_or_applies hacyclic hsize policy r with harena | ⟨m, rule, happlies⟩
  · rwa [harena]
  · obtain ⟨f, hguarded⟩ := h.guarded
    obtain ⟨f', hguarded⟩ := hguarded.applies happlies hsize hacyclic
    rw [Value.mapOperands_mapOperands] at hguarded
    have hpatched := happlies.patched hsize hacyclic
    exact ⟨fun c' hc' => hpatched.acyclic rfl (h.acyclic c' hc'), _, hguarded⟩

theorem Mutated.keeps (hmutated : Mutated flows g g') (hsize : g'.size < UInt32.size)
    (h : Keeps flows g slot v x) : Keeps flows g' slot v x := by
  induction hmutated with
  | none => exact h
  | next policy r hc _ ih =>
    have hsize := Nat.lt_of_le_of_lt (le_size_mutate ..) hsize
    exact (ih hsize).mutate hsize hc policy r

/-- Any number of attempts with the built-in rules leaves in place what guarded slots hold, whatever
else holds it: the left side of an assignment has the same content but for operands, and the
constant in an access to an array element is the same constant. -/
theorem guarded_slots_kept (hacyclic : ∀ c, flows c → Acyclic g (Met g c (Reached g c)))
    (hmutated : Mutated flows g g') (hsize : g'.size < UInt32.size) (h : Guarded g slot v x) :
    (∃ f, Guarded g' slot v (x.mapOperands f)) ∧
      ∀ k, x = .intConst k → g'.value v = .ok (.intConst k) := by
  have hkeeps : Keeps flows g slot v x := ⟨hacyclic, fun _ w => w, x.mapOperands_id.symm ▸ h⟩
  obtain ⟨f, hguarded⟩ := (hmutated.keeps hsize hkeeps).guarded
  refine ⟨⟨f, hguarded⟩, ?_⟩
  rintro k rfl
  exact hguarded.value

end Mutated

/-- The control flow of `indexed`. -/
def indexedFlow : FlowGraph := (FlowGraph.empty.insertNode ⟨6⟩).insertNode ⟨7⟩

theorem result_indexed (r : Generator) :
    ((Mutator.builtIn .preserve).mutate indexed indexedFlow r).result =
      .ok (some ⟨"REPLACE_INT_CONSTANT", ⟨⟨6⟩, 1⟩, ⟨4⟩, ⟨8⟩⟩) := by
  have hacyclic := acyclic_of_valuesEarlier (g := indexed) (by decide)
    (Met indexed indexedFlow (Reached indexed indexedFlow))
  have hfound : Explores indexed builtInRules [] (roots indexedFlow)
      (.error (.ok ⟨⟨⟨6⟩, 1⟩, ⟨4⟩, intConstantRule, []⟩)) _ :=
    .stop List.not_mem_nil rfl (.next (.quiet rfl (.no rfl (.no rfl .nil))) .nil
      (.stop (.found rfl (.yes rfl (.no rfl .nil)))))
  rw [result_of_explores hacyclic hfound]
  rfl

/-- The access keeps the constant that the first assignment loses. -/
theorem guarded_slots_kept_indexed :
    let a := (Mutator.builtIn .preserve).mutate indexed indexedFlow (.ofSeed 0)
    (∃ m, a.result = .ok (some m) ∧ m.replaced = ⟨4⟩) ∧ a.arena.size < UInt32.size ∧
      Mutated (· = indexedFlow) indexed a.arena ∧ Guarded indexed ⟨⟨5⟩, 1⟩ ⟨4⟩ (.intConst 5) ∧
      (∀ c, c = indexedFlow → Acyclic indexed (Met indexed c (Reached indexed c))) ∧
      a.arena.value ⟨4⟩ = .ok (.intConst 5) ∧ a.arena.slot ⟨⟨5⟩, 1⟩ = .ok ⟨4⟩ := by
  intro a
  have hacyclic (c : FlowGraph) (_ : c = indexedFlow) :
      Acyclic indexed (Met indexed c (Reached indexed c)) :=
    acyclic_of_valuesEarlier (by decide) _
  have hmutated : Mutated (· = indexedFlow) indexed a.arena := .next .preserve (.ofSeed 0) rfl .none
  have hsize : a.arena.size < UInt32.size := Nat.lt_of_le_of_lt (size_mutate_le ..) (by decide)
  have hguarded : Guarded indexed ⟨⟨5⟩, 1⟩ ⟨4⟩ (.intConst 5) := ⟨⟨_, rfl, rfl, .access⟩, rfl⟩
  obtain ⟨⟨f, hkept⟩, hconst⟩ := guarded_slots_kept hacyclic hmutated hsize hguarded
  exact ⟨⟨_, result_indexed _, rfl⟩, hsize, hmutated, hguarded, hacyclic, hconst 5 rfl,
    hkept.holds⟩

end ProgramFacts.Mutation
