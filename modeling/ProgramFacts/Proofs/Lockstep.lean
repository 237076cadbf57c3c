import ProgramFacts.Proofs.Texts
import ProgramFacts.Proofs.Upkeep

/-! Runs of attempts under both ways to store replacements, side by side.  From a common program
on, every attempt finds the same position in both arenas and draws the same rule there; the arenas
keep the nodes that neither run has replaced in common, and a slot that was replaced holds `0` in
both. -/

namespace ProgramFacts.Mutation

open Program ProgramFacts.Flow ProgramFacts.Random Extraction

variable {g g' g₁ g₂ g₁' g₂' : Arena} {c : FlowGraph} {L : NodeKind → NodeId → Prop}

/-! ## The same program on both sides -/

/-- The tokens that the registered statements lead to, with their kinds. -/
inductive Linked (g : Arena) (c : FlowGraph) : NodeKind → NodeId → Prop
  | stmt {id : StmtId} : Reached g c id → Linked g c .stmt id
  | part {p : Part} : Met g c (Reached g c) p → Linked g c p.kind p.id

theorem alike_self (hkinds : WellKinded g c) : Alike g g (Linked g c) := by
  have common {l : List ValueId} (h : ∀ v ∈ l, Linked g c .value v) :
      List.Forall₂ (SameOperand g g (Linked g c)) l l :=
    List.forall₂_same.mpr fun v hv => .common (h v hv)
  constructor
  intro kind id hid
  cases hid with
  | stmt hid =>
    obtain ⟨s, hs⟩ := hkinds.stmt hid
    have value {v : ValueId} (hv : v ∈ s.operands ++ s.labels) : Linked g c .value v :=
      .part (.value hid (.top hs hv))
    refine ⟨.stmt s, .stmt s, Arena.stmt_eq_ok.mp hs, Arena.stmt_eq_ok.mp hs, rfl, rfl,
      common fun v hv => value (List.mem_append_left _ hv),
      fun v hv => value (List.mem_append_right _ hv),
      fun t ht => .stmt (hid.target hs ht), fun q hq => nomatch hq⟩
  | @part p hp =>
    obtain ⟨n, hn, hk⟩ := hkinds.part hp
    have refs (q : Part) (hq : q ∈ nodeRefs n) : Linked g c q.kind q.id :=
      .part (.ref hp ⟨hn, hk⟩ hq)
    cases n with
    | stmt s => cases p <;> contradiction
    | value x =>
      cases p with
      | value v =>
        obtain ⟨id, hid, hv⟩ := hp.mentions
        have hops (w : ValueId) (hw : w ∈ x.operands) : Linked g c .value w :=
          .part (.value hid (hv.operand ⟨x, Arena.value_eq_ok.mpr hn, hw⟩))
        exact ⟨_, _, hn, hn, hk, rfl, common hops, by simp [Node.labels], by simp [Node.targets],
          refs⟩
      | _ => contradiction
    | _ => exact ⟨_, _, hn, hn, hk, rfl, .nil, by simp [Node.labels], by simp [Node.targets], refs⟩

/-! ## A mutation on both sides -/

section Zero

variable {m : Edit} (h : Patched g g' m (.intConst 0))
include h

theorem Patched.isZero {v : ValueId} (hv : IsZero g v) : IsZero g' v := by
  by_cases hid : v = m.replacement
  · subst hid
    exact h.content
  · exact (h.value_eq_ok hid).mpr ⟨_, hv, rfl⟩

theorem Patched.ne_of_holds {holder : Holder} {w : ValueId} {n : Node}
    (hn : g.node? w = some n) (hw : Holds g holder w) (hne : holder ≠ .operand m.slot) :
    w ≠ m.replacement := by
  rintro rfl
  exact hne (h.alone holder n hn hw)

end Zero

/-- The common tokens that neither side has replaced. -/
def Kept (L : NodeKind → NodeId → Prop) (m₁ m₂ : Edit) (kind : NodeKind) (id : NodeId) : Prop :=
  L kind id ∧ id ≠ m₁.replacement ∧ id ≠ m₂.replacement

section Mutation

variable {m₁ m₂ : Edit} (h : Alike g₁ g₂ L) (h₁ : Patched g₁ g₁' m₁ (.intConst 0))
  (h₂ : Patched g₂ g₂' m₂ (.intConst 0)) (hslot : m₁.slot = m₂.slot)
include h h₁ h₂

theorem Alike.kept_of_kind {kind : NodeKind} {id : NodeId} (hid : L kind id)
    (hk : kind ≠ .value) : Kept L m₁ m₂ kind id := by
  obtain ⟨n₁, n₂, hn₁, hn₂, rfl, hc⟩ := h.node hid
  obtain ⟨f, rfl⟩ := hc.exists_map
  refine ⟨hid, h₁.ne_of_kind hn₁ hk, h₂.ne_of_kind hn₂ ?_⟩
  rwa [Node.kind_mapOperands]

/-- A common value that stands in the same place on both sides is kept, unless this is the slot. -/
theorem Alike.kept_of_holds {v : ValueId} (hv : L .value v) {holder : Holder}
    (hv₁ : Holds g₁ holder v) (hv₂ : Holds g₂ holder v) (hne : holder ≠ .operand m₁.slot)
    (hslot : m₁.slot = m₂.slot) : Kept L m₁ m₂ .value v := by
  obtain ⟨n₁, n₂, hn₁, hn₂, _⟩ := h.node hv
  exact ⟨hv, h₁.ne_of_holds hn₁ hv₁ hne, h₂.ne_of_holds hn₂ hv₂ (hslot ▸ hne)⟩

include hslot

/-- The slot holds `0` on both sides, and the other operands what they held before. -/
theorem SameOperand.redirect {id : NodeId} {i : Nat} {v₁ v₂ : ValueId}
    (hv : SameOperand g₁ g₂ L v₁ v₂) (hv₁ : Holds g₁ (.operand ⟨id, i⟩) v₁)
    (hv₂ : Holds g₂ (.operand ⟨id, i⟩) v₂) :
    SameOperand g₁' g₂' (Kept L m₁ m₂) (m₁.redirect id i v₁) (m₂.redirect id i v₂) := by
  unfold Edit.redirect
  rw [← hslot]
  split
  · exact .zero h₁.content h₂.content
  · rename_i hne
    cases hv with
    | zero hz₁ hz₂ => exact .zero (h₁.isZero hz₁) (h₂.isZero hz₂)
    | common hv =>
      -- a side that overwrites a node holds it in the slot alone, and this is another place
      have hplace : Holder.operand ⟨id, i⟩ ≠ .operand m₁.slot := fun heq =>
        hne (Holder.operand.inj heq)
      exact .common (h.kept_of_holds h₁ h₂ hv hv₁ hv₂ hplace hslot)

theorem Counterpart.patched {id : NodeId} {n₁ n₂ : Node} (hn₁ : g₁.node? id = some n₁)
    (hn₂ : g₂.node? id = some n₂) (hc : Counterpart g₁ g₂ L n₁ n₂) :
    Counterpart g₁' g₂' (Kept L m₁ m₂) (m₁.patch id n₁) (m₂.patch id n₂) := by
  constructor
  · rw [Edit.patch, Edit.patch, Node.skeleton_mapOperands, Node.skeleton_mapOperands, hc.skeleton]
  · obtain ⟨hlength, hsame⟩ := List.forall₂_iff_get.mp hc.operands
    rw [Edit.patch, Edit.patch, Node.operands_mapOperands, Node.operands_mapOperands]
    refine List.forall₂_iff_get.mpr ⟨by simpa using hlength, fun i hi₁ hi₂ => ?_⟩
    rw [List.length_mapIdx] at hi₁ hi₂
    simp only [List.get_eq_getElem, List.getElem_mapIdx]
    exact (hsame i hi₁ hi₂).redirect h h₁ h₂ hslot
      (Arena.slot_eq_ok.mpr ⟨n₁, hn₁, List.getElem?_eq_getElem hi₁⟩)
      (Arena.slot_eq_ok.mpr ⟨n₂, hn₂, List.getElem?_eq_getElem hi₂⟩)
  · intro v hv
    rw [Edit.patch, Node.labels_mapOperands] at hv
    obtain ⟨i, hi⟩ := List.mem_iff_getElem?.mp hv
    have hv₁ : Holds g₁ (.label id i) v := ⟨n₁, hn₁, hi⟩
    have hv₂ : Holds g₂ (.label id i) v := ⟨n₂, hn₂, hc.labels_eq ▸ hi⟩
    exact h.kept_of_holds h₁ h₂ (hc.labels v hv) hv₁ hv₂ (by simp) hslot
  · intro t ht
    rw [Edit.patch, Node.targets_mapOperands] at ht
    exact h.kept_of_kind h₁ h₂ (hc.targets t ht) (by simp)
  · intro q hq
    rw [Edit.nodeRefs_patch] at hq
    exact h.kept_of_kind h₁ h₂ (hc.refs q hq) (kind_of_mem_nodeRefs hq)

theorem Alike.patched : Alike g₁' g₂' (Kept L m₁ m₂) := by
  constructor
  rintro kind id ⟨hid, hne₁, hne₂⟩
  obtain ⟨n₁, n₂, hn₁, hn₂, hk, hc⟩ := h.node hid
  exact ⟨_, _, h₁.node?_eq hne₁ hn₁, h₂.node?_eq hne₂ hn₂, (Edit.kind_patch id n₁).trans hk,
    hc.patched h h₁ h₂ hslot hn₁ hn₂⟩

end Mutation

/-! ## One attempt -/

/-- A search that ends with a position ends the attempt with the constant `0` there, unless the text
of what it replaces has no end. -/
theorem mutate_of_explores (hacyclic : Acyclic g (Met g c (Reached g c)))
    (hsize : g.size < UInt32.size) {p : Position} {asked : List Query}
    (he : Explores g builtInRules [] (roots c) (.error (.ok p)) asked) (policy : IdentityPolicy)
    (r : Generator) :
    let a := (Mutator.builtIn policy).mutate g c r
    a.generator = (r.below p.rules.length).2 ∧
      ((g.valueText? p.node = none ∧ a.result = .error (.ofFault (.cyclic p.node)) ∧ a.arena = g) ∨
        (g.valueText? p.node).isSome ∧
          ∃ id, a.result = .ok (some ⟨(p.drawn r).name, p.slot, p.node, id⟩) ∧
            Applies (.builtIn policy) g a.arena c ⟨(p.drawn r).name, p.slot, p.node, id⟩
              (p.drawn r) (.intConst 0)) := by
  have hask := (explores_iff hacyclic).mp ⟨_, he, rfl⟩
  obtain ⟨_, hhalts⟩ := he.proper trail_of_mem_roots
  obtain ⟨ancestors, x, count, hplace, hx, hanswers⟩ := hhalts _ rfl
  obtain ⟨hmem, happlies⟩ := hanswers.applies (p.drawn_mem r)
  have hv : (p.drawn r).replacement g p.node = .ok (.intConst 0) := by
    rcases List.mem_pair.mp hmem with hrule | hrule <;> rw [hrule] <;> rfl
  intro a
  have ha : a = _ := mutate_of_search hask r
  rw [ha]
  refine ⟨rfl, ?_⟩
  cases hbefore : g.valueText? p.node with
  | none =>
    refine .inl ⟨rfl, ?_⟩
    rw [applyRule_of_text_none hv hbefore]
    exact ⟨rfl, rfl⟩
  | some before =>
    obtain ⟨id, g', hstore, ⟨hafter, _⟩ | ⟨hresult, happlied⟩⟩ :=
      applies_or_endless (s := .builtIn policy) hsize hmem hplace hx happlies hv hbefore
    · -- the text after is that of the constant
      have hcontent := value_of_storeValue hsize hplace.enclosed.slot hx hstore
      rw [Arena.valueText?_intConst hcontent] at hafter
      contradiction
    · exact .inr ⟨rfl, id, congrArg (Except.map some) hresult, happlied⟩

theorem mutate_of_explores_ok (hacyclic : Acyclic g (Met g c (Reached g c)))
    {visited : List StmtId} {asked : List Query}
    (he : Explores g builtInRules [] (roots c) (.ok visited) asked) (policy : IdentityPolicy)
    (r : Generator) :
    let a := (Mutator.builtIn policy).mutate g c r
    a.result = .ok none ∧ a.arena = g ∧ a.generator = r := by
  have hask : (search g c (Mutator.builtIn policy).rules).ask = (.ok none, asked) :=
    (explores_iff hacyclic).mp ⟨_, he, rfl⟩
  unfold Mutator.mutate
  rw [hask]
  exact ⟨rfl, rfl, rfl⟩

/-- Edits that are the same but for the node that the slot holds afterwards. -/
structure SameEdit (m₁ m₂ : Edit) : Prop where
  rule : m₁.rule = m₂.rule
  slot : m₁.slot = m₂.slot
  replaced : m₁.replaced = m₂.replaced

/-- Results with the same edit or none; or neither attempt comes to an end, since both write the text
of a node that has none. -/
inductive SameResult : Except Failure (Option Edit) → Except Failure (Option Edit) → Prop
  | found {found₁ found₂ : Option Edit} :
      Option.Rel SameEdit found₁ found₂ → SameResult (.ok found₁) (.ok found₂)
  | endless (node : ValueId) :
      SameResult (.error (.ofFault (.cyclic node))) (.error (.ofFault (.cyclic node)))

/-- Attempts that differ in the tokens of replacements only: they find the same edit or none, and
leave the generator, the statements, their texts and all that these lead to the same. -/
structure Indistinct (c : FlowGraph) (a₁ a₂ : Attempt) : Prop where
  result : SameResult a₁.result a₂.result
  generator : a₁.generator = a₂.generator
  alike : ∃ L, Alike a₁.arena a₂.arena L ∧ ∀ id ∈ c.nodes, L .stmt id
  reached : ∀ id, Reached a₁.arena c id ↔ Reached a₂.arena c id
  text : ∀ id, Reached a₁.arena c id → a₁.arena.stmtText? id = a₂.arena.stmtText? id
  size : a₂.arena.size ≤ a₁.arena.size

/-- Arenas in which the registered statements lead to the same program, the first of which has at
least as many nodes. -/
structure Twins (c : FlowGraph) (g₁ g₂ : Arena) (L : NodeKind → NodeId → Prop) : Prop where
  alike : Alike g₁ g₂ L
  nodes : ∀ id ∈ c.nodes, L .stmt id
  acyclic₁ : Acyclic g₁ (Met g₁ c (Reached g₁ c))
  acyclic₂ : Acyclic g₂ (Met g₂ c (Reached g₂ c))
  size : g₂.size ≤ g₁.size

namespace Twins

variable (h : Twins c g₁ g₂ L)
include h

theorem reached {id : StmtId} (hid : Reached g₁ c id) : L .stmt id ∧ Reached g₂ c id := by
  induction hid with
  | node hid => exact ⟨h.nodes _ hid, .node hid⟩
  | target _ hs ht ih =>
    obtain ⟨hL, hid₂⟩ := ih
    obtain ⟨s₁, s₂, hs₁, hs₂, hc⟩ := h.alike.stmt hL
    obtain rfl := Except.ok.inj (hs₁.symm.trans hs)
    have htargets : s₁.targets = s₂.targets := hc.targets_eq
    exact ⟨hc.targets _ ht, hid₂.target hs₂ (htargets ▸ ht)⟩

theorem reached_iff {id : StmtId} : Reached g₁ c id ↔ Reached g₂ c id := by
  refine ⟨fun hid => (h.reached hid).2, fun hid => ?_⟩
  induction hid with
  | node hid => exact .node hid
  | target _ hs ht ih =>
    obtain ⟨s₁, s₂, hs₁, hs₂, hc⟩ := h.alike.stmt (h.reached ih).1
    obtain rfl := Except.ok.inj (hs₂.symm.trans hs)
    have htargets : s₁.targets = s₂.targets := hc.targets_eq
    exact ih.target hs₁ (htargets ▸ ht)

theorem stmtText? {id : StmtId} (hid : Reached g₁ c id) : g₁.stmtText? id = g₂.stmtText? id :=
  h.alike.stmtText? (h.reached hid).1

theorem mutation {m₁ m₂ : Edit} {rule₁ rule₂ : Rule}
    (ha₁ : Applies (.builtIn .fresh) g₁ g₁' c m₁ rule₁ (.intConst 0))
    (ha₂ : Applies (.builtIn .preserve) g₂ g₂' c m₂ rule₂ (.intConst 0))
    (hslot : m₁.slot = m₂.slot) (hsize : g₁.size < UInt32.size) :
    Twins c g₁' g₂' (Kept L m₁ m₂) := by
  have hsize₂ : g₂.size < UInt32.size := Nat.lt_of_le_of_lt h.size hsize
  have h₁ := ha₁.patched hsize h.acyclic₁
  have h₂ := ha₂.patched hsize₂ h.acyclic₂
  have hrewired := ha₁.rewired hsize rfl
  constructor
  · exact h.alike.patched h₁ h₂ hslot
  · exact fun id hid => h.alike.kept_of_kind h₁ h₂ (h.nodes id hid) (by simp)
  · exact h₁.acyclic rfl h.acyclic₁
  · exact h₂.acyclic rfl h.acyclic₂
  · have := ha₂.size_le
    have := h.size
    rw [hrewired.size]
    omega

end Twins

theorem Twins.indistinct {a₁ a₂ : Attempt} (h : Twins c a₁.arena a₂.arena L)
    (hresult : SameResult a₁.result a₂.result) (hgenerator : a₁.generator = a₂.generator) :
    Indistinct c a₁ a₂ := by
  constructor
  · exact hresult
  · exact hgenerator
  · exact ⟨L, h.alike, h.nodes⟩
  · exact fun id => h.reached_iff
  · exact fun id => h.stmtText?
  · exact h.size

/-- One attempt on each side finds the same position, if any, and draws the same rule there. -/
theorem Twins.step (h : Twins c g₁ g₂ L) (hsize : g₁.size < UInt32.size) (r : Generator) :
    let a₁ := (Mutator.builtIn .fresh).mutate g₁ c r
    let a₂ := (Mutator.builtIn .preserve).mutate g₂ c r
    Indistinct c a₁ a₂ ∧ ∃ L, Twins c a₁.arena a₂.arena L := by
  intro a₁ a₂
  have hsize₂ : g₂.size < UInt32.size := Nat.lt_of_le_of_lt h.size hsize
  rcases hask : (search g₁ c builtInRules).ask with ⟨result, asked₁⟩
  obtain ⟨ending, he₁, rfl⟩ := (explores_iff h.acyclic₁).mpr hask
  have htasks : ∀ e ∈ roots c, L .stmt e.1 := by
    intro e he
    obtain ⟨root, hroot, rfl⟩ := List.mem_map.mp he
    exact h.nodes root hroot
  -- the questions may name different constants, but the ending is one and the same
  obtain ⟨hok, asked₂, he₂⟩ := h.alike.explores htasks he₁
  match ending, he₁, he₂, hok with
  | .error (.error failure), _, _, hok =>
    obtain ⟨_, hhalt, _⟩ := hok _ rfl
    contradiction
  | .ok visited, he₁, he₂, _ =>
    obtain ⟨hresult₁, harena₁, hgenerator₁⟩ := mutate_of_explores_ok h.acyclic₁ he₁ .fresh r
    obtain ⟨hresult₂, harena₂, hgenerator₂⟩ := mutate_of_explores_ok h.acyclic₂ he₂ .preserve r
    have htwins : Twins c a₁.arena a₂.arena L := by rwa [harena₁, harena₂]
    have hresult : SameResult a₁.result a₂.result := by
      rw [hresult₁, hresult₂]
      exact .found .none
    exact ⟨htwins.indistinct hresult (hgenerator₁.trans hgenerator₂.symm), L, htwins⟩
  | .error (.ok p), he₁, he₂, hok =>
    obtain ⟨_, hp, hnode⟩ := hok _ rfl
    obtain rfl := Except.ok.inj hp
    have htext : g₁.valueText? p.node = g₂.valueText? p.node := h.alike.valueText? (.common hnode)
    obtain ⟨hgenerator₁, hcases₁⟩ := mutate_of_explores h.acyclic₁ hsize he₁ .fresh r
    obtain ⟨hgenerator₂, hcases₂⟩ := mutate_of_explores h.acyclic₂ hsize₂ he₂ .preserve r
    have hgenerator := hgenerator₁.trans hgenerator₂.symm
    rw [htext] at hcases₁
    rcases hcases₁, hcases₂ with ⟨⟨hnone, hresult₁, harena₁⟩ | ⟨hsome, id₁, hresult₁, ha₁⟩,
      ⟨hnone', hresult₂, harena₂⟩ | ⟨hsome', id₂, hresult₂, ha₂⟩⟩
    · have htwins : Twins c a₁.arena a₂.arena L := by rwa [harena₁, harena₂]
      have hresult : SameResult a₁.result a₂.result := by
        rw [hresult₁, hresult₂]
        exact .endless p.node
      exact ⟨htwins.indistinct hresult hgenerator, L, htwins⟩
    · simp [hnone] at hsome'
    · simp [hnone'] at hsome
    · have htwins : Twins c a₁.arena a₂.arena _ := h.mutation ha₁ ha₂ rfl hsize
      have hresult : SameResult a₁.result a₂.result := by
        rw [hresult₁, hresult₂]
        exact .found (.some ⟨rfl, rfl, rfl⟩)
      exact ⟨htwins.indistinct hresult hgenerator, _, htwins⟩

/-! ## Attempts that come to an end -/

section Kinds

variable (hkinds : WellKinded g c) (hacyclic : Acyclic g (Met g c (Reached g c)))
include hkinds hacyclic

/-- A search with the built-in rules ends with a position or with nothing. -/
theorem exists_explores_builtIn : ∃ ending asked,
    Explores g builtInRules [] (roots c) ending asked ∧ FindsCommon (Linked g c) ending := by
  rcases hask : (search g c builtInRules).ask with ⟨result, asked⟩
  obtain ⟨ending, he, rfl⟩ := (explores_iff hacyclic).mpr hask
  have htasks : ∀ e ∈ roots c, Linked g c .stmt e.1 := by
    intro e he
    obtain ⟨root, hroot, rfl⟩ := List.mem_map.mp he
    exact .stmt (.node hroot)
  exact ⟨ending, asked, he, ((alike_self hkinds).explores htasks he).1⟩

/-- An attempt with the built-in rules gives a result, unless it writes the text of a value that has
none. -/
theorem result_builtIn (hsize : g.size < UInt32.size) (policy : IdentityPolicy) (r : Generator) :
    let a := (Mutator.builtIn policy).mutate g c r
    (∃ found, a.result = .ok found) ∨ ∃ node, Met g c (Reached g c) (.value node) ∧
      ¬g.FiniteText node ∧ a.result = .error (.ofFault (.cyclic node)) := by
  obtain ⟨ending, asked, he, hfinds⟩ := exists_explores_builtIn hkinds hacyclic
  match ending, he, hfinds with
  | .ok visited, he, _ => exact .inl ⟨none, (mutate_of_explores_ok hacyclic he policy r).1⟩
  | .error (.error failure), _, hfinds =>
    obtain ⟨_, hhalt, _⟩ := hfinds _ rfl
    contradiction
  | .error (.ok p), he, _ =>
    rcases (mutate_of_explores hacyclic hsize he policy r).2 with
      ⟨hnone, hresult, _⟩ | ⟨_, id, hresult, _⟩
    · obtain ⟨_, hhalts⟩ := he.proper trail_of_mem_roots
      obtain ⟨_, _, _, hplace, _⟩ := hhalts _ rfl
      obtain ⟨id, hid, hmentions, _⟩ := hplace.mentions
      have hmet : Met g c (Reached g c) (.value p.node) := .value hid hmentions
      exact .inr ⟨p.node, hmet, Arena.valueText?_eq_none_iff.mp hnone, hresult⟩
    · exact .inl ⟨some _, hresult⟩

end Kinds

/-- All that the registered statements lead to is of the kind that its place asks for, and no value
and no type there is nested in itself. -/
structure Sound (g : Arena) (c : FlowGraph) : Prop where
  kinds : WellKinded g c
  acyclic : Acyclic g (Met g c (Reached g c))
  types : AcyclicTypes g (Met g c (Reached g c))

namespace Sound

variable (h : Sound g c)
include h

theorem finiteText {v : ValueId} (hv : Met g c (Reached g c) (.value v)) : g.FiniteText v :=
  finiteText_of_met h.acyclic h.types hv

theorem isSome_stmtText? {id : StmtId} (hid : Reached g c id) : (g.stmtText? id).isSome :=
  Arena.isSome_stmtText?_iff.mpr fun _ hs _ hv => h.finiteText (.value hid (.top hs hv))

variable (hsize : g.size < UInt32.size) (policy : IdentityPolicy) (r : Generator)
include hsize

theorem exists_result : ∃ found, ((Mutator.builtIn policy).mutate g c r).result = .ok found := by
  rcases result_builtIn h.kinds h.acyclic hsize policy r with hfound | ⟨node, hmet, hinfinite, _⟩
  · exact hfound
  · exact absurd (h.finiteText hmet) hinfinite

theorem mutate : Sound ((Mutator.builtIn policy).mutate g c r).arena c := by
  cases attempted_mutate h.acyclic hsize (.builtIn policy) r with
  | unchanged _ harena =>
    rw [harena]
    exact h
  | applied _ happlies =>
    obtain rfl := replacement_of_mem_builtInRules happlies.mem happlies.replacement
    have hpatched := happlies.patched hsize h.acyclic
    exact ⟨hpatched.wellKinded rfl rfl h.kinds, hpatched.acyclic rfl h.acyclic,
      hpatched.acyclicTypes rfl rfl h.types⟩

end Sound

/-! ## Runs -/

/-- Whether the attempt does not come to an end. -/
def Attempt.isEndless (a : Attempt) : Bool := a.result matches .error (.program (.cyclic _))

/-- The attempts of a run, each of which starts where the one before has ended. -/
def Mutator.attempts (s : Mutator) (c : FlowGraph) : Nat → Arena → Generator → List Attempt
  | 0, _, _ => []
  | n + 1, g, r =>
    let a := s.mutate g c r
    a :: if a.isEndless then [] else s.attempts c n a.arena a.generator

theorem SameResult.isEndless_eq {a₁ a₂ : Attempt} (h : SameResult a₁.result a₂.result) :
    a₁.isEndless = a₂.isEndless := by
  unfold Attempt.isEndless
  generalize a₁.result = result₁ at h
  generalize a₂.result = result₂ at h
  cases h <;> rfl

theorem size_attempts_le (s : Mutator) (n : Nat) (r : Generator) :
    ∀ a ∈ s.attempts c n g r, a.arena.size ≤ g.size + n := by
  induction n generalizing g r with
  | zero => simp [Mutator.attempts]
  | succ n ih =>
    have hfirst := size_mutate_le (g := g) (c := c) s r
    refine List.forall_mem_cons.mpr ⟨by omega, fun a ha => ?_⟩
    split at ha
    · contradiction
    · have := ih _ a ha
      omega

theorem Twins.run (h : Twins c g₁ g₂ L) {n : Nat} {r : Generator} (hsize : g₁.size < UInt32.size)
    (hsizes : ∀ a ∈ (Mutator.builtIn .fresh).attempts c n g₁ r, a.arena.size < UInt32.size) :
    List.Forall₂ (Indistinct c) ((Mutator.builtIn .fresh).attempts c n g₁ r)
      ((Mutator.builtIn .preserve).attempts c n g₂ r) := by
  induction n generalizing g₁ g₂ r L with
  | zero => exact .nil
  | succ n ih =>
    obtain ⟨hfirst, hlater⟩ := List.forall_mem_cons.mp hsizes
    obtain ⟨hsame, L', htwins⟩ := h.step hsize r
    refine .cons hsame ?_
    rw [← hsame.generator, ← hsame.result.isEndless_eq]
    split
    · exact .nil
    · rename_i hends
      rw [if_neg hends] at hlater
      exact ih htwins hfirst hlater

/-- In a sound program, every attempt of a run comes to an end, and leaves a sound program. -/
theorem Sound.run (h : Sound g c) {policy : IdentityPolicy} {n : Nat} {r : Generator}
    (hsize : g.size < UInt32.size)
    (hsizes : ∀ a ∈ (Mutator.builtIn policy).attempts c n g r, a.arena.size < UInt32.size) :
    ((Mutator.builtIn policy).attempts c n g r).length = n ∧
      ∀ a ∈ (Mutator.builtIn policy).attempts c n g r,
        (∃ found, a.result = .ok found) ∧ Sound a.arena c := by
  induction n generalizing g r with
  | zero => exact ⟨rfl, by simp [Mutator.attempts]⟩
  | succ n ih =>
    obtain ⟨found, hfound⟩ := h.exists_result hsize policy r
    have hends : ((Mutator.builtIn policy).mutate g c r).isEndless = false := by
      unfold Attempt.isEndless
      rw [hfound]
    have hsound := h.mutate hsize policy r
    simp only [Mutator.attempts, hends] at hsizes ⊢
    obtain ⟨hfirst, hlater⟩ := List.forall_mem_cons.mp hsizes
    obtain ⟨hlength, hrest⟩ := ih hsound hfirst hlater
    exact ⟨congrArg (· + 1) hlength, List.forall_mem_cons.mpr ⟨⟨⟨found, hfound⟩, hsound⟩, hrest⟩⟩

theorem twins_self (hkinds : WellKinded g c) (hacyclic : Acyclic g (Met g c (Reached g c))) :
    Twins c g g (Linked g c) :=
  ⟨alike_self hkinds, fun _ hid => .stmt (.node hid), hacyclic, hacyclic, Nat.le_refl _⟩

/-- Whether replacements are stored as new nodes or in place is not observable: from the same
program and generator, any number of attempts one after the other find the same edits on both sides,
and after each attempt the registered statements lead to the same program, with the same texts.  An
attempt comes to an end on one side if it does on the other.  All of them do, and all statements have
a text, unless a type is nested in itself. -/
theorem policy_not_observable (hkinds : WellKinded g c)
    (hacyclic : Acyclic g (Met g c (Reached g c))) (n : Nat) (r : Generator)
    (hsize : g.size < UInt32.size)
    (hsizes : ∀ a ∈ (Mutator.builtIn .fresh).attempts c n g r, a.arena.size < UInt32.size) :
    List.Forall₂ (Indistinct c) ((Mutator.builtIn .fresh).attempts c n g r)
        ((Mutator.builtIn .preserve).attempts c n g r) ∧
      (AcyclicTypes g (Met g c (Reached g c)) →
        ((Mutator.builtIn .fresh).attempts c n g r).length = n ∧
        ∀ a ∈ (Mutator.builtIn .fresh).attempts c n g r, (∃ found, a.result = .ok found) ∧
          ∀ id, Reached a.arena c id → (a.arena.stmtText? id).isSome) := by
  refine ⟨(twins_self hkinds hacyclic).run hsize hsizes, fun htypes => ?_⟩
  obtain ⟨hlength, hrun⟩ := Sound.run ⟨hkinds, hacyclic, htypes⟩ hsize hsizes
  exact ⟨hlength, fun a ha => ⟨(hrun a ha).1, fun id hid => (hrun a ha).2.isSome_stmtText? hid⟩⟩

/-- Two assignments of one constant.  For the first of them, `0` is a new node under both policies,
and for the second one under the policy that asks for it. -/
def twice : Arena :=
  ⟨#[.type (.prim .int), .value (.localVar "x" ⟨0⟩), .value (.intConst 7),
    .stmt (.assign ⟨1⟩ ⟨2⟩), .stmt (.assign ⟨1⟩ ⟨2⟩)]⟩

def twiceFlow : FlowGraph := (FlowGraph.empty.insertNode ⟨3⟩).insertNode ⟨4⟩

theorem acyclic_twice : Acyclic twice (Met twice twiceFlow (Reached twice twiceFlow)) :=
  acyclic_of_valuesEarlier (by decide) _

theorem result_twice (r : Generator) :
    ((Mutator.builtIn .fresh).mutate twice twiceFlow r).result =
      .ok (some ⟨"REPLACE_INT_CONSTANT", ⟨⟨3⟩, 1⟩, ⟨2⟩, ⟨5⟩⟩) := by
  have hfound : Explores twice builtInRules [] (roots twiceFlow)
      (.error (.ok ⟨⟨⟨3⟩, 1⟩, ⟨2⟩, intConstantRule, []⟩)) _ :=
    .stop List.not_mem_nil rfl (.next (.quiet rfl (.no rfl (.no rfl .nil))) .nil
      (.stop (.found rfl (.yes rfl (.no rfl .nil)))))
  rw [result_of_explores acyclic_twice hfound]
  rfl

/-- The run that overwrites nodes finds what the other run finds. -/
theorem policy_not_observable_twice :
    WellKinded twice twiceFlow ∧ Acyclic twice (Met twice twiceFlow (Reached twice twiceFlow)) ∧
      twice.size < UInt32.size ∧
      (∀ a ∈ (Mutator.builtIn .fresh).attempts twiceFlow 3 twice (.ofSeed 0),
        a.arena.size < UInt32.size) ∧
      ∃ m, ((Mutator.builtIn .preserve).mutate twice twiceFlow (.ofSeed 0)).result = .ok (some m) ∧
        SameEdit ⟨"REPLACE_INT_CONSTANT", ⟨⟨3⟩, 1⟩, ⟨2⟩, ⟨5⟩⟩ m := by
  have hkinds : WellKinded twice twiceFlow := wellKinded_of_tokensFit (by decide +kernel)
  have hsize : twice.size < UInt32.size := by decide
  have hsizes (a : Attempt)
      (ha : a ∈ (Mutator.builtIn .fresh).attempts twiceFlow 3 twice (.ofSeed 0)) :
      a.arena.size < UInt32.size :=
    Nat.lt_of_le_of_lt (size_attempts_le _ _ _ a ha) (by decide)
  refine ⟨hkinds, acyclic_twice, hsize, hsizes, ?_⟩
  obtain ⟨hrun, _⟩ := policy_not_observable hkinds acyclic_twice 3 (.ofSeed 0) hsize hsizes
  obtain ⟨hfirst, _⟩ := List.forall₂_cons.mp hrun
  have hresult := hfirst.result
  rw [result_twice] at hresult
  generalize ((Mutator.builtIn .preserve).mutate twice twiceFlow (.ofSeed 0)).result = result
    at hresult ⊢
  cases hresult with
  | found hsame =>
    cases hsame with
    | some hedit => exact ⟨_, rfl, hedit⟩

end ProgramFacts.Mutation
