import ProgramFacts.Proofs.Lockstep
import ProgramFacts.Proofs.Relevance

/-! What a mutation looks at: with the built-in rules, the same as an extraction.  Arenas that agree
there are searched alike, and the same rule is applied at the same slot.  What else they hold may
only tell whether a node is kept, when that is asked for: a value is then kept if nothing else in
the whole arena holds it. -/

namespace ProgramFacts.Mutation

open Program ProgramFacts.Flow ProgramFacts.Random Extraction

variable {g₁ g₂ : Arena} {c : FlowGraph}

/-! ## Rules -/

theorem lookUp_node_congr {id : NodeId} (h : g₁.node? id = g₂.node? id) :
    lookUp (g₁.node id) = lookUp (g₂.node id) := by
  unfold Arena.node
  rw [h]
  cases g₂.node? id <;> rfl

theorem parent?_congr {ancestors : List NodeId}
    (h : ∀ id, ancestors.getLast? = some id → g₁.node? id = g₂.node? id) :
    parent? g₁ ancestors = parent? g₂ ancestors := by
  unfold parent?
  cases hlast : ancestors.getLast? with
  | none => rfl
  | some id =>
    dsimp only
    rw [lookUp_node_congr (h id hlast)]

section Agreement

variable (hsame : ∀ id, Relevant g₁ c id → g₁.node? id = g₂.node? id)
include hsame

theorem intConstantRule_congr {v : ValueId} (hv : Relevant g₁ c v) {ancestors : List NodeId}
    (hparent : parent? g₁ ancestors = parent? g₂ ancestors) :
    intConstantRule.applies g₁ v ancestors = intConstantRule.applies g₂ v ancestors := by
  unfold intConstantRule lookUp
  dsimp only
  rw [value_congr (hsame v hv), hparent]

theorem fieldReferenceRule_congr {v : ValueId} (hv : Relevant g₁ c v) {ancestors : List NodeId}
    (hparent : parent? g₁ ancestors = parent? g₂ ancestors) :
    fieldReferenceRule.applies g₁ v ancestors = fieldReferenceRule.applies g₂ v ancestors := by
  unfold fieldReferenceRule lookUp
  dsimp only
  rw [value_congr (hsame v hv), hparent]
  cases hx : g₂.value v with
  | error fault => rfl
  | ok x =>
    have hn : g₁.node? v = some (.value x) := (hsame v hv).trans (Arena.value_eq_ok.mp hx)
    cases hfield : referredField? x with
    | none => simp [Except.mapError, bind, Except.bind, hfield]
    | some field =>
      have href := mem_valueRefs_of_referredField? hfield
      have hf : Relevant g₁ c field := hv.ref hn href
      simp only [Except.mapError, bind, Except.bind, hfield]
      rcases ok_or_error_of_mapError (field_congr (hsame field hf)) with
        ⟨f, hf₁, hf₂⟩ | ⟨fault₁, fault₂, hf₁, hf₂, hfault⟩
      · have ht : Relevant g₁ c f.ty :=
          hf.ref (q := .type f.ty) (Arena.field_eq_ok.mp hf₁) (.head _)
        simp only [hf₁, hf₂]
        rcases ok_or_error_of_mapError (type_congr (hsame f.ty ht)) with
          ⟨t, ht₁, ht₂⟩ | ⟨fault₁, fault₂, ht₁, ht₂, hfault⟩
        · simp only [ht₁, ht₂]
        · simp only [ht₁, ht₂, hfault]
      · simp only [hf₁, hf₂, hfault]

/-- The built-in rules answer alike about what is relevant. -/
theorem applies_congr {rule : Rule} (hrule : rule ∈ builtInRules) {v : ValueId}
    (hv : Relevant g₁ c v) {ancestors : List NodeId} {a : NodeId}
    (hlast : ancestors.getLast? = some a) (ha : Relevant g₁ c a) :
    rule.applies g₁ v ancestors = rule.applies g₂ v ancestors := by
  have hparent : parent? g₁ ancestors = parent? g₂ ancestors := by
    refine parent?_congr fun id hid => ?_
    obtain rfl := Option.some.inj (hlast.symm.trans hid)
    exact hsame a ha
  rcases List.mem_pair.mp hrule with rfl | rfl
  · exact intConstantRule_congr hsame hv hparent
  · exact fieldReferenceRule_congr hsame hv hparent

end Agreement

/-! ## The search -/

theorem Answers.congr {v : ValueId} {ancestors : List NodeId} {rules : List Rule}
    {result : Except Failure (List Rule)} {count : Nat}
    (h : Answers g₁ v ancestors rules result count)
    (hrules : ∀ rule ∈ rules, rule.applies g₁ v ancestors = rule.applies g₂ v ancestors) :
    Answers g₂ v ancestors rules result count := by
  induction h with
  | nil => exact .nil
  | failed ha => exact .failed (hrules _ (.head _) ▸ ha)
  | yes ha _ ih =>
    obtain ⟨hrule, hrules⟩ := List.forall_mem_cons.mp hrules
    exact .yes (hrule ▸ ha) (ih hrules)
  | no ha _ ih =>
    obtain ⟨hrule, hrules⟩ := List.forall_mem_cons.mp hrules
    exact .no (hrule ▸ ha) (ih hrules)

theorem Tries.value_eq_ok {g : Arena} {rules : List Rule} {ancestors : List NodeId} {slot : Slot}
    {v : ValueId} {x : Value} {asked : List Query}
    (h : Tries g rules ancestors slot v (.ok x) asked) : g.value v = .ok x := by
  cases h with
  | quiet hx _ => exact hx

section Searches

variable (hsame : ∀ id, Relevant g₁ c id → g₁.node? id = g₂.node? id)
include hsame

theorem value_ok_congr {v : ValueId} (hv : Relevant g₁ c v) {x : Value} :
    g₁.value v = .ok x ↔ g₂.value v = .ok x := by
  rw [Arena.value_eq_ok, Arena.value_eq_ok, hsame v hv]

theorem stmt_ok_congr {id : StmtId} (hid : Relevant g₁ c id) {s : Stmt} :
    g₁.stmt id = .ok s ↔ g₂.stmt id = .ok s := by
  rw [Arena.stmt_eq_ok, Arena.stmt_eq_ok, hsame id hid]

theorem Tries.congr {ancestors : List NodeId} {slot : Slot} {v a : NodeId}
    {ending : Except Halt Value} {asked : List Query}
    (h : Tries g₁ builtInRules ancestors slot v ending asked) (hv : Relevant g₁ c v)
    (hlast : ancestors.getLast? = some a) (ha : Relevant g₁ c a) :
    Tries g₂ builtInRules ancestors slot v ending asked := by
  have hrules : ∀ rule ∈ builtInRules, rule.applies g₁ v ancestors = rule.applies g₂ v ancestors :=
    fun _ hrule => applies_congr hsame hrule hv hlast ha
  cases h with
  | lost hx =>
    obtain ⟨fault₂, hx₂, hfault⟩ := exists_error_of_mapError (value_congr (hsame v hv)) hx
    exact hfault ▸ .lost hx₂
  | failed hx hanswers => exact .failed ((value_ok_congr hsame hv).mp hx) (hanswers.congr hrules)
  | found hx hanswers => exact .found ((value_ok_congr hsame hv).mp hx) (hanswers.congr hrules)
  | quiet hx hanswers => exact .quiet ((value_ok_congr hsame hv).mp hx) (hanswers.congr hrules)

theorem Descends.congr {ancestors : List NodeId} {a : NodeId} {places : List (Slot × ValueId)}
    {ending : Except Halt Unit} {asked : List Query}
    (h : Descends g₁ builtInRules ancestors places ending asked)
    (hplaces : ∀ e ∈ places, Relevant g₁ c e.2) (hlast : ancestors.getLast? = some a)
    (ha : Relevant g₁ c a) : Descends g₂ builtInRules ancestors places ending asked := by
  have operands {v : ValueId} (hv : Relevant g₁ c v) {x : Value} (hx : g₁.value v = .ok x) :
      ∀ e ∈ held v x.operands, Relevant g₁ c e.2 := by
    rintro ⟨slot, w⟩ he
    obtain ⟨i, hw, rfl⟩ := mem_held.mp he
    exact hv.operand (Arena.value_eq_ok.mp hx) (List.mem_of_getElem? hw)
  induction h generalizing a with
  | nil => exact .nil
  | stop ht => exact .stop (ht.congr hsame (hplaces _ (.head _)) hlast ha)
  | inside ht _ ih =>
    have hv := hplaces _ (.head _)
    exact .inside (ht.congr hsame hv hlast ha)
      (ih (operands hv ht.value_eq_ok) (List.getLast?_concat ..) hv)
  | next ht _ _ ihInside ih =>
    obtain ⟨hv, hrest⟩ := List.forall_mem_cons.mp hplaces
    exact .next (ht.congr hsame hv hlast ha)
      (ihInside (operands hv ht.value_eq_ok) (List.getLast?_concat ..) hv) (ih hrest hlast ha)

/-- The recursion takes the same course in both arenas. -/
theorem Explores.congr {visited : List StmtId} {tasks : List (StmtId × List NodeId)}
    {ending : Except Halt (List StmtId)} {asked : List Query}
    (h : Explores g₁ builtInRules visited tasks ending asked)
    (htasks : ∀ e ∈ tasks, Relevant g₁ c e.1) :
    Explores g₂ builtInRules visited tasks ending asked := by
  have descends {ancestors : List NodeId} {id : StmtId} {s : Stmt} {ending : Except Halt Unit}
      {asked : List Query} (hid : Relevant g₁ c id) (hs : g₁.stmt id = .ok s)
      (hd : Descends g₁ builtInRules (ancestors ++ [id]) (held id s.operands) ending asked) :
      Descends g₂ builtInRules (ancestors ++ [id]) (held id s.operands) ending asked := by
    refine hd.congr hsame ?_ (List.getLast?_concat ..) hid
    rintro ⟨slot, w⟩ he
    obtain ⟨i, hw, rfl⟩ := mem_held.mp he
    exact hid.mention hs (List.mem_append_left _ (List.mem_of_getElem? hw))
  have targets {ancestors : List NodeId} {id : StmtId} {s : Stmt} (hid : Relevant g₁ c id)
      (hs : g₁.stmt id = .ok s) :
      ∀ e ∈ s.targets.map fun t => (t, ancestors ++ [id]), Relevant g₁ c e.1 := by
    intro e he
    obtain ⟨t, ht, rfl⟩ := List.mem_map.mp he
    exact hid.target hs ht
  induction h with
  | nil => exact .nil
  | again hid _ ih => exact .again hid (ih (List.forall_mem_cons.mp htasks).2)
  | lost hnew hs =>
    have hid := htasks _ (.head _)
    obtain ⟨fault₂, hs₂, hfault⟩ := exists_error_of_mapError (stmt_congr (hsame _ hid)) hs
    exact hfault ▸ .lost hnew hs₂
  | stop hnew hs hd =>
    have hid := htasks _ (.head _)
    exact .stop hnew ((stmt_ok_congr hsame hid).mp hs) (descends hid hs hd)
  | inside hnew hs hd _ ih =>
    have hid := htasks _ (.head _)
    exact .inside hnew ((stmt_ok_congr hsame hid).mp hs) (descends hid hs hd)
      (ih (targets hid hs))
  | next hnew hs hd _ _ ihTargets ih =>
    obtain ⟨hid, hrest⟩ := List.forall_mem_cons.mp htasks
    exact .next hnew ((stmt_ok_congr hsame hid).mp hs) (descends hid hs hd)
      (ihTargets (targets hid hs)) (ih hrest)

end Searches

/-! ## Two attempts -/

/-- What a mutation picks: the rule, the slot, and the node in it. -/
def Edit.choice (m : Edit) : String × Slot × ValueId := (m.rule, m.slot, m.replaced)

/-- A mutation of the attempt has put `0` in the place of what it picked, as a new node or as the
content of the old one, and as a new node if all replacements are to be such. -/
def Placed (policy : IdentityPolicy) (g : Arena) (a : Attempt) : Prop :=
  ∀ m, a.result = .ok (some m) →
    (Rewired g a.arena m (.intConst 0) ∨ Overwritten g a.arena m (.intConst 0)) ∧
      (policy = .fresh → Rewired g a.arena m (.intConst 0))

theorem placed_mutate {g : Arena} (hacyclic : Acyclic g (Met g c (Reached g c)))
    (hsize : g.size < UInt32.size) (policy : IdentityPolicy) (r : Generator) :
    Placed policy g ((Mutator.builtIn policy).mutate g c r) := by
  intro m hm
  obtain ⟨rule, happlies⟩ := applies_of_result hacyclic hsize hm
  exact ⟨happlies.rewired_or_overwritten hsize,
    fun hfresh => (happlies.rewired_iff hsize).mpr (.inl hfresh)⟩

/-- Attempts that pick the same, or fail alike, after the same questions and draws. -/
structure SameChoice (a₁ a₂ : Attempt) : Prop where
  result : a₁.result.map (Option.map Edit.choice) = a₂.result.map (Option.map Edit.choice)
  generator : a₁.generator = a₂.generator
  asked : a₁.asked = a₂.asked

theorem sameChoice_of_explores (hsame : ∀ id, Relevant g₁ c id → g₁.node? id = g₂.node? id)
    {ending : Except Halt (List StmtId)} {asked : List Query}
    (hacyclic₁ : Acyclic g₁ (Met g₁ c (Reached g₁ c)))
    (hacyclic₂ : Acyclic g₂ (Met g₂ c (Reached g₂ c)))
    (hsize₁ : g₁.size < UInt32.size) (hsize₂ : g₂.size < UInt32.size)
    (he₁ : Explores g₁ builtInRules [] (roots c) ending asked)
    (he₂ : Explores g₂ builtInRules [] (roots c) ending asked) (policy₁ policy₂ : IdentityPolicy)
    (r : Generator) :
    SameChoice ((Mutator.builtIn policy₁).mutate g₁ c r)
      ((Mutator.builtIn policy₂).mutate g₂ c r) := by
  obtain ⟨hasked₁, hends₁⟩ := concludes_mutate (s := .builtIn policy₁)
    ((explores_iff hacyclic₁).mp ⟨ending, he₁, rfl⟩) r
  obtain ⟨hasked₂, hends₂⟩ := concludes_mutate (s := .builtIn policy₂)
    ((explores_iff hacyclic₂).mp ⟨ending, he₂, rfl⟩) r
  have hasked := hasked₁.trans hasked₂.symm
  match ending, he₁, he₂, hends₁, hends₂ with
  | .ok _, _, _, hends₁, hends₂ | .error (.error _), _, _, hends₁, hends₂ =>
    exact ⟨by rw [hends₁.1, hends₂.1], hends₁.2.trans hends₂.2.symm, hasked⟩
  | .error (.ok p), he₁, he₂, _, _ =>
    have htext : g₁.valueText? p.node = g₂.valueText? p.node := by
      obtain ⟨_, hhalts⟩ := he₁.proper trail_of_mem_roots
      obtain ⟨_, _, _, hplace, _⟩ := hhalts _ rfl
      obtain ⟨id, hid, hmentions, _⟩ := hplace.mentions
      exact valueText?_of_relevant hsame ((relevant_of_reached hid).mentions hmentions)
    obtain ⟨hgenerator₁, hcases₁⟩ := mutate_of_explores hacyclic₁ hsize₁ he₁ policy₁ r
    obtain ⟨hgenerator₂, hcases₂⟩ := mutate_of_explores hacyclic₂ hsize₂ he₂ policy₂ r
    refine ⟨?_, hgenerator₁.trans hgenerator₂.symm, hasked⟩
    rw [htext] at hcases₁
    rcases hcases₁, hcases₂ with ⟨⟨hnone, hresult₁, _⟩ | ⟨hsome, id₁, hresult₁, _⟩,
      ⟨hnone', hresult₂, _⟩ | ⟨hsome', id₂, hresult₂, _⟩⟩
    · rw [hresult₁, hresult₂]
    · simp [hnone] at hsome'
    · simp [hnone'] at hsome
    · rw [hresult₁, hresult₂]
      rfl

/-- Two arenas that have the same nodes, or none, at all tokens that the registered statements and
the owners lead to.  No value there is nested in itself, and the tokens are distinct.  Then they
have the same facts, or fail alike; and a mutation by the built-in rules picks the same rule and the
same slot with the same node in both, under any policies, and then at most differs in whether the
node is kept. -/
theorem only_relevant_nodes_count
    (hsame : ∀ id, Relevant g₁ c id → g₁.node? id = g₂.node? id)
    (hacyclic : Acyclic g₁ fun p => Relevant g₁ c p.id) (hsize₁ : g₁.size < UInt32.size)
    (hsize₂ : g₂.size < UInt32.size) :
    extract g₁ c = extract g₂ c ∧
      ∀ policy₁ policy₂ r,
        let a₁ := (Mutator.builtIn policy₁).mutate g₁ c r
        let a₂ := (Mutator.builtIn policy₂).mutate g₂ c r
        SameChoice a₁ a₂ ∧ Placed policy₁ g₁ a₁ ∧ Placed policy₂ g₂ a₂ := by
  have hacyclic₁ := acyclic_of_relevant hacyclic
  have hacyclic₂ := acyclic_of_relevant (acyclic_of_acyclic hsame hacyclic)
  refine ⟨extract_congr hsame hacyclic, fun policy₁ policy₂ r => ?_⟩
  rcases hask : (search g₁ c builtInRules).ask with ⟨result, asked⟩
  obtain ⟨ending, he₁, _⟩ := (explores_iff hacyclic₁).mpr hask
  have he₂ := he₁.congr hsame fun e he => by
    obtain ⟨root, hroot, rfl⟩ := List.mem_map.mp he
    exact .node hroot
  exact ⟨sameChoice_of_explores hsame hacyclic₁ hacyclic₂ hsize₁ hsize₂ he₁ he₂ policy₁ policy₂ r,
    placed_mutate hacyclic₁ hsize₁ policy₁ r, placed_mutate hacyclic₂ hsize₂ policy₂ r⟩

/-! ## A node that nothing leads to -/

theorem index_lt_of_relevant {g : Arena} (h : tokensFit g c = true) {id : NodeId}
    (hid : Relevant g c id) : id.index < g.size := by
  suffices hfits : ∃ kind, fits g (kind, id) = true by
    obtain ⟨kind, hfits⟩ := hfits
    obtain ⟨n, hn, _⟩ := fits_iff.mp hfits
    exact Arena.index_lt_of_node? hn
  cases hid with
  | node hid => exact ⟨_, fits_of_mem_nodes h hid⟩
  | owner hm => exact ⟨_, fits_of_owner h hm⟩
  | held _ hn he => exact ⟨_, fits_of_mem_handles h hn he⟩

/-- A new node is not relevant in a program whose tokens all fit. -/
theorem node?_alloc_of_relevant {g : Arena} (h : tokensFit g c = true) (n : Node) {id : NodeId}
    (hid : Relevant g c id) : g.node? id = (g.alloc n).2.node? id :=
  (Arena.node?_alloc_ne (Nat.ne_of_lt (index_lt_of_relevant h hid)) n).symm

/-- The program `loop`, and a negation of its constant that nothing leads to. -/
def littered : Arena := (loop.alloc (.value (.negate ⟨3⟩))).2

/-- The negation changes neither the facts nor the choice of the mutation, but it keeps the constant
from keeping its node. -/
theorem only_relevant_nodes_count_littered :
    extract loop loopFlow = extract littered loopFlow ∧
      SameChoice ((Mutator.builtIn .preserve).mutate loop loopFlow (.ofSeed 0))
        ((Mutator.builtIn .preserve).mutate littered loopFlow (.ofSeed 0)) ∧
      keepsNode .preserve loop ⟨3⟩ = true ∧ keepsNode .preserve littered ⟨3⟩ = false := by
  have hacyclic : Acyclic loop fun p => Relevant loop loopFlow p.id :=
    acyclic_of_valuesEarlier (by decide) _
  have hsame : ∀ id, Relevant loop loopFlow id → loop.node? id = littered.node? id :=
    fun _ hid => node?_alloc_of_relevant tokensFit_loop _ hid
  obtain ⟨hfacts, hattempts⟩ :=
    only_relevant_nodes_count hsame hacyclic (by decide) (by decide)
  obtain ⟨hchoice, _⟩ := hattempts .preserve .preserve (.ofSeed 0)
  exact ⟨hfacts, hchoice, by decide +kernel, by decide +kernel⟩

end ProgramFacts.Mutation
