import Mathlib.Data.List.Chain
import ProgramFacts.Mutation.Step
import ProgramFacts.Proofs.Gathering
import ProgramFacts.Proofs.Slots

/-! The search for a position as a recursion, without a stack, a shared path or a bound on its
depth: a statement is marked, the operand trees in it are tested, and then its targets are visited
inside the longer path.  The recursion has one course at most, and it asks about genuine places
only. -/

namespace ProgramFacts.Mutation

open Program ProgramFacts.Flow Extraction

/-- What ends a search before it has seen everything: a failure, or a position. -/
abbrev Halt := Except Failure Position

/-- The questions about a value to the first `count` rules. -/
def questions (v : ValueId) (ancestors : List NodeId) (count : Nat) : List Query :=
  (List.range count).map fun place => ⟨place, v, ancestors⟩

/-- The operands of a node, with their slots. -/
def held (parent : NodeId) (operands : List ValueId) : List (Slot × ValueId) :=
  named (Slot.mk parent) operands

section Relations

variable (g : Arena)

/-- The rules of a list that apply to a value, or the first failure of a rule; and how many rules
were asked. -/
inductive Answers (v : ValueId) (ancestors : List NodeId) :
    List Rule → Except Failure (List Rule) → Nat → Prop
  | nil : Answers v ancestors [] (.ok []) 0
  | failed {rule : Rule} {rules : List Rule} {failure : Failure} :
      rule.applies g v ancestors = .error failure →
      Answers v ancestors (rule :: rules) (.error failure) 1
  | yes {rule : Rule} {rules : List Rule} {result : Except Failure (List Rule)} {count : Nat} :
      rule.applies g v ancestors = .ok true → Answers v ancestors rules result count →
      Answers v ancestors (rule :: rules) (result.map (rule :: ·)) (count + 1)
  | no {rule : Rule} {rules : List Rule} {result : Except Failure (List Rule)} {count : Nat} :
      rule.applies g v ancestors = .ok false → Answers v ancestors rules result count →
      Answers v ancestors (rule :: rules) result (count + 1)

variable (rules : List Rule)

/-- The test of the value in one slot: all rules are asked, in order. -/
inductive Tries (ancestors : List NodeId) (slot : Slot) (v : ValueId) :
    Except Halt Value → List Query → Prop
  | lost {fault : Fault} :
      g.value v = .error fault → Tries ancestors slot v (.error (.error (.ofFault fault))) []
  | failed {x : Value} {failure : Failure} {count : Nat} :
      g.value v = .ok x → Answers g v ancestors rules (.error failure) count →
      Tries ancestors slot v (.error (.error failure)) (questions v ancestors count)
  | found {x : Value} {first : Rule} {others : List Rule} {count : Nat} :
      g.value v = .ok x → Answers g v ancestors rules (.ok (first :: others)) count →
      Tries ancestors slot v (.error (.ok ⟨slot, v, first, others⟩)) (questions v ancestors count)
  | quiet {x : Value} {count : Nat} :
      g.value v = .ok x → Answers g v ancestors rules (.ok []) count →
      Tries ancestors slot v (.ok x) (questions v ancestors count)

/-- The test of operand trees one after the other, each value before its sub-values. -/
inductive Descends :
    List NodeId → List (Slot × ValueId) → Except Halt Unit → List Query → Prop
  | nil {ancestors : List NodeId} : Descends ancestors [] (.ok ()) []
  | stop {ancestors : List NodeId} {slot : Slot} {v : ValueId} {rest : List (Slot × ValueId)}
      {halt : Halt} {asked : List Query} :
      Tries g rules ancestors slot v (.error halt) asked →
      Descends ancestors ((slot, v) :: rest) (.error halt) asked
  | inside {ancestors : List NodeId} {slot : Slot} {v : ValueId} {x : Value}
      {rest : List (Slot × ValueId)} {halt : Halt} {asked asked' : List Query} :
      Tries g rules ancestors slot v (.ok x) asked →
      Descends (ancestors ++ [v]) (held v x.operands) (.error halt) asked' →
      Descends ancestors ((slot, v) :: rest) (.error halt) (asked ++ asked')
  | next {ancestors : List NodeId} {slot : Slot} {v : ValueId} {x : Value}
      {rest : List (Slot × ValueId)} {ending : Except Halt Unit}
      {asked asked' asked'' : List Query} :
      Tries g rules ancestors slot v (.ok x) asked →
      Descends (ancestors ++ [v]) (held v x.operands) (.ok ()) asked' →
      Descends ancestors rest ending asked'' →
      Descends ancestors ((slot, v) :: rest) ending (asked ++ asked' ++ asked'')

/-- The visit of statements one after the other, each inside the nodes that it is paired with;
`visited` holds the statements that were visited before. -/
inductive Explores : List StmtId → List (StmtId × List NodeId) → Except Halt (List StmtId) →
    List Query → Prop
  | nil {visited : List StmtId} : Explores visited [] (.ok visited) []
  | again {visited : List StmtId} {id : StmtId} {ancestors : List NodeId}
      {rest : List (StmtId × List NodeId)} {ending : Except Halt (List StmtId)}
      {asked : List Query} :
      id ∈ visited → Explores visited rest ending asked →
      Explores visited ((id, ancestors) :: rest) ending asked
  | lost {visited : List StmtId} {id : StmtId} {ancestors : List NodeId}
      {rest : List (StmtId × List NodeId)} {fault : Fault} :
      id ∉ visited → g.stmt id = .error fault →
      Explores visited ((id, ancestors) :: rest) (.error (.error (.ofFault fault))) []
  | stop {visited : List StmtId} {id : StmtId} {s : Stmt} {ancestors : List NodeId}
      {rest : List (StmtId × List NodeId)} {halt : Halt} {asked : List Query} :
      id ∉ visited → g.stmt id = .ok s →
      Descends g rules (ancestors ++ [id]) (held id s.operands) (.error halt) asked →
      Explores visited ((id, ancestors) :: rest) (.error halt) asked
  | inside {visited : List StmtId} {id : StmtId} {s : Stmt} {ancestors : List NodeId}
      {rest : List (StmtId × List NodeId)} {halt : Halt} {asked asked' : List Query} :
      id ∉ visited → g.stmt id = .ok s →
      Descends g rules (ancestors ++ [id]) (held id s.operands) (.ok ()) asked →
      Explores (id :: visited) (s.targets.map fun t => (t, ancestors ++ [id])) (.error halt)
        asked' →
      Explores visited ((id, ancestors) :: rest) (.error halt) (asked ++ asked')
  | next {visited visited' : List StmtId} {id : StmtId} {s : Stmt} {ancestors : List NodeId}
      {rest : List (StmtId × List NodeId)} {ending : Except Halt (List StmtId)}
      {asked asked' asked'' : List Query} :
      id ∉ visited → g.stmt id = .ok s →
      Descends g rules (ancestors ++ [id]) (held id s.operands) (.ok ()) asked →
      Explores (id :: visited) (s.targets.map fun t => (t, ancestors ++ [id])) (.ok visited')
        asked' →
      Explores visited' rest ending asked'' →
      Explores visited ((id, ancestors) :: rest) ending (asked ++ asked' ++ asked'')

end Relations

variable {g : Arena} {c : FlowGraph} {rules : List Rule}

/-! ## One course at most -/

theorem Answers.unique {v : ValueId} {ancestors : List NodeId} {rules : List Rule}
    {result result' : Except Failure (List Rule)} {count count' : Nat}
    (h : Answers g v ancestors rules result count)
    (h' : Answers g v ancestors rules result' count') : result = result' ∧ count = count' := by
  induction h generalizing result' count' with
  | nil =>
    cases h'
    exact ⟨rfl, rfl⟩
  | failed ha =>
    cases h' with
    | failed ha' =>
      rw [ha] at ha'
      exact ⟨congrArg Except.error (Except.error.inj ha'), rfl⟩
    | yes ha' _ => simp [ha] at ha'
    | no ha' _ => simp [ha] at ha'
  | yes ha _ ih =>
    cases h' with
    | failed ha' => simp [ha] at ha'
    | yes _ h' =>
      obtain ⟨rfl, rfl⟩ := ih h'
      exact ⟨rfl, rfl⟩
    | no ha' _ => simp [ha] at ha'
  | no ha _ ih =>
    cases h' with
    | failed ha' => simp [ha] at ha'
    | yes ha' _ => simp [ha] at ha'
    | no _ h' =>
      obtain ⟨rfl, rfl⟩ := ih h'
      exact ⟨rfl, rfl⟩

/-- The rules that apply, if no rule fails: all are asked. -/
theorem Answers.eq_filter {v : ValueId} {ancestors : List NodeId} {rules applying : List Rule}
    {count : Nat} (h : Answers g v ancestors rules (.ok applying) count) :
    applying = rules.filter (fun rule => rule.applies g v ancestors matches .ok true) ∧
      count = rules.length := by
  generalize hr : (Except.ok applying : Except Failure (List Rule)) = result at h
  induction h generalizing applying with
  | nil =>
    obtain rfl := Except.ok.inj hr
    exact ⟨rfl, rfl⟩
  | failed => contradiction
  | @yes rule rules result count ha _ ih =>
    cases result with
    | error failure => contradiction
    | ok later =>
      obtain rfl := Except.ok.inj hr
      obtain ⟨rfl, rfl⟩ := ih rfl
      simp [ha]
  | no ha _ ih =>
    obtain ⟨rfl, rfl⟩ := ih hr
    simp [ha]

theorem Answers.applies {v : ValueId} {ancestors : List NodeId} {rules applying : List Rule}
    {count : Nat} (h : Answers g v ancestors rules (.ok applying) count) {rule : Rule}
    (hrule : rule ∈ applying) : rule ∈ rules ∧ rule.applies g v ancestors = .ok true := by
  rw [h.eq_filter.1, List.mem_filter] at hrule
  obtain ⟨hmem, happlies⟩ := hrule
  refine ⟨hmem, ?_⟩
  split at happlies
  · assumption
  · contradiction

theorem Tries.unique {ancestors : List NodeId} {slot : Slot} {v : ValueId}
    {ending ending' : Except Halt Value} {asked asked' : List Query}
    (h : Tries g rules ancestors slot v ending asked)
    (h' : Tries g rules ancestors slot v ending' asked') : ending = ending' ∧ asked = asked' := by
  cases h with
  | lost hv =>
    cases h' with
    | lost hv' =>
      rw [hv] at hv'
      obtain rfl := Except.error.inj hv'
      exact ⟨rfl, rfl⟩
    | failed hv' _ => simp [hv] at hv'
    | found hv' _ => simp [hv] at hv'
    | quiet hv' _ => simp [hv] at hv'
  | failed hv ha =>
    cases h' with
    | lost hv' => simp [hv] at hv'
    | failed _ ha' =>
      obtain ⟨hr, rfl⟩ := ha.unique ha'
      obtain rfl := Except.error.inj hr
      exact ⟨rfl, rfl⟩
    | found _ ha' => exact absurd (ha.unique ha').1 (by simp)
    | quiet _ ha' => exact absurd (ha.unique ha').1 (by simp)
  | found hv ha =>
    cases h' with
    | lost hv' => simp [hv] at hv'
    | failed _ ha' => exact absurd (ha.unique ha').1 (by simp)
    | found _ ha' =>
      obtain ⟨hr, rfl⟩ := ha.unique ha'
      obtain ⟨rfl, rfl⟩ := List.cons.inj (Except.ok.inj hr)
      exact ⟨rfl, rfl⟩
    | quiet _ ha' => exact absurd (ha.unique ha').1 (by simp)
  | quiet hv ha =>
    cases h' with
    | lost hv' => simp [hv] at hv'
    | failed _ ha' => exact absurd (ha.unique ha').1 (by simp)
    | found _ ha' => exact absurd (ha.unique ha').1 (by simp)
    | quiet hv' ha' =>
      obtain ⟨_, rfl⟩ := ha.unique ha'
      obtain rfl := Except.ok.inj (hv.symm.trans hv')
      exact ⟨rfl, rfl⟩

theorem Descends.unique {ancestors : List NodeId} {places : List (Slot × ValueId)}
    {ending ending' : Except Halt Unit} {asked asked' : List Query}
    (h : Descends g rules ancestors places ending asked)
    (h' : Descends g rules ancestors places ending' asked') :
    ending = ending' ∧ asked = asked' := by
  induction h generalizing ending' asked' with
  | nil =>
    cases h'
    exact ⟨rfl, rfl⟩
  | stop ht =>
    cases h' with
    | stop ht' =>
      obtain ⟨he, rfl⟩ := ht.unique ht'
      obtain rfl := Except.error.inj he
      exact ⟨rfl, rfl⟩
    | inside ht' _ => exact absurd (ht.unique ht').1 (by simp)
    | next ht' _ _ => exact absurd (ht.unique ht').1 (by simp)
  | inside ht _ ih =>
    cases h' with
    | stop ht' => exact absurd (ht.unique ht').1 (by simp)
    | inside ht' hd' =>
      obtain ⟨hx, rfl⟩ := ht.unique ht'
      obtain rfl := Except.ok.inj hx
      obtain ⟨he, rfl⟩ := ih hd'
      exact ⟨congrArg Except.error (Except.error.inj he), rfl⟩
    | next ht' hd' _ =>
      obtain rfl := Except.ok.inj (ht.unique ht').1
      exact absurd (ih hd').1 (by simp)
  | next ht _ _ ihInside ih =>
    cases h' with
    | stop ht' => exact absurd (ht.unique ht').1 (by simp)
    | inside ht' hd' =>
      obtain rfl := Except.ok.inj (ht.unique ht').1
      exact absurd (ihInside hd').1 (by simp)
    | next ht' hd' hrest' =>
      obtain ⟨hx, rfl⟩ := ht.unique ht'
      obtain rfl := Except.ok.inj hx
      obtain ⟨_, rfl⟩ := ihInside hd'
      obtain ⟨rfl, rfl⟩ := ih hrest'
      exact ⟨rfl, rfl⟩

theorem Explores.unique {visited : List StmtId} {tasks : List (StmtId × List NodeId)}
    {ending ending' : Except Halt (List StmtId)} {asked asked' : List Query}
    (h : Explores g rules visited tasks ending asked)
    (h' : Explores g rules visited tasks ending' asked') : ending = ending' ∧ asked = asked' := by
  induction h generalizing ending' asked' with
  | nil =>
    cases h'
    exact ⟨rfl, rfl⟩
  | again hid _ ih =>
    cases h' with
    | again _ h' => exact ih h'
    | lost hnew _ => exact absurd hid hnew
    | stop hnew _ _ => exact absurd hid hnew
    | inside hnew _ _ _ => exact absurd hid hnew
    | next hnew _ _ _ _ => exact absurd hid hnew
  | lost hnew hs =>
    cases h' with
    | again hid _ => exact absurd hid hnew
    | lost _ hs' =>
      rw [hs] at hs'
      obtain rfl := Except.error.inj hs'
      exact ⟨rfl, rfl⟩
    | stop _ hs' _ => simp [hs] at hs'
    | inside _ hs' _ _ => simp [hs] at hs'
    | next _ hs' _ _ _ => simp [hs] at hs'
  | stop hnew hs hd =>
    cases h' with
    | again hid _ => exact absurd hid hnew
    | lost _ hs' => simp [hs] at hs'
    | stop _ hs' hd' =>
      obtain rfl := Except.ok.inj (hs.symm.trans hs')
      obtain ⟨he, rfl⟩ := hd.unique hd'
      exact ⟨congrArg Except.error (Except.error.inj he), rfl⟩
    | inside _ hs' hd' _ =>
      obtain rfl := Except.ok.inj (hs.symm.trans hs')
      exact absurd (hd.unique hd').1 (by simp)
    | next _ hs' hd' _ _ =>
      obtain rfl := Except.ok.inj (hs.symm.trans hs')
      exact absurd (hd.unique hd').1 (by simp)
  | inside hnew hs hd _ ih =>
    cases h' with
    | again hid _ => exact absurd hid hnew
    | lost _ hs' => simp [hs] at hs'
    | stop _ hs' hd' =>
      obtain rfl := Except.ok.inj (hs.symm.trans hs')
      exact absurd (hd.unique hd').1 (by simp)
    | inside _ hs' hd' ht' =>
      obtain rfl := Except.ok.inj (hs.symm.trans hs')
      obtain ⟨_, rfl⟩ := hd.unique hd'
      obtain ⟨he, rfl⟩ := ih ht'
      exact ⟨he, rfl⟩
    | next _ hs' hd' ht' _ =>
      obtain rfl := Except.ok.inj (hs.symm.trans hs')
      exact absurd (ih ht').1 (by simp)
  | next hnew hs hd _ _ ihTargets ih =>
    cases h' with
    | again hid _ => exact absurd hid hnew
    | lost _ hs' => simp [hs] at hs'
    | stop _ hs' hd' =>
      obtain rfl := Except.ok.inj (hs.symm.trans hs')
      exact absurd (hd.unique hd').1 (by simp)
    | inside _ hs' hd' ht' =>
      obtain rfl := Except.ok.inj (hs.symm.trans hs')
      exact absurd (ihTargets ht').1 (by simp)
    | next _ hs' hd' ht' hrest' =>
      obtain rfl := Except.ok.inj (hs.symm.trans hs')
      obtain ⟨_, rfl⟩ := hd.unique hd'
      obtain ⟨hv, rfl⟩ := ihTargets ht'
      obtain rfl := Except.ok.inj hv
      obtain ⟨rfl, rfl⟩ := ih hrest'
      exact ⟨rfl, rfl⟩

/-! ## Genuine places -/

/-- `b` is a target of the statement `a`, or an operand of the node `a`. -/
def Leads (g : Arena) (a b : NodeId) : Prop :=
  (∃ s, g.stmt a = .ok s ∧ b ∈ s.targets) ∨ ∃ n, g.node? a = some n ∧ b ∈ n.operands

/-- A path from a registered statement on, each node of which leads to the next one. -/
structure Path (g : Arena) (c : FlowGraph) (path : List NodeId) : Prop where
  root : ∃ root ∈ c.nodes, path.head? = some root
  chain : path.IsChain (Leads g)

/-- The ancestors are a path to the node that holds `v` in `slot`. -/
structure Enclosed (g : Arena) (c : FlowGraph) (ancestors : List NodeId) (slot : Slot)
    (v : ValueId) : Prop extends Path g c ancestors where
  last : ancestors.getLast? = some slot.parent
  slot : g.slot slot = .ok v

/-- The statements that the registered ones lead to, each with a path of statements to it. -/
inductive Trail (g : Arena) (c : FlowGraph) : List NodeId → StmtId → Prop
  | root {id : StmtId} : id ∈ c.nodes → Trail g c [] id
  | target {ancestors : List NodeId} {id t : StmtId} {s : Stmt} :
      Trail g c ancestors id → g.stmt id = .ok s → t ∈ s.targets → Trail g c (ancestors ++ [id]) t

/-- The slots in the operand trees of these statements, with their values and the paths to them. -/
inductive Place (g : Arena) (c : FlowGraph) : List NodeId → Slot → ValueId → Prop
  | top {ancestors : List NodeId} {id : StmtId} {s : Stmt} {i : Nat} {v : ValueId} :
      Trail g c ancestors id → g.stmt id = .ok s → s.operands[i]? = some v →
      Place g c (ancestors ++ [id]) ⟨id, i⟩ v
  | inner {ancestors : List NodeId} {slot : Slot} {v w : ValueId} {x : Value} {i : Nat} :
      Place g c ancestors slot v → g.value v = .ok x → x.operands[i]? = some w →
      Place g c (ancestors ++ [v]) ⟨v, i⟩ w

theorem Path.concat {path : List NodeId} {a b : NodeId} (h : Path g c path)
    (ha : path.getLast? = some a) (hab : Leads g a b) : Path g c (path ++ [b]) := by
  obtain ⟨root, hroot, hhead⟩ := h.root
  refine ⟨⟨root, hroot, ?_⟩, h.chain.append (.singleton b) ?_⟩
  · rw [List.head?_append, hhead]
    rfl
  · intro x hx y hy
    obtain rfl := Option.some.inj (ha.symm.trans hx)
    obtain rfl := Option.some.inj hy
    exact hab

theorem Trail.path {ancestors : List NodeId} {id : StmtId} (h : Trail g c ancestors id) :
    Path g c (ancestors ++ [id]) := by
  induction h with
  | root hid => exact ⟨⟨_, hid, rfl⟩, .singleton _⟩
  | target _ hs ht ih => exact ih.concat (List.getLast?_concat ..) (.inl ⟨_, hs, ht⟩)

theorem Place.enclosed {ancestors : List NodeId} {slot : Slot} {v : ValueId}
    (h : Place g c ancestors slot v) : Enclosed g c ancestors slot v := by
  induction h with
  | top hid hs hv =>
    exact ⟨hid.path, List.getLast?_concat .., Arena.slot_eq_ok.mpr ⟨_, Arena.stmt_eq_ok.mp hs, hv⟩⟩
  | inner _ hx hw ih =>
    obtain ⟨n, hn, hv⟩ := Arena.slot_eq_ok.mp ih.slot
    have hpath := ih.toPath.concat ih.last (.inr ⟨n, hn, List.mem_of_getElem? hv⟩)
    exact ⟨hpath, List.getLast?_concat .., Arena.slot_eq_ok.mpr ⟨_, Arena.value_eq_ok.mp hx, hw⟩⟩

theorem Trail.reached {ancestors : List NodeId} {id : StmtId} (h : Trail g c ancestors id) :
    Reached g c id := by
  induction h with
  | root hid => exact .node hid
  | target _ hs ht ih => exact ih.target hs ht

/-- A statement mentions the value of a place; it is the parent of the slot or mentions that. -/
theorem Place.mentions {ancestors : List NodeId} {slot : Slot} {v : ValueId}
    (h : Place g c ancestors slot v) :
    ∃ id, Reached g c id ∧ Mentions g id v ∧ (slot.parent = id ∨ Mentions g id slot.parent) := by
  induction h with
  | top hid hs hv =>
    have hmem := List.mem_of_getElem? hv
    exact ⟨_, hid.reached, .top hs (List.mem_append_left _ hmem), .inl rfl⟩
  | inner _ hx hw ih =>
    obtain ⟨id, hid, hv, _⟩ := ih
    exact ⟨id, hid, hv.operand ⟨_, hx, List.mem_of_getElem? hw⟩, .inr hv⟩

/-! ## The recursion stays inside genuine places -/

theorem mem_held {parent : NodeId} {operands : List ValueId} {slot : Slot} {v : ValueId} :
    (slot, v) ∈ held parent operands ↔ ∃ i : Nat, operands[i]? = some v ∧ slot = ⟨parent, i⟩ :=
  mem_named

/-- A question is asked about the value of a place, inside the path to it. -/
def Proper (g : Arena) (c : FlowGraph) (q : Query) : Prop :=
  ∃ slot, Place g c q.ancestors slot q.node

/-- A position that ends a search is a place of a value, and its rules are those that apply
there. -/
def Halts (g : Arena) (c : FlowGraph) (rules : List Rule) : Halt → Prop
  | .error _ => True
  | .ok p => ∃ ancestors x count, Place g c ancestors p.slot p.node ∧ g.value p.node = .ok x ∧
      Answers g p.node ancestors rules (.ok p.rules) count

theorem proper_of_mem_questions {ancestors : List NodeId} {slot : Slot} {v : ValueId}
    (h : Place g c ancestors slot v) {count : Nat} :
    ∀ q ∈ questions v ancestors count, Proper g c q := by
  intro q hq
  obtain ⟨place, _, rfl⟩ := List.mem_map.mp hq
  exact ⟨slot, h⟩

theorem Tries.proper {ancestors : List NodeId} {slot : Slot} {v : ValueId}
    {ending : Except Halt Value} {asked : List Query}
    (h : Tries g rules ancestors slot v ending asked) (hplace : Place g c ancestors slot v) :
    (∀ q ∈ asked, Proper g c q) ∧ (∀ halt, ending = .error halt → Halts g c rules halt) ∧
      ∀ x, ending = .ok x → g.value v = .ok x := by
  cases h with
  | lost hv => exact ⟨by simp, fun _ h => Except.error.inj h ▸ trivial, fun _ h => by contradiction⟩
  | failed hv ha =>
    exact ⟨proper_of_mem_questions hplace, fun _ h => Except.error.inj h ▸ trivial,
      fun _ h => by contradiction⟩
  | found hv ha =>
    exact ⟨proper_of_mem_questions hplace,
      fun _ h => Except.error.inj h ▸ ⟨ancestors, _, _, hplace, hv, ha⟩,
      fun _ h => by contradiction⟩
  | quiet hv ha =>
    exact ⟨proper_of_mem_questions hplace, fun _ h => by contradiction,
      fun _ h => Except.ok.inj h ▸ hv⟩

theorem Descends.proper {ancestors : List NodeId} {places : List (Slot × ValueId)}
    {ending : Except Halt Unit} {asked : List Query}
    (h : Descends g rules ancestors places ending asked)
    (hplaces : ∀ e ∈ places, Place g c ancestors e.1 e.2) :
    (∀ q ∈ asked, Proper g c q) ∧ ∀ halt, ending = .error halt → Halts g c rules halt := by
  have inner {ancestors : List NodeId} {slot : Slot} {v : ValueId} {x : Value}
      (hplace : Place g c ancestors slot v) (hx : g.value v = .ok x) :
      ∀ e ∈ held v x.operands, Place g c (ancestors ++ [v]) e.1 e.2 := by
    rintro ⟨slot', w⟩ he
    obtain ⟨i, hw, rfl⟩ := mem_held.mp he
    exact .inner hplace hx hw
  induction h with
  | nil => exact ⟨by simp, fun _ h => by contradiction⟩
  | stop ht =>
    obtain ⟨hasked, hhalt, _⟩ := ht.proper (hplaces _ (.head _))
    exact ⟨hasked, fun _ h => hhalt _ (congrArg _ (Except.error.inj h))⟩
  | inside ht _ ih =>
    have hplace := hplaces _ (.head _)
    obtain ⟨hasked, _, hx⟩ := ht.proper hplace
    obtain ⟨hasked', hhalt⟩ := ih (inner hplace (hx _ rfl))
    exact ⟨List.forall_mem_append.mpr ⟨hasked, hasked'⟩, hhalt⟩
  | next ht _ _ ihInside ih =>
    obtain ⟨hplace, hrest⟩ := List.forall_mem_cons.mp hplaces
    obtain ⟨hasked, _, hx⟩ := ht.proper hplace
    obtain ⟨hasked', _⟩ := ihInside (inner hplace (hx _ rfl))
    obtain ⟨hasked'', hhalt⟩ := ih hrest
    exact ⟨List.forall_mem_append.mpr ⟨List.forall_mem_append.mpr ⟨hasked, hasked'⟩, hasked''⟩,
      hhalt⟩

theorem Explores.proper {visited : List StmtId} {tasks : List (StmtId × List NodeId)}
    {ending : Except Halt (List StmtId)} {asked : List Query}
    (h : Explores g rules visited tasks ending asked)
    (htasks : ∀ e ∈ tasks, Trail g c e.2 e.1) :
    (∀ q ∈ asked, Proper g c q) ∧ ∀ halt, ending = .error halt → Halts g c rules halt := by
  have top {ancestors : List NodeId} {id : StmtId} {s : Stmt} (hid : Trail g c ancestors id)
      (hs : g.stmt id = .ok s) :
      ∀ e ∈ held id s.operands, Place g c (ancestors ++ [id]) e.1 e.2 := by
    rintro ⟨slot', w⟩ he
    obtain ⟨i, hw, rfl⟩ := mem_held.mp he
    exact .top hid hs hw
  have targets {ancestors : List NodeId} {id : StmtId} {s : Stmt} (hid : Trail g c ancestors id)
      (hs : g.stmt id = .ok s) :
      ∀ e ∈ s.targets.map fun t => (t, ancestors ++ [id]), Trail g c e.2 e.1 := by
    intro e he
    obtain ⟨t, ht, rfl⟩ := List.mem_map.mp he
    exact .target hid hs ht
  induction h with
  | nil => exact ⟨by simp, fun _ h => by contradiction⟩
  | again _ _ ih => exact ih fun e he => htasks e (.tail _ he)
  | lost => exact ⟨by simp, fun _ h => Except.error.inj h ▸ trivial⟩
  | stop _ hs hd =>
    obtain ⟨hasked, hhalt⟩ := hd.proper (top (htasks _ (.head _)) hs)
    exact ⟨hasked, fun _ h => hhalt _ (congrArg _ (Except.error.inj h))⟩
  | inside _ hs hd _ ih =>
    have hid := htasks _ (.head _)
    obtain ⟨hasked, _⟩ := hd.proper (top hid hs)
    obtain ⟨hasked', hhalt⟩ := ih (targets hid hs)
    exact ⟨List.forall_mem_append.mpr ⟨hasked, hasked'⟩, hhalt⟩
  | next _ hs hd _ _ ihTargets ih =>
    obtain ⟨hid, hrest⟩ := List.forall_mem_cons.mp htasks
    obtain ⟨hasked, _⟩ := hd.proper (top hid hs)
    obtain ⟨hasked', _⟩ := ihTargets (targets hid hs)
    obtain ⟨hasked'', hhalt⟩ := ih hrest
    exact ⟨List.forall_mem_append.mpr ⟨List.forall_mem_append.mpr ⟨hasked, hasked'⟩, hasked''⟩,
      hhalt⟩

end ProgramFacts.Mutation
