import ProgramFacts.Proofs.Exactness

/-! Registration of bodies.  The edges of a graph that is built body by body are the falls from a
statement to the next one of its body and the jumps to branch targets; a statement belongs to the
last body that has it.  A body with a token that is no statement is registered up to that token.
The rows that record jumps are found among the edges, and all other edges are falls. -/

namespace ProgramFacts

open Program ProgramFacts.Fact

namespace Flow

/-! ## One insertion -/

namespace FlowGraph

variable {c : FlowGraph}

@[simp] theorem edges_insertNode (id : StmtId) : (c.insertNode id).edges = c.edges := by
  unfold insertNode
  split <;> rfl

@[simp] theorem owner_insertNode (id j : StmtId) : (c.insertNode id).owner j = c.owner j := by
  unfold insertNode
  split <;> rfl

@[simp] theorem mem_nodes_insertEdge {source target j : StmtId} :
    j ∈ (c.insertEdge source target).nodes ↔ j ∈ c.nodes ∨ j = source ∨ j = target := by
  have h : (c.insertEdge source target).nodes =
      ((c.insertNode source).insertNode target).nodes := by
    unfold insertEdge
    dsimp only
    split <;> rfl
  rw [h, mem_insertNode, mem_insertNode, or_assoc]

@[simp] theorem mem_edges_insertEdge {source target : StmtId} {e : StmtId × StmtId} :
    e ∈ (c.insertEdge source target).edges ↔ e ∈ c.edges ∨ e = (source, target) := by
  unfold insertEdge
  dsimp only
  split
  · rename_i h
    simp only [edges_insertNode] at h ⊢
    exact ⟨.inl, fun he => he.elim (fun he => he) fun he => he ▸ h⟩
  · simp

@[simp] theorem owner_insertEdge (source target j : StmtId) :
    (c.insertEdge source target).owner j = c.owner j := by
  have h : (c.insertEdge source target).owners =
      ((c.insertNode source).insertNode target).owners := by
    unfold insertEdge
    dsimp only
    split <;> rfl
  calc (c.insertEdge source target).owner j
    _ = ((c.insertNode source).insertNode target).owner j := by rw [owner, h, owner]
    _ = c.owner j := by simp

theorem owner_setOwner (id j : StmtId) (m : MethodId) :
    (c.setOwner id m).owner j = if j = id then .ok m else c.owner j := by
  unfold owner setOwner
  by_cases h : j = id
  · simp [h]
  · have hne : compare id j ≠ .eq := fun heq => h (Std.LawfulEqCmp.eq_of_compare heq).symm
    simp [Std.ExtTreeMap.getElem?_insert, h, hne]

/-! ## Insertions in turn -/

/-- The graph with all edges of a list. -/
abbrev insertEdges (l : List (StmtId × StmtId)) (c : FlowGraph) : FlowGraph :=
  l.foldl (fun c e => c.insertEdge e.1 e.2) c

theorem mem_nodes_insertEdges {l : List (StmtId × StmtId)} {j : StmtId} :
    j ∈ (c.insertEdges l).nodes ↔ j ∈ c.nodes ∨ ∃ e ∈ l, j = e.1 ∨ j = e.2 := by
  induction l generalizing c with
  | nil => simp
  | cons e l ih => rw [insertEdges, List.foldl_cons, ih]; simp [or_assoc]

theorem mem_edges_insertEdges {l : List (StmtId × StmtId)} {e : StmtId × StmtId} :
    e ∈ (c.insertEdges l).edges ↔ e ∈ c.edges ∨ e ∈ l := by
  induction l generalizing c with
  | nil => simp
  | cons e' l ih => rw [insertEdges, List.foldl_cons, ih]; simp [or_assoc]

theorem owner_insertEdges (l : List (StmtId × StmtId)) (j : StmtId) :
    (c.insertEdges l).owner j = c.owner j := by
  induction l generalizing c with
  | nil => rfl
  | cons e l ih => rw [insertEdges, List.foldl_cons, ih, owner_insertEdge]

theorem mem_nodes_register {m : MethodId} {body : List StmtId} {j : StmtId} :
    j ∈ (body.foldl (register m) c).nodes ↔ j ∈ c.nodes ∨ j ∈ body := by
  induction body generalizing c with
  | nil => simp
  | cons id body ih =>
    rw [List.foldl_cons, ih, register, setOwner, mem_insertNode, List.mem_cons, or_assoc]

theorem edges_register (m : MethodId) (body : List StmtId) :
    (body.foldl (register m) c).edges = c.edges := by
  induction body generalizing c with
  | nil => rfl
  | cons id body ih => rw [List.foldl_cons, ih, register, setOwner, edges_insertNode]

theorem owner_register (m : MethodId) (body : List StmtId) (j : StmtId) :
    (body.foldl (register m) c).owner j = if j ∈ body then .ok m else c.owner j := by
  induction body generalizing c with
  | nil => simp
  | cons id body ih =>
    rw [List.foldl_cons, ih, register, owner_setOwner, owner_insertNode]
    by_cases hid : j = id <;> by_cases hbody : j ∈ body <;> simp [hid, hbody]

end FlowGraph

/-! ## One body -/

variable {g : Arena} {c c' : FlowGraph}

/-- The `i`-th statement of a body falls through, to the next one. -/
def FallsTo (g : Arena) (body : List StmtId) (i : Nat) (e : StmtId × StmtId) : Prop :=
  body[i]? = some e.1 ∧ body[i + 1]? = some e.2 ∧ ∃ s, g.stmt e.1 = .ok s ∧ s.fallsThrough = true

/-- The `i`-th statement of a body has a branch target. -/
def JumpsTo (g : Arena) (body : List StmtId) (i : Nat) (e : StmtId × StmtId) : Prop :=
  body[i]? = some e.1 ∧ ∃ s, g.stmt e.1 = .ok s ∧ e.2 ∈ s.targets

/-- Control may leave the `i`-th statement of a body along an edge. -/
def Leaves (g : Arena) (body : List StmtId) (i : Nat) (e : StmtId × StmtId) : Prop :=
  FallsTo g body i e ∨ JumpsTo g body i e

/-- `c'` is `c` with the edges of the first `k` statements of a body, and the ends of these. -/
structure Wired (g : Arena) (body : List StmtId) (k : Nat) (c c' : FlowGraph) : Prop where
  nodes : ∀ {id}, id ∈ c'.nodes ↔
    id ∈ c.nodes ∨ ∃ i < k, ∃ e, Leaves g body i e ∧ (id = e.1 ∨ id = e.2)
  edges : ∀ {e}, e ∈ c'.edges ↔ e ∈ c.edges ∨ ∃ i < k, Leaves g body i e
  owner : ∀ id, c'.owner id = c.owner id

theorem leaves_zero {id : StmtId} {s : Stmt} (hs : g.stmt id = .ok s) {rest : List StmtId}
    {e : StmtId × StmtId} :
    Leaves g (id :: rest) 0 e ↔ e ∈ FlowGraph.jumps id s rest.head? := by
  obtain ⟨source, target⟩ := e
  by_cases hid : id = source
  · subst hid
    cases hfalls : s.fallsThrough <;>
      simp [Leaves, FallsTo, JumpsTo, FlowGraph.jumps, hs, hfalls, List.head?_eq_getElem?]
  · simp [Leaves, FallsTo, JumpsTo, FlowGraph.jumps, hid]

theorem Leaves.source {body : List StmtId} {i : Nat} {e : StmtId × StmtId}
    (h : Leaves g body i e) : body[i]? = some e.1 :=
  h.elim And.left And.left

theorem Leaves.index_lt {body : List StmtId} {i : Nat} {e : StmtId × StmtId}
    (h : Leaves g body i e) : i < body.length :=
  (List.getElem?_eq_some_iff.mp h.source).1

theorem wired_zero (g : Arena) (body : List StmtId) (c : FlowGraph) : Wired g body 0 c c := by
  constructor <;> simp

/-- The edges of the first statement come first. -/
theorem Wired.cons {id : StmtId} {s : Stmt} (hs : g.stmt id = .ok s) {rest : List StmtId} {k : Nat}
    (h : Wired g rest k (c.insertEdges (FlowGraph.jumps id s rest.head?)) c') :
    Wired g (id :: rest) (k + 1) c c' where
  nodes {j} := by
    rw [h.nodes, FlowGraph.mem_nodes_insertEdges, Nat.exists_lt_succ_left, or_assoc]
    simp only [leaves_zero hs]
    rfl
  edges {e} := by
    rw [h.edges, FlowGraph.mem_edges_insertEdges, Nat.exists_lt_succ_left, or_assoc,
      leaves_zero hs]
    rfl
  owner j := (h.owner j).trans (FlowGraph.owner_insertEdges _ j)

/-- The statements at the start of a body add their edges. -/
theorem addJumps_append {before : List StmtId} (hbefore : ∀ id ∈ before, ∃ s, g.stmt id = .ok s)
    (after : List StmtId) (c : FlowGraph) :
    ∃ c', FlowGraph.addJumps g (before ++ after) c = FlowGraph.addJumps g after c' ∧
      Wired g (before ++ after) before.length c c' := by
  induction before generalizing c with
  | nil => exact ⟨c, rfl, wired_zero g after c⟩
  | cons id before ih =>
    obtain ⟨⟨s, hs⟩, hbefore⟩ := List.forall_mem_cons.mp hbefore
    obtain ⟨c', haddJumps, hwired⟩ :=
      ih hbefore (c.insertEdges (FlowGraph.jumps id s (before ++ after).head?))
    refine ⟨c', ?_, hwired.cons hs⟩
    rw [List.cons_append, FlowGraph.addJumps, hs]
    exact haddJumps

/-- `c'` is `c` with the statements of a body of `m`, of which only the first `k` have their edges
to the branch targets and to the next statement. -/
structure Added (g : Arena) (m : MethodId) (body : List StmtId) (k : Nat) (c c' : FlowGraph) :
    Prop where
  nodes : ∀ {id}, id ∈ c'.nodes ↔
    id ∈ c.nodes ∨ id ∈ body ∨ ∃ i < k, ∃ e, Leaves g body i e ∧ id = e.2
  edges : ∀ {e}, e ∈ c'.edges ↔ e ∈ c.edges ∨ ∃ i < k, Leaves g body i e
  owner : ∀ id, c'.owner id = if id ∈ body then .ok m else c.owner id

theorem Wired.added {m : MethodId} {body : List StmtId} {k : Nat}
    (h : Wired g body k (body.foldl (FlowGraph.register m) c) c') : Added g m body k c c' where
  nodes {id} := by
    rw [h.nodes, FlowGraph.mem_nodes_register, or_assoc]
    refine or_congr_right ⟨?_, ?_⟩
    · rintro (hid | ⟨i, hi, e, he, rfl | rfl⟩)
      · exact .inl hid
      · exact .inl (List.mem_of_getElem? he.source)
      · exact .inr ⟨i, hi, e, he, rfl⟩
    · rintro (hid | ⟨i, hi, e, he, rfl⟩)
      · exact .inl hid
      · exact .inr ⟨i, hi, e, he, .inr rfl⟩
  edges {e} := by rw [h.edges, FlowGraph.edges_register]
  owner id := (h.owner id).trans (FlowGraph.owner_register m body id)

section Whole

variable {m : MethodId} {body : List StmtId} (h : Added g m body body.length c c')
include h

theorem Added.mem_nodes {id : StmtId} : id ∈ c'.nodes ↔
    id ∈ c.nodes ∨ id ∈ body ∨ ∃ i e, Leaves g body i e ∧ id = e.2 :=
  h.nodes.trans <| or_congr_right <| or_congr_right <| exists_congr fun _ =>
    and_iff_right_of_imp fun ⟨_, he, _⟩ => Leaves.index_lt he

theorem Added.mem_edges {e : StmtId × StmtId} :
    e ∈ c'.edges ↔ e ∈ c.edges ∨ ∃ i, Leaves g body i e :=
  h.edges.trans <| or_congr_right <| exists_congr fun _ => and_iff_right_of_imp Leaves.index_lt

end Whole

/-- A body whose tokens are statements is added as a whole. -/
theorem addBody_eq_ok {m : MethodId} {method : Method} (hm : g.method m = .ok method)
    {body : List StmtId} (hbody : ∀ id ∈ body, ∃ s, g.stmt id = .ok s) (c : FlowGraph) :
    ∃ c', c.addBody g m body = (.ok (), c') ∧ Added g m body body.length c c' := by
  obtain ⟨c', haddJumps, hwired⟩ :=
    addJumps_append hbody [] (body.foldl (FlowGraph.register m) c)
  rw [List.append_nil] at haddJumps hwired
  refine ⟨c', ?_, hwired.added⟩
  rw [FlowGraph.addBody, hm]
  exact haddJumps

/-- A body is added up to the first token that is no statement. -/
theorem addBody_eq_error {m : MethodId} {method : Method} (hm : g.method m = .ok method)
    {body : List StmtId} {k : Nat} {id : StmtId} {fault : Fault}
    (hbefore : ∀ j ∈ body.take k, ∃ s, g.stmt j = .ok s) (hk : body[k]? = some id)
    (hid : g.stmt id = .error fault) (c : FlowGraph) :
    ∃ c', c.addBody g m body = (.error fault, c') ∧ Added g m body k c c' := by
  obtain ⟨hlt, rfl⟩ := List.getElem?_eq_some_iff.mp hk
  have hsplit : body.take k ++ body[k] :: body.drop (k + 1) = body := by
    rw [← List.drop_eq_getElem_cons hlt, List.take_append_drop]
  obtain ⟨c', haddJumps, hwired⟩ := addJumps_append hbefore (body[k] :: body.drop (k + 1))
    (body.foldl (FlowGraph.register m) c)
  rw [hsplit, List.length_take_of_le (Nat.le_of_lt hlt)] at hwired
  refine ⟨c', ?_, hwired.added⟩
  rw [hsplit, FlowGraph.addJumps, hid] at haddJumps
  rw [FlowGraph.addBody, hm]
  exact haddJumps

/-- The tokens of a body are statements, or one is the first that is not. -/
theorem stmts_or_first_fault (g : Arena) (body : List StmtId) :
    (∀ id ∈ body, ∃ s, g.stmt id = .ok s) ∨
      ∃ k id fault, (∀ j ∈ body.take k, ∃ s, g.stmt j = .ok s) ∧ body[k]? = some id ∧
        g.stmt id = .error fault := by
  induction body with
  | nil => simp
  | cons id body ih =>
    cases hid : g.stmt id with
    | error fault => exact .inr ⟨0, id, fault, by simp, rfl, hid⟩
    | ok s =>
      rcases ih with hbody | ⟨k, j, fault, hbefore, hk, hj⟩
      · exact .inl (List.forall_mem_cons.mpr ⟨⟨s, hid⟩, hbody⟩)
      · exact .inr ⟨k + 1, j, fault, List.forall_mem_cons.mpr ⟨⟨s, hid⟩, hbefore⟩, hk, hj⟩

theorem added_of_addBody {m : MethodId} {body : List StmtId}
    (h : c.addBody g m body = (.ok (), c')) : Added g m body body.length c c' := by
  cases hm : g.method m with
  | error fault => simp [FlowGraph.addBody, hm] at h
  | ok method =>
    rcases stmts_or_first_fault g body with hbody | ⟨k, id, fault, hbefore, hk, hid⟩
    · obtain ⟨c₁, heq, hadded⟩ := addBody_eq_ok hm hbody c
      obtain rfl := (Prod.mk.inj (heq.symm.trans h)).2
      exact hadded
    · obtain ⟨c₁, heq, _⟩ := addBody_eq_error hm hbefore hk hid c
      exact absurd (Prod.mk.inj (heq.symm.trans h)).1 nofun

/-! ## Bodies in turn -/

/-- `c` is made from the empty graph by the registration of methods with their bodies, in turn. -/
inductive Registers (g : Arena) : List (MethodId × List StmtId) → FlowGraph → Prop
  | none : Registers g [] .empty
  | body {bodies : List (MethodId × List StmtId)} {c c' : FlowGraph} {m : MethodId}
      {body : List StmtId} :
      Registers g bodies c → c.addBody g m body = (.ok (), c') →
      Registers g (bodies ++ [(m, body)]) c'

/-- `m` is the method of the last body that has a statement. -/
def LastOwner (bodies : List (MethodId × List StmtId)) (id : StmtId) (m : MethodId) : Prop :=
  ∃ before body after, bodies = before ++ (m, body) :: after ∧ id ∈ body ∧ ∀ b ∈ after, id ∉ b.2

theorem lastOwner_append {bodies : List (MethodId × List StmtId)} {id : StmtId} {m m' : MethodId}
    {body : List StmtId} : LastOwner (bodies ++ [(m', body)]) id m ↔
      if id ∈ body then m' = m else LastOwner bodies id m := by
  constructor
  · rintro ⟨before, body', after, heq, hid, hafter⟩
    rcases List.eq_nil_or_concat' after with rfl | ⟨after, b, rfl⟩
    · obtain ⟨-, hlast⟩ := List.append_inj' heq rfl
      obtain ⟨rfl, rfl⟩ := Prod.mk.inj (List.singleton_inj.mp hlast)
      rw [if_pos hid]
    · rw [← List.cons_append, ← List.append_assoc] at heq
      obtain ⟨rfl, hlast⟩ := List.append_inj' heq rfl
      obtain rfl := List.singleton_inj.mp hlast
      obtain ⟨hafter, hlast⟩ := List.forall_mem_append.mp hafter
      rw [if_neg (hlast _ (.head _))]
      exact ⟨before, body', after, rfl, hid, hafter⟩
  · split
    · rintro rfl
      exact ⟨bodies, body, [], rfl, ‹_›, by simp⟩
    · rintro ⟨before, body', after, rfl, hid, hafter⟩
      refine ⟨before, body', after ++ [(m', body)], by simp, hid, ?_⟩
      exact List.forall_mem_append.mpr ⟨hafter, by simpa⟩

namespace Registers

variable {bodies : List (MethodId × List StmtId)}

theorem mem_nodes (h : Registers g bodies c) {id : StmtId} :
    id ∈ c.nodes ↔ ∃ b ∈ bodies, id ∈ b.2 ∨ ∃ i e, Leaves g b.2 i e ∧ id = e.2 := by
  induction h with
  | none => simp [FlowGraph.empty]
  | body _ hadd ih =>
    rw [(added_of_addBody hadd).mem_nodes, ih]
    simp only [List.mem_append, List.mem_singleton, or_and_right,
      exists_or, exists_eq_left]

theorem mem_edges (h : Registers g bodies c) {e : StmtId × StmtId} :
    e ∈ c.edges ↔ ∃ b ∈ bodies, ∃ i, Leaves g b.2 i e := by
  induction h with
  | none => simp [FlowGraph.empty]
  | body _ hadd ih =>
    rw [(added_of_addBody hadd).mem_edges, ih]
    simp only [List.mem_append, List.mem_singleton, or_and_right, exists_or, exists_eq_left]

theorem owner_eq_ok (h : Registers g bodies c) {id : StmtId} {m : MethodId} :
    c.owner id = .ok m ↔ LastOwner bodies id m := by
  induction h with
  | none => simp [FlowGraph.empty, FlowGraph.owner, LastOwner]
  | body _ hadd ih =>
    rw [(added_of_addBody hadd).owner, lastOwner_append, ← ih]
    split <;> simp

end Registers

/-- What a graph has of its bodies: statements once each, with their branch targets; the falls and
jumps, between these statements; and for each statement the method of the last body that has it. -/
structure Describes (g : Arena) (bodies : List (MethodId × List StmtId)) (c : FlowGraph) :
    Prop where
  nodup : c.nodes.Nodup
  ends : ∀ e ∈ c.edges, e.1 ∈ c.nodes ∧ e.2 ∈ c.nodes
  nodes : ∀ {id}, id ∈ c.nodes ↔ ∃ b ∈ bodies, id ∈ b.2 ∨ ∃ i e, Leaves g b.2 i e ∧ id = e.2
  edges : ∀ {e}, e ∈ c.edges ↔ ∃ b ∈ bodies, ∃ i, Leaves g b.2 i e
  owner : ∀ {id m}, c.owner id = .ok m ↔ LastOwner bodies id m

theorem Registers.describes {bodies : List (MethodId × List StmtId)} (h : Registers g bodies c) :
    Describes g bodies c :=
  ⟨c.nodes_nodup, c.ends_mem, h.mem_nodes, h.mem_edges, h.owner_eq_ok⟩

/-- Every statement with an owner stands in a body. -/
theorem Registers.exists_body {bodies : List (MethodId × List StmtId)} (h : Registers g bodies c)
    {id : StmtId} {m : MethodId} (hm : c.owner id = .ok m) : ∃ b ∈ bodies, id ∈ b.2 := by
  obtain ⟨before, body, after, rfl, hid, -⟩ := h.owner_eq_ok.mp hm
  exact ⟨(m, body), by simp, hid⟩

end Flow

namespace Extraction

open ProgramFacts.Flow

variable {g : Arena} {c : FlowGraph}

/-! ## Rows of jumps -/

/-- The rows that record a jump from `a` to `b`. -/
inductive Jump (a b : Datum) : Rel → Tuple → Prop
  | ifGoto (condition : Datum) : Jump a b .ifGoto [a, condition, b]
  | goto : Jump a b .goto [a, b]
  | tableSwitch (key : Datum) : Jump a b .tableSwitch [a, key, b]
  | tableCase (index : Datum) : Jump a b .tableSwitchCases [a, index, b]
  | lookupSwitch (key : Datum) : Jump a b .lookupSwitch [a, key, b]
  | lookupCase (label : Datum) : Jump a b .lookupSwitchCases [a, label, b]

/-- A store records a jump from `a` to `b`. -/
def RecordsJump (s : Store) (a b : Datum) : Prop :=
  ∃ rel t, t ∈ (s.relation rel.name).tuples ∧ Jump a b rel t

/-- A recorded jump is one of a statement to a branch target. -/
theorem Fact.jump {order : List StmtId} {E : List (StmtId × StmtId)} {rel : Rel} {t : Tuple}
    (h : Fact g c order E rel t) {a b : Datum} (hjump : Jump a b rel t) :
    ∃ id ∈ order, ∃ s target, g.stmt id = .ok s ∧ target ∈ s.targets ∧
      a = token id ∧ b = token target := by
  cases h with
  | stmt hid hs _ hrow =>
    cases hrow <;> cases hjump
    case ifGoto => exact ⟨_, hid, _, _, hs, .head _, rfl, rfl⟩
    case goto => exact ⟨_, hid, _, _, hs, .head _, rfl, rfl⟩
    case tableSwitch => exact ⟨_, hid, _, _, hs, List.mem_append_right _ (.head _), rfl, rfl⟩
    case lookupSwitch => exact ⟨_, hid, _, _, hs, List.mem_append_right _ (.head _), rfl, rfl⟩
  | tableCase hid hs ht =>
    cases hjump
    exact ⟨_, hid, _, _, hs, List.mem_append_left _ (List.mem_of_getElem? ht), rfl, rfl⟩
  | lookupCase hid hs _ ht =>
    cases hjump
    exact ⟨_, hid, _, _, hs, List.mem_append_left _ (List.mem_of_getElem? ht), rfl, rfl⟩
  | definition _ _ _ _ hrow => cases hrow <;> cases hjump
  | type _ _ hrow => cases hrow <;> cases hjump
  | _ => cases hjump

/-- The store records every jump of a statement to a branch target. -/
theorem recordsJump_of_mem_targets {s : Store} (h : extract g c = .ok s) {id target : StmtId}
    {st : Stmt} (hid : Reached g c id) (hst : g.stmt id = .ok st) (ht : target ∈ st.targets) :
    RecordsJump s (token id) (token target) := by
  obtain ⟨order, _, horder, _, hpresents⟩ := exact_of_extract h
  obtain ⟨m, hm⟩ := owned_of_extract h id hid
  have records {rel : Rel} {t : Tuple} (hfact : Fact g c order c.edges rel t)
      (hjump : Jump (token id) (token target) rel t) : RecordsJump s (token id) (token target) :=
    ⟨rel, t, hpresents.mem.mpr hfact, hjump⟩
  have hmem := horder.mem.mpr hid
  cases st with
  | ifGoto condition target' =>
    obtain rfl := List.mem_singleton.mp ht
    exact records (.stmt hmem hst hm .ifGoto) (.ifGoto _)
  | goto target' =>
    obtain rfl := List.mem_singleton.mp ht
    exact records (.stmt hmem hst hm .goto) .goto
  | tableSwitch key low targets default =>
    rcases List.mem_append.mp ht with ht | ht
    · obtain ⟨i, hi⟩ := List.mem_iff_getElem?.mp ht
      exact records (.tableCase hmem hst hi) (.tableCase _)
    · obtain rfl := List.mem_singleton.mp ht
      exact records (.stmt hmem hst hm .tableSwitch) (.tableSwitch _)
  | lookupSwitch key labels targets default =>
    rcases List.mem_append.mp ht with ht | ht
    · obtain ⟨i, hi, rfl⟩ := List.mem_iff_getElem.mp ht
      -- The target has a label, since the switch is even.
      have heven := even_of_extract h id key labels targets default hid hst
      obtain ⟨label, hlabel⟩ : ∃ label, labels[i]? = some label :=
        ⟨_, List.getElem?_eq_getElem (heven ▸ hi)⟩
      exact records (.lookupCase hmem hst hlabel (List.getElem?_eq_getElem hi)) (.lookupCase _)
    · obtain rfl := List.mem_singleton.mp ht
      exact records (.stmt hmem hst hm .lookupSwitch) (.lookupSwitch _)
  | _ => cases ht

/-- The control-flow rows of a store have all jumps that it records; the others are falls within
bodies. -/
structure Explained (g : Arena) (bodies : List (MethodId × List StmtId)) (s : Store) : Prop where
  jump : ∀ a b, RecordsJump s a b → [a, b] ∈ (s.relation Rel.controlFlowEdge.name).tuples
  fall : ∀ t ∈ (s.relation Rel.controlFlowEdge.name).tuples, ∃ source target : StmtId,
    t = [token source, token target] ∧ (RecordsJump s (token source) (token target) ∨
      ∃ b ∈ bodies, ∃ i, FallsTo g b.2 i (source, target))

theorem explained_of_extract {bodies : List (MethodId × List StmtId)} (hc : Registers g bodies c)
    {s : Store} (h : extract g c = .ok s) : Explained g bodies s := by
  obtain ⟨order, _, horder, _, hpresents⟩ := exact_of_extract h
  refine ⟨?_, ?_⟩
  · rintro a b ⟨rel, t, ht, hjump⟩
    obtain ⟨id, hid, st, target, hst, htarget, rfl, rfl⟩ := (hpresents.mem.mp ht).jump hjump
    -- The statement of the jump has an owner, so it stands in a body, which adds the edge.
    obtain ⟨m, hm⟩ := owned_of_extract h id (horder.mem.mp hid)
    obtain ⟨b, hb, hmem⟩ := hc.exists_body hm
    obtain ⟨i, hi⟩ := List.mem_iff_getElem?.mp hmem
    have hedge : (id, target) ∈ c.edges :=
      hc.mem_edges.mpr ⟨b, hb, i, .inr ⟨hi, st, hst, htarget⟩⟩
    exact hpresents.mem.mpr (.edge hedge)
  · intro t ht
    obtain ⟨⟨source, target⟩, he, rfl⟩ := (hpresents.mem.mp ht).tells
    refine ⟨source, target, rfl, ?_⟩
    obtain ⟨b, hb, i, hfalls | ⟨_, st, hst, htarget⟩⟩ := hc.mem_edges.mp he
    · exact .inr ⟨b, hb, i, hfalls⟩
    · exact .inl (recordsJump_of_mem_targets h (.node (c.ends_mem _ he).1) hst htarget)

/-- A graph that is made of bodies is described by them, and so are the control-flow rows of its
store.  The registration of a body fails only if its method or a statement does not resolve; then
the graph stays as it is, or has the edges before the first such statement. -/
theorem body_registration (g : Arena) :
    (∀ bodies c, Registers g bodies c →
      Describes g bodies c ∧ ∀ s, extract g c = .ok s → Explained g bodies s) ∧
    ∀ (c : FlowGraph) (m : MethodId) (body : List StmtId),
      (∀ fault, g.method m = .error fault → c.addBody g m body = (.error fault, c)) ∧
      ∀ method, g.method m = .ok method →
        ((∀ id ∈ body, ∃ s, g.stmt id = .ok s) →
          ∃ c', c.addBody g m body = (.ok (), c') ∧ Added g m body body.length c c') ∧
        ∀ k id fault, (∀ j ∈ body.take k, ∃ s, g.stmt j = .ok s) → body[k]? = some id →
          g.stmt id = .error fault →
            ∃ c', c.addBody g m body = (.error fault, c') ∧ Added g m body k c c' := by
  refine ⟨fun bodies c hc => ⟨hc.describes, fun s hs => explained_of_extract hc hs⟩,
    fun c m body => ⟨fun fault hm => by rw [FlowGraph.addBody, hm], fun method hm =>
      ⟨fun hbody => addBody_eq_ok hm hbody c,
        fun _ _ _ hbefore hk hid => addBody_eq_error hm hbefore hk hid c⟩⟩⟩

/-- The loop, registered as a body, has a fall and a jump; with a token in between that is no
statement, only the fall to that token is there. -/
theorem body_registration_loop :
    (∃ s, extract loop loopFlow = .ok s ∧ Describes loop [(⟨1⟩, [⟨4⟩, ⟨5⟩])] loopFlow ∧
      Explained loop [(⟨1⟩, [⟨4⟩, ⟨5⟩])] s) ∧
    ∃ c', FlowGraph.empty.addBody loop ⟨1⟩ [⟨4⟩, ⟨2⟩, ⟨5⟩] =
        (.error (.wrongKind ⟨2⟩ .stmt .value), c') ∧
      Added loop ⟨1⟩ [⟨4⟩, ⟨2⟩, ⟨5⟩] 1 .empty c' := by
  obtain ⟨hbodies, hcalls⟩ := body_registration loop
  obtain ⟨s, hs⟩ := exists_extract_loop
  have hadd : FlowGraph.empty.addBody loop ⟨1⟩ [⟨4⟩, ⟨5⟩] = (.ok (), loopFlow) := by
    decide +kernel
  obtain ⟨hdescribes, hexplained⟩ := hbodies [(⟨1⟩, [⟨4⟩, ⟨5⟩])] loopFlow (.body .none hadd)
  refine ⟨⟨s, hs, hdescribes, hexplained s hs⟩, ?_⟩
  have hbefore : ∀ j ∈ [⟨4⟩, ⟨2⟩, ⟨5⟩].take 1, ∃ s, loop.stmt j = .ok s := by
    simpa using ⟨_, rfl⟩
  exact ((hcalls .empty ⟨1⟩ [⟨4⟩, ⟨2⟩, ⟨5⟩]).2 _ rfl).2 1 ⟨2⟩ _ hbefore rfl rfl

end Extraction

end ProgramFacts
