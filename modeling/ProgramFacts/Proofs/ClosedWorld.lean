import ProgramFacts.Proofs.Tokens

/-! Which nodes the tokens of an extracted store stand for.  None of them dangles, but a type,
method or field that was met before under another kind is not looked up again, so its token may
stand in a column of the wrong kind. -/

namespace ProgramFacts.Extraction

open Program ProgramFacts.Fact ProgramFacts.Flow

variable {g : Arena} {c : FlowGraph}

/-- The kind of node that a relation defines: its rows start with the token of the node. -/
def Rel.defines : Rel → Option NodeKind
  | .unit => some .stmt
  | .value => some .value
  | .method => some .method
  | .field => some .field
  | .referenceType | .primType _ | .voidType | .arrayType => some .type
  | _ => none

/-- A token has a definition row as a node of the kind. -/
def Defined (s : Store) (kind : NodeKind) (id : NodeId) : Prop :=
  ∃ (rel : Rel) (rest : Tuple), rel.defines = some kind ∧
    token id :: rest ∈ (s.relation rel.name).tuples

/-- Every relation is one of the encoding, and every entry of a token column is the token of a node
of which `Q` holds. -/
def EveryToken (g : Arena) (s : Store) (Q : NodeKind → NodeId → Node → Prop) : Prop :=
  ∀ name r, s.relation? name = some r → ∃ rel : Rel, rel.name = name ∧
    ∀ t ∈ r.tuples, ∀ e ∈ Row.tokens ⟨rel, t⟩,
      ∃ id n, e.2 = token id ∧ g.node? id = some n ∧ Q e.1 id n

/-- Every token is of its column's kind and has a definition row. -/
def ClosedWorld (g : Arena) (s : Store) : Prop :=
  EveryToken g s fun kind id n => n.kind = kind ∧ Defined s kind id

/-- Every token has a definition row of its own kind, which is its column's in the columns of
statements and values. -/
def Grounded (g : Arena) (s : Store) : Prop :=
  EveryToken g s fun kind id n =>
    Defined s n.kind id ∧ (kind = .stmt ∨ kind = .value → n.kind = kind)

/-- No token of a node that is defined once stands in places of two kinds. -/
def Unambiguous (g : Arena) (c : FlowGraph) : Prop :=
  ∀ p q n, Met g c (Reached g c) p → Met g c (Reached g c) q → p.id = q.id → Resolves g p n →
    once n = true → q.kind = p.kind

/-! ## Where tokens lead to -/

section Extracted

variable {s : Store} {order : List StmtId} {a : Gathered} (horder : Order g c order)
  (hexact : Exact g c order c.edges a) (hpresents : Presents s (Fact g c order c.edges))
include horder hexact hpresents

omit hexact in
theorem everyToken_of_known {Q : NodeKind → NodeId → Node → Prop}
    (h : ∀ e, Known g c e → ∃ id n, e.2 = token id ∧ g.node? id = some n ∧ Q e.1 id n) :
    EveryToken g s Q := by
  intro name r hr
  obtain ⟨rel, rfl, _⟩ := hpresents.relation hr
  refine ⟨rel, rfl, fun t ht e he => h e ?_⟩
  rw [← Store.relation_of_relation? hr, hpresents.mem] at ht
  exact ht.known horder e he

theorem defined_stmt {id : StmtId} (hid : Reached g c id) :
    ∃ x, g.node? id = some (.stmt x) ∧ Defined s .stmt id := by
  have hmem := horder.mem.mpr hid
  obtain ⟨x, _, he⟩ := hexact.emitted id hmem
  exact ⟨x, Arena.stmt_eq_ok.mp he.stmt, .unit, [], rfl, hpresents.mem.mpr (.unit hmem)⟩

omit hexact in
theorem defined_of_resolves {p : Part} {n : Node} (hp : Met g c (Reached g c) p)
    (hn : Resolves g p n) : Defined s n.kind p.id := by
  have hmet : Met g c (· ∈ order) p := hp.mono fun _ => horder.mem.mpr
  rw [hn.2]
  cases p with
  | value v =>
    obtain ⟨id, hid, hv⟩ := hmet.mentions
    exact ⟨.value, [], rfl, hpresents.mem.mpr (.value hid hv)⟩
  | type id =>
    cases n <;> cases hn.2
    rename_i t
    refine ⟨.ofTy t, typeColumns t, ?_, hpresents.mem.mpr ?_⟩
    · cases t <;> rfl
    · exact .type hmet (Arena.type_eq_ok.mpr hn.1) (typeRow_iff.mpr rfl)
  | method id =>
    cases n <;> cases hn.2
    exact ⟨.method, _, rfl, hpresents.mem.mpr (.method hmet (Arena.method_eq_ok.mpr hn.1))⟩
  | field id =>
    cases n <;> cases hn.2
    exact ⟨.field, _, rfl, hpresents.mem.mpr (.field hmet (Arena.field_eq_ok.mpr hn.1))⟩

omit hpresents in
/-- The token of a part resolves to the part's kind, or it is the token of another part, which does,
and whose node is defined once. -/
theorem resolves_or_shared {p : Part} (hp : Met g c (Reached g c) p) :
    (∃ n, Resolves g p n) ∨ p.kind ≠ .value ∧
      ∃ q n, Met g c (Reached g c) q ∧ Resolves g q n ∧ once n = true ∧ q.id = p.id := by
  have hmarked := hexact.marked (hp.mono fun _ => horder.mem.mpr)
  by_cases hk : p.kind = .value
  · obtain ⟨m, x, hx⟩ := hmarked.2 hk
    exact .inl ⟨.value x, Arena.value_eq_ok.mp hx.value, hk.symm⟩
  · obtain ⟨q, n, hq, hn, honce, hid⟩ := hexact.seen p.id (hmarked.1 hk)
    exact .inr ⟨hk, q, n, hq.mono fun _ => horder.mem.mp, hn, honce, hid⟩

theorem grounded : Grounded g s := by
  refine everyToken_of_known horder hpresents ?_
  rintro _ (@⟨id, hid⟩ | @⟨p, hp⟩)
  · obtain ⟨x, hx, hdefined⟩ := defined_stmt horder hexact hpresents hid
    exact ⟨id, .stmt x, rfl, hx, hdefined, fun _ => rfl⟩
  · rcases resolves_or_shared horder hexact hp with ⟨n, hn⟩ | ⟨hk, q, n, hq, hn, _, hid⟩
    · exact ⟨p.id, n, rfl, hn.1, defined_of_resolves horder hpresents hp hn, fun _ => hn.2⟩
    · refine ⟨p.id, n, rfl, hid ▸ hn.1, hid ▸ defined_of_resolves horder hpresents hq hn, ?_⟩
      rintro (h | h)
      · cases p <;> contradiction
      · exact absurd h hk

omit hpresents in
theorem wellKinded_of_unambiguous (h : Unambiguous g c) : WellKinded g c where
  stmt hid := by
    obtain ⟨x, _, he⟩ := hexact.emitted _ (horder.mem.mpr hid)
    exact ⟨x, he.stmt⟩
  part {p} hp := by
    rcases resolves_or_shared horder hexact hp with hn | ⟨_, q, n, hq, hn, honce, hid⟩
    · exact hn
    · exact ⟨n, hid ▸ hn.1, hn.2.trans (h q p n hq hp hid hn honce).symm⟩

theorem closedWorld_of_wellKinded (h : WellKinded g c) : ClosedWorld g s := by
  refine everyToken_of_known horder hpresents ?_
  rintro _ (@⟨id, hid⟩ | @⟨p, hp⟩)
  · obtain ⟨x, hx, hdefined⟩ := defined_stmt horder hexact hpresents hid
    exact ⟨id, .stmt x, rfl, hx, rfl, hdefined⟩
  · obtain ⟨n, hn⟩ := h.part hp
    exact ⟨p.id, n, rfl, hn.1, hn.2, hn.2 ▸ defined_of_resolves horder hpresents hp hn⟩

omit hexact in
theorem unambiguous_of_closedWorld (howned : Owned c (Reached g c)) (h : ClosedWorld g s) :
    Unambiguous g c := by
  intro p q n _ hq hid hn _
  obtain ⟨rel, t, hfact, he⟩ := exists_fact_of_met horder howned hq
  have hmem := hpresents.mem.mpr hfact
  cases hr : s.relation? rel.name with
  | none => simp [Store.relation, hr, Relation.empty] at hmem
  | some r =>
    rw [Store.relation_of_relation? hr] at hmem
    obtain ⟨rel', hname, hall⟩ := h _ r hr
    obtain rfl := Rel.name_injective hname
    obtain ⟨id, n', htoken, hn', hkind, _⟩ := hall t hmem _ he
    obtain rfl := token_injective htoken
    obtain rfl : n = n' := Option.some.inj (hn.1.symm.trans (hid ▸ hn'))
    exact hkind.symm.trans hn.2

end Extracted

/-! ## Programs with tokens that do not fit -/

theorem unhandled_of_resolve_error {α : Type} {expected : NodeKind} {content : Node → Option α}
    {id : NodeId} {fault : Fault} (h : g.resolve expected content id = .error fault) :
    Failure.ofFault fault = .unhandled id ((g.node? id).map Node.kind) := by
  unfold Arena.resolve at h
  cases hn : g.node? id with
  | none =>
    rw [hn] at h
    obtain rfl := Except.error.inj h
    rfl
  | some n =>
    simp only [hn] at h
    split at h
    · contradiction
    · obtain rfl := Except.error.inj h
      rfl

theorem unhandled_of_partNode_error {p : Part} {fault : Fault} (h : partNode g p = .error fault) :
    Failure.ofFault fault = .unhandled p.id ((g.node? p.id).map Node.kind) := by
  have map_eq_error {α : Type} {r : Except Fault α} {inject : α → Node}
      (h : r.map inject = .error fault) : r = .error fault := by
    cases r with
    | error fault' => exact congrArg _ (Except.error.inj h)
    | ok x => contradiction
  cases p <;> exact unhandled_of_resolve_error (map_eq_error h)

/-- What blocks a program with owners and even switches is reported as unhandled. -/
theorem unhandled_of_blocked (howned : Owned c (Reached g c)) (heven : Even g (Reached g c))
    {fault : Fault} (h : Blocked g c (Reached g c) fault) :
    ∃ id, Failure.ofFault fault = .unhandled id ((g.node? id).map Node.kind) := by
  rcases h.token howned heven with ⟨id, _, hs⟩ | ⟨p, _, hp⟩
  · exact ⟨id, unhandled_of_resolve_error hs⟩
  · exact ⟨p.id, unhandled_of_partNode_error hp⟩

/-- The closed world: when extraction succeeds, every token stands for a node that has its own
definition row, and all of them are of their columns' kinds exactly if no token of a node that is
defined once stands in places of two kinds.  In programs without such tokens, a token that does not
fit ends the extraction, whatever was gathered before. -/
theorem closed_world (hacyclic : Acyclic g (Met g c (Reached g c))) :
    (∀ s, extract g c = .ok s → Grounded g s ∧ (ClosedWorld g s ↔ Unambiguous g c)) ∧
      (Unambiguous g c → Owned c (Reached g c) → Even g (Reached g c) → ¬WellKinded g c →
        ∃ id, extract g c = .error (.unhandled id ((g.node? id).map Node.kind))) := by
  refine ⟨fun s hs => ?_, fun hunambiguous howned heven hkinds => ?_⟩
  · obtain ⟨order, a, horder, hexact, hpresents⟩ := exact_of_extract hs
    refine ⟨grounded horder hexact hpresents, fun h => ?_, fun h => ?_⟩
    · exact unambiguous_of_closedWorld horder hpresents (owned_of_extract hs) h
    · exact closedWorld_of_wellKinded horder hexact hpresents
        (wellKinded_of_unambiguous horder hexact h)
  · cases h : extract g c with
    | ok s =>
      obtain ⟨order, a, horder, hexact, _⟩ := exact_of_extract h
      exact absurd (wellKinded_of_unambiguous horder hexact hunambiguous) hkinds
    | error failure =>
      obtain ⟨stop, hstop, rfl⟩ := extract_eq_error.mp h
      obtain ⟨id, hid⟩ := unhandled_of_blocked howned heven (blocked_of_pass_error hacyclic hstop)
      exact ⟨id, congrArg _ hid⟩

/-- A variable whose type is the variable itself, in a program that is otherwise well-kinded. -/
def selfTyped : Arena :=
  ⟨#[.type .void, .method ⟨"run", "A", true, ⟨0⟩, []⟩, .value (.localVar "x" ⟨2⟩),
    .stmt (.returnValue ⟨2⟩)]⟩

/-- The control flow of `selfTyped`. -/
def selfTypedFlow : FlowGraph := (FlowGraph.empty.insertNode ⟨3⟩).setOwner ⟨3⟩ ⟨1⟩

theorem exists_extract_selfTyped : ∃ s, extract selfTyped selfTypedFlow = .ok s := by
  obtain ⟨p, hp⟩ :
      ∃ p, emitStmt selfTyped selfTypedFlow ⟨3⟩ ⟨[], .empty⟩ = .ok ([], p) := ⟨_, rfl⟩
  exact exists_extract_of_pass (pass_of_emitStmt rfl hp)

/-- The token of the variable stands in the column of its type, and extraction succeeds. -/
theorem not_closedWorld_selfTyped : ∃ s, extract selfTyped selfTypedFlow = .ok s ∧
    Grounded selfTyped s ∧ ¬ClosedWorld selfTyped s := by
  obtain ⟨s, hs⟩ := exists_extract_selfTyped
  obtain ⟨hgrounded, hiff⟩ := (closed_world (acyclic_of_valuesEarlier rfl _)).1 s hs
  refine ⟨s, hs, hgrounded, fun h => ?_⟩
  have hreached : Reached selfTyped selfTypedFlow ⟨3⟩ := .node (.head _)
  have hvalue : Met selfTyped selfTypedFlow (Reached selfTyped selfTypedFlow) (.value ⟨2⟩) :=
    .value hreached (.top (s := .returnValue ⟨2⟩) rfl (.head _))
  have hnode : Resolves selfTyped (.value ⟨2⟩) (.value (.localVar "x" ⟨2⟩)) := ⟨rfl, rfl⟩
  have hkind := hiff.mp h (.value ⟨2⟩) (.type ⟨2⟩) _ hvalue (.ref hvalue hnode (.head _)) rfl hnode
    rfl
  contradiction

end ProgramFacts.Extraction
