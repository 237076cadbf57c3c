import ProgramFacts.Proofs.Endurance
import ProgramFacts.Proofs.MinimalDelta
import ProgramFacts.Proofs.Succession

/-! What no mutation touches, whatever its rules give: the types, methods and fields of a program,
and its statements but for their value operands.  Statements thus lead to the same statements all
along a session, so the relations that are about these alone have no changes. -/

namespace ProgramFacts

open Program ProgramFacts.Flow ProgramFacts.Fact ProgramFacts.Random Extraction

/-! ## The frame of a program -/

namespace Program

/-- What a mutation keeps of a node: all but its operands, unless it is a value. -/
def Node.frame : Node → Option Node
  | .value _ => none
  | n => some n.skeleton

@[simp] theorem Node.frame_setOperand (n : Node) (i : Nat) (v : ValueId) :
    (n.setOperand i v).frame = n.frame := by
  cases n with
  | stmt s => exact congrArg some (skeleton_mapOperands _ (.stmt s))
  | _ => rfl

namespace Arena

variable {g g' : Arena}

/-- What a mutation keeps of the node that a token resolves to. -/
def frame (g : Arena) (id : NodeId) : Option Node := (g.node? id).bind Node.frame

theorem frame_put {id : NodeId} {n n' : Node} (hn : g.node? id = some n) (h : n'.frame = n.frame) :
    (g.put id n').frame = g.frame := by
  funext other
  unfold frame
  by_cases hid : other = id
  · subst hid
    rw [node?_put_same (index_lt_of_node? hn), hn]
    exact h
  · rw [node?_put_ne hid]

theorem frame_alloc (v : Value) : (g.alloc (.value v)).2.frame = g.frame := by
  funext id
  unfold frame
  by_cases hid : id.index = g.size
  · have hold : g.node? id = none := Array.getElem?_eq_none (Nat.le_of_eq hid.symm)
    have hnew : (g.alloc (.value v)).2.node? id = some (.value v) := by
      unfold node?
      rw [hid]
      exact Array.getElem?_push_size
    rw [hold, hnew]
    rfl
  · rw [node?_alloc_ne hid]

end Arena

end Program

namespace Mutation

theorem Stored.frame_eq {g g' : Arena} (h : Stored g g') : g'.frame = g.frame := by
  cases h with
  | unchanged => rfl
  | overwritten hx => exact Arena.frame_put (Arena.value_eq_ok.mp hx) rfl
  | allocated => exact Arena.frame_alloc _
  | rewired hn => exact (Arena.frame_put hn (Node.frame_setOperand ..)).trans (Arena.frame_alloc _)

end Mutation

namespace Extraction

variable {g g' : Arena} {c : FlowGraph}

/-- Types, methods and fields are the same in both programs, and the statements are but for their
operands: they have the same variants, targets, lows and labels. -/
structure Steady (g g' : Arena) : Prop where
  entity : ∀ {id n}, n.kind ≠ .stmt → n.kind ≠ .value →
    (g'.node? id = some n ↔ g.node? id = some n)
  stmt : ∀ {id s}, g.stmt id = .ok s → ∃ f, g'.stmt id = .ok (s.mapOperands f)
  old : ∀ {id s'}, g'.stmt id = .ok s' → ∃ f s, g.stmt id = .ok s ∧ s' = s.mapOperands f

/-- Other nodes than statements and values are their own frames. -/
theorem frame_eq_some_iff {id : NodeId} {n : Node} (hstmt : n.kind ≠ .stmt)
    (hvalue : n.kind ≠ .value) : g.frame id = some n ↔ g.node? id = some n := by
  unfold Arena.frame
  cases hn : g.node? id with
  | none => simp
  | some k =>
    cases k <;> cases n <;>
      simp_all [Node.frame, Node.skeleton, Node.mapOperands, Node.kind]

/-- A statement has one of the same frame in a program of the same frame. -/
theorem exists_stmt_of_frame (h : g'.frame = g.frame) {id : StmtId} {s : Stmt}
    (hs : g.stmt id = .ok s) : ∃ f, g'.stmt id = .ok (s.mapOperands f) := by
  have hframe : (g'.node? id).bind Node.frame = some (Node.stmt s).skeleton := by
    have := congrFun h id
    unfold Arena.frame at this
    rw [this, Arena.stmt_eq_ok.mp hs]
    rfl
  obtain ⟨n, hn, hskeleton⟩ := Option.bind_eq_some_iff.mp hframe
  cases n with
  | value v => contradiction
  | stmt s' =>
    have hmap := Node.eq_mapOperands_of_skeleton (Option.some.inj hskeleton)
    exact ⟨_, Arena.stmt_eq_ok.mpr (hn.trans (congrArg some hmap))⟩
  | _ => simp [Node.frame, Node.skeleton, Node.mapOperands] at hskeleton

theorem steady_of_frame (h : g'.frame = g.frame) : Steady g g' where
  entity hstmt hvalue := by
    rw [← frame_eq_some_iff hstmt hvalue, ← frame_eq_some_iff hstmt hvalue, h]
  stmt hs := exists_stmt_of_frame h hs
  old hs := by
    obtain ⟨f, hold⟩ := exists_stmt_of_frame h.symm hs
    obtain ⟨f', hnew⟩ := exists_stmt_of_frame h hold
    exact ⟨f', _, hold, Except.ok.inj (hs.symm.trans hnew)⟩

/-! ## The relations of the frame -/

/-- The relations about statements, their owners and where control goes, without a value. -/
def control : List Rel :=
  [.unit, .methodOfUnit, .controlFlowEdge, .goto, .returnVoid, .tableSwitchCases,
    .lookupSwitchCases]

theorem Steady.reached (h : Steady g g') {id : StmtId} (hid : Reached g c id) :
    Reached g' c id := by
  induction hid with
  | node hid => exact .node hid
  | target _ hs ht ih =>
    obtain ⟨f, hs'⟩ := h.stmt hs
    exact .target ih hs' (by rwa [Stmt.targets_mapOperands])

theorem Steady.reached_iff (h : Steady g g') {id : StmtId} : Reached g c id ↔ Reached g' c id := by
  refine ⟨h.reached, fun hid => ?_⟩
  induction hid with
  | node hid => exact .node hid
  | target _ hs ht ih =>
    obtain ⟨f, s, hold, rfl⟩ := h.old hs
    rw [Stmt.targets_mapOperands] at ht
    exact .target ih hold ht

/-- The facts of the frame do not depend on the order of the statements, and no value counts. -/
theorem Steady.fact (h : Steady g g') {order order' : List StmtId}
    (horder : ∀ id, id ∈ order → id ∈ order') {E : List (StmtId × StmtId)} {rel : Rel} {t : Tuple}
    (hrel : rel ∈ control) (ht : Fact g c order E rel t) : Fact g' c order' E rel t := by
  cases ht with
  | unit hid => exact .unit (horder _ hid)
  | methodOfUnit hid hm => exact .methodOfUnit (horder _ hid) hm
  | stmt hid hs hm hrow =>
    obtain ⟨f, hs'⟩ := h.stmt hs
    cases hrow with
    | goto => exact .stmt (horder _ hid) hs' hm .goto
    | returnVoid => exact .stmt (horder _ hid) hs' hm .returnVoid
    | _ => simp [control] at hrel
  | tableCase hid hs ht =>
    obtain ⟨f, hs'⟩ := h.stmt hs
    exact .tableCase (horder _ hid) hs' ht
  | lookupCase hid hs hl ht =>
    obtain ⟨f, hs'⟩ := h.stmt hs
    exact .lookupCase (horder _ hid) hs' hl ht
  | edge he => exact .edge he
  | definition _ _ _ _ hrow => cases hrow <;> simp [control] at hrel
  | type _ _ hrow => cases hrow <;> simp [control] at hrel
  | _ => simp [control] at hrel

/-- Facts of programs with the same frame differ in no relation of the frame. -/
theorem tuples_eq_of_frame (h : g'.frame = g.frame) {s s' : Store} (hs : extract g c = .ok s)
    (hs' : extract g' c = .ok s') {rel : Rel} (hrel : rel ∈ control) :
    (s.relation rel.name).tuples = (s'.relation rel.name).tuples := by
  obtain ⟨order, _, horder, _, hpresents⟩ := exact_of_extract hs
  obtain ⟨order', _, horder', _, hpresents'⟩ := exact_of_extract hs'
  have hsteady := steady_of_frame h
  have hmem (id : StmtId) : id ∈ order ↔ id ∈ order' := by
    rw [horder.mem, hsteady.reached_iff, ← horder'.mem]
  refine Std.ExtTreeSet.ext_mem fun t => ?_
  rw [hpresents.mem, hpresents'.mem]
  exact ⟨hsteady.fact (fun id => (hmem id).mp) hrel,
    (steady_of_frame h.symm).fact (fun id => (hmem id).mpr) hrel⟩

end Extraction

/-! ## Sessions -/

namespace Session

open Mutation

variable {σ : Type} {u : Setup σ} {g : Arena}

theorem frame_programAt {k : Nat} {gk : Arena} {r : Generator}
    (hk : programAt u g k = some (gk, r)) : gk.frame = g.frame := by
  induction k generalizing gk r with
  | zero =>
    obtain ⟨rfl, _⟩ := Prod.mk.inj (Option.some.inj hk)
    rfl
  | succ k ih =>
    obtain ⟨before, r', m, hbefore, _, rfl, _⟩ := programAt_succ.mp hk
    exact (stored_mutate u.mutator r').frame_eq.trans (ih hbefore)

/-- The program that a session leaves is what its mutations, which may also fail, make of the first
one. -/
theorem Advanced.frame_eq {s s' : State σ} {result : Except Failure Bool}
    (h : Advanced u s result s') : s'.arena.frame = s.arena.frame := by
  cases h <;> exact (stored_mutate ..).frame_eq

theorem Iterated.frame_eq {left i : Nat} {s s' : State σ}
    {result : Except Failure (Nat × Termination)} (h : Iterated u left i s result s') :
    s'.arena.frame = s.arena.frame := by
  induction h with
  | fault ho | last ho => rw [ho.arena_eq]
  | stuck ho ha | exhausted ho ha => rw [ha.frame_eq, ho.arena_eq]
  | next ho ha _ ih => rw [ih, ha.frame_eq, ho.arena_eq]

theorem frame_run (u : Setup σ) (g : Arena) (sink : σ) : (run u g sink).arena.frame = g.frame := by
  have hran := ran_session u (.initial u.config g sink)
  rw [run_eq]
  generalize exec (session u) (.initial u.config g sink) = ended at hran ⊢
  obtain ⟨result, s⟩ := ended
  have hstart {mid : State σ} {answer : Except Failure Unit}
      (hused : Used u.config.persistenceFailure (u.sink.reset sink) (.initial u.config g sink)
        answer mid) : mid.arena = g := hused.kept.2.1
  cases hran with
  | unready hused => exact congrArg Arena.frame (hstart hused)
  | fault hused hiterated => exact hstart hused ▸ hiterated.frame_eq
  | ended hused hiterated => exact hstart hused ▸ hiterated.frame_eq

/-- Two programs in a row have the same relations of the frame. -/
theorem Leads.get?_eq_none {ds : List (Nat × Delta)} {k : Nat} {d : Delta}
    (hbefore : Leads u g ds k) (h : Leads u g ds (k + 1)) (hd : ds[k + 1]? = some (k + 1, d))
    {rel : Rel} (hrel : rel ∈ control) : d.get? rel.name = none := by
  obtain ⟨previous, hprevious, _⟩ := hbefore
  obtain ⟨current, hcurrent, hd'⟩ := h
  obtain ⟨_, rfl⟩ := Prod.mk.inj (Option.some.inj (hd.symm.trans hd'))
  obtain ⟨gk, r, hk, hfacts⟩ := factsAt_eq_some.mp hprevious
  obtain ⟨gk', r', hk', hfacts'⟩ := factsAt_eq_some.mp hcurrent
  have hframe : gk'.frame = gk.frame := (frame_programAt hk').trans (frame_programAt hk).symm
  have hsame := tuples_eq_of_frame hframe hfacts hfacts' hrel
  rw [factsBefore, hprevious, Delta.get?_between]
  exact if_pos (RelationDelta.isEmpty_between.mpr hsame)

/-- A session over `loop` that may mutate once. -/
def once : Setup Unit :=
  .builtIn { iterationBudget := 1, identityPolicy := .preserve } loopFlow refusing

theorem iterations_once :
    ∃ report, (run once loop ()).report = .ok report ∧ report.iterations = 2 := by
  have hsize : (run once loop ()).arena.size < UInt32.size :=
    Nat.lt_of_le_of_lt (size_run_le ..) (by decide)
  obtain ⟨report, hreport⟩ := exists_report wellFormed_loop acyclicTypes_loop (by decide) hsize
  refine ⟨report, hreport, ?_⟩
  have hran := ran_session once (.initial once.config loop ())
  have hbudget : once.config.iterationBudget.toNat = 1 := rfl
  have hended : (exec (session once) (.initial once.config loop ())).1 = .ok report := hreport
  generalize exec (session once) (.initial once.config loop ()) = ended at hran hended
  obtain ⟨result, s⟩ := ended
  obtain rfl : result = .ok report := hended
  cases hran with
  | ended hused hiterated =>
    rw [hbudget] at hiterated
    cases hiterated with
    | @exhausted _ _ _ mid _ hobserved hadvanced =>
      -- the rule for constants applies in the first program
      have hmid : mid.arena = loop := hobserved.arena_eq.trans hused.kept.2.1
      cases hadvanced with
      | exhausted hresult =>
        rw [hmid] at hresult
        exact absurd ((result_loop _).symm.trans hresult) (by simp)
    | next _ _ hlast =>
      cases hlast
      rfl

end Session

end ProgramFacts
