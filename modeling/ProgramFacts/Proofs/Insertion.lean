import ProgramFacts.Proofs.Presentation
import ProgramFacts.Proofs.Unfolding

/-! A pass that inserts every row as soon as it has it, and would end with the first one that does
not fit its relation, even if a fault of the program came after that.  Every row that a node has
fits, so this does not happen, however the pass ends: it gives what `extract` gives, which inserts
the rows of a pass when the pass is over. -/

namespace ProgramFacts.Extraction

open Program ProgramFacts.Fact ProgramFacts.Flow

/-! ## Every row of a node fits -/

theorem listRows_fit {rel : Rel}
    (hrel : rel.columns.map Column.type = [.integer, .integer, .integer]) (owner : NodeId)
    (entries : List NodeId) : ∀ r ∈ listRows rel owner entries, r.Fits := by
  intro r hr
  obtain ⟨i, entry, _, rfl⟩ := mem_listRows.mp hr
  exact hrel.symm

theorem caseRows_fit (id : StmtId) (s : Stmt) : ∀ r ∈ caseRows id s, r.Fits := by
  intro r hr
  cases s with
  | tableSwitch =>
    obtain ⟨_, _, _, rfl⟩ := mem_tableCases.mp hr
    rfl
  | lookupSwitch =>
    obtain ⟨_, _, _, _, _, rfl⟩ := mem_lookupCases.mp hr
    rfl
  | _ => simp [caseRows] at hr

theorem stmtRows_fit (id : StmtId) (owner : MethodId) (s : Stmt) :
    ∀ r ∈ stmtRows id owner s, r.Fits := by
  simp only [stmtRows, List.forall_mem_cons]
  exact ⟨rfl, rfl, stmt_fits id owner s, caseRows_fit id s⟩

theorem valueListRows_fit (id : ValueId) (owner : MethodId) (v : Value) :
    ∀ r ∈ valueListRows id owner v, r.Fits := by
  cases v with
  | localVar => exact List.forall_mem_singleton.mpr rfl
  | instanceInvoke | staticInvoke | newMultiArray => exact listRows_fit rfl _ _
  | _ => exact fun _ hr => absurd hr List.not_mem_nil

/-- Every row that defines a node fits. -/
theorem nodeRows_fit (id : NodeId) (owner : MethodId) (n : Node) :
    ∀ r ∈ nodeRows id owner n, r.Fits := by
  cases n with
  | stmt s => exact fun _ hr => absurd hr List.not_mem_nil
  | value v => exact List.forall_mem_cons.mpr ⟨value_fits id owner v, valueListRows_fit id owner v⟩
  | type t => exact List.forall_mem_singleton.mpr (type_fits id t)
  | method m => exact List.forall_mem_cons.mpr ⟨rfl, listRows_fit rfl _ _⟩
  | field f => exact List.forall_mem_singleton.mpr rfl

theorem occurrenceRows_fit (id : NodeId) (n : Node) : ∀ r ∈ occurrenceRows id n, r.Fits := by
  cases n with
  | value v => exact List.forall_mem_singleton.mpr rfl
  | _ => exact fun _ hr => absurd hr List.not_mem_nil

theorem edgeRows_fit (source : StmtId) (targets : List StmtId) :
    ∀ r ∈ targets.map (edgeRow source), r.Fits := by
  intro r hr
  obtain ⟨target, _, rfl⟩ := List.mem_map.mp hr
  rfl

/-! ## A pass that inserts its rows at once -/

/-- What such a pass has come to: the store, and the nodes that are defined once and are defined
already. -/
structure Filled where
  store : Store
  seen : List NodeId

namespace Filled

def empty : Filled := ⟨.empty, []⟩

/-- Inserts rows, unless one of them does not fit. -/
def insert (a : Filled) (rows : List Row) : Except Failure Filled :=
  match rows.foldlM insertRow a.store with
  | .ok s => .ok { a with store := s }
  | .error mismatch => .error (.arity mismatch)

end Filled

/-- Inserts the rows of a part and of all that it refers to, at most `depth` deep. -/
def fill (g : Arena) (owner : MethodId) : Nat → Part → Filled → Except Failure Filled
  | 0, p, _ => .error (.ofFault (.cyclic p.id))
  | depth + 1, p, a =>
    if p.kind ≠ .value ∧ p.id ∈ a.seen then .ok a
    else do
      let n ← (partNode g p).mapError .ofFault
      let a ← a.insert (occurrenceRows p.id n)
      if once n = true ∧ p.id ∈ a.seen then return a
      let a ← a.insert (nodeRows p.id owner n)
      (nodeParts owner n).foldlM (fun a q => fill g owner depth q a)
        { a with seen := if once n then p.id :: a.seen else a.seen }

def fillAll (g : Arena) (owner : MethodId) (ps : List Part) (a : Filled) :
    Except Failure Filled :=
  ps.foldlM (fun a p => fill g owner (depthBound g) p a) a

def fillStmt (g : Arena) (c : FlowGraph) (id : StmtId) (s : Stmt) (a : Filled) :
    Except Failure Filled := do
  let owner ← (c.owner id).mapError .ofFault
  let a ← a.insert (stmtRows id owner s)
  let a ← fillAll g owner (.method owner :: s.operands.map .value) a
  (checkCases id s).mapError .ofFault
  fillAll g owner (s.labels.map .value) a

/-- How far such a pass has come: the statements that it has begun, latest first, and the store. -/
structure Filling where
  begun : List StmtId
  filled : Filled

def insertStmt (g : Arena) (c : FlowGraph) (id : StmtId) (p : Filling) :
    Except Failure (List StmtId × Filling) := do
  let s ← (g.stmt id).mapError .ofFault
  let a ← fillStmt g c id s p.filled
  return ((s.targets.filter fun target => !(id :: p.begun).contains target).reverse,
    ⟨id :: p.begun, a⟩)

theorem insertStmt_ok {g : Arena} {c : FlowGraph} {id : StmtId} {p q : Filling}
    {waiting : List StmtId} (h : insertStmt g c id p = .ok (waiting, q)) :
    id.index < g.size ∧ q.begun = id :: p.begun := by
  unfold insertStmt at h
  cases hs : g.stmt id with
  | error fault => simp [hs, Except.mapError, bind, Except.bind] at h
  | ok s =>
    refine ⟨Arena.index_lt_of_resolve hs, ?_⟩
    cases ha : fillStmt g c id s p.filled with
    | error failure => simp [hs, ha, Except.mapError, bind, Except.bind] at h
    | ok a =>
      simp only [hs, ha, Except.mapError, bind, Except.bind, pure, Except.pure] at h
      exact congrArg (fun r => r.2.begun) (Except.ok.inj h).symm

def drainStmts (g : Arena) (c : FlowGraph) (stack : List StmtId) (p : Filling) :
    Except Failure Filling :=
  match stack with
  | [] => .ok p
  | id :: rest =>
    if _hnew : id ∈ p.begun then drainStmts g c rest p
    else
      match _h : insertStmt g c id p with
      | .error failure => .error failure
      | .ok (waiting, q) => drainStmts g c (waiting ++ rest) q
termination_by (unvisited g p.begun, stack.length)
decreasing_by
  · exact Prod.Lex.right _ (by simp)
  · obtain ⟨hid, hq⟩ := insertStmt_ok _h
    exact Prod.Lex.left _ _ (hq ▸ unvisited_cons_lt hid _hnew)

def insertRoot (g : Arena) (c : FlowGraph) (p : Filling) (root : StmtId) :
    Except Failure Filling := do
  let (waiting, p) ← insertStmt g c root p
  let p ← drainStmts g c waiting p
  let a ← p.filled.insert ((c.successors root).map (edgeRow root))
  return { p with filled := a }

/-- The facts of a program, if every row is inserted at once. -/
def extractAtOnce (g : Arena) (c : FlowGraph) : Except Failure Store :=
  (c.nodes.foldlM (insertRoot g c) ⟨[], .empty⟩).map fun p => p.filled.store

/-! ## Both passes end alike -/

/-- The store has the rows that are gathered, all of which fit, and the same nodes are marked. -/
structure Matches (a : Gathered) (b : Filled) : Prop where
  fits : ∀ r ∈ a.rows, r.Fits
  store : collect a.rows.reverse = .ok b.store
  seen : b.seen = a.seen

theorem Matches.insert {a : Gathered} {b : Filled} (h : Matches a b) {rows : List Row}
    (hrows : ∀ r ∈ rows, r.Fits) : ∃ b', b.insert rows = .ok b' ∧ Matches (a.emit rows) b' := by
  have hfits : ∀ r ∈ a.rows.reverse ++ rows, r.Fits :=
    List.forall_mem_append.mpr ⟨fun r hr => h.fits r (List.mem_reverse.mp hr), hrows⟩
  obtain ⟨s, hs, _⟩ := collect_presents hfits
  have hinsert : rows.foldlM insertRow b.store = .ok s := by
    rw [collect, List.foldlM_append, ← collect, h.store] at hs
    exact hs
  refine ⟨{ b with store := s }, by rw [Filled.insert, hinsert], ?_, ?_, h.seen⟩
  · intro r hr
    rcases List.mem_append.mp hr with hr | hr
    · exact hrows r (List.mem_reverse.mp hr)
    · exact h.fits r hr
  · rwa [Gathered.emit, List.reverse_append, List.reverse_reverse]

/-- Both end alike: with a fault, as it is told, or with results that `R` relates. -/
inductive EndAlike {ε α β : Type} (tell : ε → Failure) (R : α → β → Prop) :
    Except ε α → Except Failure β → Prop
  | ok {a : α} {b : β} : R a b → EndAlike tell R (.ok a) (.ok b)
  | error (fault : ε) : EndAlike tell R (.error fault) (.error (tell fault))

namespace EndAlike

variable {ε α β γ δ ι : Type} {tell : ε → Failure} {R : α → β → Prop} {S : γ → δ → Prop}

theorem eq_error {x : Except ε α} {y : Except Failure β} (h : EndAlike tell R x y) {fault : ε}
    (hx : x = .error fault) : y = .error (tell fault) := by
  cases h with
  | ok => contradiction
  | error => rw [Except.error.inj hx]

theorem exists_ok {x : Except ε α} {y : Except Failure β} (h : EndAlike tell R x y) {a : α}
    (hx : x = .ok a) : ∃ b, y = .ok b ∧ R a b := by
  cases h with
  | ok h => exact ⟨_, rfl, Except.ok.inj hx ▸ h⟩
  | error => contradiction

theorem lookUp (r : Except ε α) : EndAlike tell Eq r (r.mapError tell) := by
  cases r with
  | ok a => exact .ok rfl
  | error fault => exact .error fault

theorem bind {x : Except ε α} {y : Except Failure β} (h : EndAlike tell R x y)
    {f : α → Except ε γ} {k : β → Except Failure δ}
    (hf : ∀ a b, R a b → EndAlike tell S (f a) (k b)) : EndAlike tell S (x >>= f) (y >>= k) := by
  cases h with
  | ok h => exact hf _ _ h
  | error fault => exact .error fault

theorem foldlM {f : α → ι → Except ε α} {k : β → ι → Except Failure β}
    (hf : ∀ i a b, R a b → EndAlike tell R (f a i) (k b i)) {is : List ι} {a : α} {b : β}
    (h : R a b) : EndAlike tell R (is.foldlM f a) (is.foldlM k b) := by
  induction is generalizing a b with
  | nil => exact .ok h
  | cons i is ih =>
    rw [List.foldlM_cons, List.foldlM_cons]
    exact (hf i a b h).bind fun _ _ h => ih h

end EndAlike

section Passes

variable {g : Arena} {c : FlowGraph} {owner : MethodId}

theorem Matches.define {a : Gathered} {b : Filled} {id : NodeId} {n : Node}
    (h : Matches ((a.emit (occurrenceRows id n)).emit (nodeRows id owner n)) b) :
    Matches (a.define owner id n) { b with seen := if once n then id :: b.seen else b.seen } := by
  have hseen : b.seen = a.seen := h.seen
  have hrows : (a.define owner id n).rows =
      ((a.emit (occurrenceRows id n)).emit (nodeRows id owner n)).rows := by
    cases n <;> simp [Gathered.define, Gathered.emit, occurrenceRows]
  refine ⟨hrows ▸ h.fits, hrows ▸ h.store, ?_⟩
  simp only [Gathered.define, hseen]

theorem endAlike_fill (depth : Nat) (p : Part) {a : Gathered} {b : Filled} (h : Matches a b) :
    EndAlike .ofFault Matches (visit g owner depth p a) (fill g owner depth p b) := by
  induction depth generalizing p a b with
  | zero => cases p <;> exact .error _
  | succ depth ih =>
    rw [visit_succ, fill, enter, h.seen]
    by_cases hskip : p.kind ≠ .value ∧ p.id ∈ a.seen
    · rw [if_pos hskip, if_pos hskip]
      exact .ok h
    · rw [if_neg hskip, if_neg hskip]
      cases partNode g p with
      | error fault => exact .error fault
      | ok n =>
        obtain ⟨b₁, hb₁, h₁⟩ := h.insert (occurrenceRows_fit p.id n)
        obtain ⟨b₂, hb₂, h₂⟩ := h₁.insert (nodeRows_fit p.id owner n)
        have hseen : b₁.seen = a.seen := h₁.seen
        by_cases hagain : once n = true ∧ p.id ∈ a.seen
        · simp only [Except.mapError, bind, Except.bind, hb₁, hseen, if_pos hagain]
          exact .ok h₁
        · simp only [Except.mapError, bind, Except.bind, hb₁, hb₂, hseen, if_neg hagain]
          exact .foldlM (fun q _ _ h => ih q h) h₂.define

theorem endAlike_fillAll (ps : List Part) {a : Gathered} {b : Filled} (h : Matches a b) :
    EndAlike .ofFault Matches (visitAll g owner ps a) (fillAll g owner ps b) :=
  .foldlM (fun p _ _ h => endAlike_fill (depthBound g) p h) h

theorem endAlike_fillStmt (id : StmtId) (s : Stmt) {a : Gathered} {b : Filled} (h : Matches a b) :
    EndAlike .ofFault Matches (visitStmt g c id s a) (fillStmt g c id s b) := by
  refine (EndAlike.lookUp (c.owner id)).bind fun owner _ howner => ?_
  subst howner
  obtain ⟨b', hb', h'⟩ := h.insert (stmtRows_fit id owner s)
  rw [hb']
  refine (endAlike_fillAll _ h').bind fun a b h => ?_
  exact (EndAlike.lookUp (checkCases id s)).bind fun _ _ _ => endAlike_fillAll _ h

/-- Both have begun the same statements, and the store has the rows that are gathered. -/
structure Together (p : Progress) (q : Filling) : Prop where
  begun : q.begun = p.begun
  filled : Matches p.gathered q.filled

theorem endAlike_insertStmt (id : StmtId) {p : Progress} {q : Filling} (h : Together p q) :
    EndAlike Stop.failure (fun x y => x.1 = y.1 ∧ Together x.2 y.2) (emitStmt g c id p)
      (insertStmt g c id q) := by
  unfold emitStmt insertStmt
  rw [h.begun]
  cases g.stmt id with
  | error fault => exact .error (Stop.mk p.begun fault)
  | ok s =>
    have hstmt := endAlike_fillStmt (g := g) (c := c) id s h.filled
    simp only [Except.mapError, bind, Except.bind]
    cases hv : visitStmt g c id s p.gathered with
    | error fault =>
      rw [hstmt.eq_error hv]
      exact .error (Stop.mk (id :: p.begun) fault)
    | ok a =>
      obtain ⟨b, hb, hfilled⟩ := hstmt.exists_ok hv
      rw [hb]
      exact .ok ⟨rfl, rfl, hfilled⟩

theorem endAlike_drainStmts {stack : List StmtId} {p : Progress} {q : Filling}
    (h : Together p q) :
    EndAlike Stop.failure Together (drain g c stack p) (drainStmts g c stack q) := by
  fun_induction drain g c stack p generalizing q with
  | case1 p =>
    rw [drainStmts]
    exact .ok h
  | case2 p id rest hnew ih =>
    rw [drainStmts, dif_pos (h.begun ▸ hnew)]
    exact ih h
  | case3 p id rest hnew stop he =>
    have hi := (endAlike_insertStmt id h).eq_error he
    rw [drainStmts, dif_neg (h.begun ▸ hnew)]
    split <;> rename_i hi' <;> cases hi.symm.trans hi'
    exact .error stop
  | case4 p id rest hnew waiting mid he ih =>
    obtain ⟨⟨_, q'⟩, hi, rfl, hnext⟩ := (endAlike_insertStmt id h).exists_ok he
    rw [drainStmts, dif_neg (h.begun ▸ hnew)]
    split <;> rename_i hi' <;> cases hi.symm.trans hi'
    exact ih hnext

theorem endAlike_insertRoot (root : StmtId) {p : Progress} {q : Filling} (h : Together p q) :
    EndAlike Stop.failure Together (emitRoot g c p root) (insertRoot g c q root) := by
  refine (endAlike_insertStmt root h).bind fun x y hxy => ?_
  obtain ⟨waiting, p⟩ := x
  obtain ⟨waiting', q⟩ := y
  obtain ⟨rfl, h⟩ := hxy
  refine (endAlike_drainStmts h).bind fun p q h => ?_
  obtain ⟨b, hb, hfilled⟩ := h.filled.insert (edgeRows_fit root (c.successors root))
  simp only [hb, bind, Except.bind]
  exact .ok ⟨h.begun, hfilled⟩

/-- Inserting every row at once gives the same facts, or the same failure. -/
theorem extractAtOnce_eq (g : Arena) (c : FlowGraph) : extractAtOnce g c = extract g c := by
  have hstart : Together ⟨[], .empty⟩ ⟨[], .empty⟩ :=
    ⟨rfl, fun _ hr => absurd hr List.not_mem_nil, rfl, rfl⟩
  have hpass : EndAlike Stop.failure Together (pass g c) (c.nodes.foldlM (insertRoot g c) _) :=
    .foldlM (fun root _ _ h => endAlike_insertRoot root h) hstart
  rw [extractAtOnce, extract]
  generalize pass g c = x at hpass ⊢
  generalize c.nodes.foldlM (insertRoot g c) _ = y at hpass ⊢
  cases hpass with
  | ok h => rw [result, h.filled.store]; rfl
  | error stop => rfl

end Passes

end ProgramFacts.Extraction
