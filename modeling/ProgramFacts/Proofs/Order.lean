import ProgramFacts.Proofs.Worklist

/-! The order in which a pass begins its statements, as a recursive walk: a registered statement
begins, and then whatever its targets lead to and has not begun, the last target first. -/

namespace ProgramFacts.Extraction

open Program ProgramFacts.Flow

variable {g : Arena} {c : FlowGraph}

/-- `Walk g before ids after`: after the statements of `before`, the walk from each of `ids` in turn
makes the order `after`. -/
inductive Walk (g : Arena) : List StmtId → List StmtId → List StmtId → Prop
  | nil {order : List StmtId} : Walk g order [] order
  | again {order ids after : List StmtId} {id : StmtId} :
      id ∈ order → Walk g order ids after → Walk g order (id :: ids) after
  | begin {order mid ids after : List StmtId} {id : StmtId} {s : Stmt} :
      id ∉ order → g.stmt id = .ok s → Walk g (order ++ [id]) s.targets.reverse mid →
      Walk g mid ids after → Walk g order (id :: ids) after

/-- `Rounds g before roots after`: as `Walk`, but each of `roots` begins even if it has begun. -/
inductive Rounds (g : Arena) : List StmtId → List StmtId → List StmtId → Prop
  | nil {order : List StmtId} : Rounds g order [] order
  | root {order mid roots after : List StmtId} {root : StmtId} {s : Stmt} :
      g.stmt root = .ok s → Walk g (order ++ [root]) s.targets.reverse mid →
      Rounds g mid roots after → Rounds g order (root :: roots) after

theorem Walk.grows {before ids after : List StmtId} (h : Walk g before ids after) :
    before ⊆ after := by
  induction h with
  | nil => exact List.Subset.refl _
  | again _ _ ih => exact ih
  | begin _ _ _ _ ihTargets ih =>
    exact fun j hj => ih (ihTargets (List.mem_append_left _ hj))

/-- There is one walk at most. -/
theorem Walk.unique {before ids after after' : List StmtId} (h : Walk g before ids after)
    (h' : Walk g before ids after') : after = after' := by
  induction h generalizing after' with
  | nil =>
    cases h'
    rfl
  | again hid _ ih =>
    cases h' with
    | again _ h' => exact ih h'
    | begin hnew _ _ _ => exact absurd hid hnew
  | begin hnew hs _ _ ihTargets ih =>
    cases h' with
    | again hid _ => exact absurd hid hnew
    | begin _ hs' ht' h' =>
      obtain rfl := Except.ok.inj (hs.symm.trans hs')
      obtain rfl := ihTargets ht'
      exact ih h'

theorem Rounds.unique {before roots after after' : List StmtId} (h : Rounds g before roots after)
    (h' : Rounds g before roots after') : after = after' := by
  induction h generalizing after' with
  | nil =>
    cases h'
    rfl
  | root hs ht _ ih =>
    cases h' with
    | root hs' ht' h' =>
      obtain rfl := Except.ok.inj (hs.symm.trans hs')
      obtain rfl := ht.unique ht'
      exact ih h'

theorem Walk.append_inv {before ids ids' after : List StmtId}
    (h : Walk g before (ids ++ ids') after) :
    ∃ mid, Walk g before ids mid ∧ Walk g mid ids' after := by
  induction ids generalizing before with
  | nil => exact ⟨before, .nil, h⟩
  | cons id ids ih =>
    cases h with
    | again hid h =>
      obtain ⟨mid, hids, hids'⟩ := ih h
      exact ⟨mid, .again hid hids, hids'⟩
    | begin hnew hs ht h =>
      obtain ⟨mid, hids, hids'⟩ := ih h
      exact ⟨mid, .begin hnew hs ht hids, hids'⟩

/-- Statements that have begun may be left out. -/
theorem Walk.of_filter {p : StmtId → Bool} {before ids after : List StmtId}
    (hp : ∀ id, p id = false → id ∈ before) (h : Walk g before (ids.filter p) after) :
    Walk g before ids after := by
  induction ids generalizing before with
  | nil => exact h
  | cons id ids ih =>
    cases hid : p id with
    | false =>
      rw [List.filter_cons_of_neg (by simp [hid])] at h
      exact .again (hp id hid) (ih hp h)
    | true =>
      rw [List.filter_cons_of_pos hid] at h
      cases h with
      | again hmem h => exact .again hmem (ih hp h)
      | begin hnew hs ht h =>
        refine .begin hnew hs ht (ih (fun j hj => ?_) h)
        exact ht.grows (List.mem_append_left _ (hp j hj))

/-- What follows the emission of a statement is the walk of its targets. -/
theorem walk_of_emitStmt {id : StmtId} {p q : Progress} {waiting rest : List StmtId}
    {after : List StmtId} (he : emitStmt g c id p = .ok (waiting, q))
    (h : Walk g q.begun.reverse (waiting ++ rest) after) :
    ∃ s mid, g.stmt id = .ok s ∧ Walk g (p.begun.reverse ++ [id]) s.targets.reverse mid ∧
      Walk g mid rest after := by
  obtain ⟨s, a, hs, _, rfl, rfl⟩ := emitStmt_eq_ok.mp he
  obtain ⟨mid, hwaiting, hrest⟩ := h.append_inv
  refine ⟨s, mid, hs, ?_, hrest⟩
  rw [← List.filter_reverse] at hwaiting
  have hbegun (j : StmtId) (hj : (!(id :: p.begun).contains j) = false) :
      j ∈ (id :: p.begun).reverse := by
    simpa only [Bool.not_eq_false', List.contains_iff_mem, List.mem_reverse] using hj
  simpa using hwaiting.of_filter hbegun

theorem walk_of_drain {stack : List StmtId} {p q : Progress} (h : drain g c stack p = .ok q) :
    Walk g p.begun.reverse stack q.begun.reverse := by
  fun_induction drain g c stack p with
  | case1 p =>
    obtain rfl := Except.ok.inj h
    exact .nil
  | case2 p id rest hid ih => exact .again (List.mem_reverse.mpr hid) (ih h)
  | case3 => contradiction
  | case4 p id rest hnew waiting mid he ih =>
    obtain ⟨s, order, hs, htargets, hrest⟩ := walk_of_emitStmt he (ih h)
    exact .begin (by simpa using hnew) hs htargets hrest

theorem rounds_of_roots {roots : List StmtId} {p q : Progress}
    (h : roots.foldlM (emitRoot g c) p = .ok q) :
    Rounds g p.begun.reverse roots q.begun.reverse := by
  induction roots generalizing p with
  | nil =>
    obtain rfl := Except.ok.inj h
    exact .nil
  | cons root roots ih =>
    rw [List.foldlM_cons] at h
    cases hr : emitRoot g c p root with
    | error stop =>
      rw [hr] at h
      contradiction
    | ok mid =>
      rw [hr] at h
      have hrest := ih h
      obtain ⟨waiting, first, last, he, hd, rfl⟩ := emitRoot_eq_ok.mp hr
      have hwalk : Walk g first.begun.reverse (waiting ++ []) last.begun.reverse := by
        simpa using walk_of_drain hd
      obtain ⟨s, order, hs, htargets, hnil⟩ := walk_of_emitStmt he hwalk
      cases hnil
      exact .root hs htargets hrest

/-- A pass that ends without a fault begins its statements in the order of the rounds. -/
theorem pass_rounds {p : Progress} (h : pass g c = .ok p) : Rounds g [] c.nodes p.begun.reverse :=
  rounds_of_roots h

end ProgramFacts.Extraction
