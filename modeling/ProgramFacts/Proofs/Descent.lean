import Mathlib.Data.List.Nodup
import Mathlib.Data.List.Perm.Subperm
import ProgramFacts.Proofs.Unfolding
import ProgramFacts.Proofs.Worklist

/-! A visit does not run out of depth unless a value is nested in itself, so a pass that ends early
was blocked: by a token that does not resolve, a statement without owner, or an uneven switch. -/

namespace ProgramFacts.Extraction

open Program ProgramFacts.Fact ProgramFacts.Flow

variable {g : Arena} {c : FlowGraph}

/-! ## Values do not nest deeper than the arena is large -/

/-- No value of `P` is nested in itself. -/
def Acyclic (g : Arena) (P : Part → Prop) : Prop :=
  ∀ v, P (.value v) → ¬Relation.TransGen (Operand g) v v

/-- A chain of values above `v`, each of which has `v` nested in it. -/
structure Above (g : Arena) (above : List ValueId) (v : ValueId) : Prop where
  nodup : above.Nodup
  index_lt : ∀ u ∈ above, u.index < g.size
  nested : ∀ u ∈ above, Relation.TransGen (Operand g) u v

theorem Above.nil {v : ValueId} : Above g [] v := by
  constructor <;> simp

theorem Above.cons_nodup {above : List ValueId} {v : ValueId} (h : Above g above v)
    (hv : ¬Relation.TransGen (Operand g) v v) : (v :: above).Nodup :=
  List.nodup_cons.mpr ⟨fun hmem => hv (h.nested v hmem), h.nodup⟩

theorem Above.cons_index_lt {above : List ValueId} {v : ValueId} (h : Above g above v) {x : Value}
    (hx : g.value v = .ok x) : ∀ u ∈ v :: above, u.index < g.size :=
  List.forall_mem_cons.mpr ⟨Arena.index_lt_of_resolve hx, h.index_lt⟩

theorem Above.cons {above : List ValueId} {v w : ValueId} (h : Above g above v)
    (hv : ¬Relation.TransGen (Operand g) v v) {x : Value} (hx : g.value v = .ok x)
    (hw : w ∈ x.operands) : Above g (v :: above) w := by
  have hop : Operand g v w := ⟨x, hx, hw⟩
  refine ⟨h.cons_nodup hv, h.cons_index_lt hx, List.forall_mem_cons.mpr ⟨.single hop, ?_⟩⟩
  intro u hu
  exact (h.nested u hu).tail hop

theorem length_le_size {ids : List NodeId} (hnodup : ids.Nodup)
    (hlt : ∀ id ∈ ids, id.index < g.size) : ids.length ≤ g.size := by
  have hsub : ids.map NodeId.index ⊆ List.range g.size := by
    intro i hi
    obtain ⟨id, hid, rfl⟩ := List.mem_map.mp hi
    exact List.mem_range.mpr (hlt id hid)
  have hmap : (ids.map NodeId.index).Nodup :=
    List.Nodup.map (fun _ _ => NodeId.ext_index) hnodup
  simpa using (hmap.subperm hsub).length_le

/-- A chain above a value that resolves is shorter than the arena. -/
theorem Above.length_lt {above : List ValueId} {v : ValueId} (h : Above g above v)
    (hv : ¬Relation.TransGen (Operand g) v v) {x : Value} (hx : g.value v = .ok x) :
    above.length < g.size :=
  length_le_size (h.cons_nodup hv) (h.cons_index_lt hx)

/-- A statement that the registered ones lead to mentions the value, and `depth` is enough for what
is nested in it. -/
def Shallow (g : Arena) (c : FlowGraph) (depth : Nat) (v : ValueId) : Prop :=
  ∃ id above, Reached g c id ∧ Mentions g id v ∧ Above g above v ∧ g.size - above.length < depth

section Shallow

variable {v : ValueId} {depth : Nat}

/-- No value is nested deeper than the arena is large. -/
theorem shallow_of_mentions {id : StmtId} (hid : Reached g c id) (hv : Mentions g id v) :
    Shallow g c (g.size + 1) v :=
  ⟨id, [], hid, hv, .nil, by simp⟩

theorem Shallow.exists_succ (h : Shallow g c depth v) : ∃ depth', depth = depth' + 1 := by
  obtain ⟨_, _, _, _, _, hdepth⟩ := h
  exact ⟨depth - 1, by omega⟩

theorem Shallow.operand (h : Shallow g c (depth + 1) v)
    (hacyclic : Acyclic g (Met g c (Reached g c))) {x : Value} (hx : g.value v = .ok x)
    {w : ValueId} (hw : w ∈ x.operands) : Shallow g c depth w := by
  obtain ⟨id, above, hid, hv, habove, hdepth⟩ := h
  have hnotIn := hacyclic v (.value hid hv)
  have hlength := habove.length_lt hnotIn hx
  refine ⟨id, v :: above, hid, hv.operand ⟨x, hx, hw⟩, habove.cons hnotIn hx hw, ?_⟩
  rw [List.length_cons]
  omega

end Shallow

/-! ## Depth -/

theorem unvisited_anti {seen seen' : List NodeId} (h : seen ⊆ seen') :
    unvisited g seen' ≤ unvisited g seen := by
  refine List.countP_mono_left fun i _ hi => ?_
  simp only [Bool.not_eq_true', List.contains_eq_mem, decide_eq_false_iff_not] at hi ⊢
  exact fun hmem => hi (h hmem)

theorem unvisited_le_size (seen : List NodeId) : unvisited g seen ≤ g.size := by
  unfold unvisited
  simpa using List.countP_le_length (l := List.range g.size)
    (p := fun i => !seen.contains (.ofIndex i))

/-- `depth` is enough for the visit of a part: types, methods and fields lead to unmarked ones only,
and a value may have all others above it. -/
structure Room (g : Arena) (seen : List NodeId) (depth : Nat) (p : Part) : Prop where
  entity : unvisited g seen < depth
  value : p.kind = .value →
    ∃ above, Above g above p.id ∧ g.size - above.length + unvisited g seen < depth

theorem Room.mono {seen seen' : List NodeId} {depth : Nat} {p : Part} (h : Room g seen depth p)
    (hsub : seen ⊆ seen') : Room g seen' depth p := by
  have hle := unvisited_anti (g := g) hsub
  refine ⟨Nat.lt_of_le_of_lt hle h.entity, fun hk => ?_⟩
  obtain ⟨above, habove, hlt⟩ := h.value hk
  exact ⟨above, habove, by omega⟩

theorem room_depthBound (seen : List NodeId) (p : Part) : Room g seen (depthBound g) p := by
  have := unvisited_le_size (g := g) seen
  refine ⟨by unfold depthBound; omega, fun _ => ⟨[], .nil, ?_⟩⟩
  simp only [depthBound, List.length_nil]
  omega

/-- The parts of a node have enough depth left. -/
theorem Room.parts {P : Part → Prop} (hacyclic : Acyclic g P) {a : Gathered} {depth : Nat}
    {p : Part} {n : Node} (h : Room g a.seen (depth + 1) p) (hp : P p) (hn : Resolves g p n)
    (hnew : once n = true → p.id ∉ a.seen) (owner : MethodId) :
    ∀ q ∈ nodeParts owner n, Room g (a.define owner p.id n).seen depth q := by
  intro q hq
  have hgrows := (a.grows_define owner p.id n).seen
  by_cases hk : p.kind = .value
  · rw [part_eq_value hk] at hp hn
    obtain ⟨x, rfl, hx⟩ := resolves_value.mp hn
    obtain ⟨above, habove, hlt⟩ := h.value hk
    have hlength := habove.length_lt (hacyclic _ hp) hx
    refine Room.mono ⟨by omega, fun hkq => ?_⟩ hgrows
    rcases mem_valueParts.mp hq with ⟨w, hw, rfl⟩ | hq | ⟨_, rfl⟩
    · refine ⟨p.id :: above, habove.cons (hacyclic _ hp) hx hw, ?_⟩
      simp only [List.length_cons]
      omega
    · exact absurd hkq (kind_of_mem_valueRefs hq)
    · contradiction
  · have honce := once_of_kind hn.2 hk
    have hlt : unvisited g (p.id :: a.seen) < unvisited g a.seen :=
      unvisited_cons_lt (Array.getElem?_eq_some_iff.mp hn.1).1 (hnew honce)
    have hseen : (a.define owner p.id n).seen = p.id :: a.seen := by
      simp [Gathered.define, honce]
    have hentity := h.entity
    refine ⟨by rw [hseen]; omega, fun hkq => absurd hkq ?_⟩
    rw [nodeParts_eq_nodeRefs (hn.2 ▸ hk)] at hq
    exact kind_of_mem_nodeRefs hq

/-! ## Visits with enough depth -/

theorem exactly_expands {owner : MethodId} {P : Part → Prop} {depth : Nat}
    (hvisit : ∀ {p : Part} {a : Gathered}, P p → Room g a.seen depth p →
      (expansion g owner p a).Exactly (visit g owner depth p a))
    {ps : List Part} {a : Gathered} (hps : ∀ p ∈ ps, P p)
    (hroom : ∀ p ∈ ps, Room g a.seen depth p) :
    (Expands g owner ps a).Exactly (ps.foldlM (fun a p => visit g owner depth p a) a) := by
  induction ps generalizing a with
  | nil =>
    rw [expands_nil]
    exact Runs.exactly_done _
  | cons p ps ih =>
    obtain ⟨hp, hps⟩ := List.forall_mem_cons.mp hps
    obtain ⟨hroomp, hroom⟩ := List.forall_mem_cons.mp hroom
    rw [expands_cons, List.foldlM_cons]
    refine (hvisit hp hroomp).bind fun mid hmid => ih hps fun q hq => (hroom q hq).mono ?_
    exact (visits_of_visit hmid .nil).grows.seen

/-- The depth of a visit does not count if it is enough. -/
theorem exactly_expansion {owner : MethodId} {P : Part → Prop} (hP : Closed g owner P)
    (hacyclic : Acyclic g P) {depth : Nat} {p : Part} {a : Gathered} (hp : P p)
    (hroom : Room g a.seen depth p) :
    (expansion g owner p a).Exactly (visit g owner depth p a) := by
  induction depth generalizing p a with
  | zero => exact absurd hroom.entity (by omega)
  | succ depth ih =>
    unfold expansion
    rw [visit_succ]
    split
    · exact (Runs.exactly_done _).after _
    · exact Runs.exactly_done _
    · rename_i n he
      obtain ⟨hn, hnew⟩ := enter_eq_inr he
      exact (exactly_expands ih (hP p n hp hn) (hroom.parts hacyclic hp hn hnew owner)).after _

theorem exactly_visitAll {owner : MethodId} {P : Part → Prop} (hP : Closed g owner P)
    (hacyclic : Acyclic g P) {ps : List Part} (hps : ∀ p ∈ ps, P p) (a : Gathered) :
    (Expands g owner ps a).Exactly (visitAll g owner ps a) :=
  exactly_expands (fun hp => exactly_expansion hP hacyclic hp) hps fun p _ =>
    room_depthBound a.seen p

/-- A visit ends early only at a part that does not resolve. -/
theorem Expands.exists_fault {owner : MethodId} {P : Part → Prop} (hP : Closed g owner P)
    {ps : List Part} {a : Gathered} {events : List Event} {r : Except Fault Gathered}
    (h : Expands g owner ps a events r) (hps : ∀ p ∈ ps, P p) {fault : Fault}
    (hr : r = .error fault) : ∃ q, P q ∧ partNode g q = .error fault := by
  induction h with
  | nil => contradiction
  | skip _ _ ih => exact ih (List.forall_mem_cons.mp hps).2 hr
  | lost he =>
    obtain rfl := Except.error.inj hr
    exact ⟨_, hps _ (.head _), (enter_eq_error he).1⟩
  | within he _ ih => exact ih (hP _ _ (hps _ (.head _)) (enter_eq_inr he).1) hr
  | define _ _ _ _ ih => exact ih (List.forall_mem_cons.mp hps).2 hr

/-! ## Passes that end early -/

/-- Why a pass over the statements of `S` ends early. -/
inductive Blocked (g : Arena) (c : FlowGraph) (S : StmtId → Prop) : Fault → Prop
  | stmt {id : StmtId} {fault : Fault} : S id → g.stmt id = .error fault → Blocked g c S fault
  | owner {id : StmtId} {fault : Fault} : S id → c.owner id = .error fault → Blocked g c S fault
  | uneven {id : StmtId} {s : Stmt} {fault : Fault} :
      S id → g.stmt id = .ok s → checkCases id s = .error fault → Blocked g c S fault
  | part {p : Part} {fault : Fault} :
      Met g c S p → partNode g p = .error fault → Blocked g c S fault

theorem blocked_of_visitAll_error {S : StmtId → Prop} (hacyclic : Acyclic g (Met g c S))
    {id : StmtId} (hid : S id) {m : MethodId} (hm : c.owner id = .ok m) {ps : List Part}
    (hps : ∀ p ∈ ps, LedTo g c [id] id p) {a : Gathered} {fault : Fault}
    (h : visitAll g m ps a = .error fault) : Blocked g c S fault := by
  have hmet {p : Part} (hp : LedTo g c [id] id p) : Met g c S p :=
    hp.1.mono fun j hj => List.mem_singleton.mp hj ▸ hid
  have hclosed : Closed g m (LedTo g c [id] id) := closed_ledTo (.head _) hm
  have hacyclic : Acyclic g (LedTo g c [id] id) := fun v hv => hacyclic v (hmet hv)
  obtain ⟨events, hrun⟩ := (exactly_visitAll hclosed hacyclic hps a).exists_run
  obtain ⟨q, hq, hfault⟩ := hrun.exists_fault hclosed hps h
  exact .part (hmet hq) hfault

theorem blocked_of_visitStmt_error {S : StmtId → Prop} (hacyclic : Acyclic g (Met g c S))
    {id : StmtId} (hid : S id) {s : Stmt} (hs : g.stmt id = .ok s) {a : Gathered} {fault : Fault}
    (h : visitStmt g c id s a = .error fault) : Blocked g c S fault := by
  unfold visitStmt at h
  cases hm : c.owner id with
  | error fault' =>
    rw [hm] at h
    obtain rfl := Except.error.inj h
    exact .owner hid hm
  | ok m =>
    simp only [hm, bind, Except.bind] at h
    have hparts : ∀ p ∈ stmtParts m s, LedTo g c [id] id p :=
      ledTo_of_mem_stmtParts (.head _) hs hm
    cases hops : visitAll g m (.method m :: s.operands.map .value) (a.emit (stmtRows id m s)) with
    | error fault' =>
      rw [hops] at h
      obtain rfl := Except.error.inj h
      refine blocked_of_visitAll_error hacyclic hid hm (fun p hp => hparts p ?_) hops
      simp only [stmtParts, List.mem_cons, List.map_append, List.mem_append] at hp ⊢
      exact hp.imp_right .inl
    | ok mid =>
      simp only [hops] at h
      cases heven : checkCases id s with
      | error fault' =>
        rw [heven] at h
        obtain rfl := Except.error.inj h
        exact .uneven hid hs heven
      | ok u =>
        simp only [heven] at h
        refine blocked_of_visitAll_error hacyclic hid hm (fun p hp => hparts p ?_) h
        simp only [stmtParts, List.mem_cons, List.map_append, List.mem_append]
        exact .inr (.inr hp)

theorem blocked_of_emitStmt_error {S : StmtId → Prop} (hacyclic : Acyclic g (Met g c S))
    {id : StmtId} (hid : S id) {p : Progress} {stop : Stop}
    (h : emitStmt g c id p = .error stop) : Blocked g c S stop.fault := by
  unfold emitStmt at h
  split at h
  · rename_i fault hs
    obtain rfl := Except.error.inj h
    exact .stmt hid hs
  · rename_i s hs
    split at h
    · rename_i fault hv
      obtain rfl := Except.error.inj h
      exact blocked_of_visitStmt_error hacyclic hid hs hv
    · contradiction

theorem blocked_of_drain_error (hacyclic : Acyclic g (Met g c (Reached g c)))
    {stack : List StmtId} (hstack : ∀ id ∈ stack, Reached g c id) {p : Progress} {stop : Stop}
    (h : drain g c stack p = .error stop) : Blocked g c (Reached g c) stop.fault := by
  fun_induction drain g c stack p with
  | case1 => contradiction
  | case2 p id rest hnew ih => exact ih (fun j hj => hstack j (.tail _ hj)) h
  | case3 p id rest hnew stop' he =>
    obtain rfl := Except.error.inj h
    exact blocked_of_emitStmt_error hacyclic (hstack id (.head _)) he
  | case4 p id rest hnew waiting mid he ih =>
    refine ih (fun t ht => ?_) h
    rcases List.mem_append.mp ht with ht | ht
    · exact reached_of_mem_waiting (hstack id (.head _)) he ht
    · exact hstack t (.tail _ ht)

theorem blocked_of_emitRoot_error (hacyclic : Acyclic g (Met g c (Reached g c))) {p : Progress}
    {root : StmtId} (hroot : root ∈ c.nodes) {stop : Stop} (h : emitRoot g c p root = .error stop) :
    Blocked g c (Reached g c) stop.fault := by
  unfold emitRoot at h
  cases he : emitStmt g c root p with
  | error stop' =>
    rw [he] at h
    obtain rfl := Except.error.inj h
    exact blocked_of_emitStmt_error hacyclic (.node hroot) he
  | ok r =>
    obtain ⟨waiting, mid⟩ := r
    simp only [he, bind, Except.bind] at h
    cases hd : drain g c waiting mid with
    | error stop' =>
      rw [hd] at h
      obtain rfl := Except.error.inj h
      exact blocked_of_drain_error hacyclic
        (fun t ht => reached_of_mem_waiting (.node hroot) he ht) hd
    | ok last =>
      rw [hd] at h
      contradiction

/-- When no value is nested in itself, a pass ends early only if it is blocked. -/
theorem blocked_of_pass_error (hacyclic : Acyclic g (Met g c (Reached g c))) {stop : Stop}
    (h : pass g c = .error stop) : Blocked g c (Reached g c) stop.fault := by
  have roots {roots : List StmtId} (hroots : ∀ id ∈ roots, id ∈ c.nodes) {p : Progress}
      (h : roots.foldlM (emitRoot g c) p = .error stop) :
      Blocked g c (Reached g c) stop.fault := by
    induction roots generalizing p with
    | nil => contradiction
    | cons root roots ih =>
      obtain ⟨hroot, hroots⟩ := List.forall_mem_cons.mp hroots
      rw [List.foldlM_cons] at h
      cases he : emitRoot g c p root with
      | error stop' =>
        rw [he] at h
        obtain rfl := Except.error.inj h
        exact blocked_of_emitRoot_error hacyclic hroot he
      | ok mid =>
        rw [he] at h
        exact ih hroots h
  exact roots (fun _ hid => hid) h

end ProgramFacts.Extraction
