import ProgramFacts.Proofs.Gathering

/-! `Exact`: what a pass has gathered is exactly what the encoding has for the statements that it
has begun and the edges that it has written.  Emitting a statement keeps this. -/

namespace ProgramFacts.Extraction

open Program ProgramFacts.Fact ProgramFacts.Flow

variable {g : Arena} {c : FlowGraph}

/-- A statement has its rows, its owner is marked, and its operands and labels are covered. -/
structure Emitted (g : Arena) (c : FlowGraph) (a : Gathered) (id : StmtId) (s : Stmt)
    (m : MethodId) : Prop where
  stmt : g.stmt id = .ok s
  owner : c.owner id = .ok m
  even : checkCases id s = .ok ()
  rows : ∀ r ∈ stmtRows id m s, r ∈ a.rows
  marked : m ∈ a.seen
  covered : ∀ v ∈ s.operands ++ s.labels, Covered g m a (.value v)

/-- `a` holds what the encoding has for the statements of `order` and for the edges `E`. -/
structure Exact (g : Arena) (c : FlowGraph) (order : List StmtId) (E : List (StmtId × StmtId))
    (a : Gathered) : Prop where
  settled : AllSettled g [] a
  emitted : ∀ id ∈ order, ∃ s m, Emitted g c a id s m
  edges : ∀ e ∈ E, edgeRow e.1 e.2 ∈ a.rows
  rows : ∀ r ∈ a.rows, Fact g c order E r.rel r.tuple
  seen : ∀ id ∈ a.seen, ∃ p n, Met g c (· ∈ order) p ∧ Resolves g p n ∧ once n = true ∧ p.id = id

theorem Emitted.mono {a a' : Gathered} (h : Grows a a') {id : StmtId} {s : Stmt} {m : MethodId}
    (he : Emitted g c a id s m) : Emitted g c a' id s m :=
  ⟨he.stmt, he.owner, he.even, fun r hr => h.rows r (he.rows r hr), h.seen m he.marked,
    fun v hv => (he.covered v hv).mono h⟩

theorem exact_empty : Exact g c [] [] .empty := by
  constructor <;> simp [AllSettled, Gathered.empty]

/-! ## What is held -/

/-- Every value that a statement mentions lies in the operand tree of an operand or a label. -/
theorem Mentions.within {id : StmtId} {v : ValueId} (h : Mentions g id v) :
    ∃ s u, g.stmt id = .ok s ∧ u ∈ s.operands ++ s.labels ∧ Within g u v := by
  induction h with
  | top hs hv => exact ⟨_, _, hs, hv, .refl⟩
  | operand _ hop ih =>
    obtain ⟨s, u, hs, hu, hw⟩ := ih
    exact ⟨s, u, hs, hu, hw.tail hop⟩

theorem Emitted.held {a : Gathered} {id : StmtId} {s : Stmt} {m : MethodId}
    (h : Emitted g c a id s m) {v : ValueId} (hv : Mentions g id v) : ∃ x, Held g m a v x := by
  obtain ⟨s', u, hs', hu, hw⟩ := hv.within
  obtain rfl : s = s' := Except.ok.inj (h.stmt.symm.trans hs')
  exact (h.covered u hu).2 rfl v hw

namespace Exact

variable {order : List StmtId} {E : List (StmtId × StmtId)} {a : Gathered}

theorem owner_eq (h : Exact g c order E a) {id : StmtId} (hid : id ∈ order) {m : MethodId}
    (hm : c.owner id = .ok m) : ∃ s, Emitted g c a id s m := by
  obtain ⟨s, m', he⟩ := h.emitted id hid
  obtain rfl : m = m' := Except.ok.inj (hm.symm.trans he.owner)
  exact ⟨s, he⟩

theorem held (h : Exact g c order E a) {id : StmtId} (hid : id ∈ order) {v : ValueId}
    (hv : Mentions g id v) : ∃ m x, Held g m a v x := by
  obtain ⟨s, m, he⟩ := h.emitted id hid
  exact ⟨m, he.held hv⟩

/-- What the statements lead to is marked, and values are held. -/
theorem marked (h : Exact g c order E a) {p : Part} (hp : Met g c (· ∈ order) p) :
    (p.kind ≠ .value → p.id ∈ a.seen) ∧ (p.kind = .value → ∃ m x, Held g m a p.id x) := by
  induction hp with
  | owner hid hm =>
    obtain ⟨s, he⟩ := h.owner_eq hid hm
    exact ⟨fun _ => he.marked, fun hk => by contradiction⟩
  | value hid hv => exact ⟨fun hk => absurd rfl hk, fun _ => h.held hid hv⟩
  | @ref p q n _ hn hq ih =>
    refine ⟨fun _ => ?_, fun hk => absurd hk (kind_of_mem_nodeRefs hq)⟩
    have settled (hs : p.id ∈ a.seen) : q.id ∈ a.seen := by
      obtain ⟨n', hn'⟩ := h.settled p.id hs
      obtain rfl : n = n' := Option.some.inj (hn.1.symm.trans hn'.node)
      exact hn'.refs (by simp) q hq
    by_cases hk : p.kind = .value
    · obtain ⟨m, x, hx⟩ := ih.2 hk
      cases hs : x.isShared with
      | true => exact settled (hx.shared hs)
      | false =>
        obtain rfl : n = .value x :=
          Option.some.inj (hn.1.symm.trans (Arena.value_eq_ok.mp hx.value))
        exact hx.refs hs q hq
    · exact settled (ih.1 hk)

/-- The rows of a marked node, in the statement of some owner. -/
theorem rows_of_mem_seen (h : Exact g c order E a) {id : NodeId} (hid : id ∈ a.seen) {n : Node}
    (hn : g.node? id = some n) : ∃ m, ∀ r ∈ nodeRows id m n, r ∈ a.rows := by
  obtain ⟨n', hn'⟩ := h.settled id hid
  obtain rfl : n = n' := Option.some.inj (hn.symm.trans hn'.node)
  exact hn'.rows

theorem rows_of_met (h : Exact g c order E a) {p : Part} (hp : Met g c (· ∈ order) p)
    (hk : p.kind ≠ .value) {n : Node} (hn : g.node? p.id = some n) :
    ∃ m, ∀ r ∈ nodeRows p.id m n, r ∈ a.rows :=
  h.rows_of_mem_seen ((h.marked hp).1 hk) hn

/-- The columns of a shared value do not depend on the owner. -/
theorem valueColumns_of_isShared {x : Value} (hs : x.isShared = true) (m m' : MethodId) :
    valueColumns m x = valueColumns m' x := by
  cases x <;> first | rfl | contradiction

theorem definition_mem (h : Exact g c order E a) {id : StmtId} (hid : id ∈ order) {v : ValueId}
    (hv : Mentions g id v) {x : Value} (hx : g.value v = .ok x) {m : MethodId}
    (hm : c.owner id = .ok m) : (⟨.ofValue x, token v :: valueColumns m x⟩ : Row) ∈ a.rows := by
  obtain ⟨s, he⟩ := h.owner_eq hid hm
  obtain ⟨x', hheld⟩ := he.held hv
  obtain rfl : x = x' := Except.ok.inj (hx.symm.trans hheld.value)
  cases hs : x.isShared with
  | true =>
    obtain ⟨m', hrows⟩ := h.rows_of_mem_seen (hheld.shared hs) (Arena.value_eq_ok.mp hx)
    rw [valueColumns_of_isShared hs m m']
    exact hrows _ (.head _)
  | false => exact hheld.rows hs _ (.head _)

/-- A value that has operands is not shared, so its lists are written wherever it occurs. -/
theorem listRows_mem (h : Exact g c order E a) {id : StmtId} (hid : id ∈ order) {v : ValueId}
    (hv : Mentions g id v) {x : Value} (hx : g.value v = .ok x) (hs : x.isShared = false) :
    ∃ m, ∀ r ∈ valueRows v m x, r ∈ a.rows := by
  obtain ⟨m, x', hheld⟩ := h.held hid hv
  obtain rfl : x = x' := Except.ok.inj (hx.symm.trans hheld.value)
  exact ⟨m, hheld.rows hs⟩

/-- A variable belongs to the owner of the first statement that mentions it. -/
theorem methodOfLocal_mem (h : Exact g c order E a) {id : StmtId} {v : ValueId} {name : String}
    {ty : TypeId} {m : MethodId} (hfirst : FirstMention g order v id)
    (hx : g.value v = .ok (.localVar name ty)) (hm : c.owner id = .ok m) :
    (⟨.methodOfLocal, [token v, token m]⟩ : Row) ∈ a.rows := by
  obtain ⟨m₁, x, hheld⟩ := h.held hfirst.mem hfirst.mentions
  obtain rfl : x = .localVar name ty := Except.ok.inj (hheld.value.symm.trans hx)
  obtain ⟨m', hrows⟩ := h.rows_of_mem_seen (hheld.shared rfl) (Arena.value_eq_ok.mp hx)
  have hmem : (⟨.methodOfLocal, [token v, token m']⟩ : Row) ∈ a.rows :=
    hrows _ (by simp [nodeRows, valueRows, valueListRows])
  obtain ⟨v', id', m'', hfirst', hm', ht⟩ := (h.rows _ hmem).tells
  simp only [List.cons.injEq, token_inj, and_true] at ht
  obtain ⟨rfl, rfl⟩ := ht
  obtain rfl := hfirst.unique hfirst'
  obtain rfl : m = m' := Except.ok.inj (hm.symm.trans hm')
  exact hmem

/-- The gathered rows are those of the encoding. -/
theorem mem_rows_iff (h : Exact g c order E a) {rel : Rel} {t : Tuple} :
    (⟨rel, t⟩ : Row) ∈ a.rows ↔ Fact g c order E rel t := by
  refine ⟨h.rows _, fun hf => ?_⟩
  cases hf with
  | unit hid =>
    obtain ⟨s, m, he⟩ := h.emitted _ hid
    exact he.rows _ (.head _)
  | methodOfUnit hid hm =>
    obtain ⟨s, he⟩ := h.owner_eq hid hm
    exact he.rows _ (.tail _ (.head _))
  | stmt hid hs hm hrow =>
    obtain ⟨s', he⟩ := h.owner_eq hid hm
    obtain rfl := Except.ok.inj (hs.symm.trans he.stmt)
    rw [stmtRow_iff.mp hrow]
    exact he.rows _ (.tail _ (.tail _ (.head _)))
  | tableCase hid hs ht =>
    obtain ⟨s', m, he⟩ := h.emitted _ hid
    obtain rfl := Except.ok.inj (hs.symm.trans he.stmt)
    exact he.rows _ (.tail _ (.tail _ (.tail _ (mem_tableCases.mpr ⟨_, _, ht, rfl⟩))))
  | lookupCase hid hs hl ht =>
    obtain ⟨s', m, he⟩ := h.emitted _ hid
    obtain rfl := Except.ok.inj (hs.symm.trans he.stmt)
    exact he.rows _ (.tail _ (.tail _ (.tail _ (mem_lookupCases.mpr ⟨_, _, _, hl, ht, rfl⟩))))
  | edge he => exact h.edges _ he
  | value hid hv =>
    obtain ⟨m, x, hheld⟩ := h.held hid hv
    exact hheld.occurrence
  | definition hid hv hx hm hrow =>
    rw [valueRow_iff.mp hrow]
    exact h.definition_mem hid hv hx hm
  | @argument id v arg x i hid hv hx ha =>
    cases x with
    | instanceInvoke dispatch base method args =>
      obtain ⟨m, hrows⟩ := h.listRows_mem hid hv hx rfl
      exact hrows _ (.tail _ (mem_listRows.mpr ⟨i, arg, ha, rfl⟩))
    | staticInvoke method args =>
      obtain ⟨m, hrows⟩ := h.listRows_mem hid hv hx rfl
      exact hrows _ (.tail _ (mem_listRows.mpr ⟨i, arg, ha, rfl⟩))
    | _ => simp [arguments] at ha
  | @size id v size element sizes i hid hv hx hz =>
    obtain ⟨m, hrows⟩ := h.listRows_mem hid hv hx rfl
    exact hrows _ (.tail _ (mem_listRows.mpr ⟨i, size, hz, rfl⟩))
  | methodOfLocal hfirst hx hm => exact h.methodOfLocal_mem hfirst hx hm
  | method hp hm =>
    obtain ⟨_, hrows⟩ := h.rows_of_met hp (by simp [Part.kind]) (Arena.method_eq_ok.mp hm)
    exact hrows _ (.head _)
  | parameter hp hm ht =>
    obtain ⟨_, hrows⟩ := h.rows_of_met hp (by simp [Part.kind]) (Arena.method_eq_ok.mp hm)
    exact hrows _ (.tail _ (mem_listRows.mpr ⟨_, _, ht, rfl⟩))
  | field hp hf =>
    obtain ⟨_, hrows⟩ := h.rows_of_met hp (by simp [Part.kind]) (Arena.field_eq_ok.mp hf)
    exact hrows _ (.head _)
  | type hp ht hrow =>
    obtain ⟨_, hrows⟩ := h.rows_of_met hp (by simp [Part.kind]) (Arena.type_eq_ok.mp ht)
    rw [typeRow_iff.mp hrow]
    exact hrows _ (.head _)

end Exact

/-! ## One more statement -/

theorem Visits.append {m : MethodId} {ps qs : List Part} {a mid a' : Gathered}
    (h : Visits g m ps a mid) (h' : Visits g m qs mid a') : Visits g m (ps ++ qs) a a' := by
  induction h with
  | nil => exact h'
  | skip hk hs _ ih => exact .skip hk hs (ih h')
  | again hv hshared hs _ ih => exact .again hv hshared hs (ih h')
  | define hn hnew hparts _ _ ih => exact .define hn hnew hparts (ih h')

/-- The parts that a statement leads to at once. -/
def stmtParts (m : MethodId) (s : Stmt) : List Part :=
  .method m :: (s.operands ++ s.labels).map .value

theorem visits_of_visitStmt {id : StmtId} {s : Stmt} {a a' : Gathered}
    (h : visitStmt g c id s a = .ok a') :
    ∃ m, c.owner id = .ok m ∧ checkCases id s = .ok () ∧
      Visits g m (stmtParts m s) (a.emit (stmtRows id m s)) a' := by
  unfold visitStmt at h
  cases hm : c.owner id with
  | error fault =>
    rw [hm] at h
    contradiction
  | ok m =>
    simp only [hm, bind, Except.bind] at h
    cases hops : visitAll g m (.method m :: s.operands.map .value) (a.emit (stmtRows id m s)) with
    | error fault =>
      rw [hops] at h
      contradiction
    | ok mid =>
      simp only [hops] at h
      cases heven : checkCases id s with
      | error fault =>
        rw [heven] at h
        contradiction
      | ok u =>
        simp only [heven] at h
        refine ⟨m, rfl, rfl, ?_⟩
        have := (visits_of_visitAll hops).append (visits_of_visitAll h)
        simpa [stmtParts] using this

/-- What a statement leads to: the values that it mentions, its owner, and what these name. -/
def LedTo (g : Arena) (c : FlowGraph) (order : List StmtId) (id : StmtId) (p : Part) : Prop :=
  Met g c (· ∈ order) p ∧ ∀ v, p = .value v → Mentions g id v

theorem LedTo.value {order : List StmtId} {id : StmtId} (hid : id ∈ order) {v : ValueId}
    (hv : Mentions g id v) : LedTo g c order id (.value v) :=
  ⟨.value hid hv, fun _ hw => by
    obtain rfl := Part.value.inj hw
    exact hv⟩

theorem LedTo.entity {order : List StmtId} {id : StmtId} {p : Part}
    (hp : Met g c (· ∈ order) p) (hk : p.kind ≠ .value) : LedTo g c order id p :=
  ⟨hp, fun _ hv => absurd (hv ▸ rfl) hk⟩

theorem closed_ledTo {order : List StmtId} {id : StmtId} (hid : id ∈ order) {m : MethodId}
    (hm : c.owner id = .ok m) : Closed g m (LedTo g c order id) := by
  intro p n ⟨hp, hmentions⟩ hn q hq
  have refs (hq : q ∈ nodeRefs n) : LedTo g c order id q :=
    .entity (.ref hp hn hq) (kind_of_mem_nodeRefs hq)
  cases p with
  | value v =>
    obtain ⟨x, rfl, hx⟩ := resolves_value.mp hn
    rcases mem_valueParts.mp hq with ⟨w, hw, rfl⟩ | hq | ⟨_, rfl⟩
    · exact .value hid ((hmentions v rfl).operand ⟨x, hx, hw⟩)
    · exact refs hq
    · exact .entity (.owner hid hm) (by simp [Part.kind])
  | _ =>
    rw [nodeParts_eq_nodeRefs (by simp [hn.2, Part.kind])] at hq
    exact refs hq

theorem ledTo_of_mem_stmtParts {order : List StmtId} {id : StmtId} (hid : id ∈ order) {s : Stmt}
    (hs : g.stmt id = .ok s) {m : MethodId} (hm : c.owner id = .ok m) :
    ∀ p ∈ stmtParts m s, LedTo g c order id p := by
  intro p hp
  rcases List.mem_cons.mp hp with rfl | hp
  · exact .entity (.owner hid hm) (by simp [Part.kind])
  · obtain ⟨v, hv, rfl⟩ := List.mem_map.mp hp
    exact .value hid (.top hs hv)

namespace Exact

variable {order : List StmtId} {E : List (StmtId × StmtId)} {a : Gathered}

/-- A statement that mentions a shared value is the first one to do so if the value is not marked
yet. -/
theorem firstMention_of_not_mem_seen (h : Exact g c order E a) {id : StmtId} {v : ValueId}
    {x : Value} (hv : Mentions g id v) (hx : g.value v = .ok x) (hs : x.isShared = true)
    (hnew : v ∉ a.seen) : FirstMention g (order ++ [id]) v id := by
  refine ⟨order, [], rfl, hv, fun j hj hjv => hnew ?_⟩
  obtain ⟨m, x', hheld⟩ := h.held hj hjv
  obtain rfl : x = x' := Except.ok.inj (hx.symm.trans hheld.value)
  exact hheld.shared hs

/-- The rows that the visit of a statement adds belong to the encoding. -/
theorem fact_of_sound (h : Exact g c order E a) {id : StmtId} {s : Stmt} {m : MethodId}
    {a' : Gathered} (hs : g.stmt id = .ok s) (hm : c.owner id = .ok m)
    (hsound : Sound g m (LedTo g c (order ++ [id]) id) (a.emit (stmtRows id m s)) a') :
    ∀ r ∈ a'.rows, Fact g c (order ++ [id]) E r.rel r.tuple := by
  have hid : id ∈ order ++ [id] := by simp
  intro r hr
  rcases hsound.rows r hr with hr | ⟨v, hv, rfl⟩ | ⟨p, n, hp, hn, hnew, hr⟩
  · rcases Gathered.mem_rows_emit.mp hr with hr | hr
    · exact fact_of_mem_stmtRows hid hs hm hr
    · exact (h.rows r hr).append [id] (List.Subset.refl _)
  · exact .value hid (hv.2 v rfl)
  · by_cases hk : p.kind = .value
    · rw [part_eq_value hk] at hp hn
      obtain ⟨x, rfl, hx⟩ := resolves_value.mp hn
      have hv := hp.2 _ rfl
      refine fact_of_mem_valueRows hid hv hx hm (fun hshared => ?_) hr
      exact h.firstMention_of_not_mem_seen hv hx hshared (hnew hshared)
    · exact fact_of_mem_nodeRows hp.1 hn hk hr

theorem visitStmt (h : Exact g c order E a) {id : StmtId} {s : Stmt} {a' : Gathered}
    (hs : g.stmt id = .ok s) (hv : visitStmt g c id s a = .ok a') :
    Exact g c (order ++ [id]) E a' := by
  obtain ⟨m, hm, heven, hvisits⟩ := visits_of_visitStmt hv
  have hid : id ∈ order ++ [id] := by simp
  have hgrows : Grows a a' := (a.grows_emit _).trans hvisits.grows
  have hsound := hvisits.sound (closed_ledTo hid hm) (ledTo_of_mem_stmtParts hid hs hm)
  obtain ⟨hsettled, hcovered⟩ := hvisits.covers (h.settled.emit (stmtRows id m s))
  refine ⟨hsettled, fun j hj => ?_, fun e he => hgrows.rows _ (h.edges e he),
    h.fact_of_sound hs hm hsound, fun j hj => ?_⟩
  · rcases List.mem_append.mp hj with hj | hj
    · obtain ⟨s', m', he⟩ := h.emitted j hj
      exact ⟨s', m', he.mono hgrows⟩
    · obtain rfl := List.mem_singleton.mp hj
      refine ⟨s, m, hs, hm, heven, fun r hr => ?_, ?_, fun v hv => ?_⟩
      · exact hvisits.grows.rows r (Gathered.mem_rows_emit.mpr (.inl hr))
      · exact (hcovered (.method m) (.head _)).1 (by simp [Part.kind])
      · exact hcovered (.value v) (.tail _ (List.mem_map_of_mem hv))
  · rcases hsound.seen j hj with hj | ⟨p, n, hp, hn, honce, rfl⟩
    · obtain ⟨p, n, hp, hn, honce, hpj⟩ := h.seen j hj
      exact ⟨p, n, hp.mono fun _ => List.mem_append_left _, hn, honce, hpj⟩
    · exact ⟨p, n, hp.1, hn, honce, rfl⟩

/-- Writing edges keeps the rest. -/
theorem emit_edges (h : Exact g c order E a) (E' : List (StmtId × StmtId)) :
    Exact g c order (E ++ E') (a.emit (E'.map fun e => edgeRow e.1 e.2)) := by
  have hgrows := a.grows_emit (E'.map fun e => edgeRow e.1 e.2)
  refine ⟨h.settled.emit _, fun id hid => ?_, fun e he => ?_, fun r hr => ?_, h.seen⟩
  · obtain ⟨s, m, he⟩ := h.emitted id hid
    exact ⟨s, m, he.mono hgrows⟩
  · rcases List.mem_append.mp he with he | he
    · exact hgrows.rows _ (h.edges e he)
    · exact Gathered.mem_rows_emit.mpr (.inl (List.mem_map_of_mem he))
  · rcases Gathered.mem_rows_emit.mp hr with hr | hr
    · obtain ⟨e, he, rfl⟩ := List.mem_map.mp hr
      exact .edge (List.mem_append_right _ he)
    · simpa using (h.rows r hr).append [] (List.subset_append_left E E')

theorem congr_edges (h : Exact g c order E a) {E' : List (StmtId × StmtId)}
    (hE : ∀ e, e ∈ E ↔ e ∈ E') : Exact g c order E' a :=
  ⟨h.settled, h.emitted, fun e he => h.edges e ((hE e).mpr he),
    fun r hr => by simpa using (h.rows r hr).append [] fun e he => (hE e).mp he, h.seen⟩

end Exact

end ProgramFacts.Extraction
