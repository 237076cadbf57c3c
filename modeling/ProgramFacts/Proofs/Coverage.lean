import ProgramFacts.Proofs.Visit

/-! A visit covers all that its parts lead to.  Marked nodes have their rows, and whatever they name
is marked too, apart from the nodes whose visit has not ended: these are carried along as a list. -/

namespace ProgramFacts.Extraction

open Program ProgramFacts.Fact ProgramFacts.Flow

variable {g : Arena} {owner : MethodId}

/-- The values in the operand tree of a value, itself among them. -/
def Within (g : Arena) : ValueId → ValueId → Prop := Relation.ReflTransGen (Operand g)

/-- A value has its rows, and what it names is marked; a shared one is marked itself. -/
structure Held (g : Arena) (owner : MethodId) (a : Gathered) (v : ValueId) (x : Value) : Prop where
  value : g.value v = .ok x
  occurrence : occurrenceRow v ∈ a.rows
  shared : x.isShared = true → v ∈ a.seen
  rows : x.isShared = false → ∀ r ∈ valueRows v owner x, r ∈ a.rows
  refs : x.isShared = false → ∀ q ∈ valueRefs x, q.id ∈ a.seen

/-- A type, method or field is marked; of a value, the whole operand tree is held. -/
def Covered (g : Arena) (owner : MethodId) (a : Gathered) (p : Part) : Prop :=
  (p.kind ≠ .value → p.id ∈ a.seen) ∧
    (p.kind = .value → ∀ w, Within g p.id w → ∃ x, Held g owner a w x)

/-- The node of a marked token has its rows, in the statement of some owner, and what it names is
marked, unless the token is `open_`. -/
structure Settled (g : Arena) (open_ : List NodeId) (a : Gathered) (id : NodeId) (n : Node) :
    Prop where
  node : g.node? id = some n
  once : once n = true
  rows : ∃ owner, ∀ r ∈ nodeRows id owner n, r ∈ a.rows
  refs : id ∉ open_ → ∀ q ∈ nodeRefs n, q.id ∈ a.seen

/-- Every mark is settled. -/
def AllSettled (g : Arena) (open_ : List NodeId) (a : Gathered) : Prop :=
  ∀ id ∈ a.seen, ∃ n, Settled g open_ a id n

theorem Held.mono {a a' : Gathered} (h : Grows a a') {v : ValueId} {x : Value}
    (hx : Held g owner a v x) : Held g owner a' v x :=
  ⟨hx.value, h.rows _ hx.occurrence, fun hs => h.seen _ (hx.shared hs),
    fun hs r hr => h.rows _ (hx.rows hs r hr), fun hs q hq => h.seen _ (hx.refs hs q hq)⟩

theorem Covered.mono {a a' : Gathered} (h : Grows a a') {p : Part} (hp : Covered g owner a p) :
    Covered g owner a' p :=
  ⟨fun hk => h.seen _ (hp.1 hk), fun hk w hw => (hp.2 hk w hw).imp fun _ => Held.mono h⟩

theorem Settled.mono {open_ : List NodeId} {a a' : Gathered} (h : Grows a a') {id : NodeId}
    {n : Node} (hn : Settled g open_ a id n) : Settled g open_ a' id n :=
  ⟨hn.node, hn.once, hn.rows.imp fun _ hr r h' => h.rows _ (hr r h'),
    fun ho q hq => h.seen _ (hn.refs ho q hq)⟩

theorem AllSettled.emit {open_ : List NodeId} {a : Gathered} (h : AllSettled g open_ a)
    (rows : List Row) : AllSettled g open_ (a.emit rows) :=
  fun id hid => (h id hid).imp fun _ hn => hn.mono (a.grows_emit rows)

/-- A shared value that is marked is covered by its occurrence: it has no operands. -/
theorem covered_of_shared {a : Gathered} {v : ValueId} {x : Value} (hx : g.value v = .ok x)
    (hs : x.isShared = true) (hocc : occurrenceRow v ∈ a.rows) (hseen : v ∈ a.seen) :
    Covered g owner a (.value v) := by
  refine ⟨fun hk => absurd rfl hk, fun _ w hw => ?_⟩
  rcases Relation.ReflTransGen.cases_head hw with rfl | ⟨u, ⟨y, hy, hu⟩, _⟩
  · exact ⟨x, hx, hocc, fun _ => hseen, by simp [hs], by simp [hs]⟩
  · obtain rfl : x = y := Except.ok.inj (hx.symm.trans hy)
    simp [operands_of_isShared hs] at hu

/-- A value is covered when it is held and its operands are covered. -/
theorem covered_of_operands {a : Gathered} {v : ValueId} {x : Value} (hx : Held g owner a v x)
    (hops : ∀ w ∈ x.operands, Covered g owner a (.value w)) : Covered g owner a (.value v) := by
  refine ⟨fun hk => absurd rfl hk, fun _ w hw => ?_⟩
  rcases Relation.ReflTransGen.cases_head hw with rfl | ⟨u, ⟨y, hy, hu⟩, huw⟩
  · exact ⟨x, hx⟩
  · obtain rfl : x = y := Except.ok.inj (hx.value.symm.trans hy)
    exact (hops u hu).2 rfl w huw

/-- A node that has just been marked is settled but for what it names. -/
theorem allSettled_define {open_ : List NodeId} {a : Gathered} (h : AllSettled g open_ a)
    {p : Part} {n : Node} (hn : Resolves g p n) :
    AllSettled g (p.id :: open_) (a.define owner p.id n) := by
  intro id hid
  rcases Gathered.mem_seen_define.mp hid with ⟨ho, rfl⟩ | hid
  · exact ⟨n, hn.1, ho, ⟨owner, fun r hr => Gathered.mem_rows_define.mpr (.inl hr)⟩,
      fun hopen => absurd (List.mem_cons_self ..) hopen⟩
  · obtain ⟨m, hm⟩ := h id hid
    have hm := hm.mono (a.grows_define owner p.id n)
    exact ⟨m, hm.node, hm.once, hm.rows, fun hopen => hm.refs fun h' => hopen (.tail _ h')⟩

/-- When the parts of a node are covered, it is no longer open. -/
theorem AllSettled.close {open_ : List NodeId} {a : Gathered} {p : Part} {n : Node}
    (h : AllSettled g (p.id :: open_) a) (hn : Resolves g p n)
    (hparts : ∀ q ∈ nodeParts owner n, Covered g owner a q) : AllSettled g open_ a := by
  intro id hid
  obtain ⟨m, hm⟩ := h id hid
  refine ⟨m, hm.node, hm.once, hm.rows, fun hopen q hq => ?_⟩
  by_cases hp : id = p.id
  · obtain rfl : m = n := Option.some.inj (hm.node.symm.trans (hp ▸ hn.1))
    exact (hparts q (mem_nodeParts_of_mem_nodeRefs hq)).1 (kind_of_mem_nodeRefs hq)
  · exact hm.refs (by simpa [hp] using hopen) q hq

/-- A node that has its rows is covered when its parts are. -/
theorem covered_of_parts {a a' : Gathered} {p : Part} {n : Node} (hn : Resolves g p n)
    (hgrows : Grows (a.define owner p.id n) a')
    (hparts : ∀ q ∈ nodeParts owner n, Covered g owner a' q) : Covered g owner a' p := by
  by_cases hk : p.kind = .value
  · rw [part_eq_value hk] at hn ⊢
    obtain ⟨x, rfl, hx⟩ := resolves_value.mp hn
    have hocc : occurrenceRow p.id ∈ a'.rows :=
      hgrows.rows _ (Gathered.mem_rows_define.mpr (.inr (.inl (List.mem_singleton.mpr rfl))))
    cases hs : x.isShared with
    | true =>
      exact covered_of_shared hx hs hocc
        (hgrows.seen _ (Gathered.mem_seen_define.mpr (.inl ⟨hs, rfl⟩)))
    | false =>
      refine covered_of_operands ⟨hx, hocc, by simp [hs], fun _ r hr => ?_, fun _ q hq => ?_⟩
        fun w hw => hparts _ (mem_valueParts.mpr (.inl ⟨w, hw, rfl⟩))
      · exact hgrows.rows _ (Gathered.mem_rows_define.mpr (.inl hr))
      · exact (hparts q (mem_valueParts.mpr (.inr (.inl hq)))).1 (kind_of_mem_valueRefs hq)
  · refine ⟨fun _ => hgrows.seen _ ?_, fun hv => absurd hv hk⟩
    exact Gathered.mem_seen_define.mpr (.inl ⟨once_of_kind hn.2 hk, rfl⟩)

/-- A visit keeps every mark settled and covers its parts. -/
theorem Visits.covers {ps : List Part} {a a' : Gathered} (h : Visits g owner ps a a')
    {open_ : List NodeId} (ha : AllSettled g open_ a) :
    AllSettled g open_ a' ∧ ∀ p ∈ ps, Covered g owner a' p := by
  induction h generalizing open_ with
  | nil => exact ⟨ha, by simp⟩
  | @skip p ps a a' hk hseen hps ih =>
    obtain ⟨hsettled, hcovered⟩ := ih ha
    refine ⟨hsettled, List.forall_mem_cons.mpr ⟨?_, hcovered⟩⟩
    exact ⟨fun _ => hps.grows.seen _ hseen, fun hv => absurd hv hk⟩
  | @again id v ps a a' hv hs hseen hps ih =>
    obtain ⟨hsettled, hcovered⟩ := ih (ha.emit _)
    refine ⟨hsettled, List.forall_mem_cons.mpr ⟨?_, hcovered⟩⟩
    refine covered_of_shared hv hs (hps.grows.rows _ ?_) (hps.grows.seen _ hseen)
    exact Gathered.mem_rows_emit.mpr (.inl (List.mem_singleton.mpr rfl))
  | @define p n ps a mid a' hn hnew hparts hps ihParts ih =>
    obtain ⟨hmid, hcovParts⟩ := ihParts (allSettled_define ha hn)
    obtain ⟨hsettled, hcovered⟩ := ih (hmid.close hn hcovParts)
    refine ⟨hsettled, List.forall_mem_cons.mpr ⟨?_, hcovered⟩⟩
    exact (covered_of_parts hn hparts.grows hcovParts).mono hps.grows

end ProgramFacts.Extraction
