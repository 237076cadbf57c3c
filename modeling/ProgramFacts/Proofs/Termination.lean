import ProgramFacts.Proofs.Exactness

/-! The runs of whole passes.  When no value is nested in itself, a pass has exactly one run,
however the targets of statements and the elements of types lead back to each other.  In it every
statement is emitted at most once from the registered ones and at most once from the stack, every
type, method and field is expanded at most once, and whenever the stack is empty the statements that
have begun are closed under targets. -/

namespace ProgramFacts.Extraction

open Program ProgramFacts.Fact ProgramFacts.Flow

variable {g : Arena} {c : FlowGraph}

/-! ## Runs of passes -/

/-- The visit of a statement and of all that it refers to, other than its targets. -/
def gathering (g : Arena) (c : FlowGraph) (id : StmtId) (s : Stmt) (a : Gathered) :
    Runs Fault Gathered :=
  (Runs.done (c.owner id)).bind fun owner =>
    (Expands g owner (.method owner :: s.operands.map .value) (a.emit (stmtRows id owner s))).bind
      fun a => (Runs.done (checkCases id s)).bind fun _ =>
        Expands g owner (s.labels.map .value) a

/-- The emission of a statement, which gives the targets that wait on the stack. -/
def emission (g : Arena) (c : FlowGraph) (origin : Origin) (id : StmtId) (p : Progress) :
    Runs Stop (List StmtId × Progress) :=
  .after (.emit origin id) <|
    match g.stmt id with
    | .error fault => .done (.error ⟨p.begun, fault⟩)
    | .ok s =>
      ((gathering g c id s p.gathered).mapError (Stop.mk (id :: p.begun))).bind fun a =>
        .done (.ok ((s.targets.filter fun target => !(id :: p.begun).contains target).reverse,
          ⟨id :: p.begun, a⟩))

/-- The emission of the statements of a stack, until it is empty. -/
inductive Drains (g : Arena) (c : FlowGraph) : List StmtId → Progress → Runs Stop Progress
  | rest {p : Progress} : Drains g c [] p [.rest [] p.begun] (.ok p)
  | skip {id : StmtId} {rest : List StmtId} {p : Progress} {events : List Event}
      {r : Except Stop Progress} :
      id ∈ p.begun → Drains g c rest p events r → Drains g c (id :: rest) p events r
  | stop {id : StmtId} {rest : List StmtId} {p : Progress} {events : List Event} {stop : Stop} :
      id ∉ p.begun → emission g c .pending id p events (.error stop) →
      Drains g c (id :: rest) p events (.error stop)
  | emit {id : StmtId} {rest waiting : List StmtId} {p q : Progress} {events events' : List Event}
      {r : Except Stop Progress} :
      id ∉ p.begun → emission g c .pending id p events (.ok (waiting, q)) →
      Drains g c (waiting ++ rest) q events' r →
      Drains g c (id :: rest) p (events ++ events') r

/-- The emission of a registered statement, everything that its targets lead to, and its edges. -/
def rooting (g : Arena) (c : FlowGraph) (p : Progress) (root : StmtId) : Runs Stop Progress :=
  (emission g c .root root p).bind fun next => (Drains g c next.1 next.2).bind fun p =>
    .done (.ok { p with gathered := p.gathered.emit ((c.successors root).map (edgeRow root)) })

def passing (g : Arena) (c : FlowGraph) : List StmtId → Progress → Runs Stop Progress
  | [], p => .done (.ok p)
  | root :: roots, p => (rooting g c p root).bind (passing g c roots)

theorem drains_nil (p : Progress) :
    Drains g c [] p = .after (.rest [] p.begun) (.done (.ok p)) := by
  refine Runs.ext fun events r => ⟨fun h => ?_, fun ⟨_, hevents, hrest, hr⟩ => ?_⟩
  · cases h
    exact ⟨[], rfl, rfl, rfl⟩
  · subst hevents hrest hr
    exact .rest

theorem drains_of_mem {id : StmtId} {rest : List StmtId} {p : Progress} (hid : id ∈ p.begun) :
    Drains g c (id :: rest) p = Drains g c rest p := by
  refine Runs.ext fun events r => ⟨fun h => ?_, .skip hid⟩
  cases h with
  | skip _ h => exact h
  | stop hnew | emit hnew => exact absurd hid hnew

theorem drains_of_not_mem {id : StmtId} {rest : List StmtId} {p : Progress} (hid : id ∉ p.begun) :
    Drains g c (id :: rest) p = (emission g c .pending id p).bind fun next =>
      Drains g c (next.1 ++ rest) next.2 := by
  refine Runs.ext fun events r => ⟨fun h => ?_, fun h => ?_⟩
  · cases h with
    | skip hmem => exact absurd hmem hid
    | stop _ h => exact .inl ⟨_, h, rfl⟩
    | emit _ h h' => exact .inr ⟨_, _, _, h, h', rfl⟩
  · rcases h with ⟨_, h, rfl⟩ | ⟨_, _, _, h, h', rfl⟩
    · exact .stop hid h
    · exact .emit hid h h'

/-! ## Every pass has one run -/

section Acyclic

variable (hacyclic : Acyclic g (Met g c (Reached g c)))
include hacyclic

theorem exactly_gathering {id : StmtId} (hid : Reached g c id) {s : Stmt}
    (hs : g.stmt id = .ok s) (a : Gathered) :
    (gathering g c id s a).Exactly (visitStmt g c id s a) := by
  refine (Runs.exactly_done _).bind fun m hm => ?_
  have hclosed : Closed g m (LedTo g c [id] id) := closed_ledTo (.head _) hm
  have hacyclic : Acyclic g (LedTo g c [id] id) := fun v hv =>
    hacyclic v (hv.1.mono fun j hj => List.mem_singleton.mp hj ▸ hid)
  have hparts : ∀ p ∈ stmtParts m s, LedTo g c [id] id p := ledTo_of_mem_stmtParts (.head _) hs hm
  rw [stmtParts, List.map_append, ← List.cons_append, List.forall_mem_append] at hparts
  exact (exactly_visitAll hclosed hacyclic hparts.1 _).bind fun a _ =>
    (Runs.exactly_done _).bind fun _ _ => exactly_visitAll hclosed hacyclic hparts.2 a

theorem exactly_emission {id : StmtId} (hid : Reached g c id) (origin : Origin) (p : Progress) :
    (emission g c origin id p).Exactly (emitStmt g c id p) := by
  refine Runs.Exactly.after ?_ _
  unfold emitStmt
  cases hs : g.stmt id with
  | error fault => exact Runs.exactly_done _
  | ok s =>
    have hrun := ((exactly_gathering hacyclic hid hs p.gathered).mapError
      (Stop.mk (id :: p.begun))).bind fun a _ =>
        Runs.exactly_done (.ok ((s.targets.filter fun t => !(id :: p.begun).contains t).reverse,
          (⟨id :: p.begun, a⟩ : Progress)))
    dsimp only
    cases hv : visitStmt g c id s p.gathered with
    | error fault | ok a =>
      rw [hv] at hrun
      exact hrun

theorem exactly_drain {stack : List StmtId} {p : Progress} (hstack : ∀ id ∈ stack, Reached g c id) :
    (Drains g c stack p).Exactly (drain g c stack p) := by
  fun_induction drain g c stack p with
  | case1 p =>
    rw [drains_nil]
    exact (Runs.exactly_done _).after _
  | case2 p id rest hnew ih =>
    rw [drains_of_mem hnew]
    exact ih fun j hj => hstack j (.tail _ hj)
  | case3 p id rest hnew stop he =>
    rw [drains_of_not_mem hnew]
    have hrun := exactly_emission hacyclic (hstack id (.head _)) .pending p
    rw [he] at hrun
    exact hrun.bind (k := fun next => drain g c (next.1 ++ rest) next.2) (by simp)
  | case4 p id rest hnew waiting mid he ih =>
    rw [drains_of_not_mem hnew]
    have hrun := exactly_emission hacyclic (hstack id (.head _)) .pending p
    rw [he] at hrun
    refine hrun.bind (k := fun next => drain g c (next.1 ++ rest) next.2) fun next hnext => ?_
    obtain rfl := Except.ok.inj hnext
    refine ih fun t ht => ?_
    rcases List.mem_append.mp ht with ht | ht
    · exact reached_of_mem_waiting (hstack id (.head _)) he ht
    · exact hstack t (.tail _ ht)

theorem exactly_rooting {root : StmtId} (hroot : root ∈ c.nodes) (p : Progress) :
    (rooting g c p root).Exactly (emitRoot g c p root) :=
  (exactly_emission hacyclic (.node hroot) .root p).bind fun _ hnext =>
    (exactly_drain hacyclic fun _ ht => reached_of_mem_waiting (.node hroot) hnext ht).bind
      fun _ _ => Runs.exactly_done _

theorem exactly_passing {roots : List StmtId} (hroots : ∀ id ∈ roots, id ∈ c.nodes)
    (p : Progress) : (passing g c roots p).Exactly (roots.foldlM (emitRoot g c) p) := by
  induction roots generalizing p with
  | nil => exact Runs.exactly_done _
  | cons root roots ih =>
    obtain ⟨hroot, hroots⟩ := List.forall_mem_cons.mp hroots
    rw [List.foldlM_cons]
    exact (exactly_rooting hacyclic hroot p).bind fun q _ => ih hroots q

end Acyclic

/-! ## What happens in a run -/

/-- What may happen after the events of `past`: no statement is taken from the stack that has been
emitted, none is taken twice from the registered ones, and no type, method or field is expanded
twice.  When the stack is done, it is empty, and all targets of the statements that have been
emitted have been emitted. -/
def Allowed (g : Arena) (past : List Event) : Event → Prop
  | .emit .root id => .emit .root id ∉ past
  | .emit .pending id => ∀ origin, .emit origin id ∉ past
  | .expand p => p.kind ≠ .value → .expand p ∉ past
  | .rest stack begun =>
    stack = [] ∧ (∀ id, id ∈ begun ↔ ∃ origin, .emit origin id ∈ past) ∧
      ∀ id ∈ begun, ∀ s, g.stmt id = .ok s → ∀ t ∈ s.targets, t ∈ begun

/-- Each of the events may happen after those before it. -/
def Orderly (g : Arena) (past events : List Event) : Prop :=
  ∀ before e rest, events = before ++ e :: rest → Allowed g (past ++ before) e

theorem orderly_nil (past : List Event) : Orderly g past [] := by
  intro before e rest h
  simp at h

theorem Orderly.cons {past events : List Event} {e : Event} (he : Allowed g past e)
    (h : Orderly g (past ++ [e]) events) : Orderly g past (e :: events) := by
  intro before e' rest hsplit
  cases before with
  | nil =>
    obtain ⟨rfl, _⟩ := List.cons.inj hsplit
    simpa using he
  | cons _ before =>
    obtain ⟨rfl, htail⟩ := List.cons.inj hsplit
    simpa using h before e' rest htail

theorem Orderly.append {past events events' : List Event} (h : Orderly g past events)
    (h' : Orderly g (past ++ events) events') : Orderly g past (events ++ events') := by
  induction events generalizing past with
  | nil => simpa using h'
  | cons e events ih =>
    refine .cons (by simpa using h [] e events rfl) (ih ?_ (by simpa using h'))
    intro before e' rest hsplit
    simpa using h (e :: before) e' rest (congrArg (e :: ·) hsplit)

namespace Runs

variable {ε ε' α β : Type} {past : List Event}

/-- Whatever run the computation has after the events of `past`, each of its events may happen, and
what it gives is as `Q` says of all events so far. -/
def Keeps (g : Arena) (past : List Event) (x : Runs ε α) (Q : List Event → α → Prop) : Prop :=
  ∀ events r, x events r → Orderly g past events ∧ ∀ a, r = .ok a → Q (past ++ events) a

theorem keeps_done {r : Except ε α} {Q : List Event → α → Prop} (h : ∀ a, r = .ok a → Q past a) :
    Keeps g past (done r) Q := by
  rintro events r' ⟨rfl, rfl⟩
  exact ⟨orderly_nil past, by simpa using h⟩

theorem Keeps.after {e : Event} {x : Runs ε α} {Q : List Event → α → Prop}
    (he : Allowed g past e) (hx : Keeps g (past ++ [e]) x Q) : Keeps g past (after e x) Q := by
  rintro events r ⟨rest, rfl, hrun⟩
  obtain ⟨horderly, hQ⟩ := hx rest r hrun
  exact ⟨.cons he horderly, by simpa using hQ⟩

theorem Keeps.mapError {x : Runs ε α} {Q : List Event → α → Prop} (hx : Keeps g past x Q)
    (f : ε → ε') : Keeps g past (x.mapError f) Q := by
  rintro events r ⟨r', hrun, rfl⟩
  obtain ⟨horderly, hQ⟩ := hx events r' hrun
  refine ⟨horderly, fun a ha => hQ a ?_⟩
  cases r' <;> simp_all [Except.mapError]

theorem Keeps.bind {x : Runs ε α} {f : α → Runs ε β} {Q : List Event → α → Prop}
    {R : List Event → β → Prop} (hx : Keeps g past x Q)
    (hf : ∀ past' a, Q past' a → Keeps g past' (f a) R) : Keeps g past (x.bind f) R := by
  rintro events r (⟨fault, hrun, rfl⟩ | ⟨first, a, rest, hrun, hrest, rfl⟩)
  · exact ⟨(hx events _ hrun).1, by simp⟩
  · obtain ⟨hfirst, hQ⟩ := hx first _ hrun
    obtain ⟨hrest, hR⟩ := hf _ a (hQ a rfl) rest r hrest
    exact ⟨hfirst.append hrest, by simpa using hR⟩

theorem Keeps.exactly {x : Runs ε α} {Q : List Event → α → Prop} (hx : Keeps g past x Q)
    {r : Except ε α} (h : x.Exactly r) : Keeps g past x fun past' a => Q past' a ∧ r = .ok a := by
  intro events r' hrun
  obtain ⟨horderly, hQ⟩ := hx events r' hrun
  exact ⟨horderly, fun a ha => ⟨hQ a ha, (h.eq hrun).symm.trans ha⟩⟩

end Runs

/-- The types, methods and fields that have been expanded are marked. -/
def Marked (past : List Event) (a : Gathered) : Prop :=
  ∀ p, .expand p ∈ past → p.kind ≠ .value → p.id ∈ a.seen

theorem Marked.allowed {past : List Event} {a : Gathered} (h : Marked past a) {p : Part}
    (hnew : p.kind ≠ .value → p.id ∉ a.seen) : Allowed g past (.expand p) :=
  fun hk hmem => hnew hk (h p hmem hk)

theorem Marked.define {past : List Event} {a : Gathered} (h : Marked past a) {p : Part} {n : Node}
    (hn : Resolves g p n) (owner : MethodId) :
    Marked (past ++ [.expand p]) (a.define owner p.id n) := by
  intro q hq hk
  rcases List.mem_append.mp hq with hq | hq
  · exact (a.grows_define owner p.id n).seen _ (h q hq hk)
  · obtain rfl := Event.expand.inj (List.mem_singleton.mp hq)
    exact Gathered.mem_seen_define.mpr (.inl ⟨once_of_kind hn.2 hk, rfl⟩)

/-- No more statements have been emitted in `past'` than in `past`. -/
def SameEmitted (past past' : List Event) : Prop :=
  ∀ origin id, .emit origin id ∈ past' ↔ .emit origin id ∈ past

theorem sameEmitted_expand (past : List Event) (p : Part) :
    SameEmitted past (past ++ [.expand p]) := by
  simp [SameEmitted]

theorem SameEmitted.trans {past mid past' : List Event} (h : SameEmitted past mid)
    (h' : SameEmitted mid past') : SameEmitted past past' :=
  fun origin id => (h' origin id).trans (h origin id)

theorem keeps_expands {past : List Event} {owner : MethodId} {ps : List Part} {a : Gathered}
    (h : Marked past a) : Runs.Keeps g past (Expands g owner ps a) fun past' a' =>
      Marked past' a' ∧ SameEmitted past past' := by
  intro events r hrun
  induction hrun generalizing past with
  | nil => exact ⟨orderly_nil past, by simpa [SameEmitted] using h⟩
  | skip he _ ih =>
    have hseen := seen_of_enter_eq_inl he
    exact ih fun p hp hk => hseen ▸ h p hp hk
  | lost he => exact ⟨.cons (h.allowed (enter_eq_error he).2) (orderly_nil _), by simp⟩
  | @within p ps a n events fault he _ ih =>
    obtain ⟨hn, hnew⟩ := enter_eq_inr he
    have hallowed : Allowed g past (.expand p) := h.allowed fun hk => hnew (once_of_kind hn.2 hk)
    exact ⟨.cons hallowed (ih (h.define hn _)).1, by simp⟩
  | @define p ps a mid n events events' r he _ _ ih ih' =>
    obtain ⟨hn, hnew⟩ := enter_eq_inr he
    have hallowed : Allowed g past (.expand p) := h.allowed fun hk => hnew (once_of_kind hn.2 hk)
    obtain ⟨hwithin, hmid⟩ := ih (h.define hn _)
    obtain ⟨hmarked, hsame⟩ := hmid mid rfl
    obtain ⟨hrest, hlast⟩ := ih' hmarked
    refine ⟨.append (.cons hallowed hwithin) (by simpa using hrest), fun a' ha' => ?_⟩
    obtain ⟨hmarked', hsame'⟩ := hlast a' ha'
    exact ⟨by simpa using hmarked',
      by simpa using ((sameEmitted_expand past p).trans hsame).trans hsame'⟩

theorem keeps_gathering {past : List Event} {id : StmtId} {s : Stmt} {a : Gathered}
    (h : Marked past a) : Runs.Keeps g past (gathering g c id s a) fun past' a' =>
      Marked past' a' ∧ SameEmitted past past' := by
  refine Runs.Keeps.bind (Q := fun past' _ => past' = past) (Runs.keeps_done fun _ _ => rfl) ?_
  rintro _ owner rfl
  refine (keeps_expands (a := a.emit (stmtRows id owner s)) h).bind ?_
  rintro past' a' ⟨hmarked, hsame⟩
  refine Runs.Keeps.bind (Q := fun past'' _ => past'' = past') (Runs.keeps_done fun _ _ => rfl) ?_
  rintro _ _ rfl
  intro events r hrun
  obtain ⟨horderly, hlast⟩ := keeps_expands hmarked events r hrun
  exact ⟨horderly, fun a'' ha'' => ⟨(hlast a'' ha'').1, hsame.trans (hlast a'' ha'').2⟩⟩

/-- The statements that have begun are those that have been emitted. -/
structure Recounts (past : List Event) (p : Progress) : Prop where
  begun : ∀ id, id ∈ p.begun ↔ ∃ origin, .emit origin id ∈ past
  marked : Marked past p.gathered

theorem Recounts.allowed {past : List Event} {p : Progress} (h : Recounts past p) {id : StmtId}
    (hid : id ∉ p.begun) : Allowed g past (.emit .pending id) :=
  fun origin hmem => hid ((h.begun id).mpr ⟨origin, hmem⟩)

theorem keeps_emission {past : List Event} {p : Progress} (h : Recounts past p) {origin : Origin}
    {id : StmtId} (hallowed : Allowed g past (.emit origin id)) :
    Runs.Keeps g past (emission g c origin id p) fun past' next => Recounts past' next.2 ∧
      ∀ o j, .emit o j ∈ past' ↔ .emit o j ∈ past ∨ o = origin ∧ j = id := by
  refine .after hallowed ?_
  cases hs : g.stmt id with
  | error fault => exact Runs.keeps_done (by simp)
  | ok s =>
    have hmarked : Marked (past ++ [.emit origin id]) p.gathered := by
      simpa [Marked] using h.marked
    refine ((keeps_gathering hmarked).mapError _).bind fun past' a hpast' =>
      Runs.keeps_done fun next hnext => ?_
    obtain rfl := Except.ok.inj hnext
    obtain ⟨hmarked', hsame⟩ := hpast'
    have hemitted (o : Origin) (j : StmtId) :
        .emit o j ∈ past' ↔ .emit o j ∈ past ∨ o = origin ∧ j = id := by
      rw [hsame o j]
      simp
    refine ⟨⟨fun j => ?_, hmarked'⟩, hemitted⟩
    simp only [hemitted, List.mem_cons, h.begun j, exists_or, exists_eq_left, or_comm]

section Acyclic

variable (hacyclic : Acyclic g (Met g c (Reached g c)))
include hacyclic

theorem keeps_drains {past : List Event} {E : List (StmtId × StmtId)} {stack : List StmtId}
    {p : Progress} (hw : Worklist g c E stack p) (h : Recounts past p) :
    Runs.Keeps g past (Drains g c stack p) fun past' q => Recounts past' q ∧
      ∀ id, .emit .root id ∈ past' ↔ .emit .root id ∈ past := by
  intro events r hrun
  induction hrun generalizing past with
  | @rest p =>
    refine ⟨.cons ⟨rfl, h.begun, fun id hid s hs t ht => ?_⟩ (orderly_nil _), ?_⟩
    · exact (hw.targets id hid s hs t ht).resolve_right (by simp)
    · rintro q hq
      obtain rfl := Except.ok.inj hq
      exact ⟨⟨by simpa using h.begun, by simpa [Marked] using h.marked⟩, by simp⟩
  | skip hid _ ih => exact ih (hw.pop hid) h
  | stop hid hrun =>
    exact ⟨(keeps_emission h (h.allowed hid) _ _ hrun).1, by simp⟩
  | @emit id rest waiting p q events events' r hid hrun _ ih =>
    have hreached : Reached g c id := hw.waiting id (.head _)
    have he := (exactly_emission hacyclic hreached .pending p).eq hrun
    obtain ⟨hfirst, hmid⟩ := keeps_emission h (h.allowed hid) _ _ hrun
    obtain ⟨hrecounts, hemitted⟩ := hmid _ rfl
    have hmem : id ∈ q.begun := (emitStmt_ok he.symm).2 ▸ .head _
    obtain ⟨hrest, hlast⟩ := ih ((hw.emitStmt hreached he.symm).drop hmem) hrecounts
    refine ⟨hfirst.append hrest, fun q' hq' => ?_⟩
    obtain ⟨hrecounts', hroots⟩ := hlast q' hq'
    refine ⟨by simpa using hrecounts', fun j => ?_⟩
    rw [← List.append_assoc, hroots j, hemitted]
    simp

theorem keeps_rooting {past : List Event} {E : List (StmtId × StmtId)} {p : Progress}
    (hw : Worklist g c E [] p) (h : Recounts past p) {root : StmtId} (hroot : root ∈ c.nodes)
    (hnew : .emit .root root ∉ past) :
    Runs.Keeps g past (rooting g c p root) fun past' q =>
      (Recounts past' q ∧ ∀ id, .emit .root id ∈ past' → .emit .root id ∈ past ∨ id = root) ∧
        emitRoot g c p root = .ok q := by
  refine Runs.Keeps.exactly ?_ (exactly_rooting hacyclic hroot p)
  have hallowed : Allowed g past (.emit .root root) := hnew
  have hemission := exactly_emission hacyclic (.node hroot) .root p
  refine ((keeps_emission h hallowed).exactly hemission).bind fun mid next hnext => ?_
  obtain ⟨⟨hrecounts, hemitted⟩, he⟩ := hnext
  have hwaiting : Worklist g c E next.1 next.2 := by
    simpa using hw.emitStmt (.node hroot) he
  refine (keeps_drains hacyclic hwaiting hrecounts).bind fun past' q hq =>
    Runs.keeps_done fun q' hq' => ?_
  obtain rfl := Except.ok.inj hq'
  obtain ⟨hrecounts', hroots⟩ := hq
  refine ⟨⟨hrecounts'.begun, hrecounts'.marked⟩, fun id hid => ?_⟩
  rw [hroots id, hemitted] at hid
  exact hid.imp_right And.right

theorem keeps_passing {roots : List StmtId} (hroots : ∀ id ∈ roots, id ∈ c.nodes)
    (hnodup : roots.Nodup) {past : List Event} {E : List (StmtId × StmtId)} {p : Progress}
    (hw : Worklist g c E [] p) (h : Recounts past p)
    (hnew : ∀ id ∈ roots, .emit .root id ∉ past) :
    Runs.Keeps g past (passing g c roots p) fun _ _ => True := by
  induction roots generalizing past E p with
  | nil => exact Runs.keeps_done fun _ _ => trivial
  | cons root roots ih =>
    obtain ⟨hroot, hroots⟩ := List.forall_mem_cons.mp hroots
    obtain ⟨hnewroot, hnew⟩ := List.forall_mem_cons.mp hnew
    obtain ⟨hnotIn, hnodup⟩ := List.nodup_cons.mp hnodup
    refine (keeps_rooting hacyclic hw h hroot hnewroot).bind fun past' q hq => ?_
    obtain ⟨⟨hrecounts, hpast'⟩, he⟩ := hq
    refine ih hroots hnodup (hw.emitRoot hroot he).1 hrecounts fun id hid hmem => ?_
    rcases hpast' id hmem with hmem | rfl
    · exact hnew id hid hmem
    · exact hnotIn hid

end Acyclic

theorem orderly_pass (hacyclic : Acyclic g (Met g c (Reached g c))) {events : List Event}
    {r : Except Stop Progress} (hrun : passing g c c.nodes ⟨[], .empty⟩ events r) :
    Orderly g [] events := by
  have hempty : Worklist g c [] [] ⟨[], .empty⟩ := by
    constructor <;> simp [exact_empty]
  have hrecounts : Recounts [] ⟨[], .empty⟩ := ⟨by simp, by simp [Marked]⟩
  exact (keeps_passing hacyclic (fun _ hid => hid) c.nodes_nodup hempty hrecounts (by simp)
    events r hrun).1

theorem count_le_one {α : Type} [DecidableEq α] {a : α} {l : List α}
    (h : ∀ before rest, l = before ++ a :: rest → a ∉ before) : l.count a ≤ 1 := by
  by_contra hcount
  have hmem : a ∈ l := List.count_pos_iff.mp (by omega)
  obtain ⟨before, rest, rfl⟩ := List.append_of_mem hmem
  have hbefore : before.count a = 0 := List.count_eq_zero.mpr (h before rest rfl)
  have hrest : 0 < rest.count a := by
    rw [List.count_append, List.count_cons_self] at hcount
    omega
  obtain ⟨mid, last, rfl⟩ := List.append_of_mem (List.count_pos_iff.mp hrest)
  exact h (before ++ a :: mid) last (by simp) (by simp)

/-- When no value that a pass visits is nested in itself, the pass has exactly one run without any
bound on its depth, and it ends as the pass does, whatever else leads back to itself: targets of
statements, or elements of types.  In this run each statement is emitted at most once from the
registered statements and at most once from the stack, and not from the stack once it has been
emitted; each type, method and field is expanded at most once; and whenever the statements of the
stack are done, the stack is empty and all targets of emitted statements have been emitted. -/
theorem pass_settles (hacyclic : Acyclic g (Met g c (Reached g c))) :
    ∃ events, (∀ events' r, passing g c c.nodes ⟨[], .empty⟩ events' r ↔
        events' = events ∧ r = pass g c) ∧
      (∀ id, events.count (.emit .root id) ≤ 1 ∧ events.count (.emit .pending id) ≤ 1) ∧
      (∀ before id rest, events = before ++ .emit .pending id :: rest →
        ∀ origin, .emit origin id ∉ before) ∧
      (∀ p : Part, p.kind ≠ .value → events.count (.expand p) ≤ 1) ∧
      ∀ before stack begun rest, events = before ++ .rest stack begun :: rest →
        stack = [] ∧ (∀ id, id ∈ begun ↔ ∃ origin, .emit origin id ∈ before) ∧
          ∀ id ∈ begun, ∀ s, g.stmt id = .ok s → ∀ t ∈ s.targets, t ∈ begun := by
  obtain ⟨events, hrun⟩ := exactly_passing hacyclic (fun _ hid => hid) ⟨[], .empty⟩
  have horderly := orderly_pass hacyclic ((hrun events _).mpr ⟨rfl, rfl⟩)
  have hpending (before : List Event) (id : StmtId) (rest : List Event)
      (h : events = before ++ .emit .pending id :: rest) (origin : Origin) :
      .emit origin id ∉ before := horderly before _ rest h origin
  refine ⟨events, hrun, fun id => ⟨?_, ?_⟩, hpending, fun p hk => ?_,
    fun before stack begun rest h => horderly before _ rest h⟩
  · exact count_le_one fun before rest h => horderly before _ rest h
  · exact count_le_one fun before rest h => hpending before id rest h .pending
  · exact count_le_one fun before rest h => horderly before _ rest h hk

/-- A jump to itself in a method whose types are arrays of each other. -/
def knot : Arena :=
  ⟨#[.type (.array ⟨1⟩), .type (.array ⟨0⟩), .method ⟨"run", "A", true, ⟨0⟩, [⟨1⟩]⟩,
    .stmt (.goto ⟨3⟩)]⟩

/-- The control flow of `knot`. -/
def knotFlow : FlowGraph := (FlowGraph.empty.insertEdge ⟨3⟩ ⟨3⟩).setOwner ⟨3⟩ ⟨2⟩

theorem pass_settles_knot : Acyclic knot (Met knot knotFlow (Reached knot knotFlow)) ∧
    ∃ events, passing knot knotFlow knotFlow.nodes ⟨[], .empty⟩ events (pass knot knotFlow) ∧
      events.count (.emit .pending ⟨3⟩) ≤ 1 ∧ events.count (.expand (.type ⟨0⟩)) ≤ 1 := by
  have hacyclic : Acyclic knot (Met knot knotFlow (Reached knot knotFlow)) :=
    acyclic_of_valuesEarlier (by decide) _
  obtain ⟨events, hrun, hemitted, _, hexpanded, _⟩ := pass_settles hacyclic
  exact ⟨hacyclic, events, (hrun events _).mpr ⟨rfl, rfl⟩, (hemitted ⟨3⟩).2,
    hexpanded (.type ⟨0⟩) (by simp [Part.kind])⟩

end ProgramFacts.Extraction
