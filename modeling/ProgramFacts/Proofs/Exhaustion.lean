import ProgramFacts.Proofs.Eligibility
import ProgramFacts.Proofs.Endurance

/-! When the built-in rules have nothing left to do.  The search tests every operand slot that the
registered statements lead to, though it visits each statement once and inside one path only, so it
finds nothing exactly if no such slot is eligible; and a session applies no more mutations than its
first program has eligible slots. -/

namespace ProgramFacts

open Program ProgramFacts.Flow ProgramFacts.Random Extraction

namespace Mutation

variable {g : Arena} {c : FlowGraph} {rules : List Rule}

/-- The operand slots of the statements that the registered ones lead to, and of the values in these
slots, and so on, with what they hold. -/
inductive Occurs (g : Arena) (c : FlowGraph) : Slot → ValueId → Prop
  | top {id : StmtId} {s : Stmt} {i : Nat} {v : ValueId} :
      Reached g c id → g.stmt id = .ok s → s.operands[i]? = some v → Occurs g c ⟨id, i⟩ v
  | inner {slot : Slot} {v w : ValueId} {x : Value} {i : Nat} :
      Occurs g c slot v → g.value v = .ok x → x.operands[i]? = some w → Occurs g c ⟨v, i⟩ w

theorem Place.occurs {ancestors : List NodeId} {slot : Slot} {v : ValueId}
    (h : Place g c ancestors slot v) : Occurs g c slot v := by
  induction h with
  | top hid hs hv => exact .top hid.reached hs hv
  | inner _ hx hw ih => exact .inner ih hx hw

/-! ## What a search that finds nothing has tested -/

/-- The value in the slot has been tested inside some path to it, and then all that is inside it,
and no rule applied. -/
def Tested (g : Arena) (rules : List Rule) (slot : Slot) (v : ValueId) : Prop :=
  ∃ ancestors x asked asked', ancestors.getLast? = some slot.parent ∧
    Tries g rules ancestors slot v (.ok x) asked ∧
    Descends g rules (ancestors ++ [v]) (held v x.operands) (.ok ()) asked'

/-- All that the statement holds has been tested, and its targets are among the visited ones. -/
def Finished (g : Arena) (rules : List Rule) (visited : List StmtId) (id : StmtId) : Prop :=
  ∃ s, g.stmt id = .ok s ∧ (∀ t ∈ s.targets, t ∈ visited) ∧
    ∀ e ∈ held id s.operands, Tested g rules e.1 e.2

theorem Descends.tested {ancestors : List NodeId} {places : List (Slot × ValueId)}
    {asked : List Query}
    (h : Descends g rules ancestors places (.ok ()) asked)
    (hplaces : ∀ e ∈ places, ancestors.getLast? = some e.1.parent) :
    ∀ e ∈ places, Tested g rules e.1 e.2 := by
  generalize he : (Except.ok () : Except Halt Unit) = ending at h
  induction h with
  | nil => simp
  | stop => contradiction
  | inside => contradiction
  | next ht hd _ _ ih =>
    obtain ⟨hlast, hrest⟩ := List.forall_mem_cons.mp hplaces
    exact List.forall_mem_cons.mpr ⟨⟨_, _, _, _, hlast, ht, hd⟩, ih hrest he⟩

theorem Descends.tested_held {parent : NodeId} {ancestors : List NodeId} {operands : List ValueId}
    {asked : List Query}
    (h : Descends g rules (ancestors ++ [parent]) (held parent operands) (.ok ()) asked) :
    ∀ e ∈ held parent operands, Tested g rules e.1 e.2 := by
  refine h.tested ?_
  rintro ⟨slot, v⟩ he
  obtain ⟨i, _, rfl⟩ := mem_held.mp he
  exact List.getLast?_concat ..

theorem Tested.inner {slot : Slot} {v w : ValueId} {x : Value} {i : Nat}
    (h : Tested g rules slot v) (hx : g.value v = .ok x) (hw : x.operands[i]? = some w) :
    Tested g rules ⟨v, i⟩ w := by
  obtain ⟨ancestors, x', _, _, _, ht, hd⟩ := h
  cases ht with
  | quiet hx' _ =>
    obtain rfl := Except.ok.inj (hx.symm.trans hx')
    exact hd.tested_held _ (mem_held.mpr ⟨i, hw, rfl⟩)

theorem Tested.not_applies {slot : Slot} {v : ValueId} (h : Tested g rules slot v) :
    ∃ ancestors, ancestors.getLast? = some slot.parent ∧
      ∀ rule ∈ rules, rule.applies g v ancestors ≠ .ok true := by
  obtain ⟨ancestors, _, _, _, hlast, ht, _⟩ := h
  refine ⟨ancestors, hlast, fun rule hrule happlies => ?_⟩
  cases ht with
  | quiet _ hanswers =>
    have hnone := List.filter_eq_nil_iff.mp hanswers.eq_filter.1.symm rule hrule
    simp [happlies] at hnone

theorem Tested.not_eligible {slot : Slot} {v : ValueId} (h : Tested g builtInRules slot v) :
    ¬Eligible g slot v := by
  intro he
  obtain ⟨ancestors, hlast, hnone⟩ := h.not_applies
  obtain ⟨rule, hrule, happlies⟩ := (eligible_iff hlast he.slot).mp he
  exact hnone rule hrule happlies

theorem Finished.mono {visited visited' : List StmtId} {id : StmtId}
    (h : Finished g rules visited id) (hsub : visited ⊆ visited') :
    Finished g rules visited' id := by
  obtain ⟨s, hs, htargets, htested⟩ := h
  exact ⟨s, hs, fun t ht => hsub (htargets t ht), htested⟩

/-- What a visit adds to the visited statements it finishes, and its tasks are among them. -/
theorem Explores.finished {visited visited' : List StmtId} {tasks : List (StmtId × List NodeId)}
    {asked : List Query} (h : Explores g rules visited tasks (.ok visited') asked) :
    visited ⊆ visited' ∧ (∀ e ∈ tasks, e.1 ∈ visited') ∧
      ∀ id ∈ visited', id ∈ visited ∨ Finished g rules visited' id := by
  generalize he : (Except.ok visited' : Except Halt (List StmtId)) = ending at h
  induction h generalizing visited' with
  | nil =>
    obtain rfl := Except.ok.inj he
    exact ⟨List.Subset.refl _, by simp, fun id hid => .inl hid⟩
  | again hid _ ih =>
    obtain ⟨hsub, htasks, hfinished⟩ := ih he
    exact ⟨hsub, List.forall_mem_cons.mpr ⟨hsub hid, htasks⟩, hfinished⟩
  | lost => contradiction
  | stop => contradiction
  | inside => contradiction
  | @next visited mid id s ancestors rest ending _ _ _ hnew hs hd _ _ ihTargets ih =>
    obtain ⟨hsubTargets, htargets, hfinishedTargets⟩ := ihTargets rfl
    obtain ⟨hsub, htasks, hfinished⟩ := ih he
    have hid : id ∈ visited' := hsub (hsubTargets (.head _))
    -- this step finishes `id`, the visit of its targets what that adds, and the visit of the rest
    -- all else
    refine ⟨fun j hj => hsub (hsubTargets (.tail _ hj)),
      List.forall_mem_cons.mpr ⟨hid, htasks⟩, fun j hj => ?_⟩
    rcases hfinished j hj with hj | hj
    · rcases hfinishedTargets j hj with hj | hj
      · rcases List.mem_cons.mp hj with rfl | hj
        · have htargets (t : StmtId) (ht : t ∈ s.targets) : t ∈ visited' :=
            hsub (htargets (t, ancestors ++ [j]) (List.mem_map_of_mem ht))
          exact .inr ⟨s, hs, htargets, hd.tested_held⟩
        · exact .inl hj
      · exact .inr (hj.mono hsub)
    · exact .inr hj

section Explored

variable {visited : List StmtId} {asked : List Query}
  (h : Explores g rules [] (roots c) (.ok visited) asked)
include h

theorem Explores.finished_of_reached {id : StmtId} (hid : Reached g c id) :
    Finished g rules visited id := by
  obtain ⟨_, htasks, hfinished⟩ := h.finished
  have hvisited : id ∈ visited := by
    induction hid with
    | node hid => exact htasks (_, []) (List.mem_map_of_mem hid)
    | target _ hs ht ih =>
      obtain ⟨s', hs', htargets, _⟩ := (hfinished _ ih).resolve_left List.not_mem_nil
      obtain rfl := Except.ok.inj (hs.symm.trans hs')
      exact htargets _ ht
  exact (hfinished id hvisited).resolve_left List.not_mem_nil

/-- A search that finds nothing has tested every slot that the registered statements lead to. -/
theorem Explores.tested {slot : Slot} {v : ValueId} (hv : Occurs g c slot v) :
    Tested g rules slot v := by
  induction hv with
  | top hid hs hv =>
    obtain ⟨s', hs', _, htested⟩ := h.finished_of_reached hid
    obtain rfl := Except.ok.inj (hs.symm.trans hs')
    exact htested _ (mem_held.mpr ⟨_, hv, rfl⟩)
  | inner _ hx hw ih => exact ih.inner hx hw

end Explored

/-! ## Attempts that find nothing -/

/-- An attempt with the built-in rules finds nothing exactly if none of the slots that the
registered statements lead to is eligible. -/
theorem nothing_found_iff (hkinds : WellKinded g c) (hacyclic : Acyclic g (Met g c (Reached g c)))
    (policy : IdentityPolicy) (r : Generator) :
    ((Mutator.builtIn policy).mutate g c r).result = .ok none ↔
      ∀ slot v, Occurs g c slot v → ¬Eligible g slot v := by
  -- both sides speak of the one course that the recursion takes, which does not fail
  obtain ⟨ending, asked, he, hfinds⟩ := exists_explores_builtIn hkinds hacyclic
  have hask : (search g c (Mutator.builtIn policy).rules).ask = (outcome ending, asked) :=
    (explores_iff hacyclic).mp ⟨ending, he, rfl⟩
  rw [result_eq_none_iff, hask]
  match ending, he, hfinds with
  | .ok visited, he, _ => exact iff_of_true rfl fun slot v hv => (he.tested hv).not_eligible
  | .error (.error failure), _, hfinds =>
    obtain ⟨_, hhalt, _⟩ := hfinds _ rfl
    contradiction
  | .error (.ok p), he, _ =>
    refine iff_of_false nofun fun hnone => ?_
    obtain ⟨_, hhalts⟩ := he.proper trail_of_mem_roots
    obtain ⟨ancestors, x, count, hplace, _, hanswers⟩ := hhalts _ rfl
    obtain ⟨hmem, happlies⟩ := hanswers.applies (.head _)
    exact hnone p.slot p.node hplace.occurs
      ((eligible_iff hplace.enclosed.last hplace.enclosed.slot).mpr ⟨_, hmem, happlies⟩)

/-- The control flow of `indexed` with only the second assignment registered. -/
def accessFlow : FlowGraph := FlowGraph.empty.insertNode ⟨7⟩

theorem reached_indexed {id : StmtId} (h : Reached indexed accessFlow id) : id = ⟨7⟩ := by
  have hnodes : accessFlow.nodes = [⟨7⟩] := by decide +kernel
  induction h with
  | node hid => exact List.mem_singleton.mp (hnodes ▸ hid)
  | target _ hs ht ih =>
    subst ih
    obtain rfl := Except.ok.inj hs
    contradiction

/-- The slots that the second assignment leads to, with what they hold. -/
def accessSlots : List (Slot × ValueId) :=
  held ⟨7⟩ [⟨2⟩, ⟨5⟩] ++ held ⟨5⟩ [⟨3⟩, ⟨4⟩]

theorem occurs_indexed {slot : Slot} {v : ValueId} (h : Occurs indexed accessFlow slot v) :
    (slot, v) ∈ accessSlots := by
  have hclosed : ∀ e ∈ accessSlots, ∀ x ∈ (indexed.value e.2).toOption,
      ∀ e' ∈ held e.2 x.operands, e' ∈ accessSlots := by decide +kernel
  induction h with
  | top hid hs hv =>
    obtain rfl := reached_indexed hid
    obtain rfl := Except.ok.inj hs
    exact List.mem_append_left _ (mem_held.mpr ⟨_, hv, rfl⟩)
  | inner _ hx hw ih =>
    exact hclosed _ ih _ (congrArg Except.toOption hx) _ (mem_held.mpr ⟨_, hw, rfl⟩)

/-- The search leaves the constant in the access alone, and it does not see the other assignment. -/
theorem nothing_found_indexed : WellKinded indexed accessFlow ∧
    Acyclic indexed (Met indexed accessFlow (Reached indexed accessFlow)) ∧
      ((Mutator.builtIn .preserve).mutate indexed accessFlow (.ofSeed 0)).result = .ok none := by
  have hkinds : WellKinded indexed accessFlow := wellKinded_of_tokensFit (by decide +kernel)
  have hacyclic := acyclic_of_valuesEarlier (g := indexed) (by decide)
    (Met indexed accessFlow (Reached indexed accessFlow))
  refine ⟨hkinds, hacyclic, ?_⟩
  have hslots : ∀ e ∈ accessSlots, ¬Eligible indexed e.1 e.2 := by decide +kernel
  exact (nothing_found_iff hkinds hacyclic .preserve (.ofSeed 0)).mpr
    fun slot v hv => hslots _ (occurs_indexed hv)

/-- A mutation by the built-in rules leaves fewer slots of the whole arena eligible. -/
theorem eligibleCount_lt_of_result (hacyclic : Acyclic g (Met g c (Reached g c)))
    (hsize : g.size < UInt32.size) {policy : IdentityPolicy} {r : Generator} {m : Edit}
    (hm : ((Mutator.builtIn policy).mutate g c r).result = .ok (some m)) :
    eligibleCount ((Mutator.builtIn policy).mutate g c r).arena < eligibleCount g := by
  obtain ⟨rule, happlies⟩ := applies_of_result hacyclic hsize hm
  exact (happlies.patched hsize hacyclic).eligibleCount_lt happlies.eligible (Nat.le_of_lt hsize)
    (Nat.le_trans (size_mutate_le ..) hsize)

end Mutation

namespace Session

open Mutation

variable {σ : Type} {g : Arena} {c : FlowGraph} {config : Config} {ops : Sink σ}

/-! ## Sessions -/

/-- The programs of a session lose an eligible slot at least with every mutation. -/
theorem eligibleCount_programAt (hacyclic : Acyclic g (Met g c (Reached g c))) {k : Nat}
    {gk : Arena} {r : Generator} (hk : programAt (.builtIn config c ops) g k = some (gk, r))
    (hsize : gk.size < UInt32.size) :
    Acyclic gk (Met gk c (Reached gk c)) ∧ eligibleCount gk + k ≤ eligibleCount g := by
  refine of_programAt
    (P := fun k gk => Acyclic gk (Met gk c (Reached gk c)) ∧ eligibleCount gk + k ≤ eligibleCount g)
    ⟨hacyclic, Nat.le_refl _⟩ (fun k gk r m hsize hgk hm => ?_) hk hsize
  obtain ⟨hacyclic, hcount⟩ := hgk
  have hlt := eligibleCount_lt_of_result hacyclic hsize hm
  obtain ⟨rule, happlies⟩ := applies_of_result hacyclic hsize hm
  refine ⟨(happlies.patched hsize hacyclic).acyclic rfl hacyclic, ?_⟩
  dsimp only [Setup.builtIn]
  omega

/-- A mutation by the built-in rules leaves fewer slots of the whole arena eligible.  So a session
that ends with a report has applied as many mutations as its first program has eligible slots, or
fewer, and it ends because no rule applies any more if its budget is larger than their number. -/
theorem session_exhausts (hacyclic : Acyclic g (Met g c (Reached g c))) :
    (∀ policy r m, g.size < UInt32.size →
      ((Mutator.builtIn policy).mutate g c r).result = .ok (some m) →
      eligibleCount ((Mutator.builtIn policy).mutate g c r).arena < eligibleCount g) ∧
    ∀ (config : Config) (ops : Sink σ) (sink : σ) (report : Report),
      (run (.builtIn config c ops) g sink).arena.size < UInt32.size →
      (run (.builtIn config c ops) g sink).report = .ok report →
      report.mutations.length ≤ eligibleCount g ∧
        (eligibleCount g < config.iterationBudget.toNat → report.termination = .exhausted) := by
  refine ⟨fun policy r m hsize hm => eligibleCount_lt_of_result hacyclic hsize hm, ?_⟩
  intro config ops sink report hsize hreport
  have haccounted := (run_accounted _ g sink).2 report hreport
  obtain ⟨r, hprogram⟩ := haccounted.program
  obtain ⟨_, hcount⟩ := eligibleCount_programAt hacyclic hprogram hsize
  refine ⟨by omega, fun hbudget => ?_⟩
  cases hend : report.termination with
  | exhausted => rfl
  | budgetReached =>
    have hlength : report.mutations.length = config.iterationBudget.toNat :=
      haccounted.budget.mp hend
    omega

/-- The loop has one eligible slot, so its session ends before its budget of two mutations does; the
two assignments have two, of which one at most is left after a mutation. -/
theorem session_exhausts_loop :
    Acyclic loop (Met loop loopFlow (Reached loop loopFlow)) ∧
      (∃ report, (run (.builtIn { iterationBudget := 2 } loopFlow refusing) loop ()).report =
        .ok report ∧ report.mutations.length ≤ 1 ∧ report.termination = .exhausted) ∧
      Acyclic twice (Met twice twiceFlow (Reached twice twiceFlow)) ∧
      eligibleCount ((Mutator.builtIn .fresh).mutate twice twiceFlow (.ofSeed 0)).arena < 2 := by
  have hacyclic := wellFormed_loop.acyclic
  have hsize : (run (.builtIn { iterationBudget := 2 } loopFlow refusing) loop ()).arena.size <
      UInt32.size := Nat.lt_of_le_of_lt (size_run_le ..) (by decide)
  have hone : eligibleCount loop = 1 := by decide +kernel
  have htwo : eligibleCount twice = 2 := by decide +kernel
  obtain ⟨report, hreport⟩ := exists_report wellFormed_loop acyclicTypes_loop (by decide) hsize
  obtain ⟨_, hsessions⟩ := session_exhausts (σ := Unit) hacyclic
  obtain ⟨hlength, hend⟩ := hsessions _ _ _ report hsize hreport
  obtain ⟨hmutations, _⟩ := session_exhausts (σ := Unit) acyclic_twice
  have hexhausted := hend (by rw [hone]; decide)
  refine ⟨hacyclic, ⟨report, hreport, hone ▸ hlength, hexhausted⟩, acyclic_twice, ?_⟩
  rw [← htwo]
  exact hmutations .fresh (.ofSeed 0) _ (by decide) (result_twice _)

end Session

end ProgramFacts
