import ProgramFacts.Proofs.Exactness
import ProgramFacts.Proofs.Recursion

/-! The search keeps a stack, one path and a bound on the depth of values; it asks what the
recursion asks and ends as the recursion ends.  The path begins, at every moment, with the
statements around each statement of the stack. -/

namespace ProgramFacts.Mutation

open Program ProgramFacts.Flow ProgramFacts.Random Extraction

/-! ## What inquiries ask -/

/-- An inquiry asks the questions of `asked`, in order, and has the given result. -/
def Asks {α : Type} (i : Inquiry α) (result : Except Failure α) (asked : List Query) : Prop :=
  ∀ log, i.run.run log = (result, asked.reverse ++ log)

namespace Asks

variable {α β : Type}

theorem ask_eq {i : Inquiry α} {result : Except Failure α} {asked : List Query}
    (h : Asks i result asked) : i.ask = (result, asked) := by
  unfold Inquiry.ask
  rw [h []]
  simp

theorem pure (a : α) : Asks (Pure.pure a) (.ok a) [] := fun _ => rfl

theorem throw (failure : Failure) : Asks (throw failure : Inquiry α) (.error failure) [] :=
  fun _ => rfl

theorem lift (result : Except Failure α) : Asks (liftM result : Inquiry α) result [] := by
  intro log
  cases result <;> rfl

theorem bind {x : Inquiry α} {f : α → Inquiry β} {a : α} {result : Except Failure β}
    {asked asked' : List Query} (hx : Asks x (.ok a) asked) (hf : Asks (f a) result asked') :
    Asks (x >>= f) result (asked ++ asked') := by
  intro log
  have hrun : (x >>= f).run.run log = (f a).run.run (asked.reverse ++ log) := by
    rw [ExceptT.run_bind, StateT.run_bind, hx log]
    rfl
  rw [hrun, hf]
  simp

theorem bind_error {x : Inquiry α} {f : α → Inquiry β} {failure : Failure} {asked : List Query}
    (hx : Asks x (.error failure) asked) : Asks (x >>= f) (.error failure) asked := by
  intro log
  rw [ExceptT.run_bind, StateT.run_bind, hx log]
  rfl

theorem lookUp {r : Except Fault α} {a : α} (hr : r = .ok a) {f : α → Inquiry β}
    {result : Except Failure β} {asked : List Query} (hf : Asks (f a) result asked) :
    Asks (do let a ← Mutation.lookUp r; f a) result asked := by
  subst hr
  exact (lift (.ok a)).bind hf

theorem lookUp_error {r : Except Fault α} {fault : Fault} (hr : r = .error fault)
    {f : α → Inquiry β} :
    Asks (do let a ← Mutation.lookUp r; f a) (.error (.ofFault fault)) [] := by
  subst hr
  exact (lift (.error (.ofFault fault))).bind_error

end Asks

variable {g : Arena} {c : FlowGraph} {rules : List Rule}

theorem asks_askRule (v : ValueId) (ancestors : List NodeId) (rule : Rule) (place : Nat) :
    Asks (askRule g v ancestors rule place) (rule.applies g v ancestors)
      [⟨place, v, ancestors⟩] := by
  have hmodify : Asks (modify (⟨place, v, ancestors⟩ :: ·) : Inquiry PUnit) (.ok ⟨⟩)
      [⟨place, v, ancestors⟩] := fun _ => rfl
  exact hmodify.bind (.lift _)

/-- The questions about a value to `count` rules, the first of which has the given place. -/
def questionsFrom (place : Nat) (v : ValueId) (ancestors : List NodeId) (count : Nat) :
    List Query :=
  (List.range' place count).map fun place => ⟨place, v, ancestors⟩

theorem questionsFrom_zero (v : ValueId) (ancestors : List NodeId) (count : Nat) :
    questionsFrom 0 v ancestors count = questions v ancestors count := by
  rw [questionsFrom, questions, List.range_eq_range']

theorem exists_answers (v : ValueId) (ancestors : List NodeId) (rules : List Rule) (place : Nat) :
    ∃ result count, Answers g v ancestors rules result count ∧
      Asks (askRules g v ancestors rules place) result
        (questionsFrom place v ancestors count) := by
  induction rules generalizing place with
  | nil => exact ⟨.ok [], 0, .nil, .pure []⟩
  | cons rule rules ih =>
    have hrule := asks_askRule (g := g) v ancestors rule place
    cases ha : rule.applies g v ancestors with
    | error failure =>
      rw [ha] at hrule
      exact ⟨.error failure, 1, .failed ha, hrule.bind_error⟩
    | ok here =>
      rw [ha] at hrule
      obtain ⟨result, count, hanswers, hlater⟩ := ih (place + 1)
      have hquestions : questionsFrom place v ancestors (count + 1) =
          [⟨place, v, ancestors⟩] ++ questionsFrom (place + 1) v ancestors count := by
        simp [questionsFrom, List.range'_succ]
      cases here with
      | true =>
        refine ⟨_, count + 1, .yes ha hanswers, hquestions ▸ hrule.bind ?_⟩
        cases result with
        | error failure => exact hlater.bind_error
        | ok later =>
          rw [← List.append_nil (questionsFrom _ _ _ _)]
          exact hlater.bind (.pure (rule :: later))
      | false =>
        refine ⟨_, count + 1, .no ha hanswers, hquestions ▸ hrule.bind ?_⟩
        cases result with
        | error failure => exact hlater.bind_error
        | ok later =>
          rw [← List.append_nil (questionsFrom _ _ _ _)]
          exact hlater.bind (.pure later)

/-! ## Operand trees -/

/-- What a search that ends so has found. -/
def outcome {α : Type} : Except Halt α → Except Failure (Option Position)
  | .ok _ => .ok none
  | .error (.ok p) => .ok (some p)
  | .error (.error failure) => .error failure

theorem slotsOf_eq (parent : NodeId) (operands : List ValueId) :
    slotsOf parent operands.length = (held parent operands).map Prod.fst := by
  unfold slotsOf held named
  refine List.ext_getElem (by simp) fun i _ _ => ?_
  simp

theorem Asks.firstSome_cons {α β : Type} {f : α → Inquiry (Option β)} {a : α}
    {rest : List α} {result : Except Failure (Option β)} {asked asked' : List Query}
    (ha : Asks (f a) (.ok none) asked) (hrest : Asks (firstSome f rest) result asked') :
    Asks (firstSome f (a :: rest)) result (asked ++ asked') :=
  ha.bind hrest

theorem Asks.firstSome_stop {α : Type} {f : α → Inquiry (Option Position)} {a : α}
    {rest : List α} {halt : Halt} {asked : List Query}
    (ha : Asks (f a) (outcome (.error halt : Except Halt Unit)) asked) :
    Asks (firstSome f (a :: rest)) (outcome (.error halt : Except Halt Unit)) asked := by
  cases halt with
  | error failure => exact ha.bind_error
  | ok p =>
    rw [← List.append_nil asked]
    exact ha.bind (.pure (some p))

theorem Descends.head_error {ancestors : List NodeId} {e : Slot × ValueId}
    {rest : List (Slot × ValueId)} {halt : Halt} {asked : List Query}
    (h : Descends g rules ancestors [e] (.error halt) asked) :
    Descends g rules ancestors (e :: rest) (.error halt) asked := by
  cases h with
  | stop ht => exact .stop ht
  | inside ht hd => exact .inside ht hd
  | next _ _ hnil => cases hnil

theorem Descends.head_ok {ancestors : List NodeId} {e : Slot × ValueId}
    {rest : List (Slot × ValueId)} {ending : Except Halt Unit} {asked asked' : List Query}
    (h : Descends g rules ancestors [e] (.ok ()) asked)
    (hrest : Descends g rules ancestors rest ending asked') :
    Descends g rules ancestors (e :: rest) ending (asked ++ asked') := by
  cases h with
  | next ht hd hnil =>
    cases hnil
    simpa using Descends.next ht hd hrest

theorem exists_descends_firstSome {depth : Nat} {ancestors : List NodeId}
    {places : List (Slot × ValueId)}
    (h : ∀ e ∈ places, ∃ ending asked, Descends g rules ancestors [e] ending asked ∧
      Asks (searchValue g rules depth e.1 ancestors) (outcome ending) asked) :
    ∃ ending asked, Descends g rules ancestors places ending asked ∧
      Asks (firstSome (fun slot => searchValue g rules depth slot ancestors)
        (places.map Prod.fst)) (outcome ending) asked := by
  induction places with
  | nil => exact ⟨.ok (), [], .nil, .pure none⟩
  | cons e places ih =>
    obtain ⟨⟨ending, asked, hd, hi⟩, hplaces⟩ := List.forall_mem_cons.mp h
    let f (slot : Slot) := searchValue g rules depth slot ancestors
    cases ending with
    | error halt => exact ⟨.error halt, asked, hd.head_error, Asks.firstSome_stop (f := f) hi⟩
    | ok u =>
      obtain ⟨ending, asked', hrest, hirest⟩ := ih hplaces
      exact ⟨ending, _, hd.head_ok hrest, Asks.firstSome_cons (f := f) hi hirest⟩

/-- The search of a value is its test: the bound on the depth is not reached. -/
theorem exists_descends_searchValue (hacyclic : Acyclic g (Met g c (Reached g c))) {depth : Nat}
    {ancestors : List NodeId} {slot : Slot} {v : ValueId} (hslot : g.slot slot = .ok v)
    (hv : Shallow g c depth v) :
    ∃ ending asked, Descends g rules ancestors [(slot, v)] ending asked ∧
      Asks (searchValue g rules depth slot ancestors) (outcome ending) asked := by
  induction depth generalizing ancestors slot v with
  | zero =>
    obtain ⟨_, hdepth⟩ := hv.exists_succ
    contradiction
  | succ depth ih =>
    rw [searchValue]
    cases hx : g.value v with
    | error fault =>
      exact ⟨.error (.error (.ofFault fault)), [], .stop (.lost hx),
        .lookUp hslot (.lookUp_error hx)⟩
    | ok x =>
      obtain ⟨result, count, hanswers, hasks⟩ := exists_answers (g := g) v ancestors rules 0
      rw [questionsFrom_zero] at hasks
      match result, hanswers, hasks with
      | .error failure, hanswers, hasks =>
        exact ⟨.error (.error failure), _, .stop (.failed hx hanswers),
          .lookUp hslot (.lookUp hx hasks.bind_error)⟩
      | .ok (first :: others), hanswers, hasks =>
        refine ⟨.error (.ok ⟨slot, v, first, others⟩), _, .stop (.found hx hanswers), ?_⟩
        rw [← List.append_nil (questions _ _ _)]
        exact .lookUp hslot (.lookUp hx (hasks.bind (.pure _)))
      | .ok [], hanswers, hasks =>
        have hinside : ∀ e ∈ held v x.operands, ∃ ending asked,
            Descends g rules (ancestors ++ [v]) [e] ending asked ∧
              Asks (searchValue g rules depth e.1 (ancestors ++ [v])) (outcome ending) asked := by
          rintro ⟨slot', w⟩ he
          obtain ⟨i, hw, rfl⟩ := mem_held.mp he
          exact ih (Arena.slot_eq_ok.mpr ⟨_, Arena.value_eq_ok.mp hx, hw⟩)
            (hv.operand hacyclic hx (List.mem_of_getElem? hw))
        obtain ⟨ending, asked, hd, hi⟩ := exists_descends_firstSome hinside
        rw [← slotsOf_eq] at hi
        have htries : Tries g rules ancestors slot v (.ok x) _ := .quiet hx hanswers
        cases ending with
        | error halt =>
          exact ⟨.error halt, _, .inside htries hd, .lookUp hslot (.lookUp hx (hasks.bind hi))⟩
        | ok u =>
          refine ⟨.ok (), _, .next htries hd .nil, ?_⟩
          rw [List.append_nil]
          exact .lookUp hslot (.lookUp hx (hasks.bind hi))

theorem exists_descends_searchOperands (rules : List Rule)
    (hacyclic : Acyclic g (Met g c (Reached g c))) {id : StmtId} (hid : Reached g c id) {s : Stmt}
    (hs : g.stmt id = .ok s) (ancestors : List NodeId) :
    ∃ ending asked, Descends g rules ancestors (held id s.operands) ending asked ∧
      Asks (searchOperands g rules id s ancestors) (outcome ending) asked := by
  unfold searchOperands
  rw [slotsOf_eq]
  refine exists_descends_firstSome ?_
  rintro ⟨slot, v⟩ he
  obtain ⟨i, hv, rfl⟩ := mem_held.mp he
  have hmem : v ∈ s.operands := List.mem_of_getElem? hv
  exact exists_descends_searchValue hacyclic
    (Arena.slot_eq_ok.mpr ⟨_, Arena.stmt_eq_ok.mp hs, hv⟩)
    (shallow_of_mentions hid (.top hs (List.mem_append_left _ hmem)))

/-! ## Statements -/

theorem Explores.append_error {visited : List StmtId} {tasks more : List (StmtId × List NodeId)}
    {halt : Halt} {asked : List Query} (h : Explores g rules visited tasks (.error halt) asked) :
    Explores g rules visited (tasks ++ more) (.error halt) asked := by
  generalize he : (Except.error halt : Except Halt (List StmtId)) = ending at h ⊢
  induction h with
  | nil => contradiction
  | again hid _ ih => exact .again hid (ih he)
  | lost hnew hs => exact .lost hnew hs
  | stop hnew hs hd => exact .stop hnew hs hd
  | inside hnew hs hd ht _ => exact .inside hnew hs hd ht
  | next hnew hs hd ht _ _ ih => exact .next hnew hs hd ht (ih he)

theorem Explores.append {visited visited' : List StmtId} {tasks more : List (StmtId × List NodeId)}
    {ending : Except Halt (List StmtId)} {asked asked' : List Query}
    (h : Explores g rules visited tasks (.ok visited') asked)
    (hmore : Explores g rules visited' more ending asked') :
    Explores g rules visited (tasks ++ more) ending (asked ++ asked') := by
  generalize he : (Except.ok visited' : Except Halt (List StmtId)) = first at h
  induction h with
  | nil =>
    obtain rfl := Except.ok.inj he
    exact hmore
  | again hid _ ih => exact .again hid (ih he)
  | lost => contradiction
  | stop => contradiction
  | inside => contradiction
  | next hnew hs hd ht _ _ ih =>
    rw [List.append_assoc]
    exact .next hnew hs hd ht (ih he)

/-- The visit of some statements and then of others ends with the former, or is the one and then the
other. -/
theorem Explores.append_inv {visited : List StmtId} {tasks more : List (StmtId × List NodeId)}
    {ending : Except Halt (List StmtId)} {asked : List Query}
    (h : Explores g rules visited (tasks ++ more) ending asked) :
    (∃ halt, ending = .error halt ∧ Explores g rules visited tasks (.error halt) asked) ∨
      ∃ visited' before after, Explores g rules visited tasks (.ok visited') before ∧
        Explores g rules visited' more ending after ∧ asked = before ++ after := by
  induction tasks generalizing visited ending asked with
  | nil => exact .inr ⟨visited, [], asked, .nil, h, rfl⟩
  | cons task tasks ih =>
    cases h with
    | again hid hrest =>
      rcases ih hrest with ⟨halt, he, h⟩ | ⟨visited', before, after, h, hmore, rfl⟩
      · exact .inl ⟨halt, he, .again hid h⟩
      · exact .inr ⟨visited', before, after, .again hid h, hmore, rfl⟩
    | lost hnew hs => exact .inl ⟨_, rfl, .lost hnew hs⟩
    | stop hnew hs hd => exact .inl ⟨_, rfl, .stop hnew hs hd⟩
    | inside hnew hs hd ht => exact .inl ⟨_, rfl, .inside hnew hs hd ht⟩
    | next hnew hs hd ht hrest =>
      rcases ih hrest with ⟨halt, rfl, h⟩ | ⟨visited', before, after, h, hmore, rfl⟩
      · exact .inl ⟨halt, rfl, .next hnew hs hd ht h⟩
      · exact .inr ⟨visited', _, after, .next hnew hs hd ht h, hmore,
          (List.append_assoc ..).symm⟩

/-- The depths on the stack do not grow from the top down, and the path is as long as each of
them. -/
structure Piled (path : List NodeId) (stack : List (StmtId × Nat)) : Prop where
  sorted : stack.Pairwise fun e e' => e'.2 ≤ e.2
  le_length : ∀ e ∈ stack, e.2 ≤ path.length

/-- The statements of a stack, with the path around each of them. -/
def pending (path : List NodeId) (stack : List (StmtId × Nat)) : List (StmtId × List NodeId) :=
  stack.map fun e => (e.1, path.take e.2)

theorem Piled.tail {path : List NodeId} {e : StmtId × Nat} {rest : List (StmtId × Nat)}
    (h : Piled path (e :: rest)) : Piled path rest :=
  ⟨(List.pairwise_cons.mp h.sorted).2, fun e' he' => h.le_length e' (.tail _ he')⟩

theorem Piled.length_eq {path : List NodeId} {id : StmtId} {depth : Nat}
    {rest : List (StmtId × Nat)} (h : Piled path ((id, depth) :: rest)) :
    (path.take depth ++ [id]).length = depth + 1 := by
  have hle : depth ≤ path.length := h.le_length _ (.head _)
  simp [Nat.min_eq_left hle]

theorem Piled.push {path : List NodeId} {id : StmtId} {depth : Nat} {rest : List (StmtId × Nat)}
    (h : Piled path ((id, depth) :: rest)) (targets : List StmtId) :
    Piled (path.take depth ++ [id]) (targets.map (fun t => (t, depth + 1)) ++ rest) := by
  have hlower (e : StmtId × Nat) (he : e ∈ rest) : e.2 ≤ depth :=
    (List.pairwise_cons.mp h.sorted).1 e he
  have htop (e : StmtId × Nat) (he : e ∈ targets.map fun t => (t, depth + 1)) :
      e.2 = depth + 1 := by
    obtain ⟨t, _, rfl⟩ := List.mem_map.mp he
    rfl
  constructor
  · refine List.pairwise_append.mpr ⟨?_, h.tail.sorted, fun e he e' he' => ?_⟩
    · exact List.pairwise_map.mpr (List.pairwise_of_forall fun _ _ => Nat.le_refl _)
    · have := htop e he
      have := hlower e' he'
      omega
  · intro e he
    rw [h.length_eq]
    rcases List.mem_append.mp he with he | he
    · exact Nat.le_of_eq (htop e he)
    · exact Nat.le_succ_of_le (hlower e he)

/-- The path around the statements below is not touched, and the targets have the longer path. -/
theorem Piled.pending_push {path : List NodeId} {id : StmtId} {depth : Nat}
    {rest : List (StmtId × Nat)} (h : Piled path ((id, depth) :: rest)) (targets : List StmtId) :
    pending (path.take depth ++ [id]) (targets.map (fun t => (t, depth + 1)) ++ rest) =
      targets.map (fun t => (t, path.take depth ++ [id])) ++ pending path rest := by
  have hlength := h.length_eq
  unfold pending
  rw [List.map_append, List.map_map]
  congr 1
  · refine List.map_congr_left fun t _ => ?_
    rw [Function.comp_apply, List.take_of_length_le (by omega)]
  · refine List.map_congr_left fun e he => ?_
    have hle : e.2 ≤ depth := (List.pairwise_cons.mp h.sorted).1 e he
    have hlong : e.2 ≤ (path.take depth).length := by
      rw [List.length_append, List.length_singleton] at hlength
      omega
    rw [List.take_append_of_le_length hlong, List.take_take, Nat.min_eq_left hle]

/-- An inquiry on a stack asks the questions of `asked` and ends as `ending` says. -/
def Finishes (i : Inquiry (Option Position × List StmtId)) (asked : List Query) :
    Except Halt (List StmtId) → Prop
  | .ok visited => Asks i (.ok (none, visited)) asked
  | .error (.ok p) => ∃ visited, Asks i (.ok (some p, visited)) asked
  | .error (.error failure) => Asks i (.error failure) asked

theorem Finishes.bind {α : Type} {x : Inquiry α}
    {f : α → Inquiry (Option Position × List StmtId)} {a : α} {asked asked' : List Query}
    {ending : Except Halt (List StmtId)} (hx : Asks x (.ok a) asked)
    (hf : Finishes (f a) asked' ending) : Finishes (x >>= f) (asked ++ asked') ending := by
  match ending, hf with
  | .ok visited, hf => exact hx.bind hf
  | .error (.ok p), ⟨visited, hf⟩ => exact ⟨visited, hx.bind hf⟩
  | .error (.error failure), hf => exact hx.bind hf

/-- The search of a stack is the visit of its statements inside the paths around them. -/
theorem exists_explores_searchStack (rules : List Rule)
    (hacyclic : Acyclic g (Met g c (Reached g c)))
    (visited : List StmtId) (path : List NodeId) (stack : List (StmtId × Nat))
    (hstack : ∀ e ∈ stack, Reached g c e.1) (hpiled : Piled path stack) :
    ∃ ending asked, Explores g rules visited (pending path stack) ending asked ∧
      Finishes (searchStack g rules visited path stack) asked ending := by
  fun_induction searchStack g rules visited path stack with
  | case1 visited path => exact ⟨.ok visited, [], .nil, .pure _⟩
  | case2 visited path id depth rest hid ih =>
    obtain ⟨ending, asked, he, hi⟩ := ih (fun e he => hstack e (.tail _ he)) hpiled.tail
    exact ⟨ending, asked, .again hid he, hi⟩
  | case3 visited path id depth rest hnew fault hs =>
    exact ⟨.error (.error (.ofFault fault)), [], .lost hnew hs, .throw _⟩
  | case4 visited path id depth rest hnew s hs longer ih =>
    have hid : Reached g c id := hstack _ (.head _)
    obtain ⟨found, asked, hd, hi⟩ := exists_descends_searchOperands rules hacyclic hid hs longer
    match found, hd, hi with
    | .error (.error failure), hd, hi =>
      exact ⟨_, asked, .stop hnew hs hd, hi.bind_error⟩
    | .error (.ok p), hd, hi =>
      refine ⟨_, asked, .stop hnew hs hd, id :: visited, ?_⟩
      rw [← List.append_nil asked]
      exact hi.bind (.pure _)
    | .ok (), hd, hi =>
      have htargets : ∀ e ∈ s.targets.map (fun t => (t, depth + 1)) ++ rest, Reached g c e.1 := by
        intro e he
        rcases List.mem_append.mp he with he | he
        · obtain ⟨t, ht, rfl⟩ := List.mem_map.mp he
          exact hid.target hs ht
        · exact hstack e (.tail _ he)
      obtain ⟨ending, asked', he, hlater⟩ := ih htargets (hpiled.push s.targets)
      -- the targets stand above the rest of the stack, so one visit is taken apart into two
      rw [hpiled.pending_push] at he
      rcases he.append_inv with ⟨halt, rfl, ht⟩ | ⟨visited', before, after, ht, hrest, rfl⟩
      · exact ⟨_, _, .inside hnew hs hd ht, .bind hi hlater⟩
      · refine ⟨ending, asked ++ before ++ after, .next hnew hs hd ht hrest, ?_⟩
        rw [List.append_assoc]
        exact .bind hi hlater

theorem exists_explores_searchRoots (rules : List Rule)
    (hacyclic : Acyclic g (Met g c (Reached g c)))
    {roots : List StmtId} (hroots : ∀ id ∈ roots, id ∈ c.nodes) (visited : List StmtId) :
    ∃ ending asked, Explores g rules visited (roots.map fun root => (root, [])) ending asked ∧
      Asks (searchRoots g rules roots visited) (outcome ending) asked := by
  induction roots generalizing visited with
  | nil => exact ⟨.ok visited, [], .nil, .pure none⟩
  | cons root roots ih =>
    obtain ⟨hroot, hroots⟩ := List.forall_mem_cons.mp hroots
    have hpiled : Piled [] [(root, 0)] := ⟨List.pairwise_singleton .., by simp⟩
    obtain ⟨first, asked, he, hi⟩ := exists_explores_searchStack rules hacyclic visited
      [] [(root, 0)] (List.forall_mem_singleton.mpr (.node hroot)) hpiled
    rw [List.map_cons, ← List.singleton_append]
    match first, he, hi with
    | .error (.error failure), he, hi => exact ⟨_, asked, he.append_error, hi.bind_error⟩
    | .error (.ok p), he, ⟨visited', hi⟩ =>
      refine ⟨_, asked, he.append_error, ?_⟩
      rw [← List.append_nil asked]
      exact hi.bind (.pure _)
    | .ok visited', he, hi =>
      obtain ⟨ending, asked', hrest, hirest⟩ := ih hroots visited'
      exact ⟨ending, _, he.append hrest, Asks.bind hi hirest⟩

/-! ## The search -/

/-- The registered statements, each visited inside no other node. -/
def roots (c : FlowGraph) : List (StmtId × List NodeId) := c.nodes.map fun root => (root, [])

/-- What the recursion leads to, and nothing else, is what the search leads to. -/
theorem explores_iff (hacyclic : Acyclic g (Met g c (Reached g c)))
    {result : Except Failure (Option Position)} {asked : List Query} :
    (∃ ending, Explores g rules [] (roots c) ending asked ∧ outcome ending = result) ↔
      (search g c rules).ask = (result, asked) := by
  obtain ⟨ending, asked', he, hi⟩ := exists_explores_searchRoots rules hacyclic
    (fun _ hid => hid) []
  rw [search, hi.ask_eq]
  constructor
  · rintro ⟨ending', he', rfl⟩
    obtain ⟨rfl, rfl⟩ := he.unique he'
    rfl
  · intro h
    obtain ⟨rfl, rfl⟩ := Prod.mk.inj h
    exact ⟨ending, he, rfl⟩

theorem trail_of_mem_roots : ∀ e ∈ roots c, Trail g c e.2 e.1 := by
  intro e he
  obtain ⟨root, hroot, rfl⟩ := List.mem_map.mp he
  exact .root hroot

/-- The draw is below `n`: a carry needs a product that is still below `n` words. -/
theorem below_lt (r : Generator) {n : Nat} (hn : 0 < n) : (r.below n).1 < n := by
  unfold Generator.below
  dsimp only
  generalize r.next.1 = x
  generalize r.next.2.next.1 = y
  have word_lt (z : UInt32) : z.toNat * n / UInt32.size < n :=
    Nat.div_lt_of_lt_mul (Nat.mul_lt_mul_of_pos_right z.toNat_lt hn)
  split
  · exact word_lt x
  · dsimp only
    split
    · rename_i hcarry
      have hdiv := Nat.div_add_mod (x.toNat * n) UInt32.size
      have hcarried : UInt32.size * (x.toNat * n / UInt32.size + 1) < (x.toNat + 1) * n := by
        have := word_lt y
        rw [Nat.mul_add, Nat.add_mul]
        omega
      have hwords : (x.toNat + 1) * n ≤ UInt32.size * n := Nat.mul_le_mul_right n x.toNat_lt
      exact Nat.lt_of_mul_lt_mul_left (Nat.lt_of_lt_of_le hcarried hwords)
    · exact word_lt x

/-- What an attempt makes of the end of the search: it draws one of the rules of a position, and
nothing if there is none. -/
def Concludes (s : Mutator) (g : Arena) (r : Generator) (a : Attempt) :
    Except Halt (List StmtId) → Prop
  | .ok _ => a.result = .ok none ∧ a.generator = r
  | .error (.error failure) => a.result = .error failure ∧ a.generator = r
  | .error (.ok p) => ∃ (choice : Nat) (h : choice < p.rules.length),
      r.below p.rules.length = (choice, a.generator) ∧
        a.result = (applyRule s.policy g p.slot p.node p.rules[choice]).1.map some

theorem concludes_mutate {s : Mutator} {ending : Except Halt (List StmtId)} {asked : List Query}
    (h : (search g c s.rules).ask = (outcome ending, asked)) (r : Generator) :
    (s.mutate g c r).asked = asked ∧ Concludes s g r (s.mutate g c r) ending := by
  unfold Mutator.mutate
  rw [h]
  match ending with
  | .ok _ => exact ⟨rfl, rfl, rfl⟩
  | .error (.error failure) => exact ⟨rfl, rfl, rfl⟩
  | .error (.ok p) =>
    have hchoice : (r.below p.rules.length).1 < p.rules.length := below_lt r (Nat.succ_pos _)
    refine ⟨rfl, _, hchoice, rfl, ?_⟩
    simp [outcome, List.getElem?_eq_getElem hchoice]

/-- The search of a program whose values are not nested in themselves does what the recursion does,
which has exactly one course: it asks the same questions, each inside a genuine path to the slot,
and it ends with the position where the recursion first finds rules that apply, of which it draws
one, with the failure that the recursion first meets, or, without a draw, with nothing. -/
theorem search_refines_recursion (hacyclic : Acyclic g (Met g c (Reached g c))) (s : Mutator)
    (r : Generator) :
    ∃ ending asked, Explores g s.rules [] (roots c) ending asked ∧
      (∀ ending' asked', Explores g s.rules [] (roots c) ending' asked' →
        ending' = ending ∧ asked' = asked) ∧
      (s.mutate g c r).asked = asked ∧ Concludes s g r (s.mutate g c r) ending ∧
      (∀ q ∈ asked, ∃ slot, Enclosed g c q.ancestors slot q.node) ∧
      ∀ p, ending = .error (.ok p) → ∃ ancestors, Enclosed g c ancestors p.slot p.node ∧
        p.rules = s.rules.filter fun rule => rule.applies g p.node ancestors matches .ok true := by
  rcases hask : (search g c s.rules).ask with ⟨result, asked⟩
  obtain ⟨ending, he, rfl⟩ := (explores_iff hacyclic).mpr hask
  obtain ⟨hproper, hhalts⟩ := he.proper trail_of_mem_roots
  obtain ⟨hasked, hconcludes⟩ := concludes_mutate hask r
  refine ⟨ending, asked, he, fun ending' asked' he' => he'.unique he, hasked, hconcludes, ?_, ?_⟩
  · intro q hq
    obtain ⟨slot, hplace⟩ := hproper q hq
    exact ⟨slot, hplace.enclosed⟩
  · intro p hp
    obtain ⟨ancestors, _, count, hplace, _, hanswers⟩ := hhalts _ hp
    exact ⟨ancestors, hplace.enclosed, hanswers.eq_filter.1⟩

/-- The control flow of `loop` with only the jump registered, which lies behind its target. -/
def jumpFlow : FlowGraph := FlowGraph.empty.insertNode ⟨5⟩

/-- The recursion jumps back, passes over the variable, and ends with the constant. -/
theorem explores_loop : Explores loop builtInRules [] (roots jumpFlow)
    (.error (.ok ⟨⟨⟨4⟩, 1⟩, ⟨3⟩, intConstantRule, []⟩))
    (questions ⟨2⟩ [⟨5⟩, ⟨4⟩] 2 ++ questions ⟨3⟩ [⟨5⟩, ⟨4⟩] 2) := by
  have hquiet : Tries loop builtInRules [⟨5⟩, ⟨4⟩] ⟨⟨4⟩, 0⟩ ⟨2⟩ (.ok (.localVar "x" ⟨0⟩))
      (questions ⟨2⟩ [⟨5⟩, ⟨4⟩] 2) := .quiet rfl (.no rfl (.no rfl .nil))
  have hfound : Tries loop builtInRules [⟨5⟩, ⟨4⟩] ⟨⟨4⟩, 1⟩ ⟨3⟩
      (.error (.ok ⟨⟨⟨4⟩, 1⟩, ⟨3⟩, intConstantRule, []⟩)) (questions ⟨3⟩ [⟨5⟩, ⟨4⟩] 2) :=
    .found rfl (.yes rfl (.no rfl .nil))
  have htarget : Explores loop builtInRules [⟨5⟩] [(⟨4⟩, [⟨5⟩])] _ _ :=
    .stop (by decide) rfl (.next hquiet .nil (.stop hfound))
  have hjump : Explores loop builtInRules [] (roots jumpFlow) _
      ([] ++ (questions ⟨2⟩ [⟨5⟩, ⟨4⟩] 2 ++ [] ++ questions ⟨3⟩ [⟨5⟩, ⟨4⟩] 2)) :=
    .inside List.not_mem_nil rfl .nil htarget
  simpa using hjump

/-- The search asks both rules about the variable and the constant, inside the jump and its target,
and one draw replaces the constant. -/
theorem search_refines_recursion_loop : Acyclic loop (Met loop jumpFlow (Reached loop jumpFlow)) ∧
    let a := (Mutator.builtIn .fresh).mutate loop jumpFlow (.ofSeed 0)
    a.asked = questions ⟨2⟩ [⟨5⟩, ⟨4⟩] 2 ++ questions ⟨3⟩ [⟨5⟩, ⟨4⟩] 2 ∧
      a.generator = ((Generator.ofSeed 0).below 1).2 ∧
      a.result.map (Option.map Edit.slot) = .ok (some ⟨⟨4⟩, 1⟩) := by
  have hacyclic := acyclic_of_valuesEarlier (g := loop) (by decide)
    (Met loop jumpFlow (Reached loop jumpFlow))
  refine ⟨hacyclic, ?_⟩
  obtain ⟨ending, asked, _, hunique, hasked, hconcludes, _⟩ :=
    search_refines_recursion hacyclic (.builtIn .fresh) (.ofSeed 0)
  obtain ⟨rfl, rfl⟩ := hunique _ _ explores_loop
  obtain ⟨choice, hlt, hdraw, hresult⟩ := hconcludes
  obtain rfl : choice = 0 := Nat.lt_one_iff.mp hlt
  refine ⟨by simpa using hasked, (congrArg Prod.snd hdraw).symm, ?_⟩
  rw [hresult]
  rfl

end ProgramFacts.Mutation
