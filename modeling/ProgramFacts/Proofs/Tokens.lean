import ProgramFacts.Proofs.Exactness

/-! The tokens in the rows of the encoding: which columns hold them, and that they stand for the
statements and parts that the registered statements lead to, and for all of these. -/

namespace ProgramFacts.Extraction

open Program ProgramFacts.Fact ProgramFacts.Flow

variable {g : Arena} {c : FlowGraph}

/-! ## Columns of tokens -/

/-- The kinds of node that the columns of a relation stand for, if they hold tokens. -/
def Rel.kinds : Rel → List (Option NodeKind)
  | .unit => [some .stmt]
  | .methodOfUnit | .returnVoid => [some .stmt, some .method]
  | .controlFlowEdge | .goto => [some .stmt, some .stmt]
  | .identity | .assign => [some .stmt, some .value, some .value]
  | .returnValue => [some .stmt, some .value, some .method]
  | .invoke | .throwValue | .enterMonitor | .exitMonitor => [some .stmt, some .value]
  | .ifGoto | .tableSwitch | .lookupSwitch | .lookupSwitchCases =>
    [some .stmt, some .value, some .stmt]
  | .tableSwitchCases => [some .stmt, none, some .stmt]
  | .value | .caughtException | .nullConst => [some .value]
  | .localVar => [some .value, none, some .type]
  | .methodOfLocal | .staticInvoke => [some .value, some .method]
  | .parameterRef => [some .value, none, some .type, some .method]
  | .thisRef | .newObject | .newMultiArray => [some .value, some .type]
  | .instanceField => [some .value, some .value, some .field]
  | .staticField => [some .value, some .field]
  | .arrayElement | .binary _ => [some .value, some .value, some .value]
  | .instanceInvoke _ => [some .value, some .value, some .method]
  | .invocationArguments | .newMultiArraySizes => [some .value, none, some .value]
  | .stringConst | .intConst | .longConst | .floatConst | .doubleConst | .classConst =>
    [some .value, none]
  | .negate | .lengthOf => [some .value, some .value]
  | .cast | .instanceOf => [some .value, some .value, some .type]
  | .newArray => [some .value, some .type, some .value]
  | .method => [some .method, none, none, none, some .type]
  | .methodParameters => [some .method, none, some .type]
  | .field => [some .field, none, none, some .type]
  | .referenceType => [some .type, none]
  | .primType _ | .voidType => [some .type]
  | .arrayType => [some .type, some .type]

/-- The entries of a row in its token columns, with the kinds of these. -/
def Row.tokens (r : Row) : List (NodeKind × Datum) :=
  (r.rel.kinds.zip r.tuple).filterMap fun e => e.1.map fun kind => (kind, e.2)

/-! ## Which tokens rows have -/

theorem mem_tokens_stmt {id : StmtId} {m : MethodId} {s : Stmt} {e : NodeKind × Datum}
    (h : e ∈ Row.tokens ⟨.ofStmt s, token id :: stmtColumns m s⟩) :
    e = (.stmt, token id) ∨ (∃ v ∈ s.operands, e = (.value, token v)) ∨
      (∃ t ∈ s.targets, e = (.stmt, token t)) ∨ e = (.method, token m) := by
  cases s <;>
    simp [Row.tokens, Rel.kinds, Rel.ofStmt, stmtColumns, Stmt.operands, Stmt.targets] at h ⊢ <;>
    tauto

theorem mem_tokens_value {v : ValueId} {m : MethodId} {x : Value} {e : NodeKind × Datum}
    (h : e ∈ Row.tokens ⟨.ofValue x, token v :: valueColumns m x⟩) :
    e = (.value, token v) ∨ (∃ w ∈ x.operands, e = (.value, token w)) ∨
      (∃ q ∈ valueRefs x, e = (q.kind, token q.id)) ∨ e = (.method, token m) := by
  cases x <;>
    simp [Row.tokens, Rel.kinds, Rel.ofValue, valueColumns, Value.operands, valueRefs, Part.kind,
      Part.id] at h ⊢ <;>
    tauto

theorem mem_tokens_valueRefs {v : ValueId} {m : MethodId} {x : Value} {q : Part}
    (hq : q ∈ valueRefs x) :
    (q.kind, token q.id) ∈ Row.tokens ⟨.ofValue x, token v :: valueColumns m x⟩ := by
  cases x <;> simp [valueRefs] at hq <;> subst hq <;>
    simp [Row.tokens, Rel.kinds, Rel.ofValue, valueColumns, Part.kind, Part.id]

theorem mem_operands_of_mem_arguments {x : Value} {arg : ValueId} (h : arg ∈ arguments x) :
    arg ∈ x.operands := by
  cases x with
  | instanceInvoke dispatch base method args => exact .tail _ h
  | staticInvoke method args => exact h
  | _ => simp [arguments] at h

/-- The token of a statement or part that the registered statements lead to. -/
inductive Known (g : Arena) (c : FlowGraph) : NodeKind × Datum → Prop
  | stmt {id : StmtId} : Reached g c id → Known g c (.stmt, token id)
  | part {p : Part} : Met g c (Reached g c) p → Known g c (p.kind, token p.id)

theorem Known.value {id : StmtId} (hid : Reached g c id) {v : ValueId} (hv : Mentions g id v) :
    Known g c (.value, token v) :=
  .part (p := .value v) (.value hid hv)

theorem Known.method {id : StmtId} (hid : Reached g c id) {m : MethodId}
    (hm : c.owner id = .ok m) : Known g c (.method, token m) :=
  .part (p := .method m) (.owner hid hm)

/-- What stands in a token column is known. -/
theorem Fact.known {order : List StmtId} (horder : Order g c order) {rel : Rel} {t : Tuple}
    (h : Fact g c order c.edges rel t) : ∀ e ∈ Row.tokens ⟨rel, t⟩, Known g c e := by
  have reached {id : StmtId} (hid : id ∈ order) : Reached g c id := horder.mem.mp hid
  have met {p : Part} (hp : Met g c (· ∈ order) p) : Met g c (Reached g c) p :=
    hp.mono fun _ => reached
  have pair {e e' : NodeKind × Datum} (he : Known g c e) (he' : Known g c e') :
      ∀ e'' ∈ [e, e'], Known g c e'' :=
    List.forall_mem_cons.mpr ⟨he, List.forall_mem_singleton.mpr he'⟩
  cases h with
  | unit hid => exact List.forall_mem_singleton.mpr (.stmt (reached hid))
  | methodOfUnit hid hm => exact pair (.stmt (reached hid)) (.method (reached hid) hm)
  | stmt hid hs hm hrow =>
    obtain ⟨rfl, rfl⟩ := Row.mk.inj (stmtRow_iff.mp hrow)
    intro e he
    rcases mem_tokens_stmt he with rfl | ⟨v, hv, rfl⟩ | ⟨t, ht, rfl⟩ | rfl
    · exact .stmt (reached hid)
    · exact .value (reached hid) (.top hs (List.mem_append_left _ hv))
    · exact .stmt ((reached hid).target hs ht)
    · exact .method (reached hid) hm
  | tableCase hid hs ht =>
    have htarget := (reached hid).target hs (List.mem_append_left _ (List.mem_of_getElem? ht))
    exact pair (.stmt (reached hid)) (.stmt htarget)
  | lookupCase hid hs hl ht =>
    have hlabel := Mentions.top hs (List.mem_append_right _ (List.mem_of_getElem? hl))
    have htarget := (reached hid).target hs (List.mem_append_left _ (List.mem_of_getElem? ht))
    exact List.forall_mem_cons.mpr ⟨.stmt (reached hid),
      pair (.value (reached hid) hlabel) (.stmt htarget)⟩
  | edge he => exact pair (.stmt (.node (c.ends_mem _ he).1)) (.stmt (.node (c.ends_mem _ he).2))
  | value hid hv => exact List.forall_mem_singleton.mpr (.value (reached hid) hv)
  | @definition _ _ x _ _ _ hid hv hx hm hrow =>
    obtain ⟨rfl, rfl⟩ := Row.mk.inj (valueRow_iff.mp hrow)
    intro e he
    rcases mem_tokens_value he with rfl | ⟨w, hw, rfl⟩ | ⟨q, hq, rfl⟩ | rfl
    · exact .value (reached hid) hv
    · exact .value (reached hid) (hv.operand ⟨x, hx, hw⟩)
    · exact .part (.ref (.value (reached hid) hv) (resolves_value.mpr ⟨x, rfl, hx⟩) hq)
    · exact .method (reached hid) hm
  | argument hid hv hx ha =>
    have hop := mem_operands_of_mem_arguments (List.mem_of_getElem? ha)
    exact pair (.value (reached hid) hv) (.value (reached hid) (hv.operand ⟨_, hx, hop⟩))
  | size hid hv hx hz =>
    have hop := List.mem_of_getElem? hz
    exact pair (.value (reached hid) hv) (.value (reached hid) (hv.operand ⟨_, hx, hop⟩))
  | methodOfLocal hfirst _ hm =>
    have hid := reached hfirst.mem
    exact pair (.value hid hfirst.mentions) (.method hid hm)
  | method hp hm =>
    have hreturn := Met.ref (met hp) ⟨Arena.method_eq_ok.mp hm, rfl⟩ (.head _)
    exact pair (.part (met hp)) (.part hreturn)
  | parameter hp hm ht =>
    have hparameter := Met.ref (met hp) ⟨Arena.method_eq_ok.mp hm, rfl⟩
      (.tail _ (List.mem_map_of_mem (List.mem_of_getElem? ht)))
    exact pair (.part (met hp)) (.part hparameter)
  | field hp hf =>
    have hty := Met.ref (met hp) ⟨Arena.field_eq_ok.mp hf, rfl⟩ (.head _)
    exact pair (.part (met hp)) (.part hty)
  | type hp ht hrow =>
    cases hrow with
    | array =>
      have helement := Met.ref (met hp) ⟨Arena.type_eq_ok.mp ht, rfl⟩ (.head _)
      exact pair (.part (met hp)) (.part helement)
    | _ => exact List.forall_mem_singleton.mpr (.part (met hp))

/-- Every part that the registered statements lead to stands in a column of its kind. -/
theorem exists_fact_of_met {order : List StmtId} (horder : Order g c order)
    (howned : Owned c (Reached g c)) {q : Part} (hq : Met g c (Reached g c) q) :
    ∃ rel t, Fact g c order c.edges rel t ∧ (q.kind, token q.id) ∈ Row.tokens ⟨rel, t⟩ := by
  have mem {id : StmtId} (hid : Reached g c id) : id ∈ order := horder.mem.mpr hid
  cases hq with
  | @owner id m hid hm => exact ⟨_, _, .methodOfUnit (mem hid) hm, .tail _ (.head _)⟩
  | value hid hv => exact ⟨_, _, .value (mem hid) hv, .head _⟩
  | @ref p _ n hp hn hq =>
    have hmet : Met g c (· ∈ order) p := hp.mono fun _ => mem
    cases n with
    | stmt s => simp [nodeRefs] at hq
    | value x =>
      obtain ⟨v, rfl⟩ : ∃ v, p = .value v := ⟨p.id, part_eq_value hn.2.symm⟩
      have hx := Arena.value_eq_ok.mpr hn.1
      obtain ⟨id, hid, hv⟩ := hp.mentions
      obtain ⟨m, hm⟩ := howned id hid
      exact ⟨_, _, .definition (mem hid) hv hx hm (valueRow_iff.mpr rfl), mem_tokens_valueRefs hq⟩
    | type t =>
      obtain ⟨id, rfl⟩ : ∃ id, p = .type id := ⟨p.id, part_eq_type hn.2.symm⟩
      cases t with
      | array element =>
        obtain rfl := List.mem_singleton.mp hq
        exact ⟨_, _, .type hmet (Arena.type_eq_ok.mpr hn.1) .array, .tail _ (.head _)⟩
      | _ => simp [nodeRefs, typeParts] at hq
    | method m =>
      obtain ⟨id, rfl⟩ : ∃ id, p = .method id := ⟨p.id, part_eq_method hn.2.symm⟩
      have hm := Arena.method_eq_ok.mpr hn.1
      rcases List.mem_cons.mp hq with rfl | hq
      · exact ⟨_, _, .method hmet hm, .tail _ (.head _)⟩
      · obtain ⟨ty, hty, rfl⟩ := List.mem_map.mp hq
        obtain ⟨i, hi⟩ := List.getElem?_of_mem hty
        exact ⟨_, _, .parameter hmet hm hi, .tail _ (.head _)⟩
    | field f =>
      obtain ⟨id, rfl⟩ : ∃ id, p = .field id := ⟨p.id, part_eq_field hn.2.symm⟩
      obtain rfl := List.mem_singleton.mp hq
      exact ⟨_, _, .field hmet (Arena.field_eq_ok.mpr hn.1), .tail _ (.head _)⟩

end ProgramFacts.Extraction
