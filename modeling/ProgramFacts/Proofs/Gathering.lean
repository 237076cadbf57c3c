import ProgramFacts.Proofs.Coverage

/-! What a pass has gathered at any point: exactly the rows that the encoding has for the statements
that it has begun.  Emitting one more statement keeps this. -/

namespace ProgramFacts.Extraction

open Program ProgramFacts.Fact ProgramFacts.Flow

variable {g : Arena} {c : FlowGraph}

/-! ## Rows of nodes -/

theorem mem_mapIdx_iff_getElem? {α β : Type} {f : Nat → α → β} {l : List α} {b : β} :
    b ∈ l.mapIdx f ↔ ∃ i a, l[i]? = some a ∧ b = f i a := by
  simp only [List.mem_mapIdx, List.getElem?_eq_some_iff]
  constructor
  · rintro ⟨i, hi, rfl⟩
    exact ⟨i, _, ⟨hi, rfl⟩, rfl⟩
  · rintro ⟨i, _, ⟨hi, rfl⟩, rfl⟩
    exact ⟨i, hi, rfl⟩

theorem mem_zip_iff_getElem? {α β : Type} {l : List α} {l' : List β} {x : α × β} :
    x ∈ l.zip l' ↔ ∃ i : Nat, l[i]? = some x.1 ∧ l'[i]? = some x.2 := by
  rw [List.mem_iff_getElem?]
  simp [List.getElem?_zip_eq_some]

theorem mem_listRows {rel : Rel} {owner : NodeId} {entries : List NodeId} {r : Row} :
    r ∈ listRows rel owner entries ↔ ∃ (i : Nat) (entry : NodeId), entries[i]? = some entry ∧
      r = ⟨rel, [token owner, .int i, token entry]⟩ :=
  mem_mapIdx_iff_getElem?

theorem mem_tableCases {id : StmtId} {key : ValueId} {low : Int32} {targets : List StmtId}
    {default : StmtId} {r : Row} :
    r ∈ caseRows id (.tableSwitch key low targets default) ↔
      ∃ (i : Nat) (target : StmtId), targets[i]? = some target ∧
        r = ⟨.tableSwitchCases, [token id, .int (low.toInt + i), token target]⟩ :=
  mem_mapIdx_iff_getElem?

theorem mem_lookupCases {id : StmtId} {key : ValueId} {labels : List ValueId}
    {targets : List StmtId} {default : StmtId} {r : Row} :
    r ∈ caseRows id (.lookupSwitch key labels targets default) ↔
      ∃ (i : Nat) (label : ValueId) (target : StmtId), labels[i]? = some label ∧
        targets[i]? = some target ∧
        r = ⟨.lookupSwitchCases, [token id, token label, token target]⟩ := by
  simp only [caseRows, List.mem_map, mem_zip_iff_getElem?]
  constructor
  · rintro ⟨⟨label, target⟩, ⟨i, hl, ht⟩, rfl⟩
    exact ⟨i, label, target, hl, ht, rfl⟩
  · rintro ⟨i, label, target, hl, ht, rfl⟩
    exact ⟨(label, target), ⟨i, hl, ht⟩, rfl⟩

theorem fact_of_mem_stmtRows {order : List StmtId} {E : List (StmtId × StmtId)} {id : StmtId}
    {s : Stmt} {m : MethodId} (hid : id ∈ order) (hs : g.stmt id = .ok s) (hm : c.owner id = .ok m)
    {r : Row} (hr : r ∈ stmtRows id m s) : Fact g c order E r.rel r.tuple := by
  simp only [stmtRows, List.mem_cons] at hr
  rcases hr with rfl | rfl | rfl | hr
  · exact .unit hid
  · exact .methodOfUnit hid hm
  · exact .stmt hid hs hm (stmtRow_iff.mpr rfl)
  · cases s with
    | tableSwitch key low targets default =>
      obtain ⟨i, target, ht, rfl⟩ := mem_tableCases.mp hr
      exact .tableCase hid hs ht
    | lookupSwitch key labels targets default =>
      obtain ⟨i, label, target, hl, ht, rfl⟩ := mem_lookupCases.mp hr
      exact .lookupCase hid hs hl ht
    | _ => simp [caseRows] at hr

/-- The rows of a value, if it is not a variable that an earlier statement mentions. -/
theorem fact_of_mem_valueRows {order : List StmtId} {E : List (StmtId × StmtId)} {id : StmtId}
    {v : ValueId} {x : Value} {m : MethodId} (hid : id ∈ order) (hv : Mentions g id v)
    (hx : g.value v = .ok x) (hm : c.owner id = .ok m)
    (hfirst : x.isShared = true → FirstMention g order v id) {r : Row}
    (hr : r ∈ valueRows v m x) : Fact g c order E r.rel r.tuple := by
  rcases List.mem_cons.mp hr with rfl | hr
  · exact .definition hid hv hx hm (valueRow_iff.mpr rfl)
  · cases x with
    | localVar name ty =>
      obtain rfl := List.mem_singleton.mp hr
      exact .methodOfLocal (hfirst rfl) hx hm
    | instanceInvoke dispatch base method args =>
      obtain ⟨i, arg, ha, rfl⟩ := mem_listRows.mp hr
      exact .argument hid hv hx ha
    | staticInvoke method args =>
      obtain ⟨i, arg, ha, rfl⟩ := mem_listRows.mp hr
      exact .argument hid hv hx ha
    | newMultiArray element sizes =>
      obtain ⟨i, size, hz, rfl⟩ := mem_listRows.mp hr
      exact .size hid hv hx hz
    | _ => simp [valueListRows] at hr

/-- The rows of a type, method or field. -/
theorem fact_of_mem_nodeRows {order : List StmtId} {E : List (StmtId × StmtId)} {p : Part}
    {n : Node} {m : MethodId} (hp : Met g c (· ∈ order) p) (hn : Resolves g p n)
    (hk : p.kind ≠ .value) {r : Row} (hr : r ∈ nodeRows p.id m n) :
    Fact g c order E r.rel r.tuple := by
  obtain ⟨hnode, hkind⟩ := hn
  cases p with
  | value id => exact absurd rfl hk
  | type id =>
    cases n <;> first | contradiction | skip
    obtain rfl := List.mem_singleton.mp hr
    exact .type hp (Arena.type_eq_ok.mpr hnode) (typeRow_iff.mpr rfl)
  | method id =>
    cases n <;> first | contradiction | skip
    rcases List.mem_cons.mp hr with rfl | hr
    · exact .method hp (Arena.method_eq_ok.mpr hnode)
    · obtain ⟨i, ty, ht, rfl⟩ := mem_listRows.mp hr
      exact .parameter hp (Arena.method_eq_ok.mpr hnode) ht
  | field id =>
    cases n <;> first | contradiction | skip
    obtain rfl := List.mem_singleton.mp hr
    exact .field hp (Arena.field_eq_ok.mpr hnode)

/-! ## More statements and edges have more rows -/

theorem Met.mono {S S' : StmtId → Prop} (h : ∀ id, S id → S' id) {p : Part} (hp : Met g c S p) :
    Met g c S' p := by
  induction hp with
  | owner hid hm => exact .owner (h _ hid) hm
  | value hid hv => exact .value (h _ hid) hv
  | ref _ hn hq ih => exact .ref ih hn hq

/-- Values are met only where statements mention them. -/
theorem Met.mentions {S : StmtId → Prop} {v : ValueId} (h : Met g c S (.value v)) :
    ∃ id, S id ∧ Mentions g id v := by
  cases h with
  | value hid hv => exact ⟨_, hid, hv⟩
  | ref _ _ hq => exact absurd rfl (kind_of_mem_nodeRefs hq)

theorem FirstMention.append {order : List StmtId} {v : ValueId} {id : StmtId}
    (h : FirstMention g order v id) (more : List StmtId) : FirstMention g (order ++ more) v id := by
  obtain ⟨before, after, rfl, hv, hbefore⟩ := h
  exact ⟨before, after ++ more, by simp, hv, hbefore⟩

theorem FirstMention.mem {order : List StmtId} {v : ValueId} {id : StmtId}
    (h : FirstMention g order v id) : id ∈ order := by
  obtain ⟨before, after, rfl, _⟩ := h
  simp

theorem FirstMention.mentions {order : List StmtId} {v : ValueId} {id : StmtId}
    (h : FirstMention g order v id) : Mentions g id v := by
  obtain ⟨_, _, _, hv, _⟩ := h
  exact hv

theorem FirstMention.unique {order : List StmtId} {v : ValueId} {i j : StmtId}
    (hi : FirstMention g order v i) (hj : FirstMention g order v j) : i = j := by
  obtain ⟨before, after, rfl, hv, hbefore⟩ := hi
  obtain ⟨before', after', heq, hv', hbefore'⟩ := hj
  rcases List.append_eq_append_iff.mp heq with ⟨mid, rfl, h⟩ | ⟨mid, rfl, h⟩
  · cases mid with
    | nil => exact (List.cons.inj h).1
    | cons k mid =>
      obtain ⟨rfl, _⟩ := List.cons.inj h
      exact absurd hv (hbefore' i (by simp))
  · cases mid with
    | nil => exact (List.cons.inj h).1.symm
    | cons k mid =>
      obtain ⟨rfl, _⟩ := List.cons.inj h
      exact absurd hv' (hbefore j (by simp))

theorem Fact.append {order : List StmtId} {E E' : List (StmtId × StmtId)} {rel : Rel} {t : Tuple}
    (h : Fact g c order E rel t) (more : List StmtId) (hE : E ⊆ E') :
    Fact g c (order ++ more) E' rel t := by
  have hmem {id : StmtId} (hid : id ∈ order) : id ∈ order ++ more := List.mem_append_left _ hid
  cases h with
  | unit hid => exact .unit (hmem hid)
  | methodOfUnit hid hm => exact .methodOfUnit (hmem hid) hm
  | stmt hid hs hm hrow => exact .stmt (hmem hid) hs hm hrow
  | tableCase hid hs ht => exact .tableCase (hmem hid) hs ht
  | lookupCase hid hs hl ht => exact .lookupCase (hmem hid) hs hl ht
  | edge he => exact .edge (hE he)
  | value hid hv => exact .value (hmem hid) hv
  | definition hid hv hx hm hrow => exact .definition (hmem hid) hv hx hm hrow
  | argument hid hv hx ha => exact .argument (hmem hid) hv hx ha
  | size hid hv hx hz => exact .size (hmem hid) hv hx hz
  | methodOfLocal hv hx hm => exact .methodOfLocal (hv.append more) hx hm
  | method hp hm => exact .method (hp.mono fun _ => hmem) hm
  | parameter hp hm ht => exact .parameter (hp.mono fun _ => hmem) hm ht
  | field hp hf => exact .field (hp.mono fun _ => hmem) hf
  | type hp ht hrow => exact .type (hp.mono fun _ => hmem) ht hrow

/-! ## What a row tells -/

/-- What the rows of a relation are about. -/
inductive Topic
  | unit | methodOfUnit | stmt | tableCase | lookupCase | edge
  | value | definition | argument | size | methodOfLocal
  | method | parameter | field | type
deriving DecidableEq, Repr

/-- The topic of a relation. -/
def Rel.topic : Rel → Topic
  | .unit => .unit
  | .methodOfUnit => .methodOfUnit
  | .identity | .assign | .returnValue | .returnVoid | .invoke | .ifGoto | .goto => .stmt
  | .tableSwitch | .lookupSwitch | .throwValue | .enterMonitor | .exitMonitor => .stmt
  | .tableSwitchCases => .tableCase
  | .lookupSwitchCases => .lookupCase
  | .controlFlowEdge => .edge
  | .value => .value
  | .invocationArguments => .argument
  | .newMultiArraySizes => .size
  | .methodOfLocal => .methodOfLocal
  | .method => .method
  | .methodParameters => .parameter
  | .field => .field
  | .referenceType | .primType _ | .voidType | .arrayType => .type
  | _ => .definition

@[simp] theorem topic_ofStmt (s : Stmt) : (Rel.ofStmt s).topic = .stmt := by
  cases s <;> rfl

@[simp] theorem topic_ofValue (x : Value) : (Rel.ofValue x).topic = .definition := by
  cases x <;> rfl

@[simp] theorem topic_ofTy (t : Ty) : (Rel.ofTy t).topic = .type := by
  cases t <;> rfl

theorem token_injective {a b : NodeId} (h : token a = token b) : a = b :=
  NodeId.ext_index (Int.ofNat.inj (Datum.int.inj h))

@[simp] theorem token_inj {a b : NodeId} : token a = token b ↔ a = b :=
  ⟨token_injective, congrArg token⟩

/-- What a row of each topic tells about the program. -/
def Tells (g : Arena) (c : FlowGraph) (order : List StmtId) (E : List (StmtId × StmtId)) (rel : Rel)
    (t : Tuple) : Topic → Prop
  | .unit => ∃ id ∈ order, t = [token id]
  | .methodOfUnit => ∃ id ∈ order, ∃ m, c.owner id = .ok m ∧ t = [token id, token m]
  | .stmt => ∃ id s m, g.stmt id = .ok s ∧ rel = .ofStmt s ∧ t = token id :: stmtColumns m s
  | .tableCase => ∃ id key low targets default target, ∃ i : Nat,
      g.stmt id = .ok (.tableSwitch key low targets default) ∧ targets[i]? = some target ∧
        t = [token id, .int (low.toInt + i), token target]
  | .lookupCase => ∃ id key labels targets default label target, ∃ i : Nat,
      g.stmt id = .ok (.lookupSwitch key labels targets default) ∧ labels[i]? = some label ∧
        targets[i]? = some target ∧ t = [token id, token label, token target]
  | .edge => ∃ e ∈ E, t = [token e.1, token e.2]
  | .value => ∃ id ∈ order, ∃ v, Mentions g id v ∧ t = [token v]
  | .definition => ∃ v x m, g.value v = .ok x ∧ rel = .ofValue x ∧ t = token v :: valueColumns m x
  | .argument => ∃ v x arg, ∃ i : Nat,
      g.value v = .ok x ∧ (arguments x)[i]? = some arg ∧ t = [token v, .int i, token arg]
  | .size => ∃ v element sizes size, ∃ i : Nat,
      g.value v = .ok (.newMultiArray element sizes) ∧ sizes[i]? = some size ∧
        t = [token v, .int i, token size]
  | .methodOfLocal => ∃ v id m,
      FirstMention g order v id ∧ c.owner id = .ok m ∧ t = [token v, token m]
  | .method => ∃ id m, Met g c (· ∈ order) (.method id) ∧ g.method id = .ok m ∧
      t = [token id, .str m.name, .str m.declaringClass, .bool m.isStatic, token m.returnType]
  | .parameter => ∃ id m ty, ∃ i : Nat,
      g.method id = .ok m ∧ m.parameterTypes[i]? = some ty ∧ t = [token id, .int i, token ty]
  | .field => ∃ id f, Met g c (· ∈ order) (.field id) ∧ g.field id = .ok f ∧
      t = [token id, .str f.name, .str f.declaringClass, token f.ty]
  | .type => ∃ id ty, Met g c (· ∈ order) (.type id) ∧ g.type id = .ok ty ∧ rel = .ofTy ty ∧
      t = token id :: typeColumns ty

/-- A relation is about one topic only. -/
theorem Fact.tells {order : List StmtId} {E : List (StmtId × StmtId)} {rel : Rel} {t : Tuple}
    (h : Fact g c order E rel t) : Tells g c order E rel t rel.topic := by
  cases h with
  | unit hid => exact ⟨_, hid, rfl⟩
  | methodOfUnit hid hm => exact ⟨_, hid, _, hm, rfl⟩
  | stmt hid hs hm hrow =>
    obtain ⟨rfl, rfl⟩ := Row.mk.inj (stmtRow_iff.mp hrow)
    rw [topic_ofStmt]
    exact ⟨_, _, _, hs, rfl, rfl⟩
  | tableCase _ hs ht => exact ⟨_, _, _, _, _, _, _, hs, ht, rfl⟩
  | lookupCase _ hs hl ht => exact ⟨_, _, _, _, _, _, _, _, hs, hl, ht, rfl⟩
  | edge he => exact ⟨_, he, rfl⟩
  | value hid hv => exact ⟨_, hid, _, hv, rfl⟩
  | definition hid hv hx hm hrow =>
    obtain ⟨rfl, rfl⟩ := Row.mk.inj (valueRow_iff.mp hrow)
    rw [topic_ofValue]
    exact ⟨_, _, _, hx, rfl, rfl⟩
  | argument _ _ hx ha => exact ⟨_, _, _, _, hx, ha, rfl⟩
  | size _ _ hx hz => exact ⟨_, _, _, _, _, hx, hz, rfl⟩
  | methodOfLocal hfirst _ hm => exact ⟨_, _, _, hfirst, hm, rfl⟩
  | method hp hm => exact ⟨_, _, hp, hm, rfl⟩
  | parameter _ hm ht => exact ⟨_, _, _, _, hm, ht, rfl⟩
  | field hp hf => exact ⟨_, _, hp, hf, rfl⟩
  | type hp ht hrow =>
    obtain ⟨rfl, rfl⟩ := Row.mk.inj (typeRow_iff.mp hrow)
    rw [topic_ofTy]
    exact ⟨_, _, hp, ht, rfl, rfl⟩

end ProgramFacts.Extraction
