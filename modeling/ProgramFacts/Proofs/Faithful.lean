import ProgramFacts.Proofs.Exactness

/-! The encoding is faithful: equal facts come from equal programs, as far as the registered
statements lead.  The rows do not record the white space of strings, the digits of floating-point
numbers that are not printed, the order and repetition of the cases of a lookup switch, and the
lowest label of a table switch without cases; they record all else. -/

namespace ProgramFacts.Extraction

open Program ProgramFacts.Fact ProgramFacts.Flow

/-! ## Nodes with the same rows -/

/-- Values that have the same rows: equal ones, strings that differ in white space, and
floating-point constants that are printed alike. -/
inductive SameValue : Value → Value → Prop
  | refl (x : Value) : SameValue x x
  | string {a b : String} :
      Text.dropBlanks a = Text.dropBlanks b → SameValue (.stringConst a) (.stringConst b)
  | float {a b : Decimal.Binary32} :
      Decimal.Layout.row.write a.read = Decimal.Layout.row.write b.read →
      SameValue (.floatConst a) (.floatConst b)
  | double {a b : Decimal.Binary64} :
      Decimal.Layout.row.write a.read = Decimal.Layout.row.write b.read →
      SameValue (.doubleConst a) (.doubleConst b)

/-- Statements that have the same rows: equal ones, table switches that differ in the label of the
first case and have no case, and lookup switches that have the same cases. -/
inductive SameStmt : Stmt → Stmt → Prop
  | refl (s : Stmt) : SameStmt s s
  | table (key : ValueId) (low low' : Int32) (default : StmtId) :
      SameStmt (.tableSwitch key low [] default) (.tableSwitch key low' [] default)
  | lookup {key : ValueId} {labels labels' : List ValueId} {targets targets' : List StmtId}
      {default : StmtId} :
      labels.length = targets.length → labels'.length = targets'.length →
      (∀ e, e ∈ labels.zip targets ↔ e ∈ labels'.zip targets') →
      SameStmt (.lookupSwitch key labels targets default)
        (.lookupSwitch key labels' targets' default)

/-- Nodes that have the same rows: types, methods and fields are equal. -/
inductive SameNode : Node → Node → Prop
  | refl (n : Node) : SameNode n n
  | stmt {s s' : Stmt} : SameStmt s s' → SameNode (.stmt s) (.stmt s')
  | value {x y : Value} : SameValue x y → SameNode (.value x) (.value y)

/-- The sizes of an array with several dimensions. -/
def sizes : Value → List ValueId
  | .newMultiArray _ sizes => sizes
  | _ => []

/-- A list is determined by its entries at all positions. -/
theorem eq_of_entries {α : Type} {l l' : List α}
    (forth : ∀ (i : Nat) (a : α), l[i]? = some a → l'[i]? = some a)
    (back : ∀ (i : Nat) (a : α), l'[i]? = some a → l[i]? = some a) : l = l' :=
  List.ext_getElem? fun i => Option.ext fun a => ⟨forth i a, back i a⟩

/-- A type has its own relation and columns. -/
theorem ty_eq_of_columns {t t' : Ty} (hrel : Rel.ofTy t = Rel.ofTy t')
    (hcolumns : typeColumns t = typeColumns t') : t = t' := by
  cases t <;> cases t' <;> cases hrel <;>
    simp only [typeColumns, List.cons.injEq, Datum.str.injEq, token_inj, and_true] at hcolumns
  case reference.reference.refl => rw [hcolumns]
  case array.array.refl => rw [hcolumns]
  all_goals rfl

/-- The relation of a value tells its variant, with the operator or dispatch; its columns and lists
tell the rest. -/
theorem sameValue_of_columns {x y : Value} {m m' : MethodId} (hrel : Rel.ofValue x = Rel.ofValue y)
    (hcolumns : valueColumns m x = valueColumns m' y) (hargs : arguments x = arguments y)
    (hsizes : sizes x = sizes y) : SameValue x y := by
  cases x <;> cases y <;> cases hrel <;>
    simp only [valueColumns, arguments, sizes, List.cons.injEq, Datum.str.injEq, Datum.int.injEq,
      Int.natCast_inj, UInt32.toNat_inj, Int32.toInt_inj, Int64.toInt_inj, token_inj]
      at hcolumns hargs hsizes
  case stringConst.stringConst.refl => exact .string hcolumns.1
  case floatConst.floatConst.refl => exact .float hcolumns.1
  case doubleConst.doubleConst.refl => exact .double hcolumns.1
  case caughtException.caughtException.refl => exact .refl _
  case nullConst.nullConst.refl => exact .refl _
  all_goals
    simp only [hcolumns, hargs, hsizes]
    exact .refl _

/-- A case of one table switch is a case of another one that has its rows. -/
theorem case_of_tableCases {id : StmtId} {key key' : ValueId} {low low' : Int32}
    {targets targets' : List StmtId} {default default' : StmtId}
    (h : ∀ r, r ∈ caseRows id (.tableSwitch key low targets default) →
      r ∈ caseRows id (.tableSwitch key' low' targets' default'))
    {i : Nat} {target : StmtId} (hi : targets[i]? = some target) :
    ∃ j : Nat, low.toInt + i = low'.toInt + j ∧ targets'[j]? = some target := by
  obtain ⟨j, target', hj, hr⟩ := mem_tableCases.mp (h _ (mem_tableCases.mpr ⟨i, target, hi, rfl⟩))
  simp only [Row.mk.injEq, List.cons.injEq, Datum.int.injEq, token_inj] at hr
  obtain ⟨-, -, hlabel, rfl, -⟩ := hr
  exact ⟨j, hlabel, hj⟩

/-- The rows of a table switch tell its targets, and the lowest label if there is a case. -/
theorem eq_of_tableCases {id : StmtId} {key key' : ValueId} {low low' : Int32}
    {targets targets' : List StmtId} {default default' : StmtId}
    (h : ∀ r, r ∈ caseRows id (.tableSwitch key low targets default) ↔
      r ∈ caseRows id (.tableSwitch key' low' targets' default')) :
    targets = targets' ∧ (targets = [] ∨ low = low') := by
  have forth {i : Nat} {target : StmtId} (hi : targets[i]? = some target) :
      ∃ j : Nat, low.toInt + i = low'.toInt + j ∧ targets'[j]? = some target :=
    case_of_tableCases (fun r => (h r).mp) hi
  have back {i : Nat} {target : StmtId} (hi : targets'[i]? = some target) :
      ∃ j : Nat, low'.toInt + i = low.toInt + j ∧ targets[j]? = some target :=
    case_of_tableCases (fun r => (h r).mpr) hi
  cases targets with
  | nil =>
    cases targets' with
    | nil => exact ⟨rfl, .inl rfl⟩
    | cons target rest =>
      obtain ⟨j, _, hj⟩ := back (i := 0) rfl
      simp at hj
  | cons target rest =>
    -- the first case of each switch is one of the other's, so neither starts below the other
    obtain ⟨j, hlow, hj⟩ := forth (i := 0) rfl
    cases targets' with
    | nil => simp at hj
    | cons target' rest' =>
      obtain ⟨k, hlow', _⟩ := back (i := 0) rfl
      obtain rfl : low = low' := Int32.toInt_inj.mp (by omega)
      refine ⟨eq_of_entries (fun i t hi => ?_) (fun i t hi => ?_), .inr rfl⟩
      · obtain ⟨i', hlabel, hi'⟩ := forth hi
        obtain rfl : i = i' := by omega
        exact hi'
      · obtain ⟨i', hlabel, hi'⟩ := back hi
        obtain rfl : i = i' := by omega
        exact hi'

/-- A case of one lookup switch is a case of another one that has its rows. -/
theorem case_of_lookupCases {id : StmtId} {key key' : ValueId} {labels labels' : List ValueId}
    {targets targets' : List StmtId} {default default' : StmtId}
    (h : ∀ r, r ∈ caseRows id (.lookupSwitch key labels targets default) →
      r ∈ caseRows id (.lookupSwitch key' labels' targets' default'))
    {e : ValueId × StmtId} (he : e ∈ labels.zip targets) : e ∈ labels'.zip targets' := by
  obtain ⟨i, hl, ht⟩ := mem_zip_iff_getElem?.mp he
  obtain ⟨j, label, target, hl', ht', hr⟩ :=
    mem_lookupCases.mp (h _ (mem_lookupCases.mpr ⟨i, e.1, e.2, hl, ht, rfl⟩))
  simp only [Row.mk.injEq, List.cons.injEq, token_inj] at hr
  obtain ⟨-, -, rfl, rfl, -⟩ := hr
  exact mem_zip_iff_getElem?.mpr ⟨j, hl', ht'⟩

/-- The relation of a statement tells its variant; its columns and cases tell the rest. -/
theorem sameStmt_of_rows {id : StmtId} {s s' : Stmt} {m m' : MethodId}
    (heven : checkCases id s = .ok ()) (heven' : checkCases id s' = .ok ())
    (hrel : Rel.ofStmt s = Rel.ofStmt s') (hcolumns : stmtColumns m s = stmtColumns m' s')
    (hcases : ∀ r, r ∈ caseRows id s ↔ r ∈ caseRows id s') : SameStmt s s' := by
  cases s <;> cases s' <;> cases hrel <;>
    simp only [stmtColumns, List.cons.injEq, token_inj, and_true] at hcolumns
  case tableSwitch.tableSwitch.refl key low targets default key' low' targets' default' =>
    obtain ⟨rfl, rfl⟩ := hcolumns
    obtain ⟨rfl, rfl | rfl⟩ := eq_of_tableCases hcases
    · exact .table key low low' default
    · exact .refl _
  case lookupSwitch.lookupSwitch.refl key labels targets default key' labels' targets' default' =>
    obtain ⟨rfl, rfl⟩ := hcolumns
    refine .lookup (checkCases_eq_ok.mp heven _ _ _ _ rfl) (checkCases_eq_ok.mp heven' _ _ _ _ rfl)
      fun e => ⟨fun he => ?_, fun he => ?_⟩
    · exact case_of_lookupCases (fun r => (hcases r).mp) he
    · exact case_of_lookupCases (fun r => (hcases r).mpr) he
  case returnVoid.returnVoid.refl => exact .refl _
  all_goals
    simp only [hcolumns]
    exact .refl _

/-! ## Programs with the same facts -/

variable {g g' : Arena} {c c' : FlowGraph} {order order' : List StmtId}
  {E E' : List (StmtId × StmtId)}

section Transfer

variable (h : ∀ rel t, Fact g c order E rel t → Fact g' c' order' E' rel t)
include h

theorem mem_order {id : StmtId} (hid : id ∈ order) : id ∈ order' := by
  obtain ⟨id', hid', ht⟩ := (h _ _ (.unit hid)).tells
  simp only [List.cons.injEq, token_inj, and_true] at ht
  exact ht ▸ hid'

theorem owner_eq {id : StmtId} (hid : id ∈ order) {m : MethodId} (hm : c.owner id = .ok m) :
    c'.owner id = .ok m := by
  obtain ⟨id', _, m', hm', ht⟩ := (h _ _ (.methodOfUnit hid hm)).tells
  simp only [List.cons.injEq, token_inj, and_true] at ht
  obtain ⟨rfl, rfl⟩ := ht
  exact hm'

theorem mem_edges {e : StmtId × StmtId} (he : e ∈ E) : e ∈ E' := by
  obtain ⟨e', he', ht⟩ := (h _ _ (.edge he)).tells
  simp only [List.cons.injEq, token_inj, and_true] at ht
  obtain rfl : e = e' := Prod.ext ht.1 ht.2
  exact he'

theorem exists_mentions {id : StmtId} (hid : id ∈ order) {v : ValueId} (hv : Mentions g id v) :
    ∃ id' ∈ order', Mentions g' id' v := by
  obtain ⟨id', hid', v', hv', ht⟩ := (h _ _ (.value hid hv)).tells
  simp only [List.cons.injEq, token_inj, and_true] at ht
  exact ⟨id', hid', ht ▸ hv'⟩

/-! ### Statements -/

theorem stmt_of_stmt {id : StmtId} (hid : id ∈ order) {s : Stmt} (hs : g.stmt id = .ok s)
    {m : MethodId} (hm : c.owner id = .ok m) :
    ∃ s' m', g'.stmt id = .ok s' ∧ Rel.ofStmt s = Rel.ofStmt s' ∧
      stmtColumns m s = stmtColumns m' s' := by
  have htells := (h _ _ (.stmt hid hs hm (stmtRow_iff.mpr rfl))).tells
  rw [topic_ofStmt] at htells
  obtain ⟨id', s', m', hs', hrel, ht⟩ := htells
  simp only [List.cons.injEq, token_inj] at ht
  obtain ⟨rfl, hcolumns⟩ := ht
  exact ⟨s', m', hs', hrel, hcolumns⟩

theorem mem_caseRows {id : StmtId} (hid : id ∈ order) {s s' : Stmt} (hs : g.stmt id = .ok s)
    (hs' : g'.stmt id = .ok s') {r : Row} (hr : r ∈ caseRows id s) : r ∈ caseRows id s' := by
  cases s with
  | tableSwitch key low targets default =>
    obtain ⟨i, target, ht, rfl⟩ := mem_tableCases.mp hr
    obtain ⟨id', _, _, _, _, _, j, hj, ht', hrow⟩ := (h _ _ (.tableCase hid hs ht)).tells
    rw [hrow]
    simp only [List.cons.injEq, token_inj] at hrow
    obtain ⟨rfl, -⟩ := hrow
    obtain rfl := Except.ok.inj (hs'.symm.trans hj)
    exact mem_tableCases.mpr ⟨j, _, ht', rfl⟩
  | lookupSwitch key labels targets default =>
    obtain ⟨i, label, target, hl, ht, rfl⟩ := mem_lookupCases.mp hr
    obtain ⟨id', _, _, _, _, _, _, j, hj, hl', ht', hrow⟩ :=
      (h _ _ (.lookupCase hid hs hl ht)).tells
    rw [hrow]
    simp only [List.cons.injEq, token_inj] at hrow
    obtain ⟨rfl, -⟩ := hrow
    obtain rfl := Except.ok.inj (hs'.symm.trans hj)
    exact mem_lookupCases.mpr ⟨j, _, _, hl', ht', rfl⟩
  | _ => simp [caseRows] at hr

/-! ### Values -/

theorem value_of_value {id : StmtId} (hid : id ∈ order) {v : ValueId} (hv : Mentions g id v)
    {x : Value} (hx : g.value v = .ok x) {m : MethodId} (hm : c.owner id = .ok m) :
    ∃ y m', g'.value v = .ok y ∧ Rel.ofValue x = Rel.ofValue y ∧
      valueColumns m x = valueColumns m' y := by
  have htells := (h _ _ (.definition hid hv hx hm (valueRow_iff.mpr rfl))).tells
  rw [topic_ofValue] at htells
  obtain ⟨v', y, m', hy, hrel, ht⟩ := htells
  simp only [List.cons.injEq, token_inj] at ht
  obtain ⟨rfl, hcolumns⟩ := ht
  exact ⟨y, m', hy, hrel, hcolumns⟩

theorem argument_of_argument {id : StmtId} (hid : id ∈ order) {v : ValueId} (hv : Mentions g id v)
    {x y : Value} (hx : g.value v = .ok x) (hy : g'.value v = .ok y) {i : Nat} {arg : ValueId}
    (ha : (arguments x)[i]? = some arg) : (arguments y)[i]? = some arg := by
  obtain ⟨v', y', arg', j, hy', ha', ht⟩ := (h _ _ (.argument hid hv hx ha)).tells
  simp only [List.cons.injEq, Datum.int.injEq, Int.natCast_inj, token_inj] at ht
  obtain ⟨rfl, rfl, rfl, -⟩ := ht
  obtain rfl := Except.ok.inj (hy.symm.trans hy')
  exact ha'

theorem size_of_size {id : StmtId} (hid : id ∈ order) {v : ValueId} (hv : Mentions g id v)
    {x y : Value} (hx : g.value v = .ok x) (hy : g'.value v = .ok y) {i : Nat} {size : ValueId}
    (hz : (sizes x)[i]? = some size) : (sizes y)[i]? = some size := by
  obtain ⟨element, hx⟩ : ∃ element, g.value v = .ok (.newMultiArray element (sizes x)) := by
    cases x with
    | newMultiArray element sizes => exact ⟨element, hx⟩
    | _ => simp [sizes] at hz
  obtain ⟨v', element', sizes', size', j, hy', hz', ht⟩ := (h _ _ (.size hid hv hx hz)).tells
  simp only [List.cons.injEq, Datum.int.injEq, Int.natCast_inj, token_inj] at ht
  obtain ⟨rfl, rfl, rfl, -⟩ := ht
  obtain rfl := Except.ok.inj (hy.symm.trans hy')
  exact hz'

/-! ### Methods, fields and types -/

theorem method_of_method {id : MethodId} (hp : Met g c (· ∈ order) (.method id)) {m : Method}
    (hm : g.method id = .ok m) : Met g' c' (· ∈ order') (.method id) ∧
      ∃ m', g'.method id = .ok m' ∧ m' = { m with parameterTypes := m'.parameterTypes } := by
  obtain ⟨id', m', hp', hm', ht⟩ := (h _ _ (.method hp hm)).tells
  simp only [List.cons.injEq, Datum.str.injEq, Datum.bool.injEq, token_inj, and_true] at ht
  obtain ⟨rfl, hname, hclass, hstatic, hreturn⟩ := ht
  refine ⟨hp', m', hm', ?_⟩
  rw [hname, hclass, hstatic, hreturn]

theorem parameter_of_parameter {id : MethodId} (hp : Met g c (· ∈ order) (.method id))
    {m m' : Method} (hm : g.method id = .ok m) (hm' : g'.method id = .ok m') {i : Nat}
    {ty : TypeId} (ht : m.parameterTypes[i]? = some ty) : m'.parameterTypes[i]? = some ty := by
  obtain ⟨id', m'', ty', j, hm'', ht', hrow⟩ := (h _ _ (.parameter hp hm ht)).tells
  simp only [List.cons.injEq, Datum.int.injEq, Int.natCast_inj, token_inj] at hrow
  obtain ⟨rfl, rfl, rfl, -⟩ := hrow
  obtain rfl := Except.ok.inj (hm'.symm.trans hm'')
  exact ht'

theorem field_of_field {id : FieldId} (hp : Met g c (· ∈ order) (.field id)) {f : Field}
    (hf : g.field id = .ok f) :
    Met g' c' (· ∈ order') (.field id) ∧ g'.field id = .ok f := by
  obtain ⟨id', f', hp', hf', ht⟩ := (h _ _ (.field hp hf)).tells
  obtain ⟨name, declaringClass, ty⟩ := f
  simp only [List.cons.injEq, Datum.str.injEq, token_inj, and_true] at ht
  obtain ⟨rfl, rfl, rfl, rfl⟩ := ht
  exact ⟨hp', hf'⟩

theorem type_of_type {id : TypeId} (hp : Met g c (· ∈ order) (.type id)) {t : Ty}
    (ht : g.type id = .ok t) : Met g' c' (· ∈ order') (.type id) ∧ g'.type id = .ok t := by
  have htells := (h _ _ (.type hp ht (typeRow_iff.mpr rfl))).tells
  rw [topic_ofTy] at htells
  obtain ⟨id', t', hp', ht', hrel, hrow⟩ := htells
  simp only [List.cons.injEq, token_inj] at hrow
  obtain ⟨rfl, hcolumns⟩ := hrow
  obtain rfl := ty_eq_of_columns hrel hcolumns
  exact ⟨hp', ht'⟩

end Transfer

section Same

variable (h : ∀ rel t, Fact g c order E rel t ↔ Fact g' c' order' E' rel t)
include h

theorem sameStmt {id : StmtId} (hid : id ∈ order) {s s' : Stmt} (hs : g.stmt id = .ok s)
    (hs' : g'.stmt id = .ok s') {m : MethodId} (hm : c.owner id = .ok m)
    (heven : checkCases id s = .ok ()) (heven' : checkCases id s' = .ok ()) : SameStmt s s' := by
  have forth (rel : Rel) (t : Tuple) := (h rel t).mp
  have back (rel : Rel) (t : Tuple) := (h rel t).mpr
  obtain ⟨_, m', hs'', hrel, hcolumns⟩ := stmt_of_stmt forth hid hs hm
  obtain rfl := Except.ok.inj (hs'.symm.trans hs'')
  refine sameStmt_of_rows heven heven' hrel hcolumns fun r => ⟨fun hr => ?_, fun hr => ?_⟩
  · exact mem_caseRows forth hid hs hs' hr
  · exact mem_caseRows back (mem_order forth hid) hs' hs hr

theorem sameValue {id : StmtId} (hid : id ∈ order) {v : ValueId} (hv : Mentions g id v) {x : Value}
    (hx : g.value v = .ok x) {m : MethodId} (hm : c.owner id = .ok m) :
    ∃ y, g'.value v = .ok y ∧ SameValue x y := by
  have forth (rel : Rel) (t : Tuple) := (h rel t).mp
  have back (rel : Rel) (t : Tuple) := (h rel t).mpr
  obtain ⟨id', hid', hv'⟩ := exists_mentions forth hid hv
  obtain ⟨y, m', hy, hrel, hcolumns⟩ := value_of_value forth hid hv hx hm
  refine ⟨y, hy, sameValue_of_columns hrel hcolumns ?_ ?_⟩
  · refine eq_of_entries (fun i arg ha => ?_) (fun i arg ha => ?_)
    · exact argument_of_argument forth hid hv hx hy ha
    · exact argument_of_argument back hid' hv' hy hx ha
  · refine eq_of_entries (fun i size hz => ?_) (fun i size hz => ?_)
    · exact size_of_size forth hid hv hx hy hz
    · exact size_of_size back hid' hv' hy hx hz

theorem same_method {id : MethodId} (hp : Met g c (· ∈ order) (.method id)) {m : Method}
    (hm : g.method id = .ok m) : Met g' c' (· ∈ order') (.method id) ∧ g'.method id = .ok m := by
  have forth (rel : Rel) (t : Tuple) := (h rel t).mp
  have back (rel : Rel) (t : Tuple) := (h rel t).mpr
  obtain ⟨hp', m', hm', hrest⟩ := method_of_method forth hp hm
  have hparameters : m.parameterTypes = m'.parameterTypes := by
    refine eq_of_entries (fun i ty ht => ?_) (fun i ty ht => ?_)
    · exact parameter_of_parameter forth hp hm hm' ht
    · exact parameter_of_parameter back hp' hm' hm ht
  rw [← hparameters] at hrest
  obtain rfl : m' = m := hrest
  exact ⟨hp', hm'⟩

/-- The statements of both programs lead to the same parts, of the same nodes up to what their rows
do not record. -/
theorem met_sameNode (howned : ∀ id ∈ order, ∃ m, c.owner id = .ok m) {p : Part}
    (hp : Met g c (· ∈ order) p) {n : Node} (hn : Resolves g p n) :
    Met g' c' (· ∈ order') p ∧ ∃ n', Resolves g' p n' ∧ SameNode n n' := by
  have forth (rel : Rel) (t : Tuple) := (h rel t).mp
  obtain ⟨hn, hk⟩ := hn
  cases p with
  | value v =>
    cases n <;> cases hk
    obtain ⟨id, hid, hv⟩ := hp.mentions
    obtain ⟨id', hid', hv'⟩ := exists_mentions forth hid hv
    obtain ⟨m, hm⟩ := howned id hid
    obtain ⟨y, hy, hsame⟩ := sameValue h hid hv (Arena.value_eq_ok.mpr hn) hm
    exact ⟨.value hid' hv', .value y, ⟨Arena.value_eq_ok.mp hy, rfl⟩, .value hsame⟩
  | type id =>
    cases n <;> cases hk
    obtain ⟨hp', ht⟩ := type_of_type forth hp (Arena.type_eq_ok.mpr hn)
    exact ⟨hp', _, ⟨Arena.type_eq_ok.mp ht, rfl⟩, .refl _⟩
  | method id =>
    cases n <;> cases hk
    obtain ⟨hp', hm⟩ := same_method h hp (Arena.method_eq_ok.mpr hn)
    exact ⟨hp', _, ⟨Arena.method_eq_ok.mp hm, rfl⟩, .refl _⟩
  | field id =>
    cases n <;> cases hk
    obtain ⟨hp', hf⟩ := field_of_field forth hp (Arena.field_eq_ok.mpr hn)
    exact ⟨hp', _, ⟨Arena.field_eq_ok.mp hf, rfl⟩, .refl _⟩

end Same

/-- Two programs whose registered statements lead to the same statements and parts, with the same
owners, edges, and nodes up to what their rows do not record. -/
structure SameProgram (g g' : Arena) (c c' : FlowGraph) : Prop where
  reached : ∀ id, Reached g c id ↔ Reached g' c' id
  met : ∀ p, Met g c (Reached g c) p ↔ Met g' c' (Reached g' c') p
  owner : ∀ id, Reached g c id → ∃ m, c.owner id = .ok m ∧ c'.owner id = .ok m
  edges : ∀ e, e ∈ c.edges ↔ e ∈ c'.edges
  stmt : ∀ id, Reached g c id → ∃ s s', g.stmt id = .ok s ∧ g'.stmt id = .ok s' ∧ SameStmt s s'
  part : ∀ p, Met g c (Reached g c) p →
    ∃ n n', Resolves g p n ∧ Resolves g' p n' ∧ SameNode n n'

/-- Well-kinded programs with the same extracted store are the same up to what their rows do not
record. -/
theorem encoding_faithful (hkinds : WellKinded g c) (hkinds' : WellKinded g' c') {s : Store}
    (hs : extract g c = .ok s) (hs' : extract g' c' = .ok s) : SameProgram g g' c c' := by
  obtain ⟨order, a, horder, hexact, hpresents⟩ := exact_of_extract hs
  obtain ⟨order', a', horder', hexact', hpresents'⟩ := exact_of_extract hs'
  have hfacts (rel : Rel) (t : Tuple) :
      Fact g c order c.edges rel t ↔ Fact g' c' order' c'.edges rel t :=
    hpresents.mem.symm.trans hpresents'.mem
  have hfacts' (rel : Rel) (t : Tuple) := (hfacts rel t).symm
  have forth (rel : Rel) (t : Tuple) := (hfacts rel t).mp
  have back (rel : Rel) (t : Tuple) := (hfacts rel t).mpr
  have howned (id : StmtId) (hid : id ∈ order) : ∃ m, c.owner id = .ok m :=
    owned_of_extract hs id (horder.mem.mp hid)
  have howned' (id : StmtId) (hid : id ∈ order') : ∃ m, c'.owner id = .ok m :=
    owned_of_extract hs' id (horder'.mem.mp hid)
  constructor
  case reached =>
    intro id
    rw [← horder.mem, ← horder'.mem]
    exact ⟨mem_order forth, mem_order back⟩
  case met =>
    intro p
    constructor
    · intro hp
      obtain ⟨n, hn⟩ := hkinds.part hp
      exact horder'.met_iff.mp (met_sameNode hfacts howned (horder.met_iff.mpr hp) hn).1
    · intro hp
      obtain ⟨n, hn⟩ := hkinds'.part hp
      exact horder.met_iff.mp (met_sameNode hfacts' howned' (horder'.met_iff.mpr hp) hn).1
  case owner =>
    intro id hid
    obtain ⟨m, hm⟩ := howned id (horder.mem.mpr hid)
    exact ⟨m, hm, owner_eq forth (horder.mem.mpr hid) hm⟩
  case edges => exact fun e => ⟨mem_edges forth, mem_edges back⟩
  case stmt =>
    intro id hid
    have hmem := horder.mem.mpr hid
    obtain ⟨x, m, he⟩ := hexact.emitted id hmem
    obtain ⟨x', m', he'⟩ := hexact'.emitted id (mem_order forth hmem)
    exact ⟨x, x', he.stmt, he'.stmt,
      sameStmt hfacts hmem he.stmt he'.stmt he.owner he.even he'.even⟩
  case part =>
    intro p hp
    obtain ⟨n, hn⟩ := hkinds.part hp
    obtain ⟨_, n', hn', hsame⟩ := met_sameNode hfacts howned (horder.met_iff.mpr hp) hn
    exact ⟨n, n', hn, hn', hsame⟩

/-- A method that returns a string. -/
def quoted (text : String) : Arena :=
  ⟨#[.type .void, .method ⟨"run", "A", true, ⟨0⟩, []⟩, .value (.stringConst text),
    .stmt (.returnValue ⟨2⟩)]⟩

/-- The control flow of `quoted`. -/
def quotedFlow : FlowGraph := (FlowGraph.empty.insertNode ⟨3⟩).setOwner ⟨3⟩ ⟨1⟩

/-- The rows of `quoted`, of whose text they keep `content`. -/
def quotedRows (content : String) : List Row :=
  [⟨.stringConst, [token ⟨2⟩, .str content]⟩, ⟨.value, [token ⟨2⟩]⟩, ⟨.voidType, [token ⟨0⟩]⟩,
    ⟨.method, [token ⟨1⟩, .str "run", .str "A", .bool true, token ⟨0⟩]⟩,
    ⟨.returnValue, [token ⟨3⟩, token ⟨2⟩, token ⟨1⟩]⟩, ⟨.methodOfUnit, [token ⟨3⟩, token ⟨1⟩]⟩,
    ⟨.unit, [token ⟨3⟩]⟩]

theorem pass_quoted (text : String) : pass (quoted text) quotedFlow =
    .ok ⟨[⟨3⟩], ⟨quotedRows (Text.dropBlanks text), [⟨2⟩, ⟨0⟩, ⟨1⟩]⟩⟩ := by
  have hemit : emitStmt (quoted text) quotedFlow ⟨3⟩ ⟨[], .empty⟩ =
      .ok ([], ⟨[⟨3⟩], ⟨quotedRows (Text.dropBlanks text), [⟨2⟩, ⟨0⟩, ⟨1⟩]⟩⟩) := rfl
  exact pass_of_emitStmt rfl hemit

/-- White space is not recorded: programs that differ in it may have the same store. -/
theorem extract_quoted {a b : String} (h : Text.dropBlanks a = Text.dropBlanks b) :
    extract (quoted a) quotedFlow = extract (quoted b) quotedFlow := by
  rw [extract, extract, pass_quoted, pass_quoted, h]

/-- Two different programs with the same store. -/
theorem encoding_faithful_quoted :
    ∃ s, extract (quoted "a b") quotedFlow = .ok s ∧ extract (quoted "ab") quotedFlow = .ok s ∧
      quoted "a b" ≠ quoted "ab" ∧
      SameProgram (quoted "a b") (quoted "ab") quotedFlow quotedFlow := by
  obtain ⟨s, hs⟩ := exists_extract_of_pass (pass_quoted "a b")
  have hs' : extract (quoted "ab") quotedFlow = .ok s := by
    rw [← hs]
    exact extract_quoted (by decide)
  refine ⟨s, hs, hs', by decide, encoding_faithful ?_ ?_ hs hs'⟩
  · exact wellKinded_of_tokensFit (by decide +kernel)
  · exact wellKinded_of_tokensFit (by decide +kernel)

end ProgramFacts.Extraction
