import ProgramFacts.Proofs.Insertion
import ProgramFacts.Proofs.Rebuilding

/-! Extracted stores are well typed.  The documentation fixes the columns of every relation by its
name; an extracted store has no relation without rows and none with other columns, and each of its
rows has a value of the right type in every column.  So no extraction fails because a row does not
fit. -/

namespace ProgramFacts.Extraction

open Program ProgramFacts.Fact ProgramFacts.Flow Schema

/-- The documented relations: the names that share their columns, and the columns. -/
def documentation : List (List String × Schema) := [
  (["Unit"], ofNames ["id"]),
  (["MethodOfUnit"], ofNames ["unit", "method"]),
  (["Identity", "Assign"], ofNames ["id", "left", "right"]),
  (["Return"], ofNames ["id", "op", "method"]),
  (["ReturnVoid"], ofNames ["id", "method"]),
  (["Invoke"], ofNames ["id", "invokeExpr"]),
  (["If"], ofNames ["id", "condition", "target"]),
  (["Goto"], ofNames ["id", "target"]),
  (["TableSwitch", "LookupSwitch"], ofNames ["id", "key", "defaultCase"]),
  (["TableSwitchCases"], ofNames ["switchId", "index", "target"]),
  (["LookupSwitchCases"], ofNames ["switchId", "lookupValue", "target"]),
  (["Throw", "EnterMonitor", "ExitMonitor"], ofNames ["id", "op"]),
  (["ControlFlowEdge"], ofNames ["source", "target"]),
  (["Value"], ofNames ["id"]),
  (["Local"], [⟨"id", .integer⟩, ⟨"name", .string⟩, ⟨"type", .integer⟩]),
  (["MethodOfLocal"], ofNames ["local", "method"]),
  (["ParameterRef"], ofNames ["id", "index", "type", "method"]),
  (["ThisRef"], ofNames ["id", "type"]),
  (["InstanceFieldRef"], ofNames ["id", "base", "fieldRef"]),
  (["StaticFieldRef"], ofNames ["id", "fieldRef"]),
  (["VirtualInvokeExpr", "SpecialInvokeExpr", "InterfaceInvokeExpr"],
    ofNames ["id", "base", "methodRef"]),
  (["StaticInvokeExpr"], ofNames ["id", "methodRef"]),
  (["MethodInvocationArguments"], ofNames ["invokeId", "index", "argument"]),
  (["StringConstant"], [⟨"id", .integer⟩, ⟨"value", .string⟩]),
  (["IntConstant", "LongConstant"], ofNames ["id", "value"]),
  (["FloatConstant", "DoubleConstant"], [⟨"id", .integer⟩, ⟨"value", .string⟩]),
  (["NullConstant"], ofNames ["id"]),
  (["ClassConstant"], [⟨"id", .integer⟩, ⟨"value", .string⟩]),
  (["AddExpr", "SubExpr", "MulExpr", "DivExpr", "RemExpr", "AndExpr", "OrExpr", "XorExpr",
      "ShlExpr", "ShrExpr", "UshrExpr", "CmpExpr", "CmpgExpr", "CmplExpr", "EqExpr", "NeExpr",
      "GeExpr", "GtExpr", "LeExpr", "LtExpr"], ofNames ["id", "left", "right"]),
  (["NewExpr"], ofNames ["id", "type"]),
  (["ArrayRef"], ofNames ["id", "base", "index"]),
  (["CastExpr"], ofNames ["id", "op", "type"]),
  (["CaughtExceptionRef"], ofNames ["id"]),
  (["NewArrayExpr"], ofNames ["id", "baseType", "size"]),
  (["LengthExpr", "NegExpr"], ofNames ["id", "op"]),
  (["InstanceOfExpr"], ofNames ["id", "op", "type"]),
  (["NewMultiArrayExpr"], ofNames ["id", "baseType"]),
  (["NewMultiArraySizes"], ofNames ["arrayExprId", "index", "sizeValueId"]),
  (["Method"], [⟨"id", .integer⟩, ⟨"name", .string⟩, ⟨"declaringClass", .string⟩,
    ⟨"isStatic", .boolean⟩, ⟨"returnType", .integer⟩]),
  (["MethodParameters"], ofNames ["methodId", "index", "parameterType"]),
  (["Field"], [⟨"id", .integer⟩, ⟨"name", .string⟩, ⟨"declaringClass", .string⟩,
    ⟨"type", .integer⟩]),
  (["RefType"], [⟨"id", .integer⟩, ⟨"name", .string⟩]),
  (["BooleanType", "ByteType", "CharType", "ShortType", "IntType", "LongType", "FloatType",
      "DoubleType", "VoidType"], ofNames ["id"]),
  (["ArrayType"], ofNames ["id", "baseType"])]

/-- The documented columns of the relation of a name, if there is one. -/
def documented? (name : String) : Option Schema :=
  (documentation.find? fun e => e.1.contains name).map Prod.snd

theorem documented?_name (rel : Rel) : documented? rel.name = some rel.columns := by
  have hall : ∀ rel ∈ Rel.all, documented? rel.name = some rel.columns := by decide +kernel
  exact hall rel rel.mem_all

/-- The relation has rows, the given columns, and in each row as many values, each of its column's
type. -/
structure WellTyped (schema : Schema) (r : Relation) : Prop where
  rows : ∃ t, t ∈ r.tuples
  columns : r.schema = some schema
  arity : ∀ t ∈ r.tuples, t.length = schema.length
  types : ∀ t ∈ r.tuples, ∀ (i : Nat) (d : Datum) (column : Column),
    t[i]? = some d → schema[i]? = some column → columnType d = column.type

/-- A value of a row that fits has its column's type. -/
theorem Row.Fits.columnType_eq {r : Row} (h : r.Fits) {i : Nat} {d : Datum} {column : Column}
    (hd : r.tuple[i]? = some d) (hcolumn : r.rel.columns[i]? = some column) :
    columnType d = column.type := by
  have hi : (r.tuple.map columnType)[i]? = (r.rel.columns.map Column.type)[i]? := by
    rw [show r.tuple.map columnType = _ from h]
  rw [List.getElem?_map, List.getElem?_map, hd, hcolumn] at hi
  exact Option.some.inj hi

theorem Encoded.wellTyped {s : Store} (h : Encoded s) {name : String} {r : Relation}
    (hr : s.relation? name = some r) :
    ∃ schema, documented? name = some schema ∧ WellTyped schema r := by
  obtain ⟨rel, rfl, hschema, hrows, hfits⟩ := h name r hr
  exact ⟨rel.columns, documented?_name rel, hrows, hschema,
    fun t ht => (hfits t ht).length_eq.symm, fun t ht _ _ _ => (hfits t ht).columnType_eq⟩

/-- No fault of the program is a row that does not fit. -/
theorem ofFault_ne_arity (fault : Fault) (mismatch : ArityMismatch) :
    Failure.ofFault fault ≠ .arity mismatch := by
  cases fault <;> exact nofun

/-- The extraction of a program, whether or not its tokens fit, does not fail with a row that does
not fit its relation, not even before it comes to a fault of the program: inserting every row at
once makes no difference.  Every relation of a store that it gives is well typed for the documented
columns of its name. -/
theorem extract_well_typed (g : Arena) (c : FlowGraph) :
    (∀ mismatch, extract g c ≠ .error (.arity mismatch)) ∧ extractAtOnce g c = extract g c ∧
      ∀ s, extract g c = .ok s → ∀ name r, s.relation? name = some r →
        ∃ schema, documented? name = some schema ∧ WellTyped schema r := by
  refine ⟨fun mismatch h => ?_, extractAtOnce_eq g c,
    fun s hs name r hr => (encoded_of_extract hs).wellTyped hr⟩
  obtain ⟨stop, _, hfailure⟩ := extract_eq_error.mp h
  exact ofFault_ne_arity stop.fault mismatch hfailure.symm

/-- The variable of `selfTyped` has its row, which is well typed although the type of the variable
is no type. -/
theorem extract_well_typed_selfTyped : ∃ s r, extract selfTyped selfTypedFlow = .ok s ∧
    s.relation? "Local" = some r ∧ [token ⟨2⟩, .str "x", token ⟨2⟩] ∈ r.tuples ∧
      WellTyped [⟨"id", .integer⟩, ⟨"name", .string⟩, ⟨"type", .integer⟩] r := by
  obtain ⟨s, hs⟩ := exists_extract_selfTyped
  obtain ⟨order, _, horder, _, hpresents⟩ := exact_of_extract hs
  have hid : ⟨3⟩ ∈ order := horder.mem.mpr (.node (.head _))
  have hv : Mentions selfTyped ⟨3⟩ ⟨2⟩ := .top (s := .returnValue ⟨2⟩) rfl (.head _)
  have hrow : [token ⟨2⟩, .str "x", token ⟨2⟩] ∈ (s.relation Rel.localVar.name).tuples :=
    hpresents.mem.mpr (.definition hid hv (x := .localVar "x" ⟨2⟩) rfl rfl .localVar)
  cases hr : s.relation? Rel.localVar.name with
  | none => simp [Store.relation, hr, Relation.empty] at hrow
  | some r =>
    rw [Store.relation_of_relation? hr] at hrow
    obtain ⟨schema, hschema, htyped⟩ :=
      (extract_well_typed selfTyped selfTypedFlow).2.2 s hs "Local" r hr
    obtain rfl := Option.some.inj ((documented?_name .localVar).symm.trans hschema)
    exact ⟨s, r, hs, hr, hrow, htyped⟩

end ProgramFacts.Extraction
