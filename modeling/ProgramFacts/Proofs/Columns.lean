import ProgramFacts.Extraction.Row

/-! Which operand stands in which column: the row of every variant of statement, value and type, one
by one, without the tables that the pass shares between variants.  The rows that the pass builds are
these. -/

namespace ProgramFacts.Extraction

open Program ProgramFacts.Fact

/-- The row of a statement that `owner` owns: its relation and columns. -/
inductive StmtRow (id : StmtId) (owner : MethodId) : Stmt → Row → Prop
  | identity {left right : ValueId} :
      StmtRow id owner (.identity left right) ⟨.identity, [token id, token left, token right]⟩
  | assign {left right : ValueId} :
      StmtRow id owner (.assign left right) ⟨.assign, [token id, token left, token right]⟩
  | returnValue {op : ValueId} :
      StmtRow id owner (.returnValue op) ⟨.returnValue, [token id, token op, token owner]⟩
  | returnVoid : StmtRow id owner .returnVoid ⟨.returnVoid, [token id, token owner]⟩
  | invoke {expr : ValueId} : StmtRow id owner (.invoke expr) ⟨.invoke, [token id, token expr]⟩
  | ifGoto {condition : ValueId} {target : StmtId} :
      StmtRow id owner (.ifGoto condition target)
        ⟨.ifGoto, [token id, token condition, token target]⟩
  | goto {target : StmtId} : StmtRow id owner (.goto target) ⟨.goto, [token id, token target]⟩
  | tableSwitch {key : ValueId} {low : Int32} {targets : List StmtId} {default : StmtId} :
      StmtRow id owner (.tableSwitch key low targets default)
        ⟨.tableSwitch, [token id, token key, token default]⟩
  | lookupSwitch {key : ValueId} {labels : List ValueId} {targets : List StmtId}
      {default : StmtId} :
      StmtRow id owner (.lookupSwitch key labels targets default)
        ⟨.lookupSwitch, [token id, token key, token default]⟩
  | throwValue {op : ValueId} :
      StmtRow id owner (.throwValue op) ⟨.throwValue, [token id, token op]⟩
  | enterMonitor {op : ValueId} :
      StmtRow id owner (.enterMonitor op) ⟨.enterMonitor, [token id, token op]⟩
  | exitMonitor {op : ValueId} :
      StmtRow id owner (.exitMonitor op) ⟨.exitMonitor, [token id, token op]⟩

/-- The row that defines a value, which occurs in a statement that `owner` owns.  Strings lose their
white space; floating-point constants are strings. -/
inductive ValueRow (id : ValueId) (owner : MethodId) : Value → Row → Prop
  | localVar {name : String} {ty : TypeId} :
      ValueRow id owner (.localVar name ty) ⟨.localVar, [token id, .str name, token ty]⟩
  | parameterRef {index : UInt32} {ty : TypeId} :
      ValueRow id owner (.parameterRef index ty)
        ⟨.parameterRef, [token id, .int index.toNat, token ty, token owner]⟩
  | thisRef {ty : TypeId} : ValueRow id owner (.thisRef ty) ⟨.thisRef, [token id, token ty]⟩
  | caughtException : ValueRow id owner .caughtException ⟨.caughtException, [token id]⟩
  | instanceField {base : ValueId} {field : FieldId} :
      ValueRow id owner (.instanceField base field)
        ⟨.instanceField, [token id, token base, token field]⟩
  | staticField {field : FieldId} :
      ValueRow id owner (.staticField field) ⟨.staticField, [token id, token field]⟩
  | arrayElement {base index : ValueId} :
      ValueRow id owner (.arrayElement base index)
        ⟨.arrayElement, [token id, token base, token index]⟩
  | instanceInvoke {dispatch : Dispatch} {base : ValueId} {method : MethodId}
      {args : List ValueId} :
      ValueRow id owner (.instanceInvoke dispatch base method args)
        ⟨.instanceInvoke dispatch, [token id, token base, token method]⟩
  | staticInvoke {method : MethodId} {args : List ValueId} :
      ValueRow id owner (.staticInvoke method args) ⟨.staticInvoke, [token id, token method]⟩
  | stringConst {value : String} :
      ValueRow id owner (.stringConst value)
        ⟨.stringConst, [token id, .str (Text.dropBlanks value)]⟩
  | intConst {value : Int32} :
      ValueRow id owner (.intConst value) ⟨.intConst, [token id, .int value.toInt]⟩
  | longConst {value : Int64} :
      ValueRow id owner (.longConst value) ⟨.longConst, [token id, .int value.toInt]⟩
  | floatConst {value : Decimal.Binary32} :
      ValueRow id owner (.floatConst value)
        ⟨.floatConst, [token id, .str (Decimal.Layout.row.write value.read)]⟩
  | doubleConst {value : Decimal.Binary64} :
      ValueRow id owner (.doubleConst value)
        ⟨.doubleConst, [token id, .str (Decimal.Layout.row.write value.read)]⟩
  | nullConst : ValueRow id owner .nullConst ⟨.nullConst, [token id]⟩
  | classConst {name : String} :
      ValueRow id owner (.classConst name) ⟨.classConst, [token id, .str name]⟩
  | binary {op : Operator} {left right : ValueId} :
      ValueRow id owner (.binary op left right) ⟨.binary op, [token id, token left, token right]⟩
  | negate {op : ValueId} : ValueRow id owner (.negate op) ⟨.negate, [token id, token op]⟩
  | lengthOf {op : ValueId} : ValueRow id owner (.lengthOf op) ⟨.lengthOf, [token id, token op]⟩
  | cast {op : ValueId} {ty : TypeId} :
      ValueRow id owner (.cast op ty) ⟨.cast, [token id, token op, token ty]⟩
  | instanceOf {op : ValueId} {ty : TypeId} :
      ValueRow id owner (.instanceOf op ty) ⟨.instanceOf, [token id, token op, token ty]⟩
  | newObject {ty : TypeId} : ValueRow id owner (.newObject ty) ⟨.newObject, [token id, token ty]⟩
  | newArray {element : TypeId} {size : ValueId} :
      ValueRow id owner (.newArray element size) ⟨.newArray, [token id, token element, token size]⟩
  | newMultiArray {element : TypeId} {sizes : List ValueId} :
      ValueRow id owner (.newMultiArray element sizes) ⟨.newMultiArray, [token id, token element]⟩

/-- The row of a type. -/
inductive TypeRow (id : TypeId) : Ty → Row → Prop
  | reference {className : String} :
      TypeRow id (.reference className) ⟨.referenceType, [token id, .str className]⟩
  | prim {prim : Prim} : TypeRow id (.prim prim) ⟨.primType prim, [token id]⟩
  | void : TypeRow id .void ⟨.voidType, [token id]⟩
  | array {element : TypeId} : TypeRow id (.array element) ⟨.arrayType, [token id, token element]⟩

variable {owner : MethodId} {row : Row}

theorem stmtRow_iff {id : StmtId} {s : Stmt} :
    StmtRow id owner s row ↔ row = ⟨.ofStmt s, token id :: stmtColumns owner s⟩ := by
  constructor
  · intro h
    cases h <;> rfl
  · rintro rfl
    cases s <;> constructor

theorem valueRow_iff {id : ValueId} {x : Value} :
    ValueRow id owner x row ↔ row = ⟨.ofValue x, token id :: valueColumns owner x⟩ := by
  constructor
  · intro h
    cases h <;> rfl
  · rintro rfl
    cases x <;> constructor

theorem typeRow_iff {id : TypeId} {ty : Ty} :
    TypeRow id ty row ↔ row = ⟨.ofTy ty, token id :: typeColumns ty⟩ := by
  constructor
  · intro h
    cases h <;> rfl
  · rintro rfl
    cases ty <;> constructor

end ProgramFacts.Extraction
