import ProgramFacts.Decimal.Layout
import ProgramFacts.Extraction.Catalogue
import ProgramFacts.Text.Blank

/-! The rows that each node contributes to the fact encoding.  Every row names the nodes that it is
about by their tokens; lists become one row per position. -/

namespace ProgramFacts.Extraction

open Program ProgramFacts.Fact

structure Row where
  rel : Rel
  tuple : Tuple
deriving DecidableEq, Repr

def token (id : NodeId) : Datum := .int id.index

/-- The rows that record a list: owner, position and entry. -/
def listRows (rel : Rel) (owner : NodeId) (entries : List NodeId) : List Row :=
  entries.mapIdx fun i entry => ⟨rel, [token owner, .int i, token entry]⟩

def edgeRow (source target : StmtId) : Row := ⟨.controlFlowEdge, [token source, token target]⟩

/-- The columns of a statement's row after its token. -/
def stmtColumns (owner : MethodId) : Stmt → List Datum
  | .identity left right | .assign left right => [token left, token right]
  | .returnValue op => [token op, token owner]
  | .returnVoid => [token owner]
  | .invoke expr => [token expr]
  | .ifGoto condition target => [token condition, token target]
  | .goto target => [token target]
  | .tableSwitch key _ _ default | .lookupSwitch key _ _ default => [token key, token default]
  | .throwValue op | .enterMonitor op | .exitMonitor op => [token op]

def caseRows (id : StmtId) : Stmt → List Row
  | .tableSwitch _ low targets _ =>
    targets.mapIdx fun i target =>
      ⟨.tableSwitchCases, [token id, .int (low.toInt + i), token target]⟩
  | .lookupSwitch _ labels targets _ =>
    (labels.zip targets).map fun c =>
      ⟨.lookupSwitchCases, [token id, token c.1, token c.2]⟩
  | _ => []

/-- The rows of a statement that `owner` owns. -/
def stmtRows (id : StmtId) (owner : MethodId) (s : Stmt) : List Row :=
  ⟨.unit, [token id]⟩ :: ⟨.methodOfUnit, [token id, token owner]⟩ ::
    ⟨.ofStmt s, token id :: stmtColumns owner s⟩ :: caseRows id s

/-- The columns of a value's definition row after its token. -/
def valueColumns (owner : MethodId) : Value → List Datum
  | .localVar name ty => [.str name, token ty]
  | .parameterRef index ty => [.int index.toNat, token ty, token owner]
  | .thisRef ty | .newObject ty => [token ty]
  | .caughtException | .nullConst => []
  | .instanceField base field => [token base, token field]
  | .staticField field => [token field]
  | .arrayElement base index => [token base, token index]
  | .instanceInvoke _ base method _ => [token base, token method]
  | .staticInvoke method _ => [token method]
  | .stringConst value => [.str (Text.dropBlanks value)]
  | .intConst value => [.int value.toInt]
  | .longConst value => [.int value.toInt]
  | .floatConst value => [.str (Decimal.Layout.row.write value.read)]
  | .doubleConst value => [.str (Decimal.Layout.row.write value.read)]
  | .classConst name => [.str name]
  | .binary _ left right => [token left, token right]
  | .negate op | .lengthOf op => [token op]
  | .cast op ty | .instanceOf op ty => [token op, token ty]
  | .newArray element size => [token element, token size]
  | .newMultiArray element _ => [token element]

/-- The rows that record the lists and the owner of a value. -/
def valueListRows (id : ValueId) (owner : MethodId) : Value → List Row
  | .localVar .. => [⟨.methodOfLocal, [token id, token owner]⟩]
  | .instanceInvoke _ _ _ args | .staticInvoke _ args => listRows .invocationArguments id args
  | .newMultiArray _ sizes => listRows .newMultiArraySizes id sizes
  | _ => []

def occurrenceRow (id : ValueId) : Row := ⟨.value, [token id]⟩

/-- The rows that define a value, which occurs in a statement that `owner` owns. -/
def valueRows (id : ValueId) (owner : MethodId) (v : Value) : List Row :=
  ⟨.ofValue v, token id :: valueColumns owner v⟩ :: valueListRows id owner v

def methodRows (id : MethodId) (m : Method) : List Row :=
  ⟨.method, [token id, .str m.name, .str m.declaringClass, .bool m.isStatic, token m.returnType]⟩ ::
    listRows .methodParameters id m.parameterTypes

def fieldRows (id : FieldId) (f : Field) : List Row :=
  [⟨.field, [token id, .str f.name, .str f.declaringClass, token f.ty]⟩]

/-- The columns of a type's row after its token. -/
def typeColumns : Ty → List Datum
  | .reference className => [.str className]
  | .prim _ | .void => []
  | .array element => [token element]

def typeRows (id : TypeId) (t : Ty) : List Row := [⟨.ofTy t, token id :: typeColumns t⟩]

end ProgramFacts.Extraction
