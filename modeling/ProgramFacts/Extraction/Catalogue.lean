import ProgramFacts.Fact.Relation
import ProgramFacts.Program.Node

/-! The relations of the fact encoding, with their names and columns.  A statement, value or type
has its row in the relation of its variant; a variant with an operator, dispatch or primitive type
has one relation for each. -/

namespace ProgramFacts.Extraction

open Program ProgramFacts.Fact

/-- A relation of the encoding. -/
inductive Rel
  | unit | methodOfUnit | controlFlowEdge
  | identity | assign | returnValue | returnVoid | invoke | ifGoto | goto
  | tableSwitch | tableSwitchCases | lookupSwitch | lookupSwitchCases
  | throwValue | enterMonitor | exitMonitor
  | value | localVar | methodOfLocal | parameterRef | thisRef | caughtException
  | instanceField | staticField | arrayElement
  | instanceInvoke (dispatch : Dispatch) | staticInvoke | invocationArguments
  | stringConst | intConst | longConst | floatConst | doubleConst | nullConst | classConst
  | binary (op : Operator) | negate | lengthOf | cast | instanceOf
  | newObject | newArray | newMultiArray | newMultiArraySizes
  | method | methodParameters | field
  | referenceType | primType (prim : Prim) | voidType | arrayType
deriving DecidableEq, Repr

/-- The relation of the instance calls of a dispatch. -/
def dispatchName : Dispatch → String
  | .virtual => "VirtualInvokeExpr"
  | .special => "SpecialInvokeExpr"
  | .interface => "InterfaceInvokeExpr"

def operatorName : Operator → String
  | .add => "AddExpr"
  | .sub => "SubExpr"
  | .mul => "MulExpr"
  | .div => "DivExpr"
  | .rem => "RemExpr"
  | .and => "AndExpr"
  | .or => "OrExpr"
  | .xor => "XorExpr"
  | .shl => "ShlExpr"
  | .shr => "ShrExpr"
  | .ushr => "UshrExpr"
  | .cmp => "CmpExpr"
  | .cmpg => "CmpgExpr"
  | .cmpl => "CmplExpr"
  | .eq => "EqExpr"
  | .ne => "NeExpr"
  | .ge => "GeExpr"
  | .gt => "GtExpr"
  | .le => "LeExpr"
  | .lt => "LtExpr"

def primName : Prim → String
  | .boolean => "BooleanType"
  | .byte => "ByteType"
  | .char => "CharType"
  | .short => "ShortType"
  | .int => "IntType"
  | .long => "LongType"
  | .float => "FloatType"
  | .double => "DoubleType"

namespace Rel

def name : Rel → String
  | unit => "Unit"
  | methodOfUnit => "MethodOfUnit"
  | controlFlowEdge => "ControlFlowEdge"
  | identity => "Identity"
  | assign => "Assign"
  | returnValue => "Return"
  | returnVoid => "ReturnVoid"
  | invoke => "Invoke"
  | ifGoto => "If"
  | goto => "Goto"
  | tableSwitch => "TableSwitch"
  | tableSwitchCases => "TableSwitchCases"
  | lookupSwitch => "LookupSwitch"
  | lookupSwitchCases => "LookupSwitchCases"
  | throwValue => "Throw"
  | enterMonitor => "EnterMonitor"
  | exitMonitor => "ExitMonitor"
  | value => "Value"
  | localVar => "Local"
  | methodOfLocal => "MethodOfLocal"
  | parameterRef => "ParameterRef"
  | thisRef => "ThisRef"
  | caughtException => "CaughtExceptionRef"
  | instanceField => "InstanceFieldRef"
  | staticField => "StaticFieldRef"
  | arrayElement => "ArrayRef"
  | instanceInvoke dispatch => dispatchName dispatch
  | staticInvoke => "StaticInvokeExpr"
  | invocationArguments => "MethodInvocationArguments"
  | stringConst => "StringConstant"
  | intConst => "IntConstant"
  | longConst => "LongConstant"
  | floatConst => "FloatConstant"
  | doubleConst => "DoubleConstant"
  | nullConst => "NullConstant"
  | classConst => "ClassConstant"
  | binary op => operatorName op
  | negate => "NegExpr"
  | lengthOf => "LengthExpr"
  | cast => "CastExpr"
  | instanceOf => "InstanceOfExpr"
  | newObject => "NewExpr"
  | newArray => "NewArrayExpr"
  | newMultiArray => "NewMultiArrayExpr"
  | newMultiArraySizes => "NewMultiArraySizes"
  | method => "Method"
  | methodParameters => "MethodParameters"
  | field => "Field"
  | referenceType => "RefType"
  | primType prim => primName prim
  | voidType => "VoidType"
  | arrayType => "ArrayType"

def number (name : String) : Column := ⟨name, .integer⟩

def string (name : String) : Column := ⟨name, .string⟩

def boolean (name : String) : Column := ⟨name, .boolean⟩

def columns : Rel → Schema
  | unit | value | caughtException | nullConst | primType _ | voidType => [number "id"]
  | methodOfUnit => [number "unit", number "method"]
  | controlFlowEdge => [number "source", number "target"]
  | identity | assign | binary _ => [number "id", number "left", number "right"]
  | returnValue => [number "id", number "op", number "method"]
  | returnVoid => [number "id", number "method"]
  | invoke => [number "id", number "invokeExpr"]
  | ifGoto => [number "id", number "condition", number "target"]
  | goto => [number "id", number "target"]
  | tableSwitch | lookupSwitch => [number "id", number "key", number "defaultCase"]
  | tableSwitchCases => [number "switchId", number "index", number "target"]
  | lookupSwitchCases => [number "switchId", number "lookupValue", number "target"]
  | throwValue | enterMonitor | exitMonitor | negate | lengthOf => [number "id", number "op"]
  | localVar => [number "id", string "name", number "type"]
  | methodOfLocal => [number "local", number "method"]
  | parameterRef => [number "id", number "index", number "type", number "method"]
  | thisRef | newObject => [number "id", number "type"]
  | instanceField => [number "id", number "base", number "fieldRef"]
  | staticField => [number "id", number "fieldRef"]
  | arrayElement => [number "id", number "base", number "index"]
  | instanceInvoke _ => [number "id", number "base", number "methodRef"]
  | staticInvoke => [number "id", number "methodRef"]
  | invocationArguments => [number "invokeId", number "index", number "argument"]
  | intConst | longConst => [number "id", number "value"]
  | stringConst | floatConst | doubleConst | classConst => [number "id", string "value"]
  | cast | instanceOf => [number "id", number "op", number "type"]
  | newArray => [number "id", number "baseType", number "size"]
  | newMultiArray | arrayType => [number "id", number "baseType"]
  | newMultiArraySizes => [number "arrayExprId", number "index", number "sizeValueId"]
  | method =>
    [number "id", string "name", string "declaringClass", boolean "isStatic", number "returnType"]
  | methodParameters => [number "methodId", number "index", number "parameterType"]
  | field => [number "id", string "name", string "declaringClass", number "type"]
  | referenceType => [number "id", string "name"]

def ofStmt : Stmt → Rel
  | .identity .. => identity
  | .assign .. => assign
  | .returnValue _ => returnValue
  | .returnVoid => returnVoid
  | .invoke _ => invoke
  | .ifGoto .. => ifGoto
  | .goto _ => goto
  | .tableSwitch .. => tableSwitch
  | .lookupSwitch .. => lookupSwitch
  | .throwValue _ => throwValue
  | .enterMonitor _ => enterMonitor
  | .exitMonitor _ => exitMonitor

def ofValue : Value → Rel
  | .localVar .. => localVar
  | .parameterRef .. => parameterRef
  | .thisRef _ => thisRef
  | .caughtException => caughtException
  | .instanceField .. => instanceField
  | .staticField _ => staticField
  | .arrayElement .. => arrayElement
  | .instanceInvoke dispatch .. => instanceInvoke dispatch
  | .staticInvoke .. => staticInvoke
  | .stringConst _ => stringConst
  | .intConst _ => intConst
  | .longConst _ => longConst
  | .floatConst _ => floatConst
  | .doubleConst _ => doubleConst
  | .nullConst => nullConst
  | .classConst _ => classConst
  | .binary op .. => binary op
  | .negate _ => negate
  | .lengthOf _ => lengthOf
  | .cast .. => cast
  | .instanceOf .. => instanceOf
  | .newObject _ => newObject
  | .newArray .. => newArray
  | .newMultiArray .. => newMultiArray

def ofTy : Ty → Rel
  | .reference _ => referenceType
  | .prim prim => primType prim
  | .void => voidType
  | .array _ => arrayType

end Rel

end ProgramFacts.Extraction
