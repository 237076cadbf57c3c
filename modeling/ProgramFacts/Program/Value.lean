import ProgramFacts.Decimal.Binary
import ProgramFacts.Program.Id

/-! Values: variables, references, calls, arithmetic and constants.  The operands of a value are its
sub-values in declared order; they are read as a list and replaced through a map that keeps all
else. -/

namespace ProgramFacts.Program

open Decimal (Binary32 Binary64)

/-- How the receiver of an instance call selects the method that runs. -/
inductive Dispatch
  | virtual | special | interface
deriving DecidableEq, Repr

def Dispatch.keyword : Dispatch → String
  | .virtual => "virtualinvoke"
  | .special => "specialinvoke"
  | .interface => "interfaceinvoke"

/-- A binary operator.  `cmp` compares longs; `cmpg` and `cmpl` compare floating-point numbers and
differ on NaN. -/
inductive Operator
  | add | sub | mul | div | rem | and | or | xor | shl | shr | ushr
  | cmp | cmpg | cmpl | eq | ne | ge | gt | le | lt
deriving DecidableEq, Repr

def Operator.symbol : Operator → String
  | .add => "+"
  | .sub => "-"
  | .mul => "*"
  | .div => "/"
  | .rem => "%"
  | .and => "&"
  | .or => "|"
  | .xor => "^"
  | .shl => "<<"
  | .shr => ">>"
  | .ushr => ">>>"
  | .cmp => "cmp"
  | .cmpg => "cmpg"
  | .cmpl => "cmpl"
  | .eq => "=="
  | .ne => "!="
  | .ge => ">="
  | .gt => ">"
  | .le => "<="
  | .lt => "<"

inductive Value
  | localVar (name : String) (ty : TypeId)
  | parameterRef (index : UInt32) (ty : TypeId)
  | thisRef (ty : TypeId)
  | caughtException
  | instanceField (base : ValueId) (field : FieldId)
  | staticField (field : FieldId)
  | arrayElement (base index : ValueId)
  | instanceInvoke (dispatch : Dispatch) (base : ValueId) (method : MethodId) (args : List ValueId)
  | staticInvoke (method : MethodId) (args : List ValueId)
  | stringConst (value : String)
  | intConst (value : Int32)
  | longConst (value : Int64)
  | floatConst (value : Binary32)
  | doubleConst (value : Binary64)
  | nullConst
  | classConst (name : String)
  | binary (op : Operator) (left right : ValueId)
  | negate (op : ValueId)
  | lengthOf (op : ValueId)
  | cast (op : ValueId) (ty : TypeId)
  | instanceOf (op : ValueId) (ty : TypeId)
  | newObject (ty : TypeId)
  | newArray (element : TypeId) (size : ValueId)
  | newMultiArray (element : TypeId) (sizes : List ValueId)
deriving DecidableEq, Repr

namespace Value

/-- The sub-values of a value, in declared order. -/
def operands : Value → List ValueId
  | instanceField base _ => [base]
  | arrayElement base index => [base, index]
  | instanceInvoke _ base _ args => base :: args
  | staticInvoke _ args => args
  | binary _ left right => [left, right]
  | negate op | lengthOf op | cast op _ | instanceOf op _ => [op]
  | newArray _ size => [size]
  | newMultiArray _ sizes => sizes
  | _ => []

/-- Replaces each sub-value by the image of its position and itself. -/
def mapOperands (f : Nat → ValueId → ValueId) : Value → Value
  | instanceField base field => instanceField (f 0 base) field
  | arrayElement base index => arrayElement (f 0 base) (f 1 index)
  | instanceInvoke dispatch base method args =>
    instanceInvoke dispatch (f 0 base) method (args.mapIdx fun i a => f (i + 1) a)
  | staticInvoke method args => staticInvoke method (args.mapIdx f)
  | binary op left right => binary op (f 0 left) (f 1 right)
  | negate op => negate (f 0 op)
  | lengthOf op => lengthOf (f 0 op)
  | cast op ty => cast (f 0 op) ty
  | instanceOf op ty => instanceOf (f 0 op) ty
  | newArray element size => newArray element (f 0 size)
  | newMultiArray element sizes => newMultiArray element (sizes.mapIdx f)
  | v => v

theorem operands_mapOperands (f : Nat → ValueId → ValueId) (v : Value) :
    (v.mapOperands f).operands = v.operands.mapIdx f := by
  cases v <;> simp [operands, mapOperands]

def isConstant : Value → Bool
  | stringConst _ | intConst _ | longConst _ | floatConst _ | doubleConst _ | nullConst
  | classConst _ => true
  | _ => false

/-- Whether a value is one entity that many places may refer to: a local variable or a constant. -/
def isShared : Value → Bool
  | localVar _ _ => true
  | v => v.isConstant

/-- Equality with floating-point constants compared as numbers. -/
def same : Value → Value → Bool
  | floatConst x, floatConst y => x.numericEq y
  | doubleConst x, doubleConst y => x.numericEq y
  | v, w => v == w

end Value

end ProgramFacts.Program
