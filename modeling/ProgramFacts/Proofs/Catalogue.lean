import Mathlib.Data.List.Nodup
import ProgramFacts.Extraction.Row

/-! The relations of the encoding have different names, and the row of every statement, value and
type has a value of the right type for each column of its relation. -/

namespace ProgramFacts.Extraction

open Program ProgramFacts.Fact

namespace Rel

/-- The relations of the encoding. -/
def all : List Rel :=
  [unit, methodOfUnit, controlFlowEdge, identity, assign, returnValue, returnVoid, invoke, ifGoto,
    goto, tableSwitch, tableSwitchCases, lookupSwitch, lookupSwitchCases, throwValue, enterMonitor,
    exitMonitor, value, localVar, methodOfLocal, parameterRef, thisRef, caughtException,
    instanceField, staticField, arrayElement, staticInvoke, invocationArguments, stringConst,
    intConst, longConst, floatConst, doubleConst, nullConst, classConst, negate, lengthOf, cast,
    instanceOf, newObject, newArray, newMultiArray, newMultiArraySizes, method, methodParameters,
    field, referenceType, voidType, arrayType] ++
  [Dispatch.virtual, .special, .interface].map instanceInvoke ++
  [Operator.add, .sub, .mul, .div, .rem, .and, .or, .xor, .shl, .shr, .ushr, .cmp, .cmpg, .cmpl,
    .eq, .ne, .ge, .gt, .le, .lt].map binary ++
  [Prim.boolean, .byte, .char, .short, .int, .long, .float, .double].map primType

theorem mem_all (rel : Rel) : rel ∈ all := by
  cases rel with
  | instanceInvoke dispatch => cases dispatch <;> decide
  | binary op => cases op <;> decide
  | primType prim => cases prim <;> decide
  | _ => decide

theorem nodup_names : (all.map name).Nodup := by decide +kernel

theorem name_injective {rel rel' : Rel} (h : rel.name = rel'.name) : rel = rel' :=
  List.inj_on_of_nodup_map nodup_names rel.mem_all rel'.mem_all h

end Rel

/-- The type of the columns that hold a value. -/
def columnType : Datum → ColumnType
  | .int _ => .integer
  | .str _ => .string
  | .bool _ => .boolean

/-- Whether a row has a value of the right type for each column of its relation. -/
def Row.Fits (r : Row) : Prop := r.tuple.map columnType = r.rel.columns.map Column.type

instance (r : Row) : Decidable r.Fits := by
  unfold Row.Fits
  infer_instance

theorem Row.Fits.length_eq {r : Row} (h : r.Fits) : r.rel.columns.length = r.tuple.length := by
  simpa using (congrArg List.length h).symm

theorem stmt_fits (id : StmtId) (owner : MethodId) (s : Stmt) :
    (⟨.ofStmt s, token id :: stmtColumns owner s⟩ : Row).Fits := by
  cases s <;> rfl

theorem value_fits (id : ValueId) (owner : MethodId) (v : Value) :
    (⟨.ofValue v, token id :: valueColumns owner v⟩ : Row).Fits := by
  cases v <;> rfl

theorem type_fits (id : TypeId) (t : Ty) : (⟨.ofTy t, token id :: typeColumns t⟩ : Row).Fits := by
  cases t <;> rfl

end ProgramFacts.Extraction
