import ProgramFacts.Program.Id

/-! Types, and the declarations of methods and fields. -/

namespace ProgramFacts.Program

inductive Prim
  | boolean | byte | char | short | int | long | float | double
deriving DecidableEq, Repr

def Prim.keyword : Prim → String
  | .boolean => "boolean"
  | .byte => "byte"
  | .char => "char"
  | .short => "short"
  | .int => "int"
  | .long => "long"
  | .float => "float"
  | .double => "double"

inductive Ty
  | reference (className : String)
  | prim (prim : Prim)
  | void
  | array (element : TypeId)
deriving DecidableEq, Repr

/-- Whether a type is the primitive `int`. -/
def Ty.isInt : Ty → Bool
  | .prim .int => true
  | _ => false

structure Method where
  name : String
  declaringClass : String
  isStatic : Bool
  returnType : TypeId
  parameterTypes : List TypeId
deriving DecidableEq, Repr

structure Field where
  name : String
  declaringClass : String
  ty : TypeId
deriving DecidableEq, Repr

end ProgramFacts.Program
