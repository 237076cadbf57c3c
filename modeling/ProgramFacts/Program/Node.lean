import ProgramFacts.Program.Stmt
import ProgramFacts.Program.Symbol
import ProgramFacts.Program.Value

/-! Nodes: the statements, values, types, methods and fields of a program. -/

namespace ProgramFacts.Program

/-- The five kinds of node. -/
inductive NodeKind
  | stmt | value | type | method | field
deriving DecidableEq, Repr

/-- The name of a kind, as messages print it. -/
def NodeKind.name : NodeKind → String
  | .stmt => "Stmt"
  | .value => "Value"
  | .type => "Type"
  | .method => "Method"
  | .field => "Field"

inductive Node
  | stmt (stmt : Stmt)
  | value (value : Value)
  | type (ty : Ty)
  | method (method : Method)
  | field (field : Field)
deriving DecidableEq, Repr

namespace Node

def kind : Node → NodeKind
  | stmt _ => .stmt
  | value _ => .value
  | type _ => .type
  | method _ => .method
  | field _ => .field

def operands : Node → List ValueId
  | stmt s => s.operands
  | value v => v.operands
  | _ => []

/-- Replaces each operand by the image of its position and itself. -/
def mapOperands (f : Nat → ValueId → ValueId) : Node → Node
  | stmt s => stmt (s.mapOperands f)
  | value v => value (v.mapOperands f)
  | n => n

theorem operands_mapOperands (f : Nat → ValueId → ValueId) (n : Node) :
    (n.mapOperands f).operands = n.operands.mapIdx f := by
  cases n <;> simp [operands, mapOperands, Stmt.operands_mapOperands, Value.operands_mapOperands]

@[simp] theorem kind_mapOperands (f : Nat → ValueId → ValueId) (n : Node) :
    (n.mapOperands f).kind = n.kind := by
  cases n <;> rfl

def labels : Node → List ValueId
  | stmt s => s.labels
  | _ => []

/-- Every mention of a value in a node: its operands and its case labels. -/
def mentions (n : Node) : List ValueId := n.operands ++ n.labels

/-- Equality with floating-point constants compared as numbers. -/
def same : Node → Node → Bool
  | value v, value w => v.same w
  | m, n => m == n

end Node

end ProgramFacts.Program
