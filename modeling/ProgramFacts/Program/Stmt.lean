import ProgramFacts.Program.Id

/-! Statements.  A statement refers to values, its operands, and to other statements, its targets;
targets may lie behind it, so statements form cycles. -/

namespace ProgramFacts.Program

inductive Stmt
  | identity (left right : ValueId)
  | assign (left right : ValueId)
  | returnValue (op : ValueId)
  | returnVoid
  | invoke (expr : ValueId)
  | ifGoto (condition : ValueId) (target : StmtId)
  | goto (target : StmtId)
  /-- Key `low + i` jumps to the `i`-th target. -/
  | tableSwitch (key : ValueId) (low : Int32) (targets : List StmtId) (default : StmtId)
  /-- A key equal to the `i`-th label jumps to the `i`-th target. -/
  | lookupSwitch (key : ValueId) (labels : List ValueId) (targets : List StmtId)
    (default : StmtId)
  | throwValue (op : ValueId)
  | enterMonitor (op : ValueId)
  | exitMonitor (op : ValueId)
deriving DecidableEq, Repr

namespace Stmt

/-- The value operands of a statement, in declared order.  The labels of a switch are not among
them. -/
def operands : Stmt → List ValueId
  | identity left right | assign left right => [left, right]
  | returnValue op | throwValue op | enterMonitor op | exitMonitor op => [op]
  | invoke expr => [expr]
  | ifGoto condition _ => [condition]
  | tableSwitch key _ _ _ | lookupSwitch key _ _ _ => [key]
  | returnVoid | goto _ => []

/-- Replaces each operand by the image of its position and itself. -/
def mapOperands (f : Nat → ValueId → ValueId) : Stmt → Stmt
  | identity left right => identity (f 0 left) (f 1 right)
  | assign left right => assign (f 0 left) (f 1 right)
  | returnValue op => returnValue (f 0 op)
  | invoke expr => invoke (f 0 expr)
  | ifGoto condition target => ifGoto (f 0 condition) target
  | tableSwitch key low targets default => tableSwitch (f 0 key) low targets default
  | lookupSwitch key labels targets default => lookupSwitch (f 0 key) labels targets default
  | throwValue op => throwValue (f 0 op)
  | enterMonitor op => enterMonitor (f 0 op)
  | exitMonitor op => exitMonitor (f 0 op)
  | returnVoid => returnVoid
  | goto target => goto target

theorem operands_mapOperands (f : Nat → ValueId → ValueId) (s : Stmt) :
    (s.mapOperands f).operands = s.operands.mapIdx f := by
  cases s <;> simp [operands, mapOperands]

def labels : Stmt → List ValueId
  | lookupSwitch _ labels _ _ => labels
  | _ => []

/-- The branch targets of a statement: the jump target, or the case targets and then the
default. -/
def targets : Stmt → List StmtId
  | ifGoto _ target | goto target => [target]
  | tableSwitch _ _ targets default | lookupSwitch _ _ targets default => targets ++ [default]
  | _ => []

/-- Whether control may continue with the next statement of the body. -/
def fallsThrough : Stmt → Bool
  | returnValue _ | returnVoid | goto _ | tableSwitch .. | lookupSwitch .. | throwValue _ => false
  | _ => true

end Stmt

end ProgramFacts.Program
