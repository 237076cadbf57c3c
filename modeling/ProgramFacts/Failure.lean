import ProgramFacts.Fact.Store
import ProgramFacts.Files.Cause
import ProgramFacts.Program.Arena

/-! Why extraction, mutation, sessions and their sinks and settings fail. -/

namespace ProgramFacts

open Program ProgramFacts.Fact Files

inductive Failure
  | arity (mismatch : ArityMismatch)
  /-- A token resolves to nothing, or to a node of a kind that does not fit. -/
  | unhandled (id : NodeId) (found : Option NodeKind)
  | program (fault : Fault)
  | persistence (path : String) (cause : Cause)
  | files (cause : Cause)
  /-- The text of a configuration is malformed. -/
  | configuration
deriving DecidableEq, Repr

namespace Failure

/-- The failure that a fault of the program causes. -/
def ofFault : Fault → Failure
  | .dangling id _ => unhandled id none
  | .wrongKind id _ found => unhandled id (some found)
  | fault => program fault

/-- The text of a failure; malformed configurations have none, and neither has what does not come to
an end. -/
def message? : Failure → Option String
  | arity mismatch => some mismatch.message
  | unhandled id found =>
    some ("Node `" ++ id.text ++ "` has no registered handling (found " ++
      (found.map NodeKind.name).getD "nothing" ++ ")")
  | program fault => fault.message?.map ("Graph error: " ++ ·)
  | persistence path cause => some ("Failed to persist diff to '" ++ path ++ "': " ++ cause.message)
  | files cause => some ("I/O error: " ++ cause.message)
  | configuration => none

end Failure

end ProgramFacts
