import ProgramFacts.Mutation.Step

/-! Session settings. -/

namespace ProgramFacts.Session

open Mutation

/-- What a session does when its sink fails. -/
inductive FailurePolicy
  /-- Counts the failure and goes on. -/
  | proceed
  /-- Ends with the failure. -/
  | abort
deriving DecidableEq, Repr

structure Config where
  /-- The number of the last iteration that is extracted. -/
  iterationBudget : UInt64 := 1000
  seed : UInt64 := 1563540296429
  identityPolicy : IdentityPolicy := .fresh
  persistenceFailure : FailurePolicy := .proceed
  /-- The directory that iterations are written to, if any. -/
  outputDir : Option String := none
deriving DecidableEq, Repr

/-- The word for an identity policy in settings files. -/
def identityName : IdentityPolicy → String
  | .fresh => "fresh"
  | .preserve => "preserve"

/-- The word for a failure policy in settings files. -/
def failureName : FailurePolicy → String
  | .proceed => "continue"
  | .abort => "abort"

def identityPolicy? : String → Option IdentityPolicy
  | "fresh" => some .fresh
  | "preserve" => some .preserve
  | _ => none

def failurePolicy? : String → Option FailurePolicy
  | "continue" => some .proceed
  | "abort" => some .abort
  | _ => none

end ProgramFacts.Session
