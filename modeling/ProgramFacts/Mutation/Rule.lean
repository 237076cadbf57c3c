import ProgramFacts.Failure

/-! Mutation rules.  A rule decides for a value and the nodes around it whether it applies, and
gives the value that takes its place.  The two built-in rules put the constant `0` in the place of
other `int` constants and of reads of `int` fields. -/

namespace ProgramFacts.Mutation

open Program

/-- A rule for the replacement of one value. -/
structure Rule where
  name : String
  /-- Whether the rule applies to a value, given the nodes around it from the root of the search
  down to its parent. -/
  applies : Arena → ValueId → List NodeId → Except Failure Bool
  /-- The value that takes the place of a value that the rule applies to. -/
  replacement : Arena → ValueId → Except Failure Value

def lookUp {α : Type} (r : Except Fault α) : Except Failure α := r.mapError .ofFault

def parent? (g : Arena) (ancestors : List NodeId) : Except Failure (Option Node) :=
  match ancestors.getLast? with
  | some id => do return some (← lookUp (g.node id))
  | none => return none

/-- Whether a node is an access to an array element. -/
def isArrayAccess : Node → Bool
  | .value (.arrayElement ..) => true
  | _ => false

/-- Whether a node is an assignment whose left side is the given value. -/
def writes (id : ValueId) : Node → Bool
  | .stmt (.assign left _) | .stmt (.identity left _) => left == id
  | _ => false

def referredField? : Value → Option FieldId
  | .instanceField _ field | .staticField field => some field
  | _ => none

/-- Puts `0` in the place of every other `int` constant that is not an operand of an array
access. -/
def intConstantRule : Rule where
  name := "REPLACE_INT_CONSTANT"
  applies g id ancestors := do
    match ← lookUp (g.value id) with
    | .intConst value =>
      let inArrayAccess := ((← parent? g ancestors).map isArrayAccess).getD false
      return value != 0 && !inArrayAccess
    | _ => return false
  replacement _ _ := return .intConst 0

/-- Puts `0` in the place of every reference to an `int` field that is not the left side of an
assignment. -/
def fieldReferenceRule : Rule where
  name := "REPLACE_FIELD_REFERENCE"
  applies g id ancestors := do
    match referredField? (← lookUp (g.value id)) with
    | some field =>
      if (← lookUp (g.type (← lookUp (g.field field)).ty)).isInt then
        return !((← parent? g ancestors).map (writes id)).getD false
      else return false
    | none => return false
  replacement _ _ := return .intConst 0

/-- The built-in rules, in order. -/
def builtInRules : List Rule := [intConstantRule, fieldReferenceRule]

end ProgramFacts.Mutation
