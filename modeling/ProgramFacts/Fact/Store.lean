import Std.Data.ExtTreeMap
import ProgramFacts.Fact.Relation

/-! Fact stores: relations by name, in ascending order of the names.  A relation comes into being
when it is first written to.  Two stores with the same content are equal. -/

namespace ProgramFacts.Fact

/-- A row of `found` values for a relation of `expected` columns. -/
structure ArityMismatch where
  relation : String
  expected : Nat
  found : Nat
deriving DecidableEq, Repr

def ArityMismatch.message (e : ArityMismatch) : String :=
  "Relation '" ++ e.relation ++ "' has " ++ toString e.expected ++ " columns but a tuple with " ++
    toString e.found ++ " columns was inserted"

structure Store where
  relations : Std.ExtTreeMap String Relation
deriving DecidableEq

namespace Store

def empty : Store := ⟨∅⟩

/-- The relation of a name, if there is one. -/
def relation? (s : Store) (name : String) : Option Relation := s.relations[name]?

/-- The relation of a name; one that is missing counts as empty. -/
def relation (s : Store) (name : String) : Relation := (s.relation? name).getD .empty

def put (s : Store) (name : String) (r : Relation) : Store := ⟨s.relations.insert name r⟩

def size (s : Store) : Nat := s.relations.size

def tupleCount (s : Store) : Nat :=
  (s.relations.toList.map fun p => p.2.tuples.size).foldr (· + ·) 0

/-- Creates a relation, unless there is one of the name. -/
def touch (s : Store) (name : String) : Store := s.put name (s.relation name)

/-- Installs the columns of a relation; says whether it had none. -/
def installSchema (s : Store) (name : String) (schema : Schema) : Bool × Store :=
  ((s.relation name).schema.isNone, s.put name ((s.relation name).installSchema schema))

/-- Inserts a row; says whether it is new. -/
def insert (s : Store) (name : String) (t : Tuple) : Except ArityMismatch Bool × Store :=
  let r := s.relation name
  match r.arityConflict t with
  | some expected => (.error ⟨name, expected, t.length⟩, s.touch name)
  | none => (.ok !r.tuples.contains t, s.put name (r.insert t))

/-- Removes a row; says whether it was there. -/
def erase (s : Store) (name : String) (t : Tuple) : Bool × Store :=
  let r := s.relation name
  (r.tuples.contains t, s.put name (r.erase t))

/-- Inserts a row into a relation that has the given columns if it had none. -/
def emit (s : Store) (name : String) (schema : Schema) (t : Tuple) :
    Except ArityMismatch Bool × Store :=
  (s.installSchema name schema).2.insert name t

def prune (s : Store) : Store := ⟨s.relations.filter fun _ r => !r.tuples.isEmpty⟩

def serialize (s : Store) : List (String × String) :=
  s.prune.relations.toList.map fun p => (p.1, p.2.text)

end Store

end ProgramFacts.Fact
