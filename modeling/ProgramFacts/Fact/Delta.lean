import ProgramFacts.Log
import ProgramFacts.Fact.Store

/-! The delta between two stores: for every relation whose rows differ, the rows that only the
previous store has and those that only the current one has.  A delta is replayed on a store by
deleting the former and inserting the latter. -/

namespace ProgramFacts.Fact

structure RelationDelta where
  schema : Option Schema
  deleted : TupleSet
  inserted : TupleSet
deriving DecidableEq

namespace RelationDelta

def between (previous current : Relation) : RelationDelta where
  schema := previous.schema <|> current.schema
  deleted := previous.tuples \ current.tuples
  inserted := current.tuples \ previous.tuples

/-- Whether no row changed. -/
def isEmpty (d : RelationDelta) : Bool := d.deleted.isEmpty && d.inserted.isEmpty

/-- The text of a change: the columns, the deleted rows after `-`, and the inserted ones
after `+`. -/
def text (d : RelationDelta) : String :=
  blockText d.schema
    (d.deleted.toList.map (fun t => "-" ++ t.text) ++ d.inserted.toList.map fun t => "+" ++ t.text)

end RelationDelta

structure Delta where
  relations : Std.ExtTreeMap String RelationDelta
deriving DecidableEq

namespace Delta

/-- Records the change of the relation of one name, if there is any. -/
def record (previous current : Store) (d : Delta) (name : String) : Delta :=
  let change := RelationDelta.between (previous.relation name) (current.relation name)
  if change.isEmpty then d else ⟨d.relations.insert name change⟩

/-- The delta from `previous` to `current`; a store that is missing counts as empty. -/
def between (previous current : Option Store) : Delta :=
  let previous := previous.getD .empty
  let current := current.getD .empty
  (previous.relations.keys ++ current.relations.keys).foldl (record previous current) ⟨∅⟩

/-- The change of a relation, if there is any. -/
def get? (d : Delta) (name : String) : Option RelationDelta := d.relations[name]?

def size (d : Delta) : Nat := d.relations.size

def blocks (d : Delta) : List (String × String) :=
  (d.relations.filter fun _ r => !r.isEmpty).toList.map fun p => (p.1, p.2.text)

def deletedCount (d : Delta) : Nat :=
  (d.relations.toList.map fun p => p.2.deleted.size).foldr (· + ·) 0

def insertedCount (d : Delta) : Nat :=
  (d.relations.toList.map fun p => p.2.inserted.size).foldr (· + ·) 0

def message (d : Delta) : Message :=
  ⟨.debug, "Computed diff: " ++ toString d.size ++ " changed relations, " ++
    toString d.deletedCount ++ " deleted and " ++ toString d.insertedCount ++ " inserted tuples"⟩

def replay (s : Store) (name : String) (d : RelationDelta) : Except ArityMismatch Store := do
  let s := match d.schema with
    | some schema => (s.installSchema name schema).2
    | none => s.touch name
  let s := d.deleted.toList.foldl (fun s t => (s.erase name t).2) s
  d.inserted.toList.foldlM
    (fun s t =>
      match s.insert name t with
      | (.ok _, s) => .ok s
      | (.error e, _) => .error e)
    s

/-- Replays a delta on a store; one that is missing counts as empty.  Relations without rows are
dropped. -/
def applyTo (d : Delta) (base : Option Store) : Except ArityMismatch Store := do
  let s ← d.relations.toList.foldlM (fun s p => replay s p.1 p.2) (base.getD .empty)
  return s.prune

end Delta

end ProgramFacts.Fact
