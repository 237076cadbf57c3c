import ProgramFacts.Fact.Datum

/-! Relations: a set of rows with the columns that they have.  Columns are installed once; from then
on every row that is inserted has their number. -/

namespace ProgramFacts.Fact

inductive ColumnType
  | integer | string | boolean
deriving DecidableEq, Repr

def ColumnType.name : ColumnType → String
  | .integer => "Integer"
  | .string => "String"
  | .boolean => "Boolean"

structure Column where
  name : String
  type : ColumnType
deriving DecidableEq, Repr

abbrev Schema := List Column

namespace Schema

/-- The columns of the given names that hold integers. -/
def ofNames (names : List String) : Schema := names.map fun name => ⟨name, .integer⟩

def text (s : Schema) : String :=
  "\t".intercalate (s.map fun c => c.name ++ ":" ++ c.type.name)

end Schema

/-- The text of a block: the columns, if they are known, and then the rows, each on its own line. -/
def blockText (schema : Option Schema) (rows : List String) : String :=
  "\n".intercalate ((schema.map Schema.text).toList ++ rows)

/-- A set of rows, with columns if they were installed. -/
structure Relation where
  schema : Option Schema
  tuples : TupleSet
deriving DecidableEq

namespace Relation

def empty : Relation := ⟨none, ∅⟩

/-- Installs columns, unless there are some. -/
def installSchema (r : Relation) (s : Schema) : Relation :=
  { r with schema := some (r.schema.getD s) }

/-- The number of columns that a row lacks or exceeds, as the number of columns. -/
def arityConflict (r : Relation) (t : Tuple) : Option Nat :=
  r.schema.bind fun s => if s.length = t.length then none else some s.length

def insert (r : Relation) (t : Tuple) : Relation := { r with tuples := r.tuples.insert t }

/-- Removes a row. -/
def erase (r : Relation) (t : Tuple) : Relation := { r with tuples := r.tuples.erase t }

/-- The text of a relation: its columns, if they are known, and its rows in ascending order. -/
def text (r : Relation) : String := blockText r.schema (r.tuples.toList.map Tuple.text)

end Relation

end ProgramFacts.Fact
