/-! The values of settings files, and how tables grow.  A table remembers how it came about, since
that decides what may still be added: a table in braces is complete, no table has two headers of its
own, and dotted keys add only to tables that dotted keys made. -/

namespace ProgramFacts.Toml

inductive Origin
  /-- Written in braces. -/
  | braces
  /-- Opened by its own header. -/
  | header
  /-- Named on the way to the table of a header. -/
  | path
  /-- Named on the way to a dotted key. -/
  | dotted
deriving DecidableEq, Repr

/-- A value of a settings file.  Numbers that are no integers, and dates, are read but not kept. -/
inductive Item
  | integer (value : Int)
  | float
  | boolean (value : Bool)
  | string (value : String)
  | moment
  | array (items : List Item)
  | table (origin : Origin) (entries : List (String × Item))
  /-- The tables that repeated headers in double brackets gave. -/
  | tables (elements : List (List (String × Item)))

/-- The entries of a table, in order. -/
abbrev Entries := List (String × Item)

namespace Entries

/-- Puts an item in the place of the one of the same key. -/
def replace (key : String) (item : Item) (es : Entries) : Entries :=
  es.map fun e => if e.1 == key then (key, item) else e

def add? (key : String) (item : Item) (es : Entries) : Option Entries :=
  if (es.lookup key).isSome then none else some (es ++ [(key, item)])

/-- Adds an item under a dotted key, starting from a table that takes keys of its own only if
`direct` holds.  The way may lead through tables that headers only named, and through the last one
of repeated tables, but only the tables of dotted keys are given the item. -/
def insertFrom? (direct : Bool) : List String → Item → Entries → Option Entries
  | [], _, _ => none
  | [key], item, es => if direct then es.add? key item else none
  | key :: rest, item, es =>
    match es.lookup key with
    | none => do es.add? key (.table .dotted (← insertFrom? true rest item []))
    | some (.table .path inner) => do
      return es.replace key (.table .path (← insertFrom? false rest item inner))
    | some (.table .dotted inner) => do
      return es.replace key (.table .dotted (← insertFrom? true rest item inner))
    | some (.tables elements) => do
      let last ← insertFrom? false rest item (← elements.getLast?)
      return es.replace key (.tables (elements.dropLast ++ [last]))
    | some _ => none

def insert? (path : List String) (item : Item) (es : Entries) : Option Entries :=
  es.insertFrom? true path item

/-- Changes the entries of the table at a path, which leads through the last one of repeated
tables. -/
def within? (change : Entries → Option Entries) : List String → Entries → Option Entries
  | [], es => change es
  | key :: rest, es =>
    match es.lookup key with
    | none => do es.add? key (.table .path (← within? change rest []))
    | some (.table .braces _) => none
    | some (.table origin inner) => do
      return es.replace key (.table origin (← within? change rest inner))
    | some (.tables elements) => do
      let last ← within? change rest (← elements.getLast?)
      return es.replace key (.tables (elements.dropLast ++ [last]))
    | some _ => none

def openTable? (key : String) (es : Entries) : Option Entries :=
  match es.lookup key with
  | none => es.add? key (.table .header [])
  | some (.table .path inner) => some (es.replace key (.table .header inner))
  | some _ => none

/-- Opens one more of the tables of a repeated header. -/
def openElement? (key : String) (es : Entries) : Option Entries :=
  match es.lookup key with
  | none => es.add? key (.tables [[]])
  | some (.tables elements) => some (es.replace key (.tables (elements ++ [[]])))
  | some _ => none

end Entries

end ProgramFacts.Toml
