import Std.Data.ExtTreeMap
import ProgramFacts.Files.Path

/-! A tree of directories and files, and the operations on it: existence, reading, writing, and the
creation and removal of directories.  An operation that fails leaves the tree as it was, except that
the creation of nested directories keeps those that it made. -/

namespace ProgramFacts.Files

/-- Where an entry lies: the names from the top of the tree. -/
abbrev Place := List String

inductive Entry
  | directory
  | file (content : ByteArray)

/-- The entries below the top of the tree, which is a directory. -/
structure Tree where
  entries : Std.ExtTreeMap Place Entry

namespace Tree

def empty : Tree := ⟨∅⟩

def entry? (t : Tree) : Place → Option Entry
  | [] => some .directory
  | place => t.entries[place]?

def isDirectory (t : Tree) (place : Place) : Bool :=
  match t.entry? place with
  | some .directory => true
  | _ => false

def maxNameSize : Nat := 255

/-- The place that components lead to from a place.  Each of them starts from a directory; nothing
need lie at the last place. -/
def follow (t : Tree) : Place → List Component → Except Cause Place
  | place, [] => .ok place
  | place, c :: rest =>
    match t.entry? place with
    | none => .error .notFound
    | some (.file _) => .error .notDirectory
    | some .directory =>
      match c with
      | .stay => t.follow place rest
      | .up => t.follow place.dropLast rest
      | .name name =>
        if maxNameSize < name.utf8ByteSize then .error .nameTooLong
        else t.follow (place ++ [name]) rest

def locate (t : Tree) (path : String) : Except Cause Place := do
  t.follow [] (← steps path)

def exists? (t : Tree) (path : String) : Bool :=
  match t.locate path with
  | .ok place =>
    match t.entry? place with
    | some .directory => true
    | some (.file _) => !endsWithSlash path
    | none => false
  | .error _ => false

/-- The content of the file that a path leads to. -/
def read (t : Tree) (path : String) : Except Cause ByteArray := do
  let place ← t.locate path
  match t.entry? place with
  | some (.file content) => if endsWithSlash path then throw .notDirectory else return content
  | some .directory => throw .isDirectory
  | none => throw .notFound

/-- The text of the file that a path leads to. -/
def readText (t : Tree) (path : String) : Except Cause String := do
  match String.fromUTF8? (← t.read path) with
  | some text => return text
  | none => throw .notText

/-- The place where a path puts a file.  Its directory has to be there, and a slash after its name
asks for a directory, whatever lies there. -/
def target (t : Tree) (path : String) : Except Cause Place := do
  let cs ← steps path
  match cs.getLast? with
  | some (.name _) =>
    if endsWithSlash path then
      let _ ← t.follow [] (cs.dropLast ++ [.stay])
      throw .isDirectory
    else t.follow [] cs
  | _ => t.follow [] cs

/-- Puts a file where a path leads to, in place of a file that is there. -/
def write (t : Tree) (path : String) (content : ByteArray) : Except Cause Tree := do
  let place ← t.target path
  if t.isDirectory place then throw .isDirectory
  else return ⟨t.entries.insert place (.file content)⟩

def createDirectory (t : Tree) (path : String) : Except Cause Tree := do
  let place ← t.locate path
  if (t.entry? place).isSome then throw .alreadyExists
  else return ⟨t.entries.insert place .directory⟩

def leadsToDirectory (t : Tree) (path : String) : Bool :=
  match t.locate path with
  | .ok place => t.isDirectory place
  | .error _ => false

/-- Makes the directory that a path leads to, unless it is there. -/
def ensureDirectory (t : Tree) (path : String) : Except Cause Tree :=
  match t.createDirectory path with
  | .ok t => .ok t
  | .error cause => if t.leadsToDirectory path then .ok t else .error cause

/-- Makes a directory and those that it lies in, given from the inside out, the outermost first.
Gives the tree as far as it came. -/
def createNested (t : Tree) : List String → Except Cause Unit × Tree
  | [] => (.ok (), t)
  | path :: outer =>
    match t.ensureDirectory path with
    | .ok t => (.ok (), t)
    | .error .notFound =>
      match t.createNested outer with
      | (.error cause, t) => (.error cause, t)
      | (.ok (), t) =>
        match t.ensureDirectory path with
        | .ok t => (.ok (), t)
        | .error cause => (.error cause, t)
    | .error cause => (.error cause, t)

/-- Makes the directory that a path leads to, and those that it lies in. -/
def createAll (t : Tree) (path : String) : Except Cause Unit × Tree :=
  t.createNested (ancestors path)

/-- Makes the directories that the entry of a path lies in. -/
def createParents (t : Tree) (path : String) : Except Cause Unit × Tree :=
  t.createNested (ancestors path).tail

/-- Removes the directory that a path leads to, with everything below it. -/
def removeAll (t : Tree) (path : String) : Except Cause Tree := do
  let place ← t.locate path
  match t.entry? place with
  | some .directory => return ⟨t.entries.filter fun p _ => !place.isPrefixOf p⟩
  | some (.file _) => throw .notDirectory
  | none => throw .notFound

end Tree

end ProgramFacts.Files
