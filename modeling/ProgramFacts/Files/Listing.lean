import ProgramFacts.Files.Tree
import ProgramFacts.Text.Lossy

/-! The listing of a tree: every entry below a place, with its path from there and, for a file, its
text. -/

namespace ProgramFacts.Files

def Entry.text? : Entry → Option String
  | .directory => none
  | .file content => some (Text.lossy content)

/-- The path that an entry is listed under; that of a directory ends with a slash. -/
def Entry.listedPath (place : Place) : Entry → String
  | .directory => "/".intercalate place ++ "/"
  | .file _ => "/".intercalate place

def Tree.listing (t : Tree) (top : Place) : List (String × Option String) :=
  (t.entries.toList.filter fun p => top.isPrefixOf p.1 && top.length < p.1.length).map fun p =>
    (p.2.listedPath (p.1.drop top.length), p.2.text?)

end ProgramFacts.Files
