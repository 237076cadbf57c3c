import ProgramFacts.Files.Cause

/-! Paths: text with slashes.  A path is joined to another by text, and is followed through a tree
by its components. -/

namespace ProgramFacts.Files

/-- Whether a path starts at the top of the tree, whatever it is joined to. -/
def isAbsolute (path : String) : Bool := path.toList.head? == some '/'

def endsWithSlash (path : String) : Bool := path.toList.getLast? == some '/'

/-- A path below another.  An absolute path stays as it is. -/
def join (base path : String) : String :=
  if isAbsolute path then path
  else if base.isEmpty || endsWithSlash base then base ++ path
  else base ++ "/" ++ path

def segments (path : String) : List String := (path.toList.splitOn '/').map String.ofList

theorem segments_append (base rest : String) :
    segments (base ++ "/" ++ rest) = segments base ++ segments rest := by
  simp [segments, String.toList_append, List.splitOn_append_cons_self]

/-- A path is its texts with slashes between them. -/
theorem intercalate_segments (path : String) : "/".intercalate (segments path) = path := by
  apply String.toList_injective
  have h : String.toList ∘ String.ofList = id := funext fun _ => String.toList_ofList
  simp [segments, String.toList_intercalate, h, List.intercalate_splitOn]

inductive Component
  /-- Stays where it is, which has to be a directory. -/
  | stay
  | up
  | name (name : String)
deriving DecidableEq, Repr

/-- The component that a text between slashes stands for; an empty one is none. -/
def component? : String → Option Component
  | "" => none
  | "." => some .stay
  | ".." => some .up
  | s => some (.name s)

def components (path : String) : List Component :=
  (segments path).filterMap component?

def maxPathSize : Nat := 4095

/-- The steps along a path, which may not be too long or have a zero character. -/
def steps (path : String) : Except Cause (List Component) :=
  if path.toList.contains '\x00' then .error .zeroByte
  else if maxPathSize < path.utf8ByteSize then .error .nameTooLong
  else .ok (components path)

/-- Whether a text between slashes names no entry of its own. -/
def isIdle (segment : String) : Bool := segment == "" || segment == "."

/-- The paths up to each text that names an entry, the longest first.  The texts between the slashes
are given from the last to the first. -/
def pathsTo : List String → List String
  | [] => []
  | segment :: outer =>
    if isIdle segment then pathsTo outer
    else "/".intercalate (segment :: outer).reverse :: pathsTo outer

/-- The entry that a path names and the directories that it lies in, from the inside out. -/
def ancestors (path : String) : List String := pathsTo (segments path).reverse

end ProgramFacts.Files
