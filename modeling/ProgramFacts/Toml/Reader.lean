/-! Reading text from the left: readers take characters off the front of the text, or fail. -/

namespace ProgramFacts.Toml

/-- A reader: from the text that is left, a result and the text that is left after it. -/
abbrev Reader (α : Type) := StateT (List Char) Option α

namespace Reader

variable {α : Type}

/-- The next character, which stays. -/
def peek : Reader (Option Char) := do return (← get).head?

def next : Reader Char := do
  match ← get with
  | [] => failure
  | c :: rest =>
    set rest
    return c

def expect (text : String) : Reader Unit := do
  let s ← get
  if text.toList.isPrefixOf s then set (s.drop text.length) else failure

/-- Takes a text if it comes next; says whether it did. -/
def accept (text : String) : Reader Bool := do
  let s ← get
  if text.toList.isPrefixOf s then
    set (s.drop text.length)
    return true
  else return false

/-- Takes the characters in front that a class holds. -/
def takeWhile (p : Char → Bool) : Reader (List Char) := do
  let s ← get
  set (s.dropWhile p)
  return s.takeWhile p

/-- The results of a step that is run until it gives none, fewer than `bound` times. -/
def manyWithin (step : Reader (Option α)) : Nat → Reader (List α)
  | 0 => failure
  | bound + 1 => do
    match ← step with
    | none => return []
    | some a => return a :: (← manyWithin step bound)

/-- The results of a step that is run until it gives none.  Every step but the last takes at least
one character, so the length of the text bounds their number. -/
def many (step : Reader (Option α)) : Reader (List α) := do
  manyWithin step ((← get).length + 1)

def parse? (r : Reader α) (s : List Char) : Option α := do
  match ← r.run s with
  | (a, []) => some a
  | (_, _ :: _) => none

end Reader

def isSpace (c : Char) : Bool := c == ' ' || c == '\t'

/-- A character that may stand for itself on a line: the tab and all but the ASCII control
characters. -/
def isPlain (c : Char) : Bool := c == '\t' || (c.toNat ≥ 0x20 && c.toNat != 0x7f)

open Reader

def skipSpaces : Reader Unit := do
  let _ ← takeWhile isSpace

/-- Takes a line break, if one comes next. -/
def acceptNewline : Reader Bool := do
  if ← accept "\n" then return true else accept "\r\n"

/-- Skips a comment, if one comes next. -/
def skipComment : Reader Unit := do
  if (← peek) == some '#' then
    let _ ← takeWhile isPlain

/-- Skips the spaces and the comment that may end a line, and its line break or the end of the
text. -/
def endLine : Reader Unit := do
  skipSpaces
  skipComment
  unless (← acceptNewline) || (← peek).isNone do failure

/-- Skips spaces, comments and line breaks. -/
def skipFiller : Reader Unit := do
  let _ ← many do
    skipSpaces
    skipComment
    return if ← acceptNewline then some () else none

end ProgramFacts.Toml
