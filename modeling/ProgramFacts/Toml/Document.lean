import ProgramFacts.Toml.Item
import ProgramFacts.Toml.Number

/-! Settings files: lines of keys with values, and headers of tables. -/

namespace ProgramFacts.Toml

open Reader

def isBareKey (c : Char) : Bool := c.isAlphanum || c == '-' || c == '_'

def keyPart : Reader String := do
  match ← peek with
  | some '"' | some '\'' => shortString
  | _ =>
    let cs ← takeWhile isBareKey
    if cs.isEmpty then failure else return String.ofList cs

/-- The most parts that a key may have, and the most brackets and braces that a value may lie in. -/
def maxNesting : Nat := 80

/-- The parts of a key, divided by dots. -/
def key : Reader (List String) := do
  let first ← keyPart
  let rest ← many do
    skipSpaces
    if ← accept "." then
      skipSpaces
      return some (← keyPart)
    else return none
  if maxNesting < (first :: rest).length then failure else return first :: rest

/-- A character of a value without quotes or brackets. -/
def isBareValue (c : Char) : Bool := isPlain c && !" \t#,=[]\x7b\x7d\"'".toList.contains c

/-- The text of a value without quotes or brackets.  One space may divide a date from a time. -/
def bareText : Reader (List Char) := do
  let text ← takeWhile isBareValue
  match ← get with
  | ' ' :: c :: _ =>
    if c.isDigit && (parse? date text).isSome then
      let _ ← next
      return text ++ ' ' :: (← takeWhile isBareValue)
    else return text
  | _ => return text

def bareItem : Reader Item := do
  let text ← bareText
  if text = "true".toList then return .boolean true
  else if text = "false".toList then return .boolean false
  else
    match integer? text with
    | some n => return .integer n
    | none =>
      if isFloat text then return .float
      else if isMoment text then return .moment
      else failure

/-- The rest of a list up to its closing bracket: elements with commas between them, and possibly
one after the last. -/
def listRest {α : Type} (close : String) (element : Reader α) : Reader (List α) := many do
  skipFiller
  if ← accept close then return none
  else
    let a ← element
    skipFiller
    unless (← accept ",") || close.toList.isPrefixOf (← get) do failure
    return some a

/-- A key with its value; `gap` skips what may stand around the sign between them. -/
def binding (gap : Reader Unit) (item : Reader Item) : Reader (List String × Item) := do
  let path ← key
  gap
  expect "="
  gap
  return (path, ← item)

def leaf : Reader Item := do
  match ← peek with
  | some '"' | some '\'' => return .string (← anyString)
  | _ => bareItem

/-- A value with brackets and braces nested at most `depth` deep.  Between braces a key and its
value may stand on different lines. -/
def itemWithin : Nat → Reader Item
  | 0 => leaf
  | depth + 1 => do
    if ← accept "[" then return .array (← listRest "]" (itemWithin depth))
    else if ← accept "\x7b" then
      let bindings ← listRest "\x7d" (binding skipFiller (itemWithin depth))
      match bindings.foldlM (fun es b => Entries.insert? b.1 b.2 es) [] with
      | some es => return .table .braces es
      | none => failure
    else leaf

def item : Reader Item := itemWithin maxNesting

inductive Line
  | blank
  /-- The key has the value, in the table that was opened last. -/
  | binding (path : List String) (item : Item)
  /-- Opens the table. -/
  | header (path : List String)
  /-- Opens one more table of the path. -/
  | element (path : List String)

def headerPath (close : String) : Reader (List String) := do
  skipSpaces
  let path ← key
  skipSpaces
  expect close
  return path

/-- What the next line says; nothing at the end of the text. -/
def line : Reader (Option Line) := do
  skipSpaces
  match ← peek with
  | none => return none
  | some '[' =>
    let l ← if ← accept "[[" then pure (Line.element (← headerPath "]]")) else do
      expect "["
      pure (Line.header (← headerPath "]"))
    endLine
    return some l
  | some '#' | some '\r' | some '\n' =>
    endLine
    return some .blank
  | some _ =>
    let (path, value) ← binding skipSpaces item
    endLine
    return some (.binding path value)

/-- The file so far, and the path of the table that was opened last. -/
structure Draft where
  entries : Entries
  current : List String

def Draft.add? (d : Draft) : Line → Option Draft
  | .blank => some d
  | .binding path value => do
    return { d with entries := ← Entries.within? (Entries.insert? path value) d.current d.entries }
  | .header path => do
    return ⟨← Entries.within? (Entries.openTable? (← path.getLast?)) path.dropLast d.entries, path⟩
  | .element path => do
    return ⟨← Entries.within? (Entries.openElement? (← path.getLast?)) path.dropLast d.entries,
      path⟩

/-- The entries of a settings file, which may start with a byte order mark. -/
def parse? (text : String) : Option Entries := do
  let cs := match text.toList with
    | '\ufeff' :: rest => rest
    | cs => cs
  let lines ← Reader.parse? (many line) cs
  let d ← lines.foldlM Draft.add? ⟨[], []⟩
  return d.entries

end ProgramFacts.Toml
