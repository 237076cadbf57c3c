import ProgramFacts.Toml.Reader

/-! Strings in settings files: basic strings with escapes between double quotes, and literal strings
without escapes between single quotes; either between three quotes may run over several lines. -/

namespace ProgramFacts.Toml

open Reader

def hexValue? (c : Char) : Option Nat :=
  if '0' ≤ c && c ≤ '9' then some (c.toNat - '0'.toNat)
  else if 'a' ≤ c && c ≤ 'f' then some (c.toNat - 'a'.toNat + 10)
  else if 'A' ≤ c && c ≤ 'F' then some (c.toNat - 'A'.toNat + 10)
  else none

/-- Takes `count` hexadecimal digits after the value `acc`. -/
def hexNumber : Nat → Nat → Reader Nat
  | 0, acc => return acc
  | count + 1, acc => do
    match hexValue? (← next) with
    | some d => hexNumber count (16 * acc + d)
    | none => failure

/-- The character of a code point of `count` hexadecimal digits. -/
def codePoint (count : Nat) : Reader Char := do
  let n ← hexNumber count 0
  if n.isValidChar then return Char.ofNat n else failure

/-- The character that an escape stands for, after the backslash. -/
def escape : Reader Char := do
  match ← next with
  | 'b' => return '\x08'
  | 't' => return '\t'
  | 'n' => return '\n'
  | 'f' => return '\x0c'
  | 'r' => return '\r'
  | 'e' => return '\x1b'
  | '"' => return '"'
  | '\\' => return '\\'
  | 'x' => codePoint 2
  | 'u' => codePoint 4
  | 'U' => codePoint 8
  | _ => failure

/-- The rest of a basic string on one line. -/
def basicRest : Reader (List Char) := many do
  match ← next with
  | '"' => return none
  | '\\' => return some (← escape)
  | c => if isPlain c then return some c else failure

/-- The rest of a literal string on one line. -/
def literalRest : Reader (List Char) := many do
  match ← next with
  | '\'' => return none
  | c => if isPlain c then return some c else failure

/-- The quotes that come next in a string between three of them: up to two belong to the string, and
three end it, after up to two more that belong to it. -/
def quotes (quote : Char) : Reader (Option (List Char)) := do
  let run := (← get).takeWhile (· == quote)
  let inside := if run.length < 3 then run.length else run.length - 3
  if 2 < inside then failure
  else if inside = 0 then
    set ((← get).drop 3)
    return none
  else
    set ((← get).drop inside)
    return some (List.replicate inside quote)

def newlineText : Reader (List Char) := do
  if ← accept "\n" then return ['\n']
  else
    expect "\r\n"
    return ['\r', '\n']

/-- Takes the line break after a backslash with all white space before and after it. -/
def lineJoin : Reader Unit := do
  skipSpaces
  let _ ← newlineText
  let _ ← many do
    skipSpaces
    return if ← acceptNewline then some () else none

/-- The rest of a basic string over several lines. -/
def longBasicRest : Reader (List Char) := do
  let _ ← acceptNewline
  return (← many do
    match ← peek with
    | some '"' => quotes '"'
    | some '\\' =>
      expect "\\"
      match ← peek with
      | some ' ' | some '\t' | some '\r' | some '\n' =>
        lineJoin
        return some []
      | _ => return some [← escape]
    | some '\n' | some '\r' => return some (← newlineText)
    | some c => if isPlain c then return some [← next] else failure
    | none => failure).flatten

/-- The rest of a literal string over several lines. -/
def longLiteralRest : Reader (List Char) := do
  let _ ← acceptNewline
  return (← many do
    match ← peek with
    | some '\'' => quotes '\''
    | some '\n' | some '\r' => return some (← newlineText)
    | some c => if isPlain c then return some [← next] else failure
    | none => failure).flatten

def shortString : Reader String := do
  if ← accept "\"" then return String.ofList (← basicRest)
  else
    expect "'"
    return String.ofList (← literalRest)

def anyString : Reader String := do
  if ← accept "\"\"\"" then return String.ofList (← longBasicRest)
  else if ← accept "'''" then return String.ofList (← longLiteralRest)
  else shortString

end ProgramFacts.Toml
