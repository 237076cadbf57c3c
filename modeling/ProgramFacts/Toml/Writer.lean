/-! How strings are written in settings files: between double quotes where that needs no escapes,
else between single quotes, else between three quotes, and with escapes where no other form will
do. -/

namespace ProgramFacts.Toml

/-- The longest run of a character in a text, after a run of length `current`. -/
def longestRun (c : Char) : List Char → Nat → Nat
  | [], current => current
  | x :: rest, current =>
    if x == c then longestRun c rest (current + 1) else max current (longestRun c rest 0)

/-- A control character that only an escape can give: neither the tab nor the line feed. -/
def needsEscape (c : Char) : Bool :=
  (c.toNat < 0x20 && c != '\t' && c != '\n') || c.toNat == 0x7f

inductive QuoteStyle
  | basic | literal | longBasic | longLiteral
deriving DecidableEq, Repr

def QuoteStyle.of (text : List Char) : QuoteStyle :=
  let control := text.any needsEscape
  let backslash := text.contains '\\'
  let newline := text.contains '\n'
  let doubles := longestRun '"' text 0
  let singles := longestRun '\'' text 0
  if !control && !backslash && doubles == 0 && !newline then .basic
  else if !control && singles == 0 && !newline then .literal
  else if !control && !backslash && doubles ≤ 2 then .longBasic
  else if !control && singles ≤ 2 then .longLiteral
  else if newline then .longBasic
  else .basic

/-- The four upper-case hexadecimal digits of a code point. -/
def codePointText (n : Nat) : List Char :=
  let digits := (Nat.toDigits 16 n).map Char.toUpper
  List.replicate (4 - digits.length) '0' ++ digits

/-- The characters of a string with escapes.  A line feed is escaped unless the string may run over
lines, and a double quote if it follows `quotes` others. -/
def escaped (long : Bool) (quotes : Nat) : List Char → Nat → List Char
  | [], _ => []
  | c :: rest, run =>
    let others := escaped long quotes rest
    match c with
    | '"' => if run < quotes then '"' :: others (run + 1) else '\\' :: '"' :: others 0
    | '\x08' => '\\' :: 'b' :: others 0
    | '\t' => '\\' :: 't' :: others 0
    | '\n' => if long then '\n' :: others 0 else '\\' :: 'n' :: others 0
    | '\x0c' => '\\' :: 'f' :: others 0
    | '\r' => '\\' :: 'r' :: others 0
    | '\\' => '\\' :: '\\' :: others 0
    | c =>
      if needsEscape c then '\\' :: 'u' :: codePointText c.toNat ++ others 0 else c :: others 0

/-- A string as it is written.  One that runs over lines starts on a line of its own. -/
def writeString (text : String) : String :=
  let cs := text.toList
  let start := if cs.contains '\n' then "\n" else ""
  match QuoteStyle.of cs with
  | .basic => "\"" ++ String.ofList (escaped false 0 cs 0) ++ "\""
  | .literal => "'" ++ text ++ "'"
  | .longBasic => "\"\"\"" ++ start ++ String.ofList (escaped true 2 cs 0) ++ "\"\"\""
  | .longLiteral => "'''" ++ start ++ text ++ "'''"

end ProgramFacts.Toml
