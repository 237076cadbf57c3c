/-! Graph labels: a text inside the double quotes of a graph description.  Quotes, backslashes and
control characters with a letter escape are written with a backslash, so that no quote in the text
ends the label and no line feed ends the line. -/

namespace ProgramFacts.Text

/-- The letter that stands for a character after a backslash, if the character is escaped. -/
def labelEscape? : Char → Option Char
  | '\\' => some '\\'
  | '\t' => some 't'
  | '\x08' => some 'b'
  | '\n' => some 'n'
  | '\r' => some 'r'
  | '\x0c' => some 'f'
  | '\'' => some '\''
  | '"' => some '"'
  | _ => none

def labelChar (c : Char) : List Char :=
  match labelEscape? c with
  | some e => ['\\', e]
  | none => [c]

def label (s : String) : String := String.ofList (s.toList.flatMap labelChar)

end ProgramFacts.Text
