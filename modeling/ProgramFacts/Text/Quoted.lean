import ProgramFacts.Text.Graphic
import ProgramFacts.Text.Extending

/-! Quoted text: a string between double quotes in which every character is visible.  Characters
without a glyph and characters that would combine with the one before them are written as their
code points. -/

namespace ProgramFacts.Text

def hexDigits (n : Nat) : List Char := Nat.toDigits 16 n

def quoteChar (c : Char) : List Char :=
  match c with
  | '\x00' => ['\\', '0']
  | '\t' => ['\\', 't']
  | '\r' => ['\\', 'r']
  | '\n' => ['\\', 'n']
  | '"' => ['\\', '"']
  | '\\' => ['\\', '\\']
  | c =>
    if isGraphic c && !isExtending c then [c]
    else ['\\', 'u', '\x7b'] ++ hexDigits c.toNat ++ ['\x7d']

/-- A string as it is written between quotes, with the quotes. -/
def quoted (s : String) : String := String.ofList ('"' :: s.toList.flatMap quoteChar ++ ['"'])

end ProgramFacts.Text
