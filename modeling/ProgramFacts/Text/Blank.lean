import ProgramFacts.Text.CodePoints

/-! White space: the characters that separate words, in any script. -/

namespace ProgramFacts.Text

/-- The white-space characters. -/
def blanks : CodePoints := [
  (0x0009, 0x000d), (0x0020, 0x0020), (0x0085, 0x0085), (0x00a0, 0x00a0), (0x1680, 0x1680),
  (0x2000, 0x200a), (0x2028, 0x2029), (0x202f, 0x202f), (0x205f, 0x205f), (0x3000, 0x3000)]

def isBlank (c : Char) : Bool := blanks.has c

def dropBlanks (s : String) : String := String.ofList (s.toList.filter fun c => !isBlank c)

/-- The tab and the line feed, which divide the columns and rows of fact files, are white space. -/
theorem isBlank_of_separator {c : Char} (h : c = '\t' ∨ c = '\n') : isBlank c = true := by
  rcases h with rfl | rfl <;> decide

theorem mem_dropBlanks {s : String} {c : Char} :
    c ∈ (dropBlanks s).toList ↔ c ∈ s.toList ∧ isBlank c = false := by
  simp [dropBlanks]

end ProgramFacts.Text
