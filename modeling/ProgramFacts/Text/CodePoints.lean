/-! Sets of characters, given as ranges of code points. -/

namespace ProgramFacts.Text

/-- A set of code points: the ranges from the first of a pair to the second. -/
abbrev CodePoints := List (Nat × Nat)

/-- Whether the code point of a character lies in a set. -/
def CodePoints.has (ranges : CodePoints) (c : Char) : Bool :=
  ranges.any fun r => r.1 ≤ c.toNat && c.toNat ≤ r.2

end ProgramFacts.Text
