import ProgramFacts.Decimal.Shortest

/-! How a floating-point number is written: its shortest digits, laid out with or without an
exponent. -/

namespace ProgramFacts.Decimal

structure Layout where
  /-- Whether a number without a fraction is written with the fraction `.0`. -/
  showsFraction : Bool
  /-- The points, as in `Numeral.point`, from the first of the pair to the second, that are written
  without an exponent; none if no exponent is ever written. -/
  positional : Option (Int × Int)
deriving DecidableEq, Repr

/-- The form of program text: no exponent, and no fraction unless there is one. -/
def Layout.plain : Layout := ⟨false, none⟩

/-- The form of fact rows: at least one decimal, and an exponent below `1e-4` and from `1e16` on. -/
def Layout.row : Layout := ⟨true, some (-3, 16)⟩

/-- A text of `n` zeros. -/
def zeros (n : Nat) : String := String.ofList (List.replicate n '0')

/-- Digits with the decimal point at position `point`. -/
def Layout.writePositional (l : Layout) (digits : String) (point : Int) : String :=
  if point ≤ 0 then "0." ++ zeros (-point).toNat ++ digits
  else
    let p := point.toNat
    if digits.length ≤ p then
      digits ++ zeros (p - digits.length) ++ if l.showsFraction then ".0" else ""
    else (digits.take p).toString ++ "." ++ (digits.drop p).toString

/-- Digits with the decimal point after the first, and an exponent. -/
def writeExponent (digits : String) (point : Int) : String :=
  let fraction := (digits.drop 1).toString
  (digits.take 1).toString ++ (if fraction.isEmpty then "" else "." ++ fraction) ++ "e" ++
    toString (point - 1)

def Layout.writeNumeral (l : Layout) (d : Numeral) : String :=
  let digits := toString d.digits
  match l.positional with
  | some (first, last) =>
    if first ≤ d.point && d.point ≤ last then l.writePositional digits d.point
    else writeExponent digits d.point
  | none => l.writePositional digits d.point

def Layout.write (l : Layout) : Reading → String
  | .nan => "NaN"
  | .infinite negative => if negative then "-inf" else "inf"
  | .finite negative m q tight =>
    (if negative then "-" else "") ++
      if m = 0 then (if l.showsFraction then "0.0" else "0")
      else l.writeNumeral (shortest m q tight)

end ProgramFacts.Decimal
