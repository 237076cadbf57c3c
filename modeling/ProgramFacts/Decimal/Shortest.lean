import ProgramFacts.Decimal.Binary

/-! The shortest decimal of a binary floating-point number: of the decimals that are read back as
the number, those with the fewest digits, and of these the nearest to the number.  All arithmetic
is exact. -/

namespace ProgramFacts.Decimal

/-- The decimal `0.d * 10 ^ point`, where `d` are the digits of `digits`. -/
structure Numeral where
  digits : Nat
  point : Int
deriving DecidableEq, Repr

/-- A positive magnitude as a fraction, in four units of `2 ^ (q - 2)` each: the number itself and
the two ends of the interval of reals that round to it. -/
structure Interval where
  low : Nat
  mid : Nat
  high : Nat
  /-- What the three numerators are divided by. -/
  denominator : Nat
  /-- Whether the ends belong to the interval. -/
  closed : Bool
deriving DecidableEq, Repr

/-- The interval that rounds to `m * 2 ^ q`. -/
def Interval.ofBinary (m : Nat) (q : Int) (tight : Bool) : Interval :=
  let scale := Nat.pow 2 (q - 2).toNat
  { low := (4 * m - if tight then 1 else 2) * scale
    mid := 4 * m * scale
    high := (4 * m + 2) * scale
    denominator := Nat.pow 2 (2 - q).toNat
    closed := m % 2 == 0 }

/-- Whether the decimal `n * 10 ^ k` lies in the interval. -/
def Interval.holds (i : Interval) (n : Nat) (k : Int) : Bool :=
  let x := n * Nat.pow 10 k.toNat * i.denominator
  let unit := Nat.pow 10 (-k).toNat
  if i.closed then i.low * unit ≤ x && x ≤ i.high * unit
  else i.low * unit < x && x < i.high * unit

/-- The least exponent from `start` on, in `fuel` steps, whose power of ten lies above
`num / den`. -/
def pointFrom (num den : Nat) : Nat → Int → Int
  | 0, start => start
  | fuel + 1, start =>
    if num * Nat.pow 10 (-start).toNat < Nat.pow 10 start.toNat * den then start
    else pointFrom num den fuel (start + 1)

/-- The exponent `e` with `10 ^ (e - 1) ≤ num / den < 10 ^ e`, for the magnitudes of the two
formats. -/
def pointOf (num den : Nat) : Int :=
  if den ≤ num then (toString (num / den)).length
  else 1 - (toString (den / num)).length |> pointFrom num den 2

/-- The neighbour of the middle on the grid of multiples of `10 ^ k` that lies in the interval and
is nearest to the middle; of two equally near ones, the larger. -/
def Interval.onGrid? (i : Interval) (k : Int) : Option Nat :=
  let num := i.mid * Nat.pow 10 (-k).toNat
  let den := i.denominator * Nat.pow 10 k.toNat
  let below := num / den
  let above := below + 1
  match i.holds below k, i.holds above k with
  | false, false => none
  | true, false => some below
  | false, true => some above
  | true, true => if 2 * (num - below * den) < den then some below else some above

/-- The first of `fuel` grids, each ten times as fine as the one before, that has a point in the
interval, with that point. -/
def Interval.search (i : Interval) : Nat → Int → Option (Nat × Int)
  | 0, _ => none
  | fuel + 1, k =>
    match i.onGrid? k with
    | some n => some (n, k)
    | none => i.search fuel (k - 1)

/-- Drops the zeros at the end of `n`, in `fuel` steps. -/
def dropZeros : Nat → Nat → Nat
  | 0, n => n
  | fuel + 1, n => if n % 10 = 0 then dropZeros fuel (n / 10) else n

/-- The shortest decimal of the positive magnitude `m * 2 ^ q`. -/
def shortest (m : Nat) (q : Int) (tight : Bool) : Numeral :=
  let i := Interval.ofBinary m q tight
  let point := pointOf i.mid i.denominator
  let (n, k) := (i.search 17 (point - 1)).getD (i.mid / i.denominator, 0)
  ⟨dropZeros 17 n, (toString n).length + k⟩

end ProgramFacts.Decimal
