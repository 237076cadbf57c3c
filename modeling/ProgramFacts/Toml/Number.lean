import ProgramFacts.Toml.Quotation

/-! Numbers and dates in settings files. -/

namespace ProgramFacts.Toml

/-- Drops the underscores of a numeral, each of which stands between two digits. -/
def ungroup? (isDigit : Char → Bool) : List Char → Option (List Char)
  | [] => none
  | [c] => if isDigit c then some [c] else none
  | c :: '_' :: rest => if isDigit c then (ungroup? isDigit rest).map (c :: ·) else none
  | c :: rest => if isDigit c then (ungroup? isDigit rest).map (c :: ·) else none

def digitsValue (base : Nat) (digits : List Char) : Nat :=
  digits.foldl (fun n c => base * n + (hexValue? c).getD 0) 0

/-- The number that a numeral of digits and underscores stands for in a base. -/
def natural? (base : Nat) (cs : List Char) : Option Nat :=
  (ungroup? (fun c => (hexValue? c).any (· < base)) cs).map (digitsValue base)

def unpaddedNatural? : List Char → Option Nat
  | ['0'] => some 0
  | '0' :: _ => none
  | cs => natural? 10 cs

/-- The sign in front of a text, as whether it is negative, and the rest. -/
def splitSign : List Char → Bool × List Char
  | '+' :: rest => (false, rest)
  | '-' :: rest => (true, rest)
  | rest => (false, rest)

/-- An integer: decimal with an optional sign, or hexadecimal, octal or binary without one; it fits
128 bits. -/
def integer? (cs : List Char) : Option Int := do
  let n : Int ← match cs with
    | '0' :: 'x' :: rest => (natural? 16 rest).map Int.ofNat
    | '0' :: 'o' :: rest => (natural? 8 rest).map Int.ofNat
    | '0' :: 'b' :: rest => (natural? 2 rest).map Int.ofNat
    | cs =>
      let (negative, rest) := splitSign cs
      (unpaddedNatural? rest).map fun n => if negative then -Int.ofNat n else Int.ofNat n
  if -Int.ofNat (Nat.pow 2 127) ≤ n ∧ n < Int.ofNat (Nat.pow 2 128) then some n else none

/-- Whether `n * 10 ^ k` rounds to a finite 64-bit floating-point number. -/
def fitsDouble (n : Nat) (k : Int) : Bool :=
  let length := (toString n).length
  if n = 0 || length + k < 300 then true
  else if 320 < length + k then false
  else
    n * Nat.pow 10 k.toNat < (Nat.pow 2 1024 - Nat.pow 2 970) * Nat.pow 10 (-k).toNat

/-- Splits a text at the first character of a class, which is dropped. -/
def splitAtFirst (p : Char → Bool) (cs : List Char) : List Char × Option (List Char) :=
  match cs.dropWhile fun c => !p c with
  | [] => (cs, none)
  | _ :: rest => (cs.takeWhile fun c => !p c, some rest)

/-- Whether a text is a number with a fraction or an exponent that 64-bit floating-point can hold,
an infinity or a NaN. -/
def isFloat (cs : List Char) : Bool :=
  let (_, rest) := splitSign cs
  if rest = "inf".toList || rest = "nan".toList then true
  else
    let (mantissa, exponent) := splitAtFirst (fun c => c == 'e' || c == 'E') rest
    let (whole, fraction) := splitAtFirst (· == '.') mantissa
    if exponent.isNone && fraction.isNone then false
    else
      let value : Option (Nat × Int) := do
        let _ ← unpaddedNatural? whole
        let whole ← ungroup? Char.isDigit whole
        let fraction ← match fraction with
          | some f => ungroup? Char.isDigit f
          | none => some []
        let power : Int ← match exponent with
          | some e =>
            let (negative, digits) := splitSign e
            (natural? 10 digits).map fun n => if negative then -Int.ofNat n else Int.ofNat n
          | none => some 0
        some (digitsValue 10 (whole ++ fraction), power - fraction.length)
      match value with
      | some (n, k) => fitsDouble n k
      | none => false

open Reader

/-- Takes `count` decimal digits. -/
def digits (count : Nat) : Reader Nat := do
  let s ← get
  let ds := s.take count
  if ds.length = count && ds.all Char.isDigit then
    set (s.drop count)
    return digitsValue 10 ds
  else failure

def daysOf (year month : Nat) : Nat :=
  if month = 2 then
    if year % 4 = 0 && (year % 100 != 0 || year % 400 = 0) then 29 else 28
  else if month = 4 || month = 6 || month = 9 || month = 11 then 30
  else 31

def date : Reader Unit := do
  let year ← digits 4
  expect "-"
  let month ← digits 2
  expect "-"
  let day ← digits 2
  unless 1 ≤ month && month ≤ 12 && 1 ≤ day && day ≤ daysOf year month do failure

/-- A time of day, whose seconds may be left out; a leap second counts as one. -/
def time : Reader Unit := do
  let hour ← digits 2
  expect ":"
  let minute ← digits 2
  unless hour ≤ 23 && minute ≤ 59 do failure
  if ← accept ":" then
    let second ← digits 2
    unless second ≤ 60 do failure
    if ← accept "." then
      if (← takeWhile Char.isDigit).isEmpty then failure

def offset : Reader Unit := do
  match ← next with
  | 'Z' | 'z' => return
  | '+' | '-' =>
    let hour ← digits 2
    expect ":"
    let minute ← digits 2
    unless hour ≤ 23 && minute ≤ 59 do failure
  | _ => failure

/-- A date, a time, or a date and a time with or without an offset. -/
def moment : Reader Unit := do
  if (← get)[2]? == some ':' then time
  else
    date
    unless (← get).isEmpty do
      match ← next with
      | 'T' | 't' | ' ' =>
        time
        unless (← get).isEmpty do offset
      | _ => failure

/-- Whether a text is a date or a time. -/
def isMoment (cs : List Char) : Bool := (parse? moment cs).isSome

end ProgramFacts.Toml
