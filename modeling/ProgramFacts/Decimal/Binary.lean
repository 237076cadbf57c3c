/-! Binary floating-point words: how a word of sign, exponent and fraction bits is read as a number
`m * 2 ^ q`, and the numeric equality of two words, under which `-0` equals `0` and a NaN equals
nothing. -/

namespace ProgramFacts.Decimal

/-- The widths of the fraction and exponent fields of a binary interchange format. -/
structure Format where
  fractionBits : Nat
  exponentBits : Nat
deriving DecidableEq, Repr

def Format.single : Format := ⟨23, 8⟩

def Format.double : Format := ⟨52, 11⟩

namespace Format

variable (f : Format)

def fraction (word : Nat) : Nat := word % Nat.pow 2 f.fractionBits

def exponent (word : Nat) : Nat :=
  word / Nat.pow 2 f.fractionBits % Nat.pow 2 f.exponentBits

def negative (word : Nat) : Bool :=
  word / Nat.pow 2 (f.fractionBits + f.exponentBits) % 2 == 1

/-- The exponent field that marks infinities and NaNs. -/
def topExponent : Nat := Nat.pow 2 f.exponentBits - 1

/-- The power of two that a subnormal fraction is multiplied by. -/
def minPower : Int := 2 - Nat.pow 2 (f.exponentBits - 1) - f.fractionBits

end Format

inductive Reading
  | nan
  | infinite (negative : Bool)
  /-- The magnitude `m * 2 ^ q`; `tight` says that the next smaller number of the format is half as
  far away as the next larger one. -/
  | finite (negative : Bool) (m : Nat) (q : Int) (tight : Bool)
deriving DecidableEq, Repr

/-- Reads a word of format `f`. -/
def Format.read (f : Format) (word : Nat) : Reading :=
  let e := f.exponent word
  let m := f.fraction word
  if e = f.topExponent then
    if m = 0 then .infinite (f.negative word) else .nan
  else if e = 0 then .finite (f.negative word) m f.minPower false
  else
    .finite (f.negative word) (Nat.pow 2 f.fractionBits + m) (f.minPower + (e - 1))
      (m == 0 && 1 < e)

/-- Numeric equality of two words of one format. -/
def Format.numericEq (f : Format) (a b : Nat) : Bool :=
  match f.read a, f.read b with
  | .nan, _ | _, .nan => false
  | .finite _ 0 _ _, .finite _ 0 _ _ => true
  | _, _ => a == b

/-- A 32-bit floating-point number, as its word. -/
structure Binary32 where
  bits : UInt32
deriving DecidableEq, Repr

/-- A 64-bit floating-point number, as its word. -/
structure Binary64 where
  bits : UInt64
deriving DecidableEq, Repr

/-- The number that `x` stands for. -/
def Binary32.read (x : Binary32) : Reading := Format.single.read x.bits.toNat

/-- The number that `x` stands for. -/
def Binary64.read (x : Binary64) : Reading := Format.double.read x.bits.toNat

/-- Numeric equality: `-0` equals `0` and a NaN equals nothing. -/
def Binary32.numericEq (x y : Binary32) : Bool :=
  Format.single.numericEq x.bits.toNat y.bits.toNat

/-- Numeric equality: `-0` equals `0` and a NaN equals nothing. -/
def Binary64.numericEq (x y : Binary64) : Bool :=
  Format.double.numericEq x.bits.toNat y.bits.toNat

end ProgramFacts.Decimal
