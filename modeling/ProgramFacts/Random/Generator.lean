/-! The random source: the words of the ChaCha stream cipher with 20 rounds, under a key that is
spread from a 64-bit seed, and uniform choice among a number of alternatives. -/

namespace ProgramFacts.Random

abbrev Block := Vector UInt32 16

/-- Rotates a word to the left, by 1 to 31 bits. -/
def rotateLeft (x : UInt32) (n : UInt32) : UInt32 := (x <<< n) ||| (x >>> (32 - n))

def quarterRound (b : Block) (i j k l : Fin 16) : Block :=
  let b := b.set i (b[i] + b[j])
  let b := b.set l (rotateLeft (b[l] ^^^ b[i]) 16)
  let b := b.set k (b[k] + b[l])
  let b := b.set j (rotateLeft (b[j] ^^^ b[k]) 12)
  let b := b.set i (b[i] + b[j])
  let b := b.set l (rotateLeft (b[l] ^^^ b[i]) 8)
  let b := b.set k (b[k] + b[l])
  b.set j (rotateLeft (b[j] ^^^ b[k]) 7)

/-- Mixes the columns of a block and then its diagonals. -/
def doubleRound (b : Block) : Block :=
  let b := quarterRound b 0 4 8 12
  let b := quarterRound b 1 5 9 13
  let b := quarterRound b 2 6 10 14
  let b := quarterRound b 3 7 11 15
  let b := quarterRound b 0 5 10 15
  let b := quarterRound b 1 6 11 12
  let b := quarterRound b 2 7 8 13
  quarterRound b 3 4 9 14

abbrev Key := Vector UInt32 8

/-- The block that block number `n` starts from: constants, key, number, and a zero nonce. -/
def initialBlock (key : Key) (n : Nat) : Block :=
  #v[0x61707865, 0x3320646e, 0x79622d32, 0x6b206574,
    key[0], key[1], key[2], key[3], key[4], key[5], key[6], key[7],
    UInt32.ofNat n, UInt32.ofNat (n / UInt32.size), 0, 0]

/-- Block number `n` of the key stream. -/
def keyBlock (key : Key) (n : Nat) : Block :=
  let start := initialBlock key n
  (Nat.repeat doubleRound 10 start).zipWith (· + ·) start

/-- A source of random words: a key, and how many words of its stream were drawn. -/
structure Generator where
  key : Key
  drawn : Nat
deriving DecidableEq

namespace Generator

/-- The seed after one step of the sequence that keys are spread from. -/
def nextSeed (s : UInt64) : UInt64 := s * 6364136223846793005 + 11634580027462260723

/-- The word of a key that a seed gives. -/
def keyWord (s : UInt64) : UInt32 :=
  let x := (((s >>> 18) ^^^ s) >>> 27).toUInt32
  let n := (s >>> 59).toUInt32
  (x >>> n) ||| (x <<< ((32 - n) % 32))

/-- The seed after `n` steps. -/
def seedAfter (s : UInt64) (n : Nat) : UInt64 := Nat.repeat nextSeed n s

def ofSeed (seed : UInt64) : Generator :=
  ⟨Vector.ofFn fun i => keyWord (seedAfter seed (i.val + 1)), 0⟩

def next (r : Generator) : UInt32 × Generator :=
  (((keyBlock r.key (r.drawn / 16)).toArray.getD (r.drawn % 16) 0), { r with drawn := r.drawn + 1 })

/-- Draws a number below `n`, for `n` from 1 up to `2 ^ 32`: the high half of the product of a word
and `n`.  When the low half leaves open whether a longer word would have carried into the high half,
a second word decides. -/
def below (r : Generator) (n : Nat) : Nat × Generator :=
  let (x, r) := r.next
  let product := x.toNat * n
  let high := product / UInt32.size
  let low := product % UInt32.size
  if low ≤ UInt32.size - n then (high, r)
  else
    let (y, r) := r.next
    (if UInt32.size ≤ low + y.toNat * n / UInt32.size then high + 1 else high, r)

end Generator

end ProgramFacts.Random
