/-! The text of bytes that need not be text.  A character is read from its first byte and the
continuation bytes that this calls for; where these are missing, the bytes so far stand as one
replacement character. -/

namespace ProgramFacts.Text

/-- What follows the first byte of a character: a number of continuation bytes, and the range of the
first of them, which leaves out surrogates, code points past the last one, and characters that fewer
bytes would give. -/
structure Continuation where
  count : Nat
  low : Nat
  high : Nat
deriving DecidableEq, Repr

/-- What follows a byte that starts a character of more than one byte. -/
def continuation? (lead : Nat) : Option Continuation :=
  if lead < 0xc2 then none
  else if lead < 0xe0 then some ⟨1, 0x80, 0xbf⟩
  else if lead = 0xe0 then some ⟨2, 0xa0, 0xbf⟩
  else if lead = 0xed then some ⟨2, 0x80, 0x9f⟩
  else if lead < 0xf0 then some ⟨2, 0x80, 0xbf⟩
  else if lead = 0xf0 then some ⟨3, 0x90, 0xbf⟩
  else if lead < 0xf4 then some ⟨3, 0x80, 0xbf⟩
  else if lead = 0xf4 then some ⟨3, 0x80, 0x8f⟩
  else none

/-- At most `count` continuation bytes from the front, the first of them from `low` to `high`. -/
def takeContinuation (low high : Nat) : Nat → List Nat → List Nat
  | 0, _ => []
  | _ + 1, [] => []
  | count + 1, b :: rest =>
    if low ≤ b && b ≤ high then b :: takeContinuation 0x80 0xbf count rest else []

/-- The character of a first byte and all its continuation bytes. -/
def joinBytes (lead : Nat) (continuation : List Nat) : Char :=
  Char.ofNat (continuation.foldl (fun n b => 64 * n + b % 64)
    (lead % Nat.pow 2 (6 - continuation.length)))

def lossyChars : List Nat → List Char
  | [] => []
  | b :: rest =>
    if b < 0x80 then Char.ofNat b :: lossyChars rest
    else
      match continuation? b with
      | none => '\ufffd' :: lossyChars rest
      | some c =>
        let taken := takeContinuation c.low c.high c.count rest
        let char := if taken.length = c.count then joinBytes b taken else '\ufffd'
        char :: lossyChars (rest.drop taken.length)
termination_by bytes => bytes.length

def lossy (bytes : ByteArray) : String :=
  String.ofList (lossyChars (bytes.toList.map UInt8.toNat))

end ProgramFacts.Text
