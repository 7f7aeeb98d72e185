import Columnar.Hash.Basic

/-!
# A folding hash

The hash function in use takes the words of a payload into a running state, each
folded in by a full multiplication whose two halves are xored, and scrambles the
state once more at the end.  The keys are fixed, so hash codes agree between any
two columns.  All arithmetic is modulo `2 ^ 64`.

## Main definitions

* `Hash.word`, `Hash.bytes` — what one payload does to the state.
* `Hash.finish` — the code a state stands for.
* `Hash.folding` — the hash function.
-/

namespace Columnar.Hash

/-! ### Mixing -/

/-- The odd multiplier of the folds. -/
def multiplier : UInt64 := 6364136223846793005

/-- The key added to the state before long folds and folded in at the end. -/
def pad : UInt64 := 0x61174b6ebd731ba4

/-- The state before anything is hashed. -/
def start : UInt64 := 0xad4dece137997f28

/-- The key of the first word of a pair. -/
def firstKey : UInt64 := 0x64a51195e0e3610d

/-- The key of the second word of a pair. -/
def secondKey : UInt64 := 0x37aa2f2d5909659e

/-- The exclusive-or of the two halves of a 128-bit product. -/
def fold (a b : UInt64) : UInt64 :=
  let product := a.toNat * b.toNat
  UInt64.ofNat product ^^^ UInt64.ofNat (product / 0x10000000000000000)

/-- Moves the bits up by `n < 64` places, the top ones coming in at the
bottom. -/
def rotateLeft (x n : UInt64) : UInt64 := (x <<< n) ||| (x >>> (64 - n))

/-- Takes one word into the state. -/
def word (state x : UInt64) : UInt64 := fold (x ^^^ state) multiplier

/-- Takes a pair of words into the state. -/
def pair (state a b : UInt64) : UInt64 :=
  rotateLeft ((state + pad) ^^^ fold (a ^^^ firstKey) (b ^^^ secondKey)) 23

/-! ### Strings of bytes -/

/-- The word whose lowest byte comes first. -/
def littleEndian (bytes : List UInt8) : UInt64 :=
  bytes.foldr (fun byte rest => (rest <<< 8) ||| byte.toUInt64) 0

/-- The word in the first `n` bytes. -/
def front (n : Nat) (bytes : List UInt8) : UInt64 := littleEndian (bytes.take n)

/-- The word in the last `n` bytes. -/
def back (n : Nat) (bytes : List UInt8) : UInt64 := littleEndian (bytes.drop (bytes.length - n))

/-- Takes a number of groups of sixteen bytes into the state. -/
def blocks : Nat → UInt64 → List UInt8 → UInt64
  | 0, state, _ => state
  | count + 1, state, bytes =>
    blocks count (pair state (front 8 bytes) (front 8 (bytes.drop 8))) (bytes.drop 16)

/-- Takes a string of bytes into the state.  Up to sixteen bytes are covered by
one pair of words that may overlap.  Of more, the last sixteen go first, and
then groups from the front, as long as more than sixteen bytes are left. -/
def bytes (state : UInt64) (bytes : List UInt8) : UInt64 :=
  let n := bytes.length
  let state := (state + UInt64.ofNat n) * multiplier
  if n = 0 then pair state 0 0
  else if n = 1 then pair state (front 1 bytes) (front 1 bytes)
  else if n ≤ 3 then pair state (front 2 bytes) (back 1 bytes)
  else if n ≤ 8 then pair state (front 4 bytes) (back 4 bytes)
  else if n ≤ 16 then pair state (front 8 bytes) (back 8 bytes)
  else blocks ((n - 1) / 16) (pair state (front 8 (bytes.drop (n - 16))) (back 8 bytes)) bytes

/-! ### Hash codes -/

/-- The code a state stands for. -/
def finish (state : UInt64) : UInt64 := rotateLeft (fold state pad) (state % 64)

/-- The code of a payload of one word. -/
def ofWord (x : UInt64) : UInt64 := finish (word start x)

/-- The code of a text: its bytes, closed by a word that no byte has. -/
def ofText (s : String) : UInt64 := finish (word (bytes start s.toUTF8.toList) 255)

/-- The hash function in use.  An integer is hashed as its two's complement, and a
truth value as zero or one. -/
instance folding : PayloadHash where
  ofInt64 n := ofWord n.toUInt64
  ofBits := ofWord
  ofBool b := ofWord (if b then 1 else 0)
  ofString := ofText

end Columnar.Hash
