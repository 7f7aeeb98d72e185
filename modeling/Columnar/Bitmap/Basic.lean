import Columnar.Buffer
import Columnar.Result

/-!
# Bitmaps

A bitmap is a sequence of bits packed into 64-bit words, with a running count
of the set ones.  It backs the null masks of blocks and the flags of a cache.
Bit `i` stands in word `i / 64` at place `i % 64`, counted from the lowest bit.

## Main definitions

* `Bitmap` — the words, the number of bits and the number of set bits.
* `Bitmap.get`, `Bitmap.set`, `Bitmap.setRange`, `Bitmap.push` — the operations.
* `Bitmap.toList` — the bits in order.
-/

namespace Columnar

/-- A packed sequence of bits. -/
structure Bitmap where
  /-- The words that hold the bits. -/
  words : Buffer (BitVec 64)
  length : Nat
  /-- The number of set bits. -/
  ones : Nat
  /-- There are just enough words for the bits. -/
  words_size : words.items.size = (length + 63) / 64

namespace Bitmap

/-- The number of words that hold a number of bits. -/
def wordCount (bits : Nat) : Nat := (bits + 63) / 64

/-! ### Making bitmaps -/

/-- No bits, with room for the given number. -/
def withCapacity (bits : Nat) : Bitmap where
  words := .withCapacity (wordCount bits)
  length := 0
  ones := 0
  words_size := by simp

/-- No bits and no room. -/
def empty : Bitmap := withCapacity 0

instance : Inhabited Bitmap := ⟨empty⟩

/-- The given number of clear bits. -/
def clear (bits : Nat) : Bitmap where
  words := .replicate (wordCount bits) 0#64
  length := bits
  ones := 0
  words_size := by simp [wordCount]

/-- Equality of the bits; the room does not count. -/
instance : BEq Bitmap where
  beq a b := a.words == b.words && a.length == b.length && a.ones == b.ones

/-! ### Reading -/

/-- The bit at an index, which is clear past the end. -/
def bit (m : Bitmap) (index : Nat) : Bool :=
  match m.words.items[index / 64]? with
  | some word => word.getLsbD (index % 64)
  | none => false

/-- The bit at an index below the length. -/
def get (m : Bitmap) (index : Nat) : Result Bool := do
  Result.require (index < m.length) (.bitOutOfBounds index m.length)
  return m.bit index

def isEmpty (m : Bitmap) : Bool := m.length == 0

def any (m : Bitmap) : Bool := 0 < m.ones

def toList (m : Bitmap) : List Bool := (List.range m.length).map m.bit

/-- The bytes the words take, with the room set aside for more. -/
def sizeInBytes (m : Bitmap) : Nat := m.words.capacity * 8

/-! ### Writing -/

/-- Makes the bit at an index what is asked, and counts the change if there is
one.  Past the words nothing happens. -/
def put (m : Bitmap) (index : Nat) (value : Bool) : Bitmap :=
  match m.words.items[index / 64]? with
  | none => m
  | some word =>
    let mask := 1#64 <<< (index % 64)
    let wasSet := word.getLsbD (index % 64)
    if value && !wasSet then
      { m with
        words := m.words.set (index / 64) (word ||| mask)
        ones := m.ones + 1
        words_size := by simpa using m.words_size }
    else if !value && wasSet then
      { m with
        words := m.words.set (index / 64) (word &&& ~~~mask)
        ones := m.ones - 1
        words_size := by simpa using m.words_size }
    else m

/-- Sets or clears the bit at an index below the length. -/
def set (m : Bitmap) (index : Nat) (value : Bool) : Result Bitmap := do
  Result.require (index < m.length) (.bitOutOfBounds index m.length)
  return m.put index value

/-- Sets the bits from `start` up to, but not including, `stop`. -/
def putRange (m : Bitmap) (start stop : Nat) : Bitmap :=
  (List.range' start (stop - start)).foldl (fun m i => m.put i true) m

/-- Sets a range of bits whose end does not lie past the end of the bitmap,
even if the range is empty. -/
def setRange (m : Bitmap) (start stop : Nat) : Result Bitmap := do
  Result.require (stop ≤ m.length) (.rangeOutOfBounds stop m.length)
  return m.putRange start stop

/-- Adds a clear bit at the end, and a word for it if the last one is full. -/
def pushClear (m : Bitmap) : Bitmap where
  words := if m.length % 64 = 0 then m.words.push 0#64 else m.words
  length := m.length + 1
  ones := m.ones
  words_size := by
    have := m.words_size
    split
    · rw [Buffer.items_push, Array.size_push]; omega
    · omega

def push (m : Bitmap) (value : Bool) : Bitmap :=
  if value then m.pushClear.put m.length true else m.pushClear

/-- Adds several bits at the end, one after the other. -/
def pushAll (m : Bitmap) (bits : List Bool) : Bitmap := bits.foldl push m

end Bitmap

end Columnar
