import Columnar.Block.NullMask
import Columnar.Size

/-!
# Columns of text

The strings of a column of text stand one after the other in a single run of
bytes, in UTF-8.  A table with one more entry than there are positions gives
the byte at which each string begins, and at last the end of the run.  A null
stands for no bytes.

## Main definitions

* `TextColumn` — offsets, bytes and null mask.
* `TextColumn.get` — the string at a position.
* `TextBuilder` — a column under construction.
-/

namespace Columnar

/-- A column of strings. -/
structure TextColumn where
  /-- Where each string begins, and where the last one ends. -/
  offsets : Array Nat
  /-- The strings, end to end. -/
  bytes : ByteArray
  nulls : NullMask

namespace TextColumn

/-- Columns are equal if they agree in all three parts. -/
instance : BEq TextColumn where
  beq a b := a.offsets == b.offsets && a.bytes == b.bytes && a.nulls == b.nulls

def length (column : TextColumn) : Nat := column.offsets.size - 1

def isNull (column : TextColumn) (position : Nat) : Result Bool :=
  column.nulls.isNull position

/-- The string between two offsets, which must enclose whole characters. -/
def slice (column : TextColumn) (start stop : Nat) : Result String :=
  if start ≤ stop ∧ stop ≤ column.bytes.size then
    match String.fromUTF8? (column.bytes.extract start stop) with
    | some s => .ok s
    | none => .error .outOfBounds
  else .error .outOfBounds

/-- The string at a position; it is empty where the cell is null. -/
def get (column : TextColumn) (position : Nat) : Result String := do
  let start ← Result.element column.offsets position
  let stop ← Result.element column.offsets (position + 1)
  column.slice start stop

/-- The bytes of the offsets, of the strings and of the mask. -/
def sizeInBytes (column : TextColumn) : Nat :=
  column.offsets.size * 8 + column.bytes.size + column.nulls.sizeInBytes

end TextColumn

/-- A column of strings under construction. -/
structure TextBuilder where
  /-- Where each string begins, and where the last one ends. -/
  offsets : Array Nat
  /-- The strings so far, end to end. -/
  bytes : ByteArray
  /-- One bit per string, set where it stands for a null. -/
  nulls : Bitmap

namespace TextBuilder

/-- No strings yet, with room for the marks of the given number. -/
def blank (capacity : Nat) : TextBuilder := ⟨#[0], .empty, .withCapacity capacity⟩

/-- No strings yet, with room for the given number.  There is one offset more
than there are strings; their number has to be a size, and there has to be room
for them in an array. -/
def withCapacity (capacity : Nat) : Result TextBuilder := do
  Size.room (← Size.add capacity 1) 8
  return blank capacity

def length (b : TextBuilder) : Nat := b.offsets.size - 1

def push (b : TextBuilder) (s : String) : TextBuilder :=
  let bytes := b.bytes ++ s.toUTF8
  ⟨b.offsets.push bytes.size, bytes, b.nulls.push false⟩

/-- Adds a null, which takes no bytes. -/
def pushNull (b : TextBuilder) : TextBuilder :=
  ⟨b.offsets.push b.bytes.size, b.bytes, b.nulls.push true⟩

def build (b : TextBuilder) : TextColumn := ⟨b.offsets, b.bytes, .ofBitmap b.nulls⟩

end TextBuilder

end Columnar
