import Columnar.Block.NullMask

/-!
# Columns of fixed width

A column of numbers or truth values is the array of its payloads with a null
mask.  A builder fills null positions with the default payload; a column made
from an array of payloads keeps what the array holds there.

## Main definitions

* `FixedColumn` — payloads and null mask.
* `FixedColumn.ofValues` — a column from its parts.
* `FixedBuilder` — a column under construction.
-/

namespace Columnar

/-- A column of payloads that all take the same number of bytes. -/
structure FixedColumn (α : Type) where
  /-- The payloads, also of null positions. -/
  values : Array α
  nulls : NullMask

namespace FixedColumn

variable {α : Type}

/-- Columns are equal if payloads and masks are, null positions included. -/
instance [BEq α] : BEq (FixedColumn α) where
  beq a b := a.values == b.values && a.nulls == b.nulls

/-- A column from its payloads and, if some may be null, a bitmap of the same
length that marks those. -/
def ofValues (values : Array α) : Option Bitmap → Result (FixedColumn α)
  | none => .ok ⟨values, .none⟩
  | some bits => do
    Result.require (bits.length == values.size) (.nullMaskLength bits.length values.size)
    return ⟨values, .ofBitmap bits⟩

def length (column : FixedColumn α) : Nat := column.values.size

def isNull (column : FixedColumn α) (position : Nat) : Result Bool :=
  column.nulls.isNull position

/-- The payload at a position, null or not. -/
def get (column : FixedColumn α) (position : Nat) : Result α :=
  Result.element column.values position

/-- The bytes of payloads of the given width, and of the mask. -/
def sizeInBytes (column : FixedColumn α) (width : Nat) : Nat :=
  column.values.size * width + column.nulls.sizeInBytes

end FixedColumn

/-- A column of fixed width under construction. -/
structure FixedBuilder (α : Type) where
  values : Array α
  /-- One bit per payload, set where it stands for a null. -/
  nulls : Bitmap

namespace FixedBuilder

variable {α : Type}

/-- No payloads yet, with room for the marks of the given number. -/
def withCapacity (capacity : Nat) : FixedBuilder α := ⟨#[], .withCapacity capacity⟩

def length (b : FixedBuilder α) : Nat := b.values.size

def push (b : FixedBuilder α) (value : α) : FixedBuilder α :=
  ⟨b.values.push value, b.nulls.push false⟩

/-- Adds a null, with the default payload in its place. -/
def pushNull [Inhabited α] (b : FixedBuilder α) : FixedBuilder α :=
  ⟨b.values.push default, b.nulls.push true⟩

def build (b : FixedBuilder α) : FixedColumn α := ⟨b.values, .ofBitmap b.nulls⟩

end FixedBuilder

end Columnar
