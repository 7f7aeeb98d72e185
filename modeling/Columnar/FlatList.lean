import Columnar.Block.Basic
import Columnar.Size

/-!
# Flat lists

A flat list is one column of an index laid out as a single array, one element
for each position of the index.  Blocks are copied into it range by range.

## Main definitions

* `FlatList` — an array of one of three kinds.
* `FlatList.ofLength` — a list of zeros, if there can be one that long.
* `FlatList.getInt`, `FlatList.getLong`, `FlatList.getDouble` — its elements.
* `FlatList.copyBlock` — overwrites a range with the payloads of a block.
-/

namespace Columnar

/-- An array of numbers. -/
inductive FlatList
  | int (elements : Array Int32)
  | long (elements : Array Int64)
  | double (elements : Array Double)

namespace FlatList

/-- Lists are equal if they have one kind and equal elements; doubles compare
as numbers. -/
instance : BEq FlatList where
  beq
    | int a, int b => a == b
    | long a, long b => a == b
    | double a, double b => a == b
    | _, _ => false

/-- A list of zeros of any length. -/
def zeros (kind : ListKind) (length : Nat) : FlatList :=
  match kind with
  | .int => int (Array.replicate length 0)
  | .long => long (Array.replicate length 0)
  | .double => double (Array.replicate length default)

/-- A list of zeros, if there can be an array that long. -/
def ofLength (kind : ListKind) (length : Nat) : Result FlatList := do
  Size.room length kind.elementSize
  return zeros kind length

theorem ofLength_eq_ok_iff {kind : ListKind} {length : Nat} {list : FlatList} :
    ofLength kind length = .ok list ↔
      length * kind.elementSize < Size.arrayLimit ∧ list = zeros kind length := by
  rw [ofLength, Result.bind_eq_ok_iff]
  simp [Size.room_eq_ok_iff, pure, Except.pure, eq_comm (b := list)]

theorem ofLength_eq_error_iff {kind : ListKind} {length : Nat} {failure : Failure} :
    ofLength kind length = .error failure ↔
      Size.arrayLimit ≤ length * kind.elementSize ∧ failure = .misused .capacityOverflow := by
  rw [ofLength, Result.bind_eq_error_iff]
  simp [Size.room_eq_error_iff, pure, Except.pure]

def kind : FlatList → ListKind
  | int _ => .int
  | long _ => .long
  | double _ => .double

def length : FlatList → Nat
  | int xs => xs.size
  | long xs => xs.size
  | double xs => xs.size

/-- The bytes the elements take. -/
def sizeInBytes (list : FlatList) : Nat := list.length * list.kind.elementSize

/-- The elements in order, as values. -/
def values : FlatList → List Value
  | int xs => xs.toList.map .int
  | long xs => xs.toList.map .long
  | double xs => xs.toList.map .double

/-! ### Reading -/

def getInt (list : FlatList) (position : Nat) : Result Int32 :=
  match list with
  | int xs => Result.element xs position
  | other => Result.misuse (.listRead .int other.kind)

/-- The integer at a position, of either width. -/
def getLong (list : FlatList) (position : Nat) : Result Int64 :=
  match list with
  | int xs => return (← Result.element xs position).toInt64
  | long xs => Result.element xs position
  | other => Result.misuse (.listRead .long other.kind)

/-- The number at a position of a list of doubles. -/
def getDouble (list : FlatList) (position : Nat) : Result Double :=
  match list with
  | double xs => Result.element xs position
  | other => Result.misuse (.listRead .double other.kind)

/-! ### Copying -/

/-- Replaces the elements from `base` on by the given ones, which must all
fall inside the array. -/
def overwrite {α : Type} (xs : Array α) (base : Nat) (ys : Array α) : Result (Array α) := do
  let stop ← Size.add base ys.size
  if stop ≤ xs.size then
    return xs.extract 0 base ++ ys ++ xs.extract stop xs.size
  else .error .outOfBounds

/-- Copies all payloads of a block to the range that begins at `base`, those of
null positions included.  A list of 64-bit integers takes integers of both
widths. -/
def copyBlock (list : FlatList) (block : Block) (base : Nat) : Result FlatList :=
  match list, block with
  | int xs, .int c => int <$> overwrite xs base c.values
  | long xs, .long c => long <$> overwrite xs base c.values
  | long xs, .int c => long <$> overwrite xs base (c.values.map Int32.toInt64)
  | double xs, .double c => double <$> overwrite xs base c.values
  | l, b => Result.misuse (.listType b.type l.kind)

end FlatList

end Columnar
