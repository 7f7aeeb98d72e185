import Columnar.Block.Fixed
import Columnar.Block.Text

/-!
# Blocks

A block is one column of a chunk: a column of one of the five types, whose
type is settled when it is built.  Cells are read either as values, in which a
null shows, or by a getter for one type, which gives the stored payload whether
the cell is null or not.

## Main definitions

* `Block` — a column of one of the types.
* `Block.getValue` — the value of a cell.
* `Block.getInt`, `Block.getLong`, `Block.getDouble`, `Block.getBool`,
  `Block.getStr` — the payload of a cell.
-/

namespace Columnar

/-- A column of one of the five types. -/
inductive Block
  | int (column : FixedColumn Int32)
  | long (column : FixedColumn Int64)
  | double (column : FixedColumn Double)
  | boolean (column : FixedColumn Bool)
  | varchar (column : TextColumn)

namespace Block

/-- Blocks are equal if they have one type and equal columns.  Doubles compare
as numbers here, so a block that holds a NaN differs from itself. -/
instance : BEq Block where
  beq
    | int a, int b => a == b
    | long a, long b => a == b
    | double a, double b => a == b
    | boolean a, boolean b => a == b
    | varchar a, varchar b => a == b
    | _, _ => false

def type : Block → DataType
  | int _ => .int
  | long _ => .long
  | double _ => .double
  | boolean _ => .boolean
  | varchar _ => .varchar

def positionCount : Block → Nat
  | int c => c.length
  | long c => c.length
  | double c => c.length
  | boolean c => c.length
  | varchar c => c.length

def nulls : Block → NullMask
  | int c => c.nulls
  | long c => c.nulls
  | double c => c.nulls
  | boolean c => c.nulls
  | varchar c => c.nulls

def isNull (b : Block) (position : Nat) : Result Bool := b.nulls.isNull position

/-! ### Payloads -/

def getInt (b : Block) (position : Nat) : Result Int32 :=
  match b with
  | int c => c.get position
  | other => Result.misuse (.blockRead .int other.type)

/-- The integer at a position, of either width. -/
def getLong (b : Block) (position : Nat) : Result Int64 :=
  match b with
  | int c => return (← c.get position).toInt64
  | long c => c.get position
  | other => Result.misuse (.blockRead .long other.type)

/-- The number at a position of a column of doubles. -/
def getDouble (b : Block) (position : Nat) : Result Double :=
  match b with
  | double c => c.get position
  | other => Result.misuse (.blockRead .double other.type)

def getBool (b : Block) (position : Nat) : Result Bool :=
  match b with
  | boolean c => c.get position
  | other => Result.misuse (.blockRead .bool other.type)

def getStr (b : Block) (position : Nat) : Result String :=
  match b with
  | varchar c => c.get position
  | other => Result.misuse (.blockRead .str other.type)

/-- The payload at a position as a value, null or not. -/
def payload (b : Block) (position : Nat) : Result Value :=
  match b with
  | int c => .int <$> c.get position
  | long c => .long <$> c.get position
  | double c => .double <$> c.get position
  | boolean c => .boolean <$> c.get position
  | varchar c => .string <$> c.get position

/-- The value of the cell at a position. -/
def getValue (b : Block) (position : Nat) : Result Value := do
  if ← b.isNull position then return .null
  b.payload position

/-- All payloads in order, also those of null positions. -/
def payloads (b : Block) : Result (List Value) :=
  (List.range b.positionCount).mapM b.payload

/-- The bytes the block holds. -/
def sizeInBytes : Block → Nat
  | int c => c.sizeInBytes 4
  | long c => c.sizeInBytes 8
  | double c => c.sizeInBytes 8
  | boolean c => c.sizeInBytes 1
  | varchar c => c.sizeInBytes

end Block

end Columnar
