import Columnar.Block.Cell
import Columnar.Size

/-!
# Chunks

A chunk is a batch of blocks that hold the columns of the same rows.  Its
number of positions is that of its first block.  Rows of any two chunks can be
compared, and are hashed, column by column.

## Main definitions

* `Chunk` — the blocks and the number of positions.
* `Chunk.ofBlocks` — a chunk of blocks of equal length.
* `Chunk.equals`, `Chunk.hashCode` — comparing and hashing rows.
* `Row`, `Chunk.row` — a row seen as one thing.
-/

namespace Columnar

/-- A batch of rows, stored column by column. -/
structure Chunk where
  blocks : List Block
  positionCount : Nat

namespace Chunk

/-- Chunks are equal if they have equal blocks and as many rows. -/
instance : BEq Chunk where
  beq a b := a.blocks == b.blocks && a.positionCount == b.positionCount

/-- The number of positions of the first of some blocks. -/
def firstCount (blocks : List Block) : Nat :=
  match blocks with
  | [] => 0
  | block :: _ => block.positionCount

/-- A chunk of the given blocks; the first one that is longer or shorter than
the leading block is refused. -/
def ofBlocks (blocks : List Block) : Result Chunk :=
  let expected := firstCount blocks
  match blocks.findIdx? (·.positionCount != expected) with
  | none => .ok ⟨blocks, expected⟩
  | some index => do
    let block ← Result.nth blocks index
    Result.refuse (.blockLengthMismatch index expected block.positionCount)

def blockCount (c : Chunk) : Nat := c.blocks.length

def block (c : Chunk) (column : Nat) : Result Block := Result.nth c.blocks column

/-- The hash code of a row, which takes in the columns in order. -/
def hashCode [PayloadHash] (c : Chunk) (position : Nat) : Result UInt64 :=
  c.blocks.foldlM (fun row block => Hash.combine row <$> block.hashCode position) 0

/-- Whether the row at `i` equals the row at `j` of another chunk: they have as
many columns, and equal cells in each.  The first unequal cell decides. -/
def equals (a : Chunk) (i : Nat) (b : Chunk) (j : Nat) : Result Bool :=
  if a.blocks.length = b.blocks.length then
    (a.blocks.zip b.blocks).allM fun (x, y) => x.equals i y j
  else .ok false

/-- The bytes all blocks hold. -/
def sizeInBytes (c : Chunk) : Nat := Size.total (c.blocks.map Block.sizeInBytes)

end Chunk

/-! ### Rows -/

/-- One row of a chunk. -/
structure Row where
  chunk : Chunk
  position : Nat

/-- The row of a chunk at a position below the number of rows. -/
def Chunk.row (c : Chunk) (position : Nat) : Result Row := do
  Result.require (position < c.positionCount) .rowOutOfRange
  return ⟨c, position⟩

namespace Row

def columnCount (r : Row) : Nat := r.chunk.blockCount

def getValue (r : Row) (column : Nat) : Result Value := do
  (← r.chunk.block column).getValue r.position

def values (r : Row) : Result (List Value) := r.chunk.blocks.mapM (·.getValue r.position)

def hashCode [PayloadHash] (r : Row) : Result UInt64 := r.chunk.hashCode r.position

def equals (r s : Row) : Result Bool := r.chunk.equals r.position s.chunk s.position

end Row

end Columnar
