import Columnar.Block.Builder
import Columnar.Index.Locate

/-!
# Reading through an index

Every read of a cell or a row by its position is the read of the chunk that
holds it, at the place of the row in that chunk.

## Main definitions

* `RowIndex.cell`, `RowIndex.getValue`, `RowIndex.isNull` and the typed getters —
  reads of cells.
* `RowIndex.row`, `RowIndex.resolve` — rows by position and by address.
* `RowIndex.equals`, `RowIndex.equalsChunkRow`, `RowIndex.hashCode` — comparing
  and hashing rows.
* `RowIndex.writeTo`, `RowIndex.writeChunkCellTo` — copying cells to a builder.
-/

namespace Columnar.RowIndex

/-! ### Cells -/

/-- The block that holds a cell, and the place of the cell in it. -/
def cell (x : RowIndex) (column position : Nat) : Result (Block × Nat) := do
  let l ← x.locate position
  let block ← (← x.chunk l.chunkId).chunk.block column
  return (block, l.offset)

def getValue (x : RowIndex) (column position : Nat) : Result Value := do
  let (block, offset) ← x.cell column position
  block.getValue offset

def getInt (x : RowIndex) (column position : Nat) : Result Int32 := do
  let (block, offset) ← x.cell column position
  block.getInt offset

/-- The integer in a cell, of either width. -/
def getLong (x : RowIndex) (column position : Nat) : Result Int64 := do
  let (block, offset) ← x.cell column position
  block.getLong offset

def getDouble (x : RowIndex) (column position : Nat) : Result Double := do
  let (block, offset) ← x.cell column position
  block.getDouble offset

def isNull (x : RowIndex) (column position : Nat) : Result Bool := do
  let (block, offset) ← x.cell column position
  block.isNull offset

def writeTo (x : RowIndex) (column position : Nat) (builder : BlockBuilder) :
    Result BlockBuilder := do
  let (block, offset) ← x.cell column position
  block.writeTo offset builder

/-- Adds a cell to a builder, for a caller that knows where the cell is. -/
def writeChunkCellTo (x : RowIndex) (l : Location) (column : Nat) (builder : BlockBuilder) :
    Result BlockBuilder := do
  let block ← (← x.chunk l.chunkId).chunk.block column
  block.writeTo l.offset builder

/-! ### Rows -/

def row (x : RowIndex) (position : Nat) : Result Row := do
  let l ← x.locate position
  (← x.chunk l.chunkId).chunk.row l.offset

/-- The row at an address, with the chunk it belongs to. -/
def resolve (x : RowIndex) (address : RowAddress) : Result (SharedChunk × Row) := do
  let shared ← x.chunk address.chunkId
  return (shared, ← shared.chunk.row address.offset)

def hashCode [PayloadHash] (x : RowIndex) (position : Nat) : Result UInt64 := do
  let l ← x.locate position
  (← x.chunk l.chunkId).chunk.hashCode l.offset

def equals (x : RowIndex) (position other : Nat) : Result Bool := do
  let l ← x.locate position
  let m ← x.locate other
  let a ← x.chunk l.chunkId
  let b ← x.chunk m.chunkId
  a.chunk.equals l.offset b.chunk m.offset

/-- Whether the row at a position equals a row of some chunk. -/
def equalsChunkRow (x : RowIndex) (position : Nat) (chunk : Chunk) (other : Nat) :
    Result Bool := do
  let l ← x.locate position
  (← x.chunk l.chunkId).chunk.equals l.offset chunk other

/-- The values of all rows, in order; a row that cannot be read says why. -/
def rows (x : RowIndex) : List (Result (List Value)) :=
  (List.range x.positionCount).map fun position => do (← x.row position).values

end Columnar.RowIndex
