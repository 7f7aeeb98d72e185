import Columnar.Cache.Basic
import Columnar.Options

/-!
# Row indices

An index makes a sequence of chunks addressable as one sequence of rows.  It
keeps the chunks themselves, shared and never copied, and a table with the
position at which each chunk begins, which closes with the number of positions.
A cache of some columns can be attached to it.

## Main definitions

* `SharedChunk` — a chunk with its identity.
* `RowIndex` — the chunks, the table of offsets and the cache.
* `RowIndex.ofOptions` — an index without chunks.
-/

namespace Columnar

/-- A chunk that several indices can hold.  Equal chunks may have been made
separately; two references mean the very same chunk when their tags agree. -/
structure SharedChunk where
  tag : Nat
  chunk : Chunk

/-- A sequence of chunks seen as one sequence of rows. -/
structure RowIndex where
  chunks : Buffer SharedChunk
  /-- The position at which each chunk begins, and at last the number of
  positions. -/
  offsets : Buffer Nat
  /-- The number of rows of the largest chunk that is accepted. -/
  maxChunkRows : Nat
  /-- The cache, if there is a source for it. -/
  cache? : Option ColumnCache

namespace RowIndex

/-! ### Making indices -/

/-- An index without chunks, for options that were checked. -/
def ofValidOptions (options : IndexOptions) : RowIndex where
  chunks := .withCapacity options.chunkCapacity
  offsets := (Buffer.withCapacity (options.chunkCapacity + 1)).push 0
  maxChunkRows := options.maxChunkRows
  cache? := none

/-- An index without chunks, with the usual options. -/
def empty : RowIndex := ofValidOptions .usual

/-- An index without chunks, with the given options if they are valid.  There is
one offset more than there are chunks; the number of offsets has to be a size,
and there has to be room for them in an array.  There is room for the chunks
then, since there are fewer of them. -/
def ofOptions (options : IndexOptions) : Result RowIndex := do
  options.validate
  Size.room (← Size.add options.chunkCapacity 1) 8
  return ofValidOptions options

/-! ### Counts -/

/-- The number of positions, which stands at the end of the table. -/
def positionCount (x : RowIndex) : Nat := x.offsets.items.back?.getD 0

def chunkCount (x : RowIndex) : Nat := x.chunks.size

def isEmpty (x : RowIndex) : Bool := x.chunkCount == 0

/-- A chunk by its place in the sequence. -/
def chunk (x : RowIndex) (chunkId : Nat) : Result SharedChunk :=
  Result.element x.chunks.items chunkId

/-- The position at which a chunk begins; past the last chunk, the number of
positions. -/
def chunkOffset (x : RowIndex) (chunkId : Nat) : Result Nat :=
  Result.element x.offsets.items chunkId

/-- The bytes of the two tables, with the room set aside for more. -/
def bookkeepingBytes (x : RowIndex) : Nat := x.offsets.capacity * 8 + x.chunks.capacity * 8

/-! ### The cache -/

/-- Whether there is a cache and it is open. -/
def hasOpenCache (x : RowIndex) : Bool := x.cache?.any ColumnCache.isOpen

/-- Fails if the cache is open, for a change that it forbids. -/
def requireCacheNotOpen (x : RowIndex) (call : GuardedCall) : Result Unit :=
  Result.require (!x.hasOpenCache) (.cacheIsOpen call)

end RowIndex

/-! ### Going through the chunks -/

/-- A single pass over the chunks of an index, in order. -/
structure Drain where
  /-- The chunks that are still to come. -/
  rest : List SharedChunk

namespace Drain

/-- The number of chunks still to come. -/
def remaining (d : Drain) : Nat := d.rest.length

/-- The next chunk and the pass after it; none when the pass is over, and then
forever. -/
def next? (d : Drain) : Option (SharedChunk × Drain) :=
  match d.rest with
  | [] => none
  | chunk :: rest => some (chunk, ⟨rest⟩)

end Drain

/-- A pass over all chunks of the index, which keeps them. -/
def RowIndex.drain (x : RowIndex) : Drain := ⟨x.chunks.items.toList⟩

end Columnar
