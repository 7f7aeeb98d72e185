/-!
# Limits of the address space

A row is addressed by a chunk id and an offset in the chunk, packed into the
sixty-three bits below the sign of a 64-bit integer.  The two widths bound the
number of chunks of an index and the number of rows of a chunk.

## Main definitions

* `Limits.offsetBits`, `Limits.chunkIdBits` — the widths of the two fields.
* `Limits.maxChunks`, `Limits.maxChunkRows` — the bounds that follow.
-/

namespace Columnar.Limits

/-- The width of the offset field, in bits. -/
def offsetBits : Nat := 32

/-- The width of the chunk id field, in bits. -/
def chunkIdBits : Nat := 31

/-- The number of chunks that can be addressed: two to the power of
`chunkIdBits`. -/
def maxChunks : Nat := 0x80000000

/-- The number of rows that can be addressed within one chunk: two to the power
of `offsetBits`. -/
def maxChunkRows : Nat := 0x100000000

end Columnar.Limits
