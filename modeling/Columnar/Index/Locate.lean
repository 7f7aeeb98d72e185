import Columnar.Index.Basic
import Columnar.Index.Search
import Columnar.RowAddress

/-!
# Locating rows

A position is mapped to the chunk that holds it and the place of the row in
that chunk, by a binary search in the table of offsets.  Of several chunks that
begin at one position all but the last are empty, so the last one is meant; an
empty chunk is never found.

## Main definitions

* `Location` — a chunk id and an offset.
* `RowIndex.locate` — the location of a position.
* `RowIndex.address` — the same, packed.
* `RowIndex.locateBatch` — the locations of several positions.
-/

namespace Columnar

/-- Where a row is: the id of its chunk and its place in the chunk. -/
structure Location where
  chunkId : Nat
  offset : Nat
  deriving DecidableEq, Repr

/-- Two arrays that take up the locations of several positions. -/
structure LocationBuffers where
  chunkIds : Array Nat
  offsets : Array Nat
  deriving DecidableEq, Repr

/-- Stores a location at an index of both arrays. -/
def LocationBuffers.set (out : LocationBuffers) (index : Nat) (l : Location) : LocationBuffers :=
  ⟨out.chunkIds.setIfInBounds index l.chunkId, out.offsets.setIfInBounds index l.offset⟩

namespace RowIndex

/-- The location of a position: the last chunk that does not begin after it. -/
def locate (x : RowIndex) (position : Nat) : Result Location := do
  Result.require (position < x.positionCount) (.positionOutOfRange position x.positionCount)
  let chunkId := partitionPoint x.offsets.items (· ≤ position) - 1
  let start ← x.chunkOffset chunkId
  return ⟨chunkId, position - start⟩

/-- The address of the row at a position. -/
def address (x : RowIndex) (position : Nat) : Result RowAddress := do
  let l ← x.locate position
  RowAddress.ofRaw (← RowAddress.encode l.chunkId l.offset)

/-- Stores the locations of positions in order from an index on, up to the
first that lies past the end. -/
def locateFrom (x : RowIndex) (index : Nat) (out : LocationBuffers) :
    List Nat → Outcome LocationBuffers
  | [] => .done out
  | position :: rest =>
    match x.locate position with
    | .error failure => .failed out failure
    | .ok l => x.locateFrom (index + 1) (out.set index l) rest

/-- Stores the locations of positions at the front of two arrays, which must be
long enough. -/
def locateBatch (x : RowIndex) (positions : List Nat) (out : LocationBuffers) :
    Outcome LocationBuffers :=
  if positions.length ≤ out.chunkIds.size ∧ positions.length ≤ out.offsets.size then
    x.locateFrom 0 out positions
  else .failed out (.misused (.outputTooShort positions.length))

end RowIndex

end Columnar
