import Columnar.Index.Basic

/-!
# The cache of an index

An index hands its numbers of positions and chunks to its cache when that is
opened, and its chunks with their offsets when they are copied.  Without a list
source there is no cache: opening, filling and closing then do nothing, while
reading fails.

## Main definitions

* `RowIndex.setSource` — attaches a cache that is not opened yet.
* `RowIndex.openCache`, `RowIndex.populateCache`, `RowIndex.closeCache` — the life
  of the cache.
* `RowIndex.cachedInt`, `RowIndex.cachedLong`, `RowIndex.cachedDouble` — reads.
-/

namespace Columnar.RowIndex

/-- Attaches a cache with the given source, in place of one that is not open. -/
def setSource (x : RowIndex) (source : ListSource) : Result RowIndex := do
  x.requireCacheNotOpen .setSource
  return { x with cache? := some (.ofSource source) }

/-- Changes the cache, if there is one. -/
def changeCache (x : RowIndex) (change : ColumnCache → Outcome ColumnCache) : Outcome RowIndex :=
  match x.cache? with
  | none => .done x
  | some cache => (change cache).map fun cache => { x with cache? := some cache }

/-- Opens the cache for the positions and chunks there are. -/
def openCache (x : RowIndex) : Outcome RowIndex :=
  x.changeCache (·.openFor x.positionCount x.chunkCount)

/-- Copies a chunk into the cache.  The chunk is looked up before the cache is
asked whether it is open. -/
def populateCache (x : RowIndex) (chunkId : Nat) : Outcome RowIndex :=
  x.changeCache fun cache =>
    let found : Result (Chunk × Nat) := do
      return ((← x.chunk chunkId).chunk, ← x.chunkOffset chunkId)
    match found with
    | .error failure => .failed cache failure
    | .ok (chunk, base) => cache.populate chunkId chunk base

def closeCache (x : RowIndex) : Outcome RowIndex := x.changeCache ColumnCache.close

/-- The bytes the cache takes, or would take if it were opened now. -/
def cacheSizeInBytes (x : RowIndex) : Result Nat :=
  match x.cache? with
  | none => .ok 0
  | some cache => cache.sizeInBytes x.positionCount

/-- The cache, for a read that cannot do without it. -/
def cacheForRead (x : RowIndex) : Result ColumnCache :=
  match x.cache? with
  | none => Result.misuse .noSource
  | some cache => .ok cache

/-- The 32-bit integer of a cached list at a position. -/
def cachedInt (x : RowIndex) (column position : Nat) : Result Int32 := do
  (← x.cacheForRead).getInt column position

/-- The integer of a cached list at a position, of either width. -/
def cachedLong (x : RowIndex) (column position : Nat) : Result Int64 := do
  (← x.cacheForRead).getLong column position

/-- The double of a cached list at a position. -/
def cachedDouble (x : RowIndex) (column position : Nat) : Result Double := do
  (← x.cacheForRead).getDouble column position

end Columnar.RowIndex
