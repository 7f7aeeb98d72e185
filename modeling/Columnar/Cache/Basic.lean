import Columnar.Cache.Source

/-!
# Column caches

A cache holds flat copies of some columns of an index, so that they can be read
by position without finding the chunk first.  It is opened once for a fixed
number of positions and chunks, filled chunk by chunk in any order, and closed
for good.  Two bitmaps record what has been copied: one bit per chunk, so that
none is copied twice, and one bit per position, so that nothing is read that
has not been copied.

## Main definitions

* `OpenCache` — the lists and the two bitmaps.
* `ColumnCache` — a list source and the phase of the cache.
* `ColumnCache.openFor`, `ColumnCache.populate`, `ColumnCache.close` — its life.
* `ColumnCache.getInt`, `ColumnCache.getLong`, `ColumnCache.getDouble` — reads.
-/

namespace Columnar

/-! ### Open caches -/

/-- The contents of an open cache. -/
structure OpenCache where
  lists : List FlatList
  /-- One bit per chunk, set once it is copied. -/
  populated : Bitmap
  /-- One bit per position, set once its chunk is copied. -/
  filled : Bitmap

namespace OpenCache

def isPopulated (o : OpenCache) (chunkId : Nat) : Bool :=
  decide (chunkId < o.populated.length) && o.populated.bit chunkId

def isFilled (o : OpenCache) (position : Nat) : Bool :=
  decide (position < o.filled.length) && o.filled.bit position

/-- Checks that a chunk may be copied to the positions from `base` on, and
gives the position after its last row. -/
def clearance (o : OpenCache) (chunkId : Nat) (chunk : Chunk) (base : Nat) : Result Nat := do
  Result.require (chunkId < o.populated.length) (.notCached chunkId)
  Result.require (!o.populated.bit chunkId) (.populatedTwice chunkId)
  let stop ← Size.add base chunk.positionCount
  Result.require (stop ≤ o.filled.length) (.endsPastCache chunkId stop o.filled.length)
  return stop

/-- Records that a chunk was copied to a range of positions. -/
def mark (o : OpenCache) (chunkId base stop : Nat) : OpenCache :=
  { o with
    populated := o.populated.put chunkId true
    filled := o.filled.putRange base stop }

/-- Copies a chunk to the positions from `base` on.  The copy is recorded only
when all of it succeeded; until then the lists may hold part of it at
positions that are not marked as filled. -/
def populate (o : OpenCache) (source : ListSource) (chunkId : Nat) (chunk : Chunk) (base : Nat) :
    Outcome OpenCache :=
  match o.clearance chunkId chunk base with
  | .error failure => .failed o failure
  | .ok stop =>
    ((source.fill chunk base o.lists).map fun lists => { o with lists }).andThen fun o =>
      .done (o.mark chunkId base stop)

/-- The bytes of the lists and the bitmaps. -/
def sizeInBytes (o : OpenCache) : Nat :=
  Size.total (o.lists.map FlatList.sizeInBytes) + o.populated.sizeInBytes + o.filled.sizeInBytes

end OpenCache

/-! ### Caches -/

/-- The phase a cache is in. -/
inductive CachePhase
  | unopened
  /-- The lists exist. -/
  | opened (contents : OpenCache)
  | closed

/-- The stage of a phase, which leaves out the contents. -/
def CachePhase.stage : CachePhase → CacheStage
  | unopened => .unopened
  | opened _ => .opened
  | closed => .closed

/-- Flat copies of some columns of an index. -/
structure ColumnCache where
  /-- What the lists hold. -/
  source : ListSource
  phase : CachePhase

namespace ColumnCache

/-- A cache that is not opened yet. -/
def ofSource (source : ListSource) : ColumnCache := ⟨source, .unopened⟩

def stage (c : ColumnCache) : CacheStage := c.phase.stage

def isOpen (c : ColumnCache) : Bool := c.stage == .opened

def isClosed (c : ColumnCache) : Bool := c.stage == .closed

/-- Opens a cache for a number of positions and chunks.  It stays unopened if
its lists would be too long; the bitmaps are always shorter. -/
def openFor (c : ColumnCache) (positions chunks : Nat) : Outcome ColumnCache :=
  match c.phase with
  | .unopened =>
    match c.source.lists positions with
    | .error failure => .failed c failure
    | .ok lists =>
      let contents := ⟨lists, .clear chunks, .clear positions⟩
      .reporting { c with phase := .opened contents } (.cacheOpened lists.length positions chunks)
  | .opened _ => .failed c (.misused .alreadyOpen)
  | .closed => .failed c (.misused .reopened)

def populate (c : ColumnCache) (chunkId : Nat) (chunk : Chunk) (base : Nat) :
    Outcome ColumnCache :=
  match c.phase with
  | .opened contents =>
    (contents.populate c.source chunkId chunk base).map fun contents =>
      { c with phase := .opened contents }
  | _ => .failed c (.misused (.populatedWhile c.stage))

/-- Gives the lists up.  Closing again changes nothing. -/
def close (c : ColumnCache) : Outcome ColumnCache :=
  let closed := { c with phase := .closed }
  match c.phase with
  | .opened contents => .reporting closed (.cacheClosed contents.lists.length)
  | _ => .done closed

def isPopulated (c : ColumnCache) (chunkId : Nat) : Bool :=
  match c.phase with
  | .opened contents => contents.isPopulated chunkId
  | _ => false

def populatedChunks (c : ColumnCache) : Nat :=
  match c.phase with
  | .opened contents => contents.populated.ones
  | _ => 0

/-- The bytes the cache takes, or would take if it were opened now for the
given number of positions; none once it is closed. -/
def sizeInBytes (c : ColumnCache) (positions : Nat) : Result Nat :=
  match c.phase with
  | .unopened => c.source.estimatedSize positions
  | .opened contents => .ok contents.sizeInBytes
  | .closed => .ok 0

/-! ### Reading -/

/-- The list for a column, given that the position may be read. -/
def listAt (c : ColumnCache) (column position : Nat) : Result FlatList :=
  match c.phase with
  | .opened contents => do
    Result.require (contents.isFilled position) (.notPopulated position)
    Result.nth contents.lists column
  | _ => Result.misuse (.readWhile c.stage)

/-- The 32-bit integer of a list at a position. -/
def getInt (c : ColumnCache) (column position : Nat) : Result Int32 := do
  (← c.listAt column position).getInt position

/-- The integer of a list at a position, of either width. -/
def getLong (c : ColumnCache) (column position : Nat) : Result Int64 := do
  (← c.listAt column position).getLong position

/-- The double of a list at a position. -/
def getDouble (c : ColumnCache) (column position : Nat) : Result Double := do
  (← c.listAt column position).getDouble position

end ColumnCache

end Columnar
