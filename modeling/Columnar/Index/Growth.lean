import Columnar.Index.Basic

/-!
# Growing an index

An index grows by single chunks or by all chunks of other indices at once.
Both are forbidden while its cache is open, since the cache is laid out for a
fixed number of positions.

A merge is checked as a whole before anything is taken over: each chunk of each
index that has a position is held against the limits of the growing index,
under the id it would get.  An index without positions contributes nothing, not
even its empty chunks.

## Main definitions

* `RowIndex.append` — adds one chunk at the end.
* `RowIndex.merge` — adds the chunks of other indices.
-/

namespace Columnar.RowIndex

/-- Checks that a chunk with so many rows may get the given id. -/
def checkChunk (x : RowIndex) (chunkId rows : Nat) : Result Unit := do
  if Limits.maxChunks ≤ chunkId then
    Result.refuse (.tooManyChunks (← Size.add chunkId 1) Limits.maxChunks)
  if x.maxChunkRows < rows then
    Result.refuse (.chunkTooLarge rows x.maxChunkRows)

/-- Adds a chunk after all others. -/
def append (x : RowIndex) (shared : SharedChunk) : Result RowIndex := do
  x.requireCacheNotOpen .append
  x.checkChunk x.chunkCount shared.chunk.positionCount
  let stop ← Size.add x.positionCount shared.chunk.positionCount
  return { x with chunks := x.chunks.push shared, offsets := x.offsets.push stop }

/-! ### Merging -/

/-- The chunks that some indices contribute to a merge. -/
def contribution (sources : List RowIndex) : List SharedChunk :=
  (sources.filter fun source => 0 < source.positionCount).flatMap (·.chunks.items.toList)

/-- Checks chunks that would get consecutive ids. -/
def checkChunks (x : RowIndex) (chunkId : Nat) : List SharedChunk → Result Unit
  | [] => .ok ()
  | shared :: rest => do
    x.checkChunk chunkId shared.chunk.positionCount
    x.checkChunks (← Size.add chunkId 1) rest

/-- Takes over the chunks of another index, with its offsets moved up by the
number of positions there are already.  Its cache stays behind. -/
def takeOver (x source : RowIndex) : Outcome RowIndex :=
  if source.positionCount = 0 then .done x
  else
    let notices := if source.hasOpenCache then [Notice.cacheLeftBehind] else []
    let taken := { x with chunks := x.chunks.append source.chunks.items }
    let moved := (source.offsets.items.toList.drop 1).mapM (Size.add · x.positionCount)
    match moved with
    | .error failure => ⟨taken, .error failure, notices⟩
    | .ok moved => ⟨{ taken with offsets := x.offsets.append moved.toArray }, .ok (), notices⟩

/-- Takes over the chunks of several indices in order. -/
def takeOverAll (x : RowIndex) : List RowIndex → Outcome RowIndex
  | [] => .done x
  | source :: rest => (x.takeOver source).andThen fun x => x.takeOverAll rest

/-- Adds the chunks of the given indices in order, or, if one of them cannot be
added, none. -/
def merge (x : RowIndex) (sources : List RowIndex) : Outcome RowIndex :=
  let checked := do
    x.requireCacheNotOpen .merge
    x.checkChunks x.chunkCount (contribution sources)
  match checked with
  | .error failure => .failed x failure
  | .ok () =>
    let contributing := sources.countP fun source => 0 < source.positionCount
    (x.takeOverAll sources).andThen fun x =>
      .reporting x (.merged contributing sources.length x.chunkCount x.positionCount)

end Columnar.RowIndex
