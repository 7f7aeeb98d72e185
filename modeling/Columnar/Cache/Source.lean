import Columnar.Chunk.Basic
import Columnar.FlatList
import Columnar.Outcome

/-!
# List sources

What a cache holds is decided by a list source: how many lists there are, of
which kinds, and what a chunk contributes to them.  A source is given by its
three functions, so that a caller can bring one of its own.

## Main definitions

* `ListSource` — the three functions.
-/

namespace Columnar

/-- A rule for laying the rows of chunks out in flat lists. -/
structure ListSource where
  /-- The bytes of the lists for a number of positions. -/
  estimatedSize : Nat → Result Nat
  /-- The lists for a number of positions, before any chunk is copied, if lists
  can be that long. -/
  lists : Nat → Result (List FlatList)
  /-- Copies a chunk into the lists, its first row going to the given
  position. -/
  fill : Chunk → Nat → List FlatList → Outcome (List FlatList)

end Columnar
