import Columnar.Index.Cached
import Columnar.Index.Growth

/-!
# Operations on an index

The changes an index can undergo, as data.  A run applies operations one after
the other and goes on after a failure with whatever state it left.

## Main definitions

* `Operation` — one change.
* `RowIndex.apply` — what an operation does.
* `RowIndex.run` — what a sequence of operations does.
* `Reachable` — the indices that operations can produce.
-/

namespace Columnar

/-- A change of an index. -/
inductive Operation
  | append (shared : SharedChunk)
  | merge (sources : List RowIndex)
  | setSource (source : ListSource)
  | openCache
  | populate (chunkId : Nat)
  | closeCache

namespace RowIndex

/-- What an operation does to an index. -/
def apply (x : RowIndex) : Operation → Outcome RowIndex
  | .append shared => .ofResult x (x.append shared)
  | .merge sources => x.merge sources
  | .setSource source => .ofResult x (x.setSource source)
  | .openCache => x.openCache
  | .populate chunkId => x.populateCache chunkId
  | .closeCache => x.closeCache

/-- Applies operations in order, whether they succeed or not, and gives the
outcome of each. -/
def run (x : RowIndex) : List Operation → RowIndex × List (Outcome RowIndex)
  | [] => (x, [])
  | operation :: rest =>
    let outcome := x.apply operation
    let (last, outcomes) := outcome.state.run rest
    (last, outcome :: outcomes)

end RowIndex

/-- The indices that come about from options that are valid, by operations that
succeed or fail, merging indices that came about in the same way. -/
inductive Reachable : RowIndex → Prop
  /-- A new index. -/
  | start {options : IndexOptions} {x : RowIndex} :
      RowIndex.ofOptions options = .ok x → Reachable x
  /-- An index after an operation that merges nothing. -/
  | step {x : RowIndex} {operation : Operation} :
      Reachable x → (∀ sources, operation ≠ .merge sources) →
        Reachable (x.apply operation).state
  /-- An index after a merge. -/
  | merge {x : RowIndex} {sources : List RowIndex} :
      Reachable x → (∀ source ∈ sources, Reachable source) →
        Reachable (x.merge sources).state

end Columnar
