import Columnar.Cache.Source

/-!
# Row sums

A list source with a single list of 64-bit integers, which holds for each row
the sum of some integer columns, modulo `2 ^ 64`.

## Main definitions

* `RowSum` — the columns to be added up.
* `RowSum.source` — the list source.
-/

namespace Columnar

/-- A choice of columns to be added up row by row. -/
structure RowSum where
  columns : List Nat
  deriving DecidableEq, Repr

namespace RowSum

/-- The sum over the columns in one row of a chunk. -/
def rowTotal (s : RowSum) (chunk : Chunk) (row : Nat) : Result Int64 :=
  s.columns.foldlM (fun total column => do
    return total + (← (← chunk.block column).getLong row)) 0

/-- The sums of all rows in order, up to the first that cannot be formed. -/
def totals (s : RowSum) (chunk : Chunk) : Outcome (Array Int64) :=
  (List.range chunk.positionCount).foldl
    (fun before row => before.andThen fun sums =>
      match s.rowTotal chunk row with
      | .error failure => .failed sums failure
      | .ok total => .done (sums.push total))
    (.done #[])

/-- Stores the sums of the rows that come before the first failure. -/
def fillRows (s : RowSum) (chunk : Chunk) (base : Nat) (lists : List FlatList) :
    Outcome (List FlatList) :=
  let sums := s.totals chunk
  match lists with
  | .long xs :: rest =>
    match FlatList.overwrite xs base sums.state with
    | .error failure => .failed lists failure
    | .ok xs => sums.map fun _ => .long xs :: rest
  | _ => .failed lists .outOfBounds

/-- The source with the one list of sums. -/
def source (s : RowSum) : ListSource where
  estimatedSize positions := Size.mul ListKind.long.elementSize positions
  lists positions := return [← FlatList.ofLength .long positions]
  fill := s.fillRows

end RowSum

end Columnar
