import Columnar.Block.Builder
import Columnar.Chunk.Basic
import Columnar.Outcome

/-!
# Chunk builders

A chunk builder takes rows one at a time and hands each value to the builder of
its column.  A row of the wrong length is turned away whole.  A value of the
wrong type stops the row where it stands: the columns before it have taken
their values by then, and keep them.

## Main definitions

* `ChunkBuilder` — one block builder per column.
* `ChunkBuilder.ofTypes`, `ChunkBuilder.withCapacity` — a builder without rows.
* `ChunkBuilder.appendRow` — adds a row.
* `ChunkBuilder.build` — the finished chunk.
-/

namespace Columnar

/-- A chunk under construction. -/
structure ChunkBuilder where
  /-- The columns so far. -/
  builders : List BlockBuilder

namespace ChunkBuilder

/-- A builder for the given column types, with room for the given number of
rows, if every column can have that room. -/
def withCapacity (types : List DataType) (capacity : Nat) : Result ChunkBuilder :=
  ChunkBuilder.mk <$> types.mapM (BlockBuilder.withCapacity · capacity)

/-- A builder for the given column types, without room set aside. -/
def ofTypes (types : List DataType) : ChunkBuilder :=
  ⟨types.map fun type => .blank type 0⟩

/-- The number of positions of the first column. -/
def positionCount (c : ChunkBuilder) : Nat :=
  match c.builders with
  | [] => 0
  | builder :: _ => builder.positionCount

/-- Hands values to columns in order, up to the first that does not fit. -/
def appendCells : List BlockBuilder → List Value → Outcome (List BlockBuilder)
  | builder :: builders, value :: values =>
    match builder.check value with
    | .error failure => .failed (builder :: builders) failure
    | .ok () => (appendCells builders values).map (builder.push value :: ·)
  | builders, _ => .done builders

/-- Adds a row with one value for each column. -/
def appendRow (c : ChunkBuilder) (row : List Value) : Outcome ChunkBuilder :=
  if row.length = c.builders.length then
    (appendCells c.builders row).map ChunkBuilder.mk
  else .failed c (.misused (.rowLength row.length c.builders.length))

/-- Adds rows in order, up to the first that does not fit. -/
def appendRows (c : ChunkBuilder) (rows : List (List Value)) : Outcome ChunkBuilder :=
  rows.foldl (fun before row => before.andThen (·.appendRow row)) (.done c)

/-- The finished chunk, as long as its first column. -/
def build (c : ChunkBuilder) : Chunk := ⟨c.builders.map BlockBuilder.build, c.positionCount⟩

end ChunkBuilder

end Columnar
