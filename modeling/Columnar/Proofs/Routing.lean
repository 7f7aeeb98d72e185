import Columnar.Index.Read
import Columnar.Proofs.Locate

/-!
# Routed reads

A read by position finds the chunk and the place in it first, and is then the
read of that chunk.  All reads of single cells are of one form, which is given
a name here.

## Main definitions

* `RowIndex.readCell` — the reads of cells of all types as one.

## Main results

* `RowIndex.readCell_eq`, `RowIndex.row_eq` and their like — what a read is once
  the position is located.
-/

namespace Columnar.RowIndex

variable {α : Type} {x : RowIndex} {p q : Nat} {l m : Location} {shared other : SharedChunk}

/-- A location that was found lies in a chunk of the index. -/
theorem exists_chunk_of_locate (hx : x.WellFormed) (hl : x.locate p = .ok l) :
    ∃ shared, x.chunk l.chunkId = .ok shared ∧ l.offset < shared.chunk.positionCount := by
  obtain ⟨⟨shared, hshared, hlt⟩, -⟩ := (locate_eq_ok_iff hx).1 hl
  exact ⟨shared, Result.element_eq_ok_iff.2 hshared, hlt⟩

/-- The reads of cells of all types as one: the block that holds a cell is read. -/
def readCell (x : RowIndex) (read : Block → Nat → Result α) (column position : Nat) : Result α := do
  let (block, offset) ← x.cell column position
  read block offset

theorem readCell_eq (hl : x.locate p = .ok l) (hshared : x.chunk l.chunkId = .ok shared)
    (read : Block → Nat → Result α) (column : Nat) :
    x.readCell read column p = (do read (← shared.chunk.block column) l.offset) := by
  unfold readCell cell
  rw [hl]
  simp only [bind, Except.bind, hshared]
  cases shared.chunk.block column <;> rfl

theorem row_eq (hl : x.locate p = .ok l) (hshared : x.chunk l.chunkId = .ok shared) :
    x.row p = shared.chunk.row l.offset := by
  unfold row
  rw [hl]
  simp only [bind, Except.bind, hshared]

theorem hashCode_eq [PayloadHash] (hl : x.locate p = .ok l)
    (hshared : x.chunk l.chunkId = .ok shared) :
    x.hashCode p = shared.chunk.hashCode l.offset := by
  unfold hashCode
  rw [hl]
  simp only [bind, Except.bind, hshared]

theorem equals_eq (hl : x.locate p = .ok l) (hshared : x.chunk l.chunkId = .ok shared)
    (hm : x.locate q = .ok m) (hother : x.chunk m.chunkId = .ok other) :
    x.equals p q = shared.chunk.equals l.offset other.chunk m.offset := by
  unfold equals
  rw [hl, hm]
  simp only [bind, Except.bind, hshared, hother]

end Columnar.RowIndex
