import Columnar.Proofs.Locate

/-!
# The rows of an index in order

The rows of all chunks, one chunk after the other, form one sequence.  The rows
of a chunk stand in it from the position on at which the chunk begins, and a
chunk without rows leaves no trace.

## Main definitions

* `startOf` — the position at which a chunk begins.
* `Chunk.rows`, `RowIndex.rowSequence` — the rows of a chunk, and of an index.

## Main results

* `RowIndex.getElem?_rowSequence` — **a row stands at the position of its location.**
-/

namespace Columnar

/-! ### Where chunks begin -/

/-- The position at which a chunk of a list begins. -/
def startOf (chunks : List SharedChunk) (chunkId : Nat) : Nat :=
  Size.total ((chunks.map (·.chunk.positionCount)).take chunkId)

theorem startOf_length (chunks : List SharedChunk) :
    startOf chunks chunks.length = Size.total (chunks.map (·.chunk.positionCount)) := by
  rw [startOf, List.take_of_length_le (by simp)]

theorem RowIndex.startOf_chunks (x : RowIndex) (chunkId : Nat) :
    startOf x.chunks.items.toList chunkId = x.rowsBefore chunkId := rfl

/-- After the last chunk all rows have been counted. -/
theorem RowIndex.WellFormed.startOf_length {x : RowIndex} (hx : x.WellFormed) :
    startOf x.chunks.items.toList x.chunks.items.toList.length = x.positionCount := by
  rw [Columnar.startOf_length, hx.positionCount_eq]
  rfl

/-- A chunk ends no later than the last one. -/
theorem startOf_add_le {chunks : List SharedChunk} {chunkId : Nat} {shared : SharedChunk}
    (hshared : chunks[chunkId]? = some shared) :
    startOf chunks chunkId + shared.chunk.positionCount ≤ startOf chunks chunks.length := by
  have hid : chunkId < chunks.length := (List.getElem?_eq_some_iff.1 hshared).1
  refine Size.total_take_add_le ?_ hid
  rw [List.getElem?_map, hshared]
  rfl

/-- No position lies in two chunks. -/
theorem startOf_unique {chunks : List SharedChunk} {c d p : Nat} {a b : SharedChunk}
    (hc : chunks[c]? = some a) (hd : chunks[d]? = some b)
    (hpc : startOf chunks c ≤ p ∧ p < startOf chunks c + a.chunk.positionCount)
    (hpd : startOf chunks d ≤ p ∧ p < startOf chunks d + b.chunk.positionCount) : c = d := by
  have hrows : ∀ {i : Nat} {shared : SharedChunk}, chunks[i]? = some shared →
      (chunks.map (·.chunk.positionCount))[i]? = some shared.chunk.positionCount := by
    intro i shared h
    rw [List.getElem?_map, h]
    rfl
  exact Size.take_le_lt_unique (hrows hc) (hrows hd) hpc.1 hpc.2 hpd.1 hpd.2

/-! ### Rows -/

/-- The rows of a chunk, in order. -/
def Chunk.rows (c : Chunk) : List Row := (List.range c.positionCount).map fun i => ⟨c, i⟩

@[simp] theorem Chunk.length_rows (c : Chunk) : c.rows.length = c.positionCount := by
  simp [rows]

theorem Chunk.getElem?_rows {c : Chunk} {i : Nat} (hi : i < c.positionCount) :
    c.rows[i]? = some ⟨c, i⟩ := by
  simp [rows, hi]

theorem length_flatMap_rows (chunks : List SharedChunk) :
    (chunks.flatMap (·.chunk.rows)).length = Size.total (chunks.map (·.chunk.positionCount)) := by
  induction chunks with
  | nil => rfl
  | cons shared rest ih =>
    rw [List.flatMap_cons, List.length_append, Chunk.length_rows, ih]
    rfl

/-- The rows of a chunk stand one after the other from where it begins. -/
theorem getElem?_flatMap_rows {chunks : List SharedChunk} {shared : SharedChunk} {i : Nat}
    (hi : i < shared.chunk.positionCount) : ∀ {chunkId : Nat}, chunks[chunkId]? = some shared →
      (chunks.flatMap (·.chunk.rows))[startOf chunks chunkId + i]? = some ⟨shared.chunk, i⟩ := by
  induction chunks with
  | nil => intro chunkId h; simp at h
  | cons first rest ih =>
    intro chunkId h
    rw [List.flatMap_cons]
    cases chunkId with
    | zero =>
      obtain rfl : first = shared := by simpa using h
      have hstart : startOf (first :: rest) 0 + i = i := Nat.zero_add i
      rw [hstart, List.getElem?_append_left (by simpa using hi)]
      exact Chunk.getElem?_rows hi
    | succ chunkId =>
      -- The rows of the first chunk are passed over.
      rw [List.getElem?_cons_succ] at h
      have hstart : startOf (first :: rest) (chunkId + 1) + i =
          first.chunk.rows.length + (startOf rest chunkId + i) := by
        rw [Chunk.length_rows, ← Nat.add_assoc]
        rfl
      rw [hstart, List.getElem?_append_right (Nat.le_add_right _ _), Nat.add_sub_cancel_left]
      exact ih h

namespace RowIndex

variable {x : RowIndex}

/-- The rows of all chunks, in the order in which the chunks were added. -/
def rowSequence (x : RowIndex) : List Row := x.chunks.items.toList.flatMap (·.chunk.rows)

theorem length_rowSequence (hx : x.WellFormed) : x.rowSequence.length = x.positionCount := by
  rw [rowSequence, length_flatMap_rows, hx.positionCount_eq]
  rfl

/-- **A row stands at the position of its location.** -/
theorem getElem?_rowSequence (hx : x.WellFormed) {p : Nat} {l : Location} {shared : SharedChunk}
    (hl : x.locate p = .ok l) (hshared : x.chunk l.chunkId = .ok shared) :
    x.rowSequence[p]? = some ⟨shared.chunk, l.offset⟩ := by
  obtain ⟨⟨owner, howner, hoffset⟩, rfl⟩ := (locate_eq_ok_iff hx).1 hl
  rw [Result.element_eq_ok_iff.1 hshared] at howner
  cases howner
  rw [positionOf, ← startOf_chunks]
  refine getElem?_flatMap_rows hoffset ?_
  rw [Array.getElem?_toList]
  exact Result.element_eq_ok_iff.1 hshared

end RowIndex

end Columnar
