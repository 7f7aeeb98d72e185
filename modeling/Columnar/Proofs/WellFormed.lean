import Columnar.Index.Growth
import Columnar.Proofs.OffsetTable

/-!
# Well-formed indices

What is true of the tables of an index at any time: the offsets are the partial
sums of the numbers of rows, there are no more chunks than can be addressed, and
no chunk is larger than the index accepts.  Together these bound the number of
positions by `2 ^ 63`, so that no sum formed while an index grows leaves the
range of sizes.

An index changes its tables only by growing, and all that matters of a growth
is which chunks it adds: the offsets follow from them.

## Main definitions

* `RowIndex.rowCounts`, `RowIndex.rowsBefore` — the rows of each chunk, and those
  before it.
* `RowIndex.WellFormed` — the invariant.
* `RowIndex.Grown` — one index is another with chunks added.

## Main results

* `RowIndex.WellFormed.total_add_lt` — the positions of chunks that fit can be
  counted.
* `RowIndex.grown_of_tables` — adding chunks within the limits keeps the invariant.
-/

namespace Columnar.RowIndex

/-! ### Rows of chunks -/

/-- The numbers of rows of the chunks, in order. -/
def rowCounts (x : RowIndex) : List Nat := x.chunks.items.toList.map (·.chunk.positionCount)

/-- The number of rows in the chunks before the one with the given id. -/
def rowsBefore (x : RowIndex) (chunkId : Nat) : Nat := Size.total (x.rowCounts.take chunkId)

@[simp] theorem length_rowCounts (x : RowIndex) : x.rowCounts.length = x.chunkCount := by
  simp [rowCounts, chunkCount, Buffer.size]

theorem getElem?_rowCounts (x : RowIndex) (i : Nat) :
    x.rowCounts[i]? = x.chunks.items[i]?.map (·.chunk.positionCount) := by
  simp [rowCounts]

/-- The invariant of the tables of an index. -/
structure WellFormed (x : RowIndex) : Prop where
  /-- The offsets are the partial sums of the numbers of rows. -/
  offsets_eq : x.offsets.items.toList = offsetTable 0 x.rowCounts
  /-- The chunk ids fit their field of an address. -/
  chunkCount_le : x.chunkCount ≤ Limits.maxChunks
  /-- No chunk is larger than the index accepts. -/
  rowCount_le : ∀ n ∈ x.rowCounts, n ≤ x.maxChunkRows
  /-- The index accepts no chunk that is too large to be addressed. -/
  maxChunkRows_le : x.maxChunkRows ≤ Limits.maxChunkRows

namespace WellFormed

variable {x : RowIndex}

theorem positionCount_eq (hx : x.WellFormed) : x.positionCount = Size.total x.rowCounts := by
  unfold positionCount
  rw [← Array.getLast?_toList, hx.offsets_eq, getLast?_offsetTable]
  simp

theorem chunkOffset_eq (hx : x.WellFormed) {i : Nat} (h : i ≤ x.chunkCount) :
    x.chunkOffset i = .ok (x.rowsBefore i) := by
  unfold chunkOffset rowsBefore
  rw [Result.element_eq_ok_iff, ← Array.getElem?_toList, hx.offsets_eq,
    getElem?_offsetTable (by simpa using h), Nat.zero_add]

/-- **There is room for more chunks that fit in number and size**, as far as the
number of positions is concerned. -/
theorem total_add_lt (hx : x.WellFormed) (counts : List Nat)
    (hcount : x.chunkCount + counts.length ≤ Limits.maxChunks + 1)
    (hrows : ∀ n ∈ counts, n ≤ x.maxChunkRows) :
    x.positionCount + Size.total counts < Size.limit := by
  have hall : ∀ n ∈ x.rowCounts ++ counts, n ≤ Limits.maxChunkRows := by
    intro n hn
    rcases List.mem_append.1 hn with hn | hn
    · exact Nat.le_trans (hx.rowCount_le n hn) hx.maxChunkRows_le
    · exact Nat.le_trans (hrows n hn) hx.maxChunkRows_le
  have hsum := Size.total_le_length_mul hall
  rw [Size.total_append, ← hx.positionCount_eq, List.length_append, length_rowCounts] at hsum
  have hbound : (x.chunkCount + counts.length) * Limits.maxChunkRows ≤
      (Limits.maxChunks + 1) * Limits.maxChunkRows := Nat.mul_le_mul_right _ hcount
  have hlimit : (Limits.maxChunks + 1) * Limits.maxChunkRows < Size.limit := by decide
  omega

/-- There is room for one chunk more. -/
theorem positionCount_add_lt (hx : x.WellFormed) {rows : Nat} (h : rows ≤ x.maxChunkRows) :
    x.positionCount + rows < Size.limit := by
  have hsum := hx.total_add_lt [rows] (Nat.succ_le_succ hx.chunkCount_le)
    (by simpa using h)
  simpa using hsum

end WellFormed

/-- **When options make an index**: the largest chunk has a row and can be addressed,
and there is room for the offsets. -/
theorem ofOptions_eq_ok_iff {options : IndexOptions} {x : RowIndex} :
    ofOptions options = .ok x ↔
      (0 < options.maxChunkRows ∧ options.maxChunkRows ≤ Limits.maxChunkRows) ∧
        (options.chunkCapacity + 1) * 8 < Size.arrayLimit ∧ x = ofValidOptions options := by
  unfold ofOptions
  simp only [Result.bind_eq_ok_iff, Size.room_eq_ok_iff, Size.add_eq_ok_iff,
    IndexOptions.validate_eq_ok_iff]
  constructor
  · rintro ⟨_, hvalid, _, ⟨-, rfl⟩, _, hroom, hx⟩
    exact ⟨hvalid, hroom, (Except.ok.inj hx).symm⟩
  · rintro ⟨hvalid, hroom, rfl⟩
    exact ⟨(), hvalid, _, ⟨Size.lt_limit_of_room hroom, rfl⟩, (), hroom, rfl⟩

/-- Options that are accepted make the index they would make unchecked. -/
theorem eq_of_ofOptions {options : IndexOptions} {x : RowIndex} (h : ofOptions options = .ok x) :
    x = ofValidOptions options :=
  (ofOptions_eq_ok_iff.1 h).2.2

/-- An index that was just made is well-formed. -/
theorem wellFormed_ofOptions {options : IndexOptions} {x : RowIndex}
    (h : ofOptions options = .ok x) : x.WellFormed := by
  obtain ⟨⟨-, hrows⟩, -, rfl⟩ := ofOptions_eq_ok_iff.1 h
  exact {
    offsets_eq := rfl
    chunkCount_le := Nat.zero_le _
    rowCount_le := by simp [rowCounts, ofValidOptions]
    maxChunkRows_le := hrows }

/-! ### Growing -/

/-- `x.Grown added y` says that `y` is `x` with some chunks added at the end. -/
structure Grown (x : RowIndex) (added : List SharedChunk) (y : RowIndex) : Prop where
  /-- The chunks are the old ones and then those added. -/
  chunks_eq : y.chunks.items.toList = x.chunks.items.toList ++ added
  wellFormed : y.WellFormed
  maxChunkRows_eq : y.maxChunkRows = x.maxChunkRows
  cache_eq : y.cache? = x.cache?

namespace Grown

variable {x y z : RowIndex} {added more : List SharedChunk}

theorem refl (hx : x.WellFormed) : x.Grown [] x := ⟨by simp, hx, rfl, rfl⟩

theorem trans (h : x.Grown added y) (h' : y.Grown more z) : x.Grown (added ++ more) z where
  chunks_eq := by rw [h'.chunks_eq, h.chunks_eq, List.append_assoc]
  wellFormed := h'.wellFormed
  maxChunkRows_eq := h'.maxChunkRows_eq.trans h.maxChunkRows_eq
  cache_eq := h'.cache_eq.trans h.cache_eq

theorem rowCounts_eq (h : x.Grown added y) :
    y.rowCounts = x.rowCounts ++ added.map (·.chunk.positionCount) := by
  rw [rowCounts, h.chunks_eq, List.map_append, rowCounts]

theorem chunkCount_eq (h : x.Grown added y) : y.chunkCount = x.chunkCount + added.length := by
  rw [← length_rowCounts, h.rowCounts_eq, List.length_append, length_rowCounts, List.length_map]

theorem positionCount_eq (h : x.Grown added y) (hx : x.WellFormed) :
    y.positionCount = x.positionCount + Size.total (added.map (·.chunk.positionCount)) := by
  rw [h.wellFormed.positionCount_eq, hx.positionCount_eq, h.rowCounts_eq, Size.total_append]

theorem hasOpenCache_eq (h : x.Grown added y) : y.hasOpenCache = x.hasOpenCache := by
  rw [hasOpenCache, h.cache_eq, hasOpenCache]

/-- Two indices grown from one by the same chunks have the same tables. -/
theorem tables_eq (h : x.Grown added y) (h' : x.Grown added z) :
    y.chunks.items = z.chunks.items ∧ y.offsets.items = z.offsets.items := by
  have hchunks : y.chunks.items.toList = z.chunks.items.toList := by
    rw [h.chunks_eq, h'.chunks_eq]
  refine ⟨Array.toList_inj.mp hchunks, Array.toList_inj.mp ?_⟩
  rw [h.wellFormed.offsets_eq, h'.wellFormed.offsets_eq, h.rowCounts_eq, h'.rowCounts_eq]

end Grown

/-- The tables of a grown index are well-formed if the added chunks were within
the limits and the table of offsets was extended by their own. -/
theorem grown_of_tables {x y : RowIndex} {added : List SharedChunk} (hx : x.WellFormed)
    (hchunks : y.chunks.items.toList = x.chunks.items.toList ++ added)
    (hoffsets : y.offsets.items.toList = x.offsets.items.toList ++
      (offsetTable x.positionCount (added.map (·.chunk.positionCount))).drop 1)
    (hcount : x.chunkCount + added.length ≤ Limits.maxChunks)
    (hrows : ∀ shared ∈ added, shared.chunk.positionCount ≤ x.maxChunkRows)
    (hmax : y.maxChunkRows = x.maxChunkRows) (hcache : y.cache? = x.cache?) :
    x.Grown added y := by
  have hcounts : y.rowCounts = x.rowCounts ++ added.map (·.chunk.positionCount) := by
    rw [rowCounts, hchunks, List.map_append, rowCounts]
  refine ⟨hchunks, ⟨?_, ?_, ?_, ?_⟩, hmax, hcache⟩
  · rw [hoffsets, hcounts, offsetTable_append, Nat.zero_add, ← hx.positionCount_eq, hx.offsets_eq]
  · rw [← length_rowCounts, hcounts, List.length_append, length_rowCounts, List.length_map]
    exact hcount
  · intro n hn
    rw [hcounts, List.mem_append, List.mem_map] at hn
    rw [hmax]
    rcases hn with hn | ⟨shared, hshared, rfl⟩
    · exact hx.rowCount_le n hn
    · exact hrows shared hshared
  · rw [hmax]
    exact hx.maxChunkRows_le

end Columnar.RowIndex
