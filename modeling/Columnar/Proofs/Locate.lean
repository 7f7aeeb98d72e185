import Columnar.Index.Locate
import Columnar.Proofs.WellFormed

/-!
# Where rows are

The rows of an index are its locations: a chunk id and a place in that chunk.
Counting all rows in the order of their chunks gives each location a position,
and the binary search in the table of offsets is the inverse of this count.

## Main definitions

* `RowIndex.Holds` — the locations of an index.
* `RowIndex.positionOf` — the number of rows before a location.

## Main results

* `RowIndex.locate_eq_ok_iff` — what the search finds is the location whose
  position was asked for.
* `RowIndex.exists_locate_iff` — it finds something for the positions there are.
-/

namespace Columnar.RowIndex

/-- The index has a row at the location. -/
def Holds (x : RowIndex) (l : Location) : Prop :=
  ∃ shared, x.chunks.items[l.chunkId]? = some shared ∧ l.offset < shared.chunk.positionCount

/-- The number of rows before a location. -/
def positionOf (x : RowIndex) (l : Location) : Nat := x.rowsBefore l.chunkId + l.offset

theorem holds_iff {x : RowIndex} {l : Location} :
    x.Holds l ↔ ∃ n, x.rowCounts[l.chunkId]? = some n ∧ l.offset < n := by
  simp only [Holds, getElem?_rowCounts, Option.map_eq_some_iff]
  constructor
  · rintro ⟨shared, hshared, hlt⟩
    exact ⟨_, ⟨shared, hshared, rfl⟩, hlt⟩
  · rintro ⟨_, ⟨shared, hshared, rfl⟩, hlt⟩
    exact ⟨shared, hshared, hlt⟩

namespace Holds

variable {x : RowIndex} {l : Location}

theorem chunkId_lt (h : x.Holds l) : l.chunkId < x.chunkCount := by
  obtain ⟨shared, hshared, -⟩ := h
  obtain ⟨hlt, -⟩ := Array.getElem?_eq_some_iff.1 hshared
  exact hlt

/-- The rows before the next chunk are more than those before the location. -/
theorem positionOf_lt (h : x.Holds l) : x.positionOf l < x.rowsBefore (l.chunkId + 1) := by
  obtain ⟨n, hn, hlt⟩ := holds_iff.1 h
  rw [positionOf, rowsBefore, rowsBefore, Size.total_take_succ hn]
  omega

theorem positionOf_lt_positionCount (h : x.Holds l) (hx : x.WellFormed) :
    x.positionOf l < x.positionCount := by
  rw [hx.positionCount_eq]
  exact Nat.lt_of_lt_of_le h.positionOf_lt (Size.total_take_le_total ..)

end Holds

/-! ### The search -/

variable {x : RowIndex}

/-- The entries of the table that the search counts are those of the chunks that
do not begin after the position. -/
theorem lt_partitionPoint_offsets_iff (hx : x.WellFormed) (p : Nat) {i : Nat}
    (hi : i ≤ x.chunkCount) :
    i < partitionPoint x.offsets.items (· ≤ p) ↔ x.rowsBefore i ≤ p := by
  have hsize : x.offsets.items.size = x.chunkCount + 1 := by
    rw [← Array.length_toList, hx.offsets_eq, length_offsetTable, length_rowCounts]
  have hentry : ∀ j, (hj : j < x.offsets.items.size) → x.offsets.items[j] = x.rowsBefore j := by
    intro j hj
    have h := hx.chunkOffset_eq (i := j) (by omega)
    rw [chunkOffset, Result.element_eq_ok_iff, Array.getElem?_eq_getElem hj] at h
    exact Option.some.inj h
  -- The search is only right for a table that is sorted.
  rw [lt_partitionPoint_iff x.offsets.items (· ≤ p) ?_ i (by omega), hentry]
  · exact decide_eq_true_iff
  · intro j k hk hjk hle
    rw [hentry, decide_eq_true_iff] at hle ⊢
    exact Nat.le_trans (Size.total_take_le_total_take _ hjk) hle

/-- The search finds the location whose position is looked up. -/
theorem locate_positionOf (hx : x.WellFormed) {l : Location} (h : x.Holds l) :
    x.locate (x.positionOf l) = .ok l := by
  have hid := h.chunkId_lt
  -- The search counts the entries up to that of the chunk, and not the next one,
  -- however many entries are equal to it.
  have hbegin : l.chunkId < partitionPoint x.offsets.items (· ≤ x.positionOf l) :=
    (lt_partitionPoint_offsets_iff hx _ (by omega)).2 (Nat.le_add_right _ _)
  have hend : ¬ l.chunkId + 1 < partitionPoint x.offsets.items (· ≤ x.positionOf l) := by
    rw [lt_partitionPoint_offsets_iff hx _ (by omega), Nat.not_le]
    exact h.positionOf_lt
  have hpoint : partitionPoint x.offsets.items (· ≤ x.positionOf l) - 1 = l.chunkId := by omega
  have hcount : decide (x.positionOf l < x.positionCount) = true :=
    decide_eq_true (h.positionOf_lt_positionCount hx)
  have hstart : x.chunkOffset l.chunkId = .ok (x.rowsBefore l.chunkId) :=
    hx.chunkOffset_eq (by omega)
  have hoffset : x.positionOf l - x.rowsBefore l.chunkId = l.offset := by
    rw [positionOf, Nat.add_sub_cancel_left]
  unfold locate
  simp only [Result.bind_eq_ok_iff, Result.require_eq_ok_iff, hpoint]
  refine ⟨(), hcount, _, hstart, ?_⟩
  rw [hoffset]
  rfl

/-- Every position is that of a row. -/
theorem exists_positionOf_eq (hx : x.WellFormed) {p : Nat} (h : p < x.positionCount) :
    ∃ l, x.Holds l ∧ x.positionOf l = p := by
  rw [hx.positionCount_eq] at h
  obtain ⟨i, n, hn, hle, hlt⟩ := Size.exists_take_le_lt x.rowCounts h
  refine ⟨⟨i, p - x.rowsBefore i⟩, holds_iff.2 ⟨n, hn, ?_⟩, ?_⟩
  · show p - Size.total (x.rowCounts.take i) < n
    omega
  · show Size.total (x.rowCounts.take i) + (p - Size.total (x.rowCounts.take i)) = p
    omega

/-- A position past the end is not located. -/
theorem locate_of_le {p : Nat} (h : x.positionCount ≤ p) :
    x.locate p = .error (.misused (.positionOutOfRange p x.positionCount)) := by
  unfold locate
  rw [Result.require_eq_error_iff.2 ⟨decide_eq_false (Nat.not_lt_of_le h), rfl⟩]
  rfl

/-- **The search and the count of rows are inverse to each other.** -/
theorem locate_eq_ok_iff (hx : x.WellFormed) {p : Nat} {l : Location} :
    x.locate p = .ok l ↔ x.Holds l ∧ x.positionOf l = p := by
  constructor
  · intro h
    rcases Nat.lt_or_ge p x.positionCount with hp | hp
    · obtain ⟨m, hm, rfl⟩ := exists_positionOf_eq hx hp
      rw [locate_positionOf hx hm] at h
      cases h
      exact ⟨hm, rfl⟩
    · rw [locate_of_le hp] at h
      cases h
  · rintro ⟨h, rfl⟩
    exact locate_positionOf hx h

/-- The search finds something for the positions there are, and for no others. -/
theorem exists_locate_iff (hx : x.WellFormed) {p : Nat} :
    (∃ l, x.locate p = .ok l) ↔ p < x.positionCount := by
  constructor
  · rintro ⟨l, h⟩
    obtain ⟨hl, rfl⟩ := (locate_eq_ok_iff hx).1 h
    exact hl.positionOf_lt_positionCount hx
  · intro h
    obtain ⟨l, hl, rfl⟩ := exists_positionOf_eq hx h
    exact ⟨l, locate_positionOf hx hl⟩

end Columnar.RowIndex
