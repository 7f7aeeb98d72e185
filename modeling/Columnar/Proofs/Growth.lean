import Columnar.Proofs.Results
import Columnar.Proofs.WellFormed

/-!
# What growing does

Appending and merging either leave an index as it is or add chunks that fit.
Both are described by the chunks they add, so that nothing further on has to
look at how the tables are extended.

## Main results

* `RowIndex.append_grown`, `RowIndex.exists_append`, `RowIndex.append_eq_error` —
  what appending a chunk does, and when it fails.
* `RowIndex.merge_grown`, `RowIndex.merge_eq_failed`, `RowIndex.merge_of_open` — the
  same for merging.
-/

namespace Columnar.RowIndex

/-! ### Appending a chunk -/

theorem checkChunk_eq_ok_iff {x : RowIndex} {chunkId rows : Nat} :
    x.checkChunk chunkId rows = .ok () ↔ chunkId < Limits.maxChunks ∧ rows ≤ x.maxChunkRows := by
  unfold checkChunk
  by_cases hid : Limits.maxChunks ≤ chunkId
  · have hnot : ¬ chunkId < Limits.maxChunks := Nat.not_lt_of_le hid
    simp [hid, hnot, Result.bind_eq_ok_iff, Result.refuse]
  · by_cases hrows : x.maxChunkRows < rows
    · simp [hid, hrows, Nat.not_le_of_lt hrows, Result.refuse]
    · simp [hid, hrows, Nat.lt_of_not_le hid, Nat.le_of_not_lt hrows, pure, Except.pure]

theorem requireCacheNotOpen_eq_ok_iff {x : RowIndex} {call : GuardedCall} :
    x.requireCacheNotOpen call = .ok () ↔ x.hasOpenCache = false := by
  rw [requireCacheNotOpen, Result.require_eq_ok_iff, Bool.not_eq_true']

/-- An index whose cache is open turns every guarded change away. -/
theorem requireCacheNotOpen_of_open {x : RowIndex} (call : GuardedCall)
    (h : x.hasOpenCache = true) :
    x.requireCacheNotOpen call = .error (.misused (.cacheIsOpen call)) := by
  rw [requireCacheNotOpen, Result.require_eq_error_iff]
  simp [h]

/-- An append that succeeds checks the chunk and adds it. -/
theorem append_grown {x y : RowIndex} {shared : SharedChunk} (hx : x.WellFormed)
    (h : x.append shared = .ok y) : x.hasOpenCache = false ∧ x.Grown [shared] y := by
  unfold append at h
  simp only [Result.bind_eq_ok_iff] at h
  obtain ⟨_, hopen, _, hcheck, stop, hstop, hy⟩ := h
  cases hy
  obtain ⟨hid, hrows⟩ := checkChunk_eq_ok_iff.1 hcheck
  obtain ⟨-, rfl⟩ := Size.add_eq_ok_iff.1 hstop
  refine ⟨requireCacheNotOpen_eq_ok_iff.1 hopen, grown_of_tables hx ?_ ?_ hid ?_ rfl rfl⟩
  · simp
  · simp
  · simpa using hrows

/-- A chunk that passes the check can be appended. -/
theorem exists_append {x : RowIndex} {shared : SharedChunk} (hx : x.WellFormed)
    (hopen : x.hasOpenCache = false)
    (hcheck : x.checkChunk x.chunkCount shared.chunk.positionCount = .ok ()) :
    ∃ y, x.append shared = .ok y := by
  have hsum : Size.add x.positionCount shared.chunk.positionCount =
      .ok (x.positionCount + shared.chunk.positionCount) :=
    Size.add_eq_ok_iff.2 ⟨hx.positionCount_add_lt (checkChunk_eq_ok_iff.1 hcheck).2, rfl⟩
  unfold append
  rw [requireCacheNotOpen_eq_ok_iff.2 hopen, hcheck, hsum]
  exact ⟨_, rfl⟩

/-- A chunk that does not pass the check is refused for the same reason. -/
theorem append_eq_error {x : RowIndex} {shared : SharedChunk} {failure : Failure}
    (hopen : x.hasOpenCache = false)
    (hcheck : x.checkChunk x.chunkCount shared.chunk.positionCount = .error failure) :
    x.append shared = .error failure := by
  unfold append
  rw [requireCacheNotOpen_eq_ok_iff.2 hopen, hcheck]
  rfl

/-! ### Checking several chunks -/

theorem checkChunks_congr {x y : RowIndex} (h : x.maxChunkRows = y.maxChunkRows) :
    ∀ (chunks : List SharedChunk) (chunkId : Nat),
      x.checkChunks chunkId chunks = y.checkChunks chunkId chunks := by
  have hone : x.checkChunk = y.checkChunk := by
    funext chunkId rows
    unfold checkChunk
    rw [h]
  intro chunks
  induction chunks with
  | nil => intro _; rfl
  | cons shared rest ih =>
    intro chunkId
    simp only [checkChunks, hone, ih]

/-- After a chunk that passes, the next id is a size. -/
theorem checkChunks_cons {x : RowIndex} {chunkId : Nat} {shared : SharedChunk}
    {rest : List SharedChunk} (h : x.checkChunk chunkId shared.chunk.positionCount = .ok ()) :
    x.checkChunks chunkId (shared :: rest) = x.checkChunks (chunkId + 1) rest := by
  have hlt : chunkId < Limits.maxChunks := (checkChunk_eq_ok_iff.1 h).1
  have hnext : Size.add chunkId 1 = .ok (chunkId + 1) :=
    Size.add_eq_ok_iff.2 ⟨by simp only [Limits.maxChunks, Size.limit] at *; omega, rfl⟩
  rw [checkChunks, h, hnext]
  rfl

theorem checkChunks_cons_error {x : RowIndex} {chunkId : Nat} {shared : SharedChunk}
    {rest : List SharedChunk} {failure : Failure}
    (h : x.checkChunk chunkId shared.chunk.positionCount = .error failure) :
    x.checkChunks chunkId (shared :: rest) = .error failure := by
  rw [checkChunks, h]
  rfl

/-- Chunks that pass together fit, in number and each in size. -/
theorem le_of_checkChunks {x : RowIndex} :
    ∀ {chunks : List SharedChunk} {chunkId : Nat}, chunkId ≤ Limits.maxChunks →
      x.checkChunks chunkId chunks = .ok () →
        chunkId + chunks.length ≤ Limits.maxChunks ∧
          ∀ shared ∈ chunks, shared.chunk.positionCount ≤ x.maxChunkRows := by
  intro chunks
  induction chunks with
  | nil => intro chunkId hid _; exact ⟨hid, by simp⟩
  | cons shared rest ih =>
    intro chunkId hid h
    cases hone : x.checkChunk chunkId shared.chunk.positionCount with
    | error failure =>
      rw [checkChunks_cons_error hone] at h
      cases h
    | ok _ =>
      obtain ⟨hlt, hrows⟩ := checkChunk_eq_ok_iff.1 hone
      rw [checkChunks_cons hone] at h
      obtain ⟨hcount, hrest⟩ := ih (by omega) h
      refine ⟨by rw [List.length_cons]; omega, ?_⟩
      intro other hother
      rcases List.mem_cons.1 hother with rfl | hother
      · exact hrows
      · exact hrest other hother

/-! ### What sources contribute -/

theorem contribution_cons_of_eq_zero {source : RowIndex} {rest : List RowIndex}
    (h : source.positionCount = 0) : contribution (source :: rest) = contribution rest := by
  rw [contribution, List.filter_cons_of_neg (by simp [h]), contribution]

theorem contribution_cons_of_pos {source : RowIndex} {rest : List RowIndex}
    (h : 0 < source.positionCount) :
    contribution (source :: rest) = source.chunks.items.toList ++ contribution rest := by
  rw [contribution, List.filter_cons_of_pos (by simpa using h), List.flatMap_cons, contribution]

theorem contribution_append (sources more : List RowIndex) :
    contribution (sources ++ more) = contribution sources ++ contribution more := by
  simp only [contribution, List.filter_append, List.flatMap_append]

/-- The chunks that are left out have no rows. -/
theorem total_contribution {sources : List RowIndex} (h : ∀ source ∈ sources, source.WellFormed) :
    Size.total ((contribution sources).map (·.chunk.positionCount)) =
      Size.total (sources.map positionCount) := by
  induction sources with
  | nil => rfl
  | cons source rest ih =>
    have hsource : source.WellFormed := h source List.mem_cons_self
    have hrest := ih fun other hother => h other (List.mem_cons_of_mem _ hother)
    rw [List.map_cons, Size.total_cons, ← hrest]
    rcases Nat.eq_zero_or_pos source.positionCount with hzero | hpos
    · rw [contribution_cons_of_eq_zero hzero, hzero, Nat.zero_add]
    · rw [contribution_cons_of_pos hpos, List.map_append, Size.total_append,
        hsource.positionCount_eq, rowCounts]

/-! ### Taking over -/

/-- The offsets of a source are moved up to where its rows come to stand, and
all of them stay sizes. -/
theorem mapM_add_offsets {x source : RowIndex} (hx : x.WellFormed) (hsource : source.WellFormed)
    (hcount : x.chunkCount + source.chunkCount ≤ Limits.maxChunks)
    (hrows : ∀ n ∈ source.rowCounts, n ≤ x.maxChunkRows) :
    (source.offsets.items.toList.drop 1).mapM (Size.add · x.positionCount) =
      .ok ((offsetTable x.positionCount source.rowCounts).drop 1) := by
  -- The table of the source starts at zero, so its first entry is left out.
  have hmoved : (offsetTable x.positionCount source.rowCounts).drop 1 =
      (source.offsets.items.toList.drop 1).map (· + x.positionCount) := by
    rw [hsource.offsets_eq, List.map_drop, map_add_offsetTable, Nat.zero_add]
  rw [hmoved]
  refine Result.mapM_eq_ok_map fun n hn => Size.add_eq_ok_iff.2 ⟨?_, rfl⟩
  have hle : n ≤ Size.total source.rowCounts := by
    have hmem := List.mem_of_mem_drop hn
    rw [hsource.offsets_eq] at hmem
    have hle := le_of_mem_offsetTable hmem
    rwa [Nat.zero_add] at hle
  have hsum := hx.total_add_lt source.rowCounts
    (by rw [length_rowCounts]; omega) hrows
  omega

/-- Taking over a source whose chunks fit adds them all. -/
theorem takeOver_grown {x source : RowIndex} (hx : x.WellFormed) (hsource : source.WellFormed)
    (hpos : 0 < source.positionCount)
    (hcount : x.chunkCount + source.chunkCount ≤ Limits.maxChunks)
    (hrows : ∀ shared ∈ source.chunks.items.toList,
      shared.chunk.positionCount ≤ x.maxChunkRows) :
    (x.takeOver source).status = .ok () ∧
      x.Grown source.chunks.items.toList (x.takeOver source).state := by
  have hcounts : ∀ n ∈ source.rowCounts, n ≤ x.maxChunkRows := by
    intro n hn
    obtain ⟨shared, hshared, rfl⟩ := List.mem_map.1 hn
    exact hrows shared hshared
  unfold takeOver
  rw [if_neg (Nat.ne_of_gt hpos)]
  simp only [mapM_add_offsets hx hsource hcount hcounts, true_and]
  refine grown_of_tables hx ?_ ?_ ?_ hrows rfl rfl
  · simp
  · simp [rowCounts]
  · simpa [chunkCount, Buffer.size] using hcount

/-- **Taking over sources whose chunks fit adds all chunks they contribute.** -/
theorem takeOverAll_grown : ∀ {sources : List RowIndex} {x : RowIndex}, x.WellFormed →
    (∀ source ∈ sources, source.WellFormed) →
      x.chunkCount + (contribution sources).length ≤ Limits.maxChunks →
        (∀ shared ∈ contribution sources, shared.chunk.positionCount ≤ x.maxChunkRows) →
          (x.takeOverAll sources).status = .ok () ∧
            x.Grown (contribution sources) (x.takeOverAll sources).state := by
  intro sources
  induction sources with
  | nil => intro x hx _ _ _; exact ⟨rfl, .refl hx⟩
  | cons source rest ih =>
    intro x hx hs hcount hrows
    have hsource : source.WellFormed := hs source List.mem_cons_self
    have hrest : ∀ other ∈ rest, other.WellFormed := fun other hother =>
      hs other (List.mem_cons_of_mem _ hother)
    rw [takeOverAll]
    rcases Nat.eq_zero_or_pos source.positionCount with hzero | hpos
    · -- A source without positions adds nothing.
      rw [contribution_cons_of_eq_zero hzero] at hcount hrows ⊢
      rw [takeOver, if_pos hzero, Outcome.andThen_done]
      exact ih hx hrest hcount hrows
    · rw [contribution_cons_of_pos hpos] at hcount hrows ⊢
      rw [List.length_append] at hcount
      obtain ⟨hstatus, hgrown⟩ := takeOver_grown hx hsource hpos
        (by simp only [chunkCount, Buffer.size, Array.length_toList] at hcount ⊢; omega)
        (fun shared h => hrows shared (List.mem_append_left _ h))
      obtain ⟨hlater, hmore⟩ := ih hgrown.wellFormed hrest
        (by rw [hgrown.chunkCount_eq]; omega)
        (fun shared h => by
          rw [hgrown.maxChunkRows_eq]
          exact hrows shared (List.mem_append_right _ h))
      rw [Outcome.andThen_of_ok hstatus]
      exact ⟨hlater, hgrown.trans hmore⟩

/-! ### Merging -/

/-- An index whose cache is open merges nothing. -/
theorem merge_of_open {x : RowIndex} {sources : List RowIndex} (h : x.hasOpenCache = true) :
    x.merge sources = .failed x (.misused (.cacheIsOpen .merge)) := by
  unfold merge
  rw [requireCacheNotOpen_of_open _ h]
  rfl

/-- If a chunk does not pass, nothing is merged. -/
theorem merge_eq_failed {x : RowIndex} {sources : List RowIndex} {failure : Failure}
    (hopen : x.hasOpenCache = false)
    (hcheck : x.checkChunks x.chunkCount (contribution sources) = .error failure) :
    x.merge sources = .failed x failure := by
  unfold merge
  rw [requireCacheNotOpen_eq_ok_iff.2 hopen, hcheck]
  rfl

/-- **If all chunks pass, all are added.** -/
theorem merge_grown {x : RowIndex} {sources : List RowIndex} (hx : x.WellFormed)
    (hs : ∀ source ∈ sources, source.WellFormed) (hopen : x.hasOpenCache = false)
    (hcheck : x.checkChunks x.chunkCount (contribution sources) = .ok ()) :
    (x.merge sources).status = .ok () ∧
      x.Grown (contribution sources) (x.merge sources).state := by
  obtain ⟨hcount, hrows⟩ := le_of_checkChunks hx.chunkCount_le hcheck
  obtain ⟨hstatus, hgrown⟩ := takeOverAll_grown hx hs hcount hrows
  unfold merge
  rw [requireCacheNotOpen_eq_ok_iff.2 hopen, hcheck]
  show (Outcome.andThen _ _).status = .ok () ∧ x.Grown _ (Outcome.andThen _ _).state
  rw [Outcome.andThen_of_ok hstatus]
  exact ⟨rfl, hgrown⟩

end Columnar.RowIndex
