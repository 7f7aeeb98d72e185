import Columnar.Proofs.Reachable

/-!
# Bounds of the tables

However an index came about, its table of offsets has one entry more than there
are chunks, begins with zero and grows by the rows of each chunk; there are no
more chunks than can be addressed, and none is larger than the options of the
index allow.  So there are at most `2 ^ 63` positions.

Every sum that is formed while an index grows is therefore a size: the id after
that of a chunk, the position after the last row of a chunk, the offsets of a
source moved up, and the number of sources taken over.  None of the changes can
fail because a sum leaves the range.

## Main results

* `RowIndex.maxChunkRows_run` — the limit on chunks is that of the options.
* `RowIndex.append_ne_overflow`, `RowIndex.merge_ne_overflow` — no sum leaves the
  range of sizes.
* `RowIndex.tables_stay_bounded` — **the tables of an index stay within their
  bounds.**
-/

namespace Columnar.RowIndex

variable {x : RowIndex}

/-! ### The limit on the size of chunks -/

/-- No operation changes the limit. -/
theorem maxChunkRows_apply (hx : x.WellFormed) {operation : Operation}
    (hop : operation.Admissible) : (x.apply operation).state.maxChunkRows = x.maxChunkRows := by
  rcases apply_cases hx hop.wellFormed with ⟨-, added, hgrown⟩ | ⟨cache?, hcache⟩
  · exact hgrown.maxChunkRows_eq
  · rw [hcache]

/-- The limit is the same after any run. -/
theorem maxChunkRows_run : ∀ {operations : List Operation} {x : RowIndex}, x.WellFormed →
    (∀ operation ∈ operations, operation.Admissible) →
      (x.run operations).1.maxChunkRows = x.maxChunkRows := by
  intro operations
  induction operations with
  | nil => intro x _ _; rfl
  | cons operation rest ih =>
    intro x hx hops
    have hop : operation.Admissible := hops operation List.mem_cons_self
    have hrest := ih (hx.apply hop.wellFormed) fun other h => hops other (List.mem_cons_of_mem _ h)
    exact hrest.trans (maxChunkRows_apply hx hop)

theorem maxChunkRows_ofOptions {options : IndexOptions} (h : ofOptions options = .ok x) :
    x.maxChunkRows = options.maxChunkRows := by
  rw [eq_of_ofOptions h]
  rfl

/-! ### Counting -/

namespace WellFormed

theorem size_offsets (hx : x.WellFormed) : x.offsets.size = x.chunkCount + 1 := by
  have hlength := congrArg List.length hx.offsets_eq
  rwa [length_offsetTable, length_rowCounts, Array.length_toList] at hlength

/-- The next chunk begins where the rows of a chunk end. -/
theorem chunkOffset_succ (hx : x.WellFormed) {chunkId : Nat} {shared : SharedChunk}
    (h : x.chunk chunkId = .ok shared) :
    x.chunkOffset (chunkId + 1) = .ok (x.rowsBefore chunkId + shared.chunk.positionCount) := by
  have hlookup := Result.element_eq_ok_iff.1 h
  obtain ⟨hlt, -⟩ := Array.getElem?_eq_some_iff.1 hlookup
  have hrows : x.rowCounts[chunkId]? = some shared.chunk.positionCount := by
    rw [getElem?_rowCounts, hlookup]
    rfl
  rw [hx.chunkOffset_eq (Nat.succ_le_of_lt hlt), rowsBefore, Size.total_take_succ hrows]
  rfl

theorem positionCount_le_of_chunk (hx : x.WellFormed) {chunkId : Nat} {shared : SharedChunk}
    (h : x.chunk chunkId = .ok shared) : shared.chunk.positionCount ≤ x.maxChunkRows := by
  have hlookup := Result.element_eq_ok_iff.1 h
  refine hx.rowCount_le _ (List.mem_of_getElem? (i := chunkId) ?_)
  rw [getElem?_rowCounts, hlookup]
  rfl

/-- **There are at most `2 ^ 63` positions**: as many as chunks, times as many as
rows in the largest of them. -/
theorem positionCount_le (hx : x.WellFormed) : x.positionCount ≤ 0x8000000000000000 := by
  have hrows : ∀ n ∈ x.rowCounts, n ≤ Limits.maxChunkRows := fun n hn =>
    Nat.le_trans (hx.rowCount_le n hn) hx.maxChunkRows_le
  calc x.positionCount
      = Size.total x.rowCounts := hx.positionCount_eq
    _ ≤ x.rowCounts.length * Limits.maxChunkRows := Size.total_le_length_mul hrows
    _ ≤ Limits.maxChunks * Limits.maxChunkRows := by
        rw [length_rowCounts]
        exact Nat.mul_le_mul_right _ hx.chunkCount_le
    _ = 0x8000000000000000 := rfl

end WellFormed

/-- A source that contributes has a chunk to contribute. -/
theorem countP_le_length_contribution {sources : List RowIndex}
    (hs : ∀ source ∈ sources, source.WellFormed) :
    sources.countP (fun source => 0 < source.positionCount) ≤ (contribution sources).length := by
  induction sources with
  | nil => exact Nat.zero_le _
  | cons source rest ih =>
    have hrest := ih fun other h => hs other (List.mem_cons_of_mem _ h)
    rcases Nat.eq_zero_or_pos source.positionCount with hzero | hpos
    · rw [List.countP_cons_of_neg (by simp [hzero]), contribution_cons_of_eq_zero hzero]
      exact hrest
    · have hchunks : 0 < source.chunks.items.toList.length := by
        rw [List.length_pos_iff]
        intro hnil
        rw [(hs source List.mem_cons_self).positionCount_eq, rowCounts, hnil] at hpos
        exact Nat.lt_irrefl 0 hpos
      rw [List.countP_cons_of_pos (by simpa using hpos), contribution_cons_of_pos hpos,
        List.length_append]
      omega

/-! ### Sums -/

/-- The id after that of a chunk that is one too many is a size. -/
theorem checkChunk_ne_overflow {chunkId rows : Nat} (h : chunkId ≤ Limits.maxChunks) :
    x.checkChunk chunkId rows ≠ .error .overflow := by
  have hnext : Size.add chunkId 1 = .ok (chunkId + 1) :=
    Size.add_eq_ok_iff.2 ⟨by simp only [Limits.maxChunks, Size.limit] at *; omega, rfl⟩
  unfold checkChunk
  rw [hnext]
  by_cases hid : Limits.maxChunks ≤ chunkId
  · rw [if_pos hid]
    intro hoverflow
    cases hoverflow
  · rw [if_neg hid]
    by_cases hrows : x.maxChunkRows < rows
    · rw [if_pos hrows]
      intro hoverflow
      cases hoverflow
    · rw [if_neg hrows]
      intro hoverflow
      cases hoverflow

/-- The running id of a check stays a size, for the first id that is too large
ends the check. -/
theorem checkChunks_ne_overflow : ∀ {chunks : List SharedChunk} {chunkId : Nat},
    chunkId ≤ Limits.maxChunks → x.checkChunks chunkId chunks ≠ .error .overflow := by
  intro chunks
  induction chunks with
  | nil =>
    intro chunkId _ h
    cases h
  | cons shared rest ih =>
    intro chunkId hid
    cases hone : x.checkChunk chunkId shared.chunk.positionCount with
    | error failure =>
      rw [checkChunks_cons_error hone, ← hone]
      exact checkChunk_ne_overflow hid
    | ok _ =>
      rw [checkChunks_cons hone]
      exact ih (checkChunk_eq_ok_iff.1 hone).1

/-- **No sum of an append leaves the range of sizes.** -/
theorem append_ne_overflow (hx : x.WellFormed) (shared : SharedChunk) :
    x.append shared ≠ .error .overflow := by
  -- Each way to fail has a reason of its own, and what is left succeeds.
  cases hopen : x.hasOpenCache with
  | true =>
    unfold append
    rw [requireCacheNotOpen_of_open _ hopen]
    intro h
    cases h
  | false =>
    cases hcheck : x.checkChunk x.chunkCount shared.chunk.positionCount with
    | error failure =>
      rw [append_eq_error hopen hcheck]
      rintro ⟨⟩
      exact checkChunk_ne_overflow hx.chunkCount_le hcheck
    | ok _ =>
      obtain ⟨y, hy⟩ := exists_append hx hopen hcheck
      rw [hy]
      intro h
      cases h

/-- **No sum of a merge leaves the range of sizes**, neither while it is checked
nor while the sources are taken over, and neither does their number. -/
theorem merge_ne_overflow (hx : x.WellFormed) {sources : List RowIndex}
    (hs : ∀ source ∈ sources, source.WellFormed) :
    (x.merge sources).status ≠ .error .overflow ∧
      ((x.merge sources).status = .ok () →
        sources.countP (fun source => 0 < source.positionCount) ≤ Limits.maxChunks) := by
  cases hopen : x.hasOpenCache with
  | true =>
    rw [merge_of_open hopen]
    constructor <;> intro h <;> cases h
  | false =>
    cases hcheck : x.checkChunks x.chunkCount (contribution sources) with
    | error failure =>
      rw [merge_eq_failed hopen hcheck, Outcome.status_failed, ← hcheck]
      refine ⟨checkChunks_ne_overflow hx.chunkCount_le, ?_⟩
      rw [hcheck]
      intro h
      cases h
    | ok _ =>
      -- All contributed chunks have been counted, and a source that counts has one at least.
      obtain ⟨hstatus, -⟩ := merge_grown hx hs hopen hcheck
      have hcount := (le_of_checkChunks hx.chunkCount_le hcheck).1
      have hle := countP_le_length_contribution hs
      rw [hstatus]
      constructor
      · intro h
        cases h
      · intro _
        omega

/-! ### Runs -/

/-- **The tables of an index stay within their bounds.**  After any run from a
new index, whatever operations succeeded or failed and whatever limits the merged
indices were made with, the offsets are the partial sums of the rows of the
chunks, the chunks obey the options of this index, and there are at most
`2 ^ 63` positions.  No sum formed by a further append or merge leaves the range
of sizes. -/
theorem tables_stay_bounded {options : IndexOptions} {start : RowIndex}
    {operations : List Operation} (hstart : ofOptions options = .ok start)
    (hops : ∀ operation ∈ operations, operation.Admissible)
    (hrun : (start.run operations).1 = x) :
    x.offsets.size = x.chunkCount + 1 ∧
    x.chunkOffset 0 = .ok 0 ∧
    (∀ chunkId shared, x.chunk chunkId = .ok shared → ∃ first,
      x.chunkOffset chunkId = .ok first ∧
        x.chunkOffset (chunkId + 1) = .ok (first + shared.chunk.positionCount)) ∧
    x.chunkCount ≤ Limits.maxChunks ∧
    (∀ chunkId shared, x.chunk chunkId = .ok shared →
      shared.chunk.positionCount ≤ options.maxChunkRows) ∧
    options.maxChunkRows ≤ Limits.maxChunkRows ∧
    x.positionCount ≤ 0x8000000000000000 ∧
    (∀ shared, x.append shared ≠ .error .overflow) ∧
    ∀ sources, (∀ source ∈ sources, Reachable source) →
      (x.merge sources).status ≠ .error .overflow ∧
        ((x.merge sources).status = .ok () →
          sources.countP (fun source => 0 < source.positionCount) ≤ Limits.maxChunks) := by
  subst hrun
  have hx : (start.run operations).1.WellFormed := ((Reachable.start hstart).run hops).wellFormed
  have hlimit : (start.run operations).1.maxChunkRows = options.maxChunkRows :=
    (maxChunkRows_run (wellFormed_ofOptions hstart) hops).trans (maxChunkRows_ofOptions hstart)
  refine ⟨hx.size_offsets, hx.chunkOffset_eq (Nat.zero_le _), ?_, hx.chunkCount_le, ?_, ?_,
    hx.positionCount_le, append_ne_overflow hx, ?_⟩
  · intro chunkId shared h
    obtain ⟨hlt, -⟩ := Array.getElem?_eq_some_iff.1 (Result.element_eq_ok_iff.1 h)
    exact ⟨_, hx.chunkOffset_eq (Nat.le_of_lt hlt), hx.chunkOffset_succ h⟩
  · intro chunkId shared h
    rw [← hlimit]
    exact hx.positionCount_le_of_chunk h
  · rw [← hlimit]
    exact hx.maxChunkRows_le
  · intro sources hs
    exact merge_ne_overflow hx fun source h => (hs source h).wellFormed

/-- An index for small chunks refuses to merge a larger one, and takes over the
chunks that fit. -/
theorem tables_stay_bounded_small :
    ∃ start x, ofOptions ⟨0, 2⟩ = .ok start ∧
      (start.run [.append ⟨0, .ofLongs [7, 8]⟩, .merge [ofChunks [⟨1, .ofLongs [1, 2, 3]⟩]],
        .merge [ofChunks [⟨2, .ofLongs []⟩, ⟨3, .ofLongs [9]⟩]]]).1 = x ∧
      x.offsets.items = #[0, 2, 2, 3] ∧ x.positionCount ≤ 0x8000000000000000 ∧
      (x.merge [x]).status ≠ .error .overflow := by
  have hops : ∀ operation ∈ ([.append ⟨0, .ofLongs [7, 8]⟩,
      .merge [ofChunks [⟨1, .ofLongs [1, 2, 3]⟩]],
      .merge [ofChunks [⟨2, .ofLongs []⟩, ⟨3, .ofLongs [9]⟩]]] : List Operation),
      operation.Admissible := by
    intro operation h
    simp only [List.mem_cons, List.not_mem_nil, or_false] at h
    rcases h with rfl | rfl | rfl
    · trivial
    · exact List.forall_mem_singleton.2 (reachable_ofChunks _)
    · exact List.forall_mem_singleton.2 (reachable_ofChunks _)
  have hstart : ofOptions ⟨0, 2⟩ = .ok (ofValidOptions ⟨0, 2⟩) := rfl
  obtain ⟨-, -, -, -, -, -, hcount, -, hmerge⟩ := tables_stay_bounded hstart hops rfl
  refine ⟨_, _, hstart, rfl, rfl, hcount, ?_⟩
  exact (hmerge _ (List.forall_mem_singleton.2 ((Reachable.start hstart).run hops))).1

end Columnar.RowIndex
