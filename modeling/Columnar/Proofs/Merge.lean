import Columnar.Proofs.Locate
import Columnar.Proofs.Reachable

/-!
# Merging indices

A merge checks all chunks first and then takes them over source by source.  The
plain way to do the same is to append the chunks one after the other.  The two
agree: each chunk is checked under the id it would get, against the limits of
the growing index alone, and the offsets that a source brings along, moved up,
are those that appending its chunks would have computed.

## Main definitions

* `RowIndex.appendAll` — appends chunks one after the other.

## Main results

* `RowIndex.exists_appendAll`, `RowIndex.appendAll_eq_error` — appending one after
  the other fails where checking all at once does.
* `RowIndex.Grown.locate_eq` — the rows of a source in an index grown by it.
* `RowIndex.merge_refines_appendAll` — **a merge does what appending the chunks of
  its sources does, or nothing.**
-/

namespace Columnar.RowIndex

/-- Adds chunks one after the other, up to the first that cannot be added. -/
def appendAll (x : RowIndex) : List SharedChunk → Result RowIndex
  | [] => .ok x
  | shared :: rest => do (← x.append shared).appendAll rest

/-! ### One after the other -/

/-- Chunks that pass together can be appended one after the other. -/
theorem exists_appendAll : ∀ {chunks : List SharedChunk} {x : RowIndex}, x.WellFormed →
    x.hasOpenCache = false → x.checkChunks x.chunkCount chunks = .ok () →
      ∃ y, x.appendAll chunks = .ok y ∧ x.Grown chunks y := by
  intro chunks
  induction chunks with
  | nil => intro x hx _ _; exact ⟨x, rfl, .refl hx⟩
  | cons shared rest ih =>
    intro x hx hopen h
    cases hone : x.checkChunk x.chunkCount shared.chunk.positionCount with
    | error failure =>
      rw [checkChunks_cons_error hone] at h
      cases h
    | ok _ =>
      obtain ⟨y, hy⟩ := exists_append hx hopen hone
      obtain ⟨-, hgrown⟩ := append_grown hx hy
      -- The chunks left are checked by the grown index under the same ids.
      have hrest : y.checkChunks y.chunkCount rest = .ok () := by
        rw [checkChunks_congr hgrown.maxChunkRows_eq, hgrown.chunkCount_eq]
        rw [checkChunks_cons hone] at h
        exact h
      obtain ⟨z, hz, hmore⟩ := ih hgrown.wellFormed (hgrown.hasOpenCache_eq.trans hopen) hrest
      refine ⟨z, ?_, hgrown.trans hmore⟩
      rw [appendAll, hy]
      exact hz

/-- Where chunks do not pass together, appending them one after the other stops
for the same reason. -/
theorem appendAll_eq_error {failure : Failure} :
    ∀ {chunks : List SharedChunk} {x : RowIndex}, x.WellFormed → x.hasOpenCache = false →
      x.checkChunks x.chunkCount chunks = .error failure →
        x.appendAll chunks = .error failure := by
  intro chunks
  induction chunks with
  | nil => intro x _ _ h; cases h
  | cons shared rest ih =>
    intro x hx hopen h
    cases hone : x.checkChunk x.chunkCount shared.chunk.positionCount with
    | error first =>
      rw [checkChunks_cons_error hone] at h
      cases h
      rw [appendAll, append_eq_error hopen hone]
      rfl
    | ok _ =>
      obtain ⟨y, hy⟩ := exists_append hx hopen hone
      obtain ⟨-, hgrown⟩ := append_grown hx hy
      -- The check counts ahead what the index has taken in by then.
      have hrest : y.checkChunks y.chunkCount rest = .error failure := by
        rw [checkChunks_congr hgrown.maxChunkRows_eq, hgrown.chunkCount_eq]
        rw [checkChunks_cons hone] at h
        exact h
      rw [appendAll, hy]
      exact ih hgrown.wellFormed (hgrown.hasOpenCache_eq.trans hopen) hrest

/-! ### Where the rows of a source come to stand -/

/-- **The rows of a source keep their order.**  In an index that grew by the
chunks of a source, with others before and after them, a row of the source is
found as many chunks and as many positions further on as there are before it. -/
theorem Grown.locate_eq {x y source : RowIndex} {before after : List SharedChunk}
    (h : x.Grown (before ++ (source.chunks.items.toList ++ after)) y) (hx : x.WellFormed)
    (hsource : source.WellFormed) {q : Nat} {l : Location} (hl : source.locate q = .ok l) :
    y.locate (x.positionCount + Size.total (before.map (·.chunk.positionCount)) + q) =
      .ok ⟨x.chunkCount + before.length + l.chunkId, l.offset⟩ := by
  obtain ⟨hholds, rfl⟩ := (locate_eq_ok_iff hsource).1 hl
  have hid : l.chunkId ≤ source.rowCounts.length := by
    rw [length_rowCounts]
    exact Nat.le_of_lt hholds.chunkId_lt
  obtain ⟨n, hn, hlt⟩ := holds_iff.1 hholds
  -- The chunks of the source stand behind those of the target and of earlier sources.
  have hcounts : y.rowCounts = x.rowCounts ++ before.map (·.chunk.positionCount) ++
      (source.rowCounts ++ after.map (·.chunk.positionCount)) := by
    rw [h.rowCounts_eq, List.map_append, List.map_append, List.append_assoc]
    rfl
  have hlength : x.chunkCount + before.length =
      (x.rowCounts ++ before.map (·.chunk.positionCount)).length := by
    rw [List.length_append, length_rowCounts, List.length_map]
  rw [locate_eq_ok_iff h.wellFormed]
  constructor
  · refine holds_iff.2 ⟨n, ?_, hlt⟩
    show y.rowCounts[x.chunkCount + before.length + l.chunkId]? = some n
    rw [hcounts, hlength, List.getElem?_append_right (Nat.le_add_right _ _),
      Nat.add_sub_cancel_left, List.getElem?_append_left (by
        rw [length_rowCounts]
        exact hholds.chunkId_lt)]
    exact hn
  · show Size.total (y.rowCounts.take (x.chunkCount + before.length + l.chunkId)) + l.offset = _
    rw [hcounts, hlength, List.take_length_add_append, List.take_append_of_le_length hid,
      Size.total_append, Size.total_append, hx.positionCount_eq, positionOf, rowsBefore,
      Nat.add_assoc]

/-! ### The main result -/

/-- **A merge does what appending the chunks of its sources does, or nothing.**

It succeeds if all of them can be appended one after the other, and then yields
the same tables; the rows of each source stand together from the positions and
chunks before it on.  Otherwise it fails for the reason the first of them cannot
be appended, changes nothing and says nothing. -/
theorem merge_refines_appendAll {x : RowIndex} {sources : List RowIndex} (hx : Reachable x)
    (hs : ∀ source ∈ sources, Reachable source) (hopen : x.hasOpenCache = false) :
    ((x.merge sources).status = .ok () ↔ ∃ y, x.appendAll (contribution sources) = .ok y) ∧
    (∀ y, x.appendAll (contribution sources) = .ok y →
      (x.merge sources).state.chunks.items = y.chunks.items ∧
      (x.merge sources).state.offsets.items = y.offsets.items) ∧
    (∀ failure, x.appendAll (contribution sources) = .error failure →
      x.merge sources = ⟨x, .error failure, []⟩) ∧
    ((x.merge sources).status = .ok () → ∀ before source after,
      sources = before ++ source :: after → 0 < source.positionCount →
      ∀ q l, source.locate q = .ok l →
        (x.merge sources).state.locate
            (x.positionCount + Size.total (before.map positionCount) + q) =
          .ok ⟨x.chunkCount + (contribution before).length + l.chunkId, l.offset⟩) := by
  have hx := hx.wellFormed
  have hs : ∀ source ∈ sources, source.WellFormed := fun source h => (hs source h).wellFormed
  -- Whether the chunks pass the check decides both ways of adding them.
  cases hcheck : x.checkChunks x.chunkCount (contribution sources) with
  | error failure =>
    have hmerge : x.merge sources = .failed x failure := merge_eq_failed hopen hcheck
    have happend := appendAll_eq_error hx hopen hcheck
    refine ⟨?_, ?_, ?_, ?_⟩
    · simp [hmerge, happend]
    · intro y hy
      rw [happend] at hy
      cases hy
    · intro other hother
      rw [happend] at hother
      cases hother
      exact hmerge
    · intro hstatus
      rw [hmerge] at hstatus
      cases hstatus
  | ok _ =>
    obtain ⟨hstatus, hgrown⟩ := merge_grown hx hs hopen hcheck
    obtain ⟨y, hy, hgrown'⟩ := exists_appendAll hx hopen hcheck
    refine ⟨iff_of_true hstatus ⟨y, hy⟩, ?_, ?_, ?_⟩
    · intro z hz
      rw [hy] at hz
      cases hz
      exact hgrown.tables_eq hgrown'
    · intro failure hfailure
      rw [hy] at hfailure
      cases hfailure
    · rintro - before source after rfl hpos q l hl
      rw [contribution_append, contribution_cons_of_pos hpos] at hgrown
      have hbefore := total_contribution fun other hother =>
        hs other (List.mem_append_left _ hother)
      rw [← hbefore]
      exact hgrown.locate_eq hx (hs source (by simp)) hl

/-- A source without rows is left out, an empty chunk of another one is not. -/
theorem merge_refines_appendAll_two :
    (∀ source ∈ [ofChunks [⟨1, .ofLongs []⟩], ofChunks [⟨2, .ofLongs []⟩, ⟨3, .ofLongs [8, 9]⟩]],
      Reachable source) ∧
    (ofChunks [⟨0, .ofLongs [7]⟩]).hasOpenCache = false ∧
    ((ofChunks [⟨0, .ofLongs [7]⟩]).merge
      [ofChunks [⟨1, .ofLongs []⟩], ofChunks [⟨2, .ofLongs []⟩, ⟨3, .ofLongs [8, 9]⟩]]).status =
        .ok () ∧
    ((ofChunks [⟨0, .ofLongs [7]⟩]).merge
      [ofChunks [⟨1, .ofLongs []⟩],
        ofChunks [⟨2, .ofLongs []⟩, ⟨3, .ofLongs [8, 9]⟩]]).state.offsets.items =
          #[0, 1, 1, 3] := by
  have hs : ∀ source ∈ [ofChunks [⟨1, .ofLongs []⟩],
      ofChunks [⟨2, .ofLongs []⟩, ⟨3, .ofLongs [8, 9]⟩]], Reachable source := by
    intro source h
    rw [List.mem_cons, List.mem_singleton] at h
    rcases h with rfl | rfl <;> exact reachable_ofChunks _
  have hmerge := merge_refines_appendAll (reachable_ofChunks [⟨0, .ofLongs [7]⟩]) hs rfl
  refine ⟨hs, rfl, hmerge.1.2 ⟨_, rfl⟩, ?_⟩
  rw [(hmerge.2.1 _ rfl).2]
  rfl

end Columnar.RowIndex
