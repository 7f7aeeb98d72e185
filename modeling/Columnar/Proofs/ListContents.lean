import Columnar.Proofs.Built
import Columnar.Proofs.CachedReads

/-!
# What the lists hold

Copying a chunk halfway overwrites lists at positions that are not marked.  What
can be read is not affected: where a list may be read it holds what its column
stores of the chunk there, and nothing that happened before matters.

A column may be shorter than its chunk.  The copy of the chunk then leaves the
end of its range as it was, and since no other chunk reaches into the range, and
no other column into the list, there are still the zeros of a new list.

## Main definitions

* `Chunk.listed` — what a list holds of a chunk once it is copied.
* `OpenCache.Settled` — the lists hold this wherever they may be read.

## Main results

* `openInvariant_settled` — this is so as long as the cache is open.
* `RowIndex.get?_eq_listed` — **what can be read depends on the chunks only.**
-/

namespace Columnar

/-! ### Definitions -/

/-- The number in a new list. -/
def ListKind.zero : ListKind → Value
  | int => .int 0
  | long => .long 0
  | double => .double default

/-- What a list of some kind holds of a column at a row of a chunk that was
copied: the payload in its form, or past the end of the column a zero. -/
def Chunk.listed (c : Chunk) (column : Nat) (kind : ListKind) (row : Nat) : Option Value :=
  c.blocks[column]?.bind fun block =>
    if row < block.positionCount then (block.payload row).toOption.bind kind.store
    else some kind.zero

/-- The column ends before the row. -/
def Chunk.EndsBefore (c : Chunk) (column row : Nat) : Prop :=
  ∃ block, c.blocks[column]? = some block ∧ block.positionCount ≤ row

/-- The lists hold what they should at the rows of marked chunks, and past the
ends of columns also at those of other chunks. -/
structure OpenCache.Settled (chunks : List SharedChunk) (columns : List (Nat × ListKind))
    (o : OpenCache) : Prop where
  get?_eq : ∀ {chunkId l column row : Nat} {shared : SharedChunk} {kind : ListKind}
    {list : FlatList}, chunks[chunkId]? = some shared → columns[l]? = some (column, kind) →
      o.lists[l]? = some list → row < shared.chunk.positionCount →
        o.populated.bit chunkId = true ∨ shared.chunk.EndsBefore column row →
          list.get? (startOf chunks chunkId + row) = shared.chunk.listed column list.kind row

/-! ### Copies -/

namespace FlatList

theorem get?_zeros {kind : ListKind} {n p : Nat} (h : p < n) :
    (zeros kind n).get? p = some kind.zero := by
  cases kind <;> simp [zeros, get?, ListKind.zero, h]

variable {before after : FlatList} {block : Block} {base row : Nat} {c : Chunk} {column : Nat}

/-- In the range of a copy the list holds what it should. -/
theorem Copied.get?_eq_listed (h : before.Copied block base after)
    (hblock : c.blocks[column]? = some block) (hrow : row < block.positionCount) :
    after.get? (base + row) = c.listed column after.kind row := by
  obtain ⟨v, w, hv, hw, hget⟩ := h.inside row hrow
  rw [Chunk.listed, hblock, Option.bind_some, if_pos hrow, hv, h.kind_eq, hget]
  exact hw.symm

end FlatList

/-- Past the end of a column a zero is what the list should hold. -/
theorem Chunk.listed_of_endsBefore {c : Chunk} {column row : Nat} {kind : ListKind}
    (h : c.EndsBefore column row) : c.listed column kind row = some kind.zero := by
  obtain ⟨block, hblock, hle⟩ := h
  rw [listed, hblock, Option.bind_some, if_neg (Nat.not_lt.2 hle)]

/-- The rows of a chunk are among all positions. -/
theorem startOf_add_lt {chunks : List SharedChunk} {chunkId row : Nat} {shared : SharedChunk}
    (hshared : chunks[chunkId]? = some shared) (hrow : row < shared.chunk.positionCount) :
    startOf chunks chunkId + row < startOf chunks chunks.length :=
  Nat.lt_of_lt_of_le (Nat.add_lt_add_left hrow _) (startOf_add_le hshared)

/-- Filling the lists with one chunk does not disturb another, nor the end of a
range that a column does not reach, whether filling succeeds or not. -/
theorem OpenCache.Settled.get?_fillLists {chunks : List SharedChunk}
    {columns : List (Nat × ListKind)} {o : OpenCache} (h : o.Settled chunks columns)
    (hbounded : ∀ shared ∈ chunks, shared.chunk.Bounded) {copied chunkId l column row : Nat}
    {chunk shared : SharedChunk} {kind : ListKind} {list : FlatList}
    (hchunk : chunks[copied]? = some chunk) (hshared : chunks[chunkId]? = some shared)
    (hcolumn : columns[l]? = some (column, kind))
    (hlist : (KeyColumns.fillLists chunk.chunk (startOf chunks copied) columns o.lists).state[l]? =
      some list)
    (hrow : row < shared.chunk.positionCount)
    (hsettled : o.populated.bit chunkId = true ∨ shared.chunk.EndsBefore column row)
    (hapart : chunkId ≠ copied ∨ shared.chunk.EndsBefore column row) :
    list.get? (startOf chunks chunkId + row) = shared.chunk.listed column list.kind row := by
  obtain ⟨before, hbefore, hcase⟩ := KeyColumns.fillLists_each hlist
  have hget := h.get?_eq hshared hcolumn hbefore hrow hsettled
  rcases hcase with rfl | ⟨_, _, block, hown, hblock, hcopied⟩
  · exact hget
  · obtain ⟨rfl, rfl⟩ : _ = column ∧ _ = kind := by simpa using hown.symm.trans hcolumn
    have hle := hbounded chunk (List.mem_of_getElem? hchunk) block (List.mem_of_getElem? hblock)
    -- The place lies outside the range of the copy.
    have hout : ¬ (startOf chunks copied ≤ startOf chunks chunkId + row ∧
        startOf chunks chunkId + row < startOf chunks copied + block.positionCount) := by
      intro hin
      obtain rfl : chunkId = copied :=
        startOf_unique hshared hchunk ⟨Nat.le_add_right .., by omega⟩ ⟨hin.1, by omega⟩
      rcases hapart with hne | ⟨own, hend, hlast⟩
      · exact hne rfl
      · rw [hshared] at hchunk
        cases hchunk
        rw [hblock] at hend
        cases hend
        omega
    rw [hcopied.outside _ hout, hcopied.kind_eq]
    exact hget

/-- **The lists hold what they should as long as the cache is open.** -/
theorem openInvariant_settled : OpenInvariant fun chunks source contents _ =>
    (∀ shared ∈ chunks, shared.chunk.Bounded) → ∀ k : KeyColumns, source = k.source →
      contents.Settled chunks k.columns where
  opened := by
    rintro chunks _ lists hlists - k rfl
    constructor
    intro chunkId l column row shared kind list hshared hcolumn hlist hrow hsettled
    rw [OpenCache.fresh, Bitmap.bit_clear] at hsettled
    -- The cache is new, so nothing is marked and the list holds zeros.
    have hend : shared.chunk.EndsBefore column row := hsettled.resolve_left Bool.noConfusion
    obtain ⟨-, rfl⟩ := KeyColumns.lists_eq_ok_iff.1 hlists
    have hlookup : (k.columns.map fun column =>
        FlatList.zeros column.2 (startOf chunks chunks.length))[l]? = some list := hlist
    rw [List.getElem?_map, hcolumn] at hlookup
    cases hlookup
    rw [FlatList.get?_zeros (startOf_add_lt hshared hrow), Chunk.listed_of_endsBefore hend]
    cases kind <;> rfl
  failed := by
    rintro chunks _ contents _ copied chunk stop failure h hchunk hclear - hbounded k rfl
    constructor
    intro chunkId l column row shared kind list hshared hcolumn hlist hrow hsettled
    obtain ⟨-, hnew, -⟩ := OpenCache.clearance_eq_ok_iff.1 hclear
    refine (h hbounded k rfl).get?_fillLists hbounded hchunk hshared hcolumn hlist hrow hsettled ?_
    -- The chunk that was being copied is not marked.
    refine hsettled.imp_left ?_
    rintro hbit rfl
    rw [hnew] at hbit
    cases hbit
  copied := by
    rintro chunks _ contents _ copied chunk stop h hchunk hclear hfill hbounded k rfl
    constructor
    intro chunkId l column row shared kind list hshared hcolumn hlist hrow hsettled
    obtain ⟨hid, -, -, -, rfl⟩ := OpenCache.clearance_eq_ok_iff.1 hclear
    rw [OpenCache.mark, Bitmap.bit_put _ _ _ _ hid] at hsettled
    by_cases hend : shared.chunk.EndsBefore column row
    · exact (h hbounded k rfl).get?_fillLists hbounded hchunk hshared hcolumn hlist hrow
        (Or.inr hend) (Or.inr hend)
    · have hmark := hsettled.resolve_right hend
      by_cases heq : chunkId = copied
      · subst heq
        rw [hshared] at hchunk
        cases hchunk
        obtain ⟨before, block, -, hblock, hcopied⟩ := KeyColumns.fillLists_all hfill hcolumn hlist
        exact hcopied.get?_eq_listed hblock (Nat.lt_of_not_le fun hle => hend ⟨block, hblock, hle⟩)
      · rw [if_neg heq] at hmark
        exact (h hbounded k rfl).get?_fillLists hbounded hchunk hshared hcolumn hlist hrow
          (Or.inl hmark) (Or.inl heq)

/-! ### Reading -/

/-- **What can be read depends on the chunks only**: a list holds at a position
that is marked what its column stores of the chunk there. -/
theorem RowIndex.get?_eq_listed {x : RowIndex} (hx : Reachable x)
    (hbounded : x.EachChunk Chunk.Bounded)
    {k : KeyColumns} {contents : OpenCache} (hcache : x.cache? = some ⟨k.source, .opened contents⟩)
    {p list : Nat} {flat : FlatList} (hfilled : contents.isFilled p = true)
    (hflat : contents.lists[list]? = some flat) :
    ∃ l shared column kind, x.locate p = .ok l ∧ x.chunk l.chunkId = .ok shared ∧
      k.columns[list]? = some (column, kind) ∧
        flat.get? p = shared.chunk.listed column flat.kind l.offset := by
  obtain ⟨_, hsynced⟩ := openInvariant_synced.of_reachable hx hcache
  obtain ⟨_, hshaped⟩ := openInvariant_shaped.of_reachable hx hcache
  obtain ⟨_, hsettled⟩ := openInvariant_settled.of_reachable hx hcache
  obtain ⟨l, hl, hmark⟩ := (hsynced.isFilled_iff hx.wellFormed).1 hfilled
  obtain ⟨⟨shared, hshared, hoffset⟩, rfl⟩ := (locate_eq_ok_iff hx.wellFormed).1 hl
  -- There are as many lists as columns.
  obtain ⟨⟨column, kind⟩, hcolumn, -⟩ : ∃ column, k.columns[list]? = some column ∧
      (column.2, startOf x.chunks.items.toList x.chunks.items.toList.length) = flat.shape := by
    have hshape := congrArg (·[list]?) (hshaped k rfl)
    simp only [List.getElem?_map, hflat, Option.map_some] at hshape
    exact Option.map_eq_some_iff.1 hshape.symm
  have hbit : contents.populated.bit l.chunkId = true := by
    rw [OpenCache.isPopulated, Bool.and_eq_true] at hmark
    exact hmark.2
  refine ⟨l, shared, column, kind, hl, Result.element_eq_ok_iff.2 hshared, hcolumn, ?_⟩
  rw [positionOf, ← startOf_chunks]
  exact (hsettled hbounded k rfl).get?_eq (by rwa [Array.getElem?_toList]) hcolumn hflat hoffset
    (Or.inl hbit)

end Columnar
