import Columnar.Proofs.Address
import Columnar.Proofs.AddressOrder
import Columnar.Proofs.Reachable
import Columnar.Proofs.Routing

/-!
# What a growing index keeps

Chunks are only ever added at the end, so the chunks an index has at some time
stand at the front of those it has at any later time.  The table of offsets has
the same entries for them, and the search finds the same location for an old
position, also where empty chunks were added that repeat the old number of
positions.  Whoever has kept a position, an address or a chunk id may go on using
it while the index grows.

## Main definitions

* `RowIndex.Extends` — an index begins with all chunks of another one.
* `RowIndex.AgreesAt` — two indices answer all reads at a position alike.

## Main results

* `RowIndex.Extends.run` — a run extends the index it begins with.
* `RowIndex.Extends.locate_eq` — old positions are located where they were.
* `RowIndex.apply_tables`, `RowIndex.apply_cache` — which operations leave the tables
  alone, and which the cache.
* `RowIndex.old_rows_stay` — **what could be read of an index can be read of it
  after any run.**
-/

namespace Columnar

/-- The operation is one on the cache.  The others add chunks. -/
def Operation.isOnCache : Operation → Bool
  | .append _ | .merge _ => false
  | .setSource _ | .openCache | .populate _ | .closeCache => true

namespace RowIndex

variable {x y z : RowIndex} {p : Nat} {operation : Operation}

/-! ### Definitions -/

/-- `y.Extends x` says that the chunks of `y` begin with those of `x`. -/
structure Extends (y x : RowIndex) : Prop where
  wellFormed : y.WellFormed
  chunks_prefix : x.chunks.items.toList <+: y.chunks.items.toList

/-- Two indices find the same row at a position, in the very same chunk, and all
reads there have the same answer. -/
structure AgreesAt (y x : RowIndex) (p : Nat) : Prop where
  locate_eq : y.locate p = x.locate p
  address_eq : y.address p = x.address p
  /-- The chunk that owns the position is the same object. -/
  chunk_eq : ∀ l, x.locate p = .ok l → y.chunk l.chunkId = x.chunk l.chunkId
  getValue_eq : ∀ column, y.getValue column p = x.getValue column p
  getInt_eq : ∀ column, y.getInt column p = x.getInt column p
  getLong_eq : ∀ column, y.getLong column p = x.getLong column p
  getDouble_eq : ∀ column, y.getDouble column p = x.getDouble column p
  isNull_eq : ∀ column, y.isNull column p = x.isNull column p
  writeTo_eq : ∀ column builder, y.writeTo column p builder = x.writeTo column p builder
  row_eq : y.row p = x.row p
  hashCode_eq : ∀ [PayloadHash], y.hashCode p = x.hashCode p
  equals_eq : ∀ q < x.positionCount, y.equals p q = x.equals p q
  equalsChunkRow_eq : ∀ chunk other, y.equalsChunkRow p chunk other = x.equalsChunkRow p chunk other

/-! ### Growing step by step -/

namespace Extends

theorem refl (hx : x.WellFormed) : x.Extends x := ⟨hx, List.prefix_rfl⟩

theorem trans (hyx : y.Extends x) (hzy : z.Extends y) : z.Extends x :=
  ⟨hzy.wellFormed, hyx.chunks_prefix.trans hzy.chunks_prefix⟩

theorem of_grown {added : List SharedChunk} (h : x.Grown added y) : y.Extends x :=
  ⟨h.wellFormed, h.chunks_eq ▸ List.prefix_append _ _⟩

/-- One step extends the index. -/
theorem apply (hx : x.WellFormed) (hop : operation.Admissible) :
    (x.apply operation).state.Extends x := by
  rcases apply_cases hx hop.wellFormed with ⟨-, added, hgrown⟩ | ⟨cache?, hcache⟩
  · exact of_grown hgrown
  · rw [hcache]
    exact ⟨hx.of_cache cache?, List.prefix_rfl⟩

/-- **A run extends the index it begins with.** -/
theorem run : ∀ {operations : List Operation} {x : RowIndex}, x.WellFormed →
    (∀ operation ∈ operations, operation.Admissible) → (x.run operations).1.Extends x := by
  intro operations
  induction operations with
  | nil => intro x hx _; exact refl hx
  | cons operation rest ih =>
    intro x hx hops
    have hstep : (x.apply operation).state.Extends x := apply hx (hops operation List.mem_cons_self)
    exact hstep.trans <| ih hstep.wellFormed fun other hother =>
      hops other (List.mem_cons_of_mem _ hother)

/-! ### Old entries of the tables -/

theorem chunkCount_le (h : y.Extends x) : x.chunkCount ≤ y.chunkCount := by
  have hlength := h.chunks_prefix.length_le
  rwa [Array.length_toList, Array.length_toList] at hlength

/-- An old chunk keeps its id. -/
theorem chunk_eq (h : y.Extends x) {chunkId : Nat} (hid : chunkId < x.chunkCount) :
    y.chunk chunkId = x.chunk chunkId := by
  have hlength : chunkId < x.chunks.items.toList.length := by rwa [Array.length_toList]
  have hlookup : y.chunks.items.toList[chunkId]? = x.chunks.items.toList[chunkId]? := by
    obtain ⟨added, hadded⟩ := h.chunks_prefix
    rw [← hadded, List.getElem?_append_left hlength]
  rw [Array.getElem?_toList, Array.getElem?_toList] at hlookup
  unfold chunk Result.element
  rw [hlookup]

/-- As many rows as before come before an old chunk, and before the first one
that was added. -/
theorem rowsBefore_eq (h : y.Extends x) {chunkId : Nat} (hid : chunkId ≤ x.chunkCount) :
    y.rowsBefore chunkId = x.rowsBefore chunkId := by
  obtain ⟨added, hadded⟩ := h.chunks_prefix
  have hcounts : y.rowCounts = x.rowCounts ++ added.map (·.chunk.positionCount) := by
    rw [rowCounts, ← hadded, List.map_append, rowCounts]
  unfold rowsBefore
  rw [hcounts, List.take_append_of_le_length (by rwa [length_rowCounts])]

/-- An old chunk begins where it did. -/
theorem chunkOffset_eq (h : y.Extends x) (hx : x.WellFormed) {chunkId : Nat}
    (hid : chunkId ≤ x.chunkCount) : y.chunkOffset chunkId = x.chunkOffset chunkId := by
  rw [h.wellFormed.chunkOffset_eq (Nat.le_trans hid h.chunkCount_le), hx.chunkOffset_eq hid,
    h.rowsBefore_eq hid]

/-- The rows of an index are still there when it has grown. -/
theorem holds (h : y.Extends x) {l : Location} (hl : x.Holds l) : y.Holds l := by
  have hchunk := h.chunk_eq hl.chunkId_lt
  obtain ⟨shared, hshared, hlt⟩ := hl
  refine ⟨shared, ?_, hlt⟩
  rw [← Result.element_eq_ok_iff] at hshared ⊢
  exact hchunk.trans hshared

/-! ### Old positions -/

/-- **An old position is located where it was.** -/
theorem locate_eq (h : y.Extends x) (hx : x.WellFormed) (hp : p < x.positionCount) :
    y.locate p = x.locate p := by
  obtain ⟨l, hl, rfl⟩ := exists_positionOf_eq hx hp
  -- What was found there is a row with as many rows before it as ever.
  have hposition : y.positionOf l = x.positionOf l := by
    rw [positionOf, h.rowsBefore_eq (Nat.le_of_lt hl.chunkId_lt), positionOf]
  rw [locate_positionOf hx hl, ← hposition]
  exact locate_positionOf h.wellFormed (h.holds hl)

/-- An old position belongs to the same chunk in both indices. -/
theorem exists_owner (h : y.Extends x) (hx : x.WellFormed) (hp : p < x.positionCount) :
    ∃ l shared, (x.locate p = .ok l ∧ x.chunk l.chunkId = .ok shared) ∧
      y.locate p = .ok l ∧ y.chunk l.chunkId = .ok shared := by
  obtain ⟨l, hl⟩ := (exists_locate_iff hx).2 hp
  obtain ⟨shared, hshared, -⟩ := exists_chunk_of_locate hx hl
  have hid : l.chunkId < x.chunkCount := ((locate_eq_ok_iff hx).1 hl).1.chunkId_lt
  exact ⟨l, shared, ⟨hl, hshared⟩, (h.locate_eq hx hp).trans hl, (h.chunk_eq hid).trans hshared⟩

theorem address_eq (h : y.Extends x) (hx : x.WellFormed) (hp : p < x.positionCount) :
    y.address p = x.address p := by
  unfold address
  rw [h.locate_eq hx hp]

/-- A cell of an old row is read as before. -/
theorem readCell_eq {α : Type} (h : y.Extends x) (hx : x.WellFormed) (hp : p < x.positionCount)
    (read : Block → Nat → Result α) (column : Nat) :
    y.readCell read column p = x.readCell read column p := by
  obtain ⟨l, shared, ⟨hl, hshared⟩, hl', hshared'⟩ := h.exists_owner hx hp
  rw [RowIndex.readCell_eq hl hshared, RowIndex.readCell_eq hl' hshared']

/-- **All reads at an old position have the answers they had.** -/
theorem agreesAt (h : y.Extends x) (hx : x.WellFormed) (hp : p < x.positionCount) :
    y.AgreesAt x p := by
  obtain ⟨l, shared, ⟨hl, hshared⟩, hl', hshared'⟩ := h.exists_owner hx hp
  -- Old and new lookup end at one cell of one chunk, and every read goes on from there.
  exact {
    locate_eq := h.locate_eq hx hp
    address_eq := h.address_eq hx hp
    chunk_eq := by
      intro m hm
      exact h.chunk_eq ((locate_eq_ok_iff hx).1 hm).1.chunkId_lt
    getValue_eq := h.readCell_eq hx hp Block.getValue
    getInt_eq := h.readCell_eq hx hp Block.getInt
    getLong_eq := h.readCell_eq hx hp Block.getLong
    getDouble_eq := h.readCell_eq hx hp Block.getDouble
    isNull_eq := h.readCell_eq hx hp Block.isNull
    writeTo_eq := fun column builder =>
      h.readCell_eq hx hp (fun block offset => block.writeTo offset builder) column
    row_eq := by rw [RowIndex.row_eq hl hshared, RowIndex.row_eq hl' hshared']
    hashCode_eq := by
      intro _
      rw [RowIndex.hashCode_eq hl hshared, RowIndex.hashCode_eq hl' hshared']
    equals_eq := by
      intro q hq
      obtain ⟨m, other, ⟨hm, hother⟩, hm', hother'⟩ := h.exists_owner hx hq
      rw [RowIndex.equals_eq hl hshared hm hother, RowIndex.equals_eq hl' hshared' hm' hother']
    equalsChunkRow_eq := by
      intro chunk other
      unfold equalsChunkRow
      rw [hl, hl']
      simp only [bind, Except.bind, hshared, hshared'] }

/-- An address that led to a row still leads to it. -/
theorem resolve_eq_ok (h : y.Extends x) {a : RowAddress} {found : SharedChunk × Row}
    (hfound : x.resolve a = .ok found) : y.resolve a = .ok found := by
  obtain ⟨shared, row⟩ := found
  obtain ⟨hshared, hlt, hrow⟩ := resolve_eq_ok_iff.1 hfound
  have hid : a.chunkId < x.chunkCount :=
    (Array.getElem?_eq_some_iff.1 (Result.element_eq_ok_iff.1 hshared)).1
  exact resolve_eq_ok_iff.2 ⟨(h.chunk_eq hid).trans hshared, hlt, hrow⟩

end Extends

/-! ### What an operation leaves alone -/

/-- An operation that fails leaves the tables as they were, and so does every
operation on the cache. -/
theorem apply_tables (hx : x.WellFormed) (hop : operation.Admissible)
    (h : (∃ failure, (x.apply operation).status = .error failure) ∨ operation.isOnCache = true) :
    (x.apply operation).state.chunks = x.chunks ∧
      (x.apply operation).state.offsets = x.offsets := by
  have hcache : ∀ change, (x.changeCache change).state.chunks = x.chunks ∧
      (x.changeCache change).state.offsets = x.offsets := by
    intro change
    obtain ⟨cache?, hstate⟩ := x.changeCache_eq_or change
    rw [hstate]
    exact ⟨rfl, rfl⟩
  -- An append or a merge that succeeds falls under neither condition.
  cases operation with
  | append shared =>
    rcases apply_append_cases hx shared with ⟨failure, happly⟩ | ⟨y, happly, -, -⟩
    · rw [happly]
      exact ⟨rfl, rfl⟩
    · rw [happly] at h
      rcases h with ⟨failure, hfailure⟩ | hcall
      · cases hfailure
      · cases hcall
  | merge sources =>
    rcases apply_merge_cases hx (hop.wellFormed sources rfl) with
      ⟨failure, happly⟩ | ⟨hstatus, -, -⟩
    · rw [happly]
      exact ⟨rfl, rfl⟩
    · rw [hstatus] at h
      rcases h with ⟨failure, hfailure⟩ | hcall
      · cases hfailure
      · cases hcall
  | setSource source =>
    rcases apply_setSource_cases x source with ⟨failure, happly⟩ | ⟨happly, -⟩
    · rw [happly]
      exact ⟨rfl, rfl⟩
    · rw [happly]
      exact ⟨rfl, rfl⟩
  | openCache => exact hcache _
  | populate chunkId => exact hcache _
  | closeCache => exact hcache _

/-- An operation that adds chunks, or would, leaves the cache as it was. -/
theorem apply_cache (hx : x.WellFormed) (hop : operation.Admissible)
    (h : operation.isOnCache = false) : (x.apply operation).state.cache? = x.cache? := by
  cases operation with
  | append shared =>
    rcases apply_append_cases hx shared with ⟨failure, happly⟩ | ⟨y, happly, -, hgrown⟩
    · rw [happly]
      rfl
    · rw [happly]
      exact hgrown.cache_eq
  | merge sources =>
    rcases apply_merge_cases hx (hop.wellFormed sources rfl) with
      ⟨failure, happly⟩ | ⟨-, -, hgrown⟩
    · rw [happly]
      rfl
    · exact hgrown.cache_eq
  | setSource _ => cases h
  | openCache => cases h
  | populate _ => cases h
  | closeCache => cases h

/-! ### The main theorem -/

/-- **What could be read of an index can be read of it after any run.**  Its old
positions are located and addressed as before, in the very same chunks, and all
reads at them have the same answers; addresses still lead to the rows they led
to; old chunks keep their ids and begin where they did.  At any time, an operation
that fails or is one on the cache leaves the tables as they are, and one that adds
chunks leaves the cache. -/
theorem old_rows_stay {operations : List Operation} (hx : Reachable x)
    (hops : ∀ operation ∈ operations, operation.Admissible) (hrun : (x.run operations).1 = y) :
    (∀ p < x.positionCount, y.AgreesAt x p) ∧
    (∀ a found, x.resolve a = .ok found → y.resolve a = .ok found) ∧
    (∀ chunkId < x.chunkCount, y.chunk chunkId = x.chunk chunkId ∧
      y.chunkOffset chunkId = x.chunkOffset chunkId ∧
      ∀ offset column builder, y.writeChunkCellTo ⟨chunkId, offset⟩ column builder =
        x.writeChunkCellTo ⟨chunkId, offset⟩ column builder) ∧
    ∀ operation : Operation, operation.Admissible →
      ((∃ failure, (y.apply operation).status = .error failure) ∨ operation.isOnCache = true →
        (y.apply operation).state.chunks = y.chunks ∧
          (y.apply operation).state.offsets = y.offsets) ∧
      (operation.isOnCache = false → (y.apply operation).state.cache? = y.cache?) := by
  have hwell := hx.wellFormed
  have hextends : y.Extends x := hrun ▸ Extends.run hwell hops
  refine ⟨fun p hp => hextends.agreesAt hwell hp, fun a found => hextends.resolve_eq_ok, ?_, ?_⟩
  · intro chunkId hid
    have hchunk := hextends.chunk_eq hid
    refine ⟨hchunk, hextends.chunkOffset_eq hwell (Nat.le_of_lt hid), ?_⟩
    intro offset column builder
    unfold writeChunkCellTo
    rw [hchunk]
  · intro operation hop
    exact ⟨apply_tables hextends.wellFormed hop, apply_cache hextends.wellFormed hop⟩

/-- An index that ends with an empty chunk grows by an empty chunk and by a merge;
a chunk that its open cache forbids is refused, and the old row stays. -/
theorem old_rows_stay_empty_chunks :
    ∃ x operations y,
      ofChunks [⟨0, .ofLongs [7]⟩, ⟨1, .ofLongs []⟩] = x ∧
      ([.append ⟨2, .ofLongs []⟩, .merge [ofChunks [⟨3, .ofLongs []⟩, ⟨4, .ofLongs [8]⟩]],
        .setSource (KeyColumns.source ⟨[(0, .long)]⟩), .openCache,
        .append ⟨5, .ofLongs [9]⟩] : List Operation) = operations ∧
      (x.run operations).1 = y ∧ y.offsets.items = #[0, 1, 1, 1, 1, 2] ∧
      y.locate 0 = x.locate 0 ∧ y.getLong 0 0 = .ok 7 ∧
      (y.apply (.append ⟨5, .ofLongs [9]⟩)).state.offsets = y.offsets := by
  refine ⟨_, _, _, rfl, rfl, rfl, rfl, ?_⟩
  have hops : ∀ operation ∈ ([.append ⟨2, .ofLongs []⟩,
      .merge [ofChunks [⟨3, .ofLongs []⟩, ⟨4, .ofLongs [8]⟩]],
      .setSource (KeyColumns.source ⟨[(0, .long)]⟩), .openCache,
      .append ⟨5, .ofLongs [9]⟩] : List Operation), operation.Admissible := by
    intro operation h
    simp only [List.mem_cons, List.not_mem_nil, or_false] at h
    rcases h with rfl | rfl | rfl | rfl | rfl
    · trivial
    · exact List.forall_mem_singleton.2 (reachable_ofChunks _)
    · trivial
    · trivial
    · trivial
  obtain ⟨hreads, -, -, hnext⟩ :=
    old_rows_stay (reachable_ofChunks [⟨0, .ofLongs [7]⟩, ⟨1, .ofLongs []⟩]) hops rfl
  have hrow := hreads 0 (by decide)
  have hrefused := (hnext (.append ⟨5, .ofLongs [9]⟩) trivial).1 (Or.inl ⟨_, rfl⟩)
  have hl := (locate_eq_ok_iff (reachable_ofChunks [⟨0, .ofLongs [7]⟩, ⟨1, .ofLongs []⟩]).wellFormed
    (p := 0) (l := ⟨0, 0⟩)).2 ⟨⟨_, rfl, Nat.one_pos⟩, rfl⟩
  refine ⟨hrow.locate_eq, (hrow.getLong_eq 0).trans ?_, hrefused.2⟩
  exact (RowIndex.readCell_eq hl rfl Block.getLong 0).trans rfl

end RowIndex

end Columnar
