import Columnar.Proofs.Bitmap
import Columnar.Proofs.CacheLife
import Columnar.Proofs.KeyLists
import Columnar.Proofs.Locate
import Mathlib.Data.Finset.Card

/-!
# The marks of an open cache

An open cache keeps two kinds of marks, one per chunk and one per position.
They say the same: a position is marked exactly if the chunk that owns it is.
The marks of the chunks in turn say what the run has done, for they are those of
the chunks copied since the cache was opened.  A position can therefore be read
from a list exactly if its chunk was copied and the list is of the right kind.

## Main definitions

* `OpenCache.Synced` — the two kinds of marks agree.
* `OpenCache.Recorded` — the marks of the chunks agree with the record of a run.
* `RowIndex.cachedRead` — the cached reads of all types as one.
* `RowIndex.CanRead` — what reading a list takes.

## Main results

* `openInvariant_synced`, `openInvariant_recorded`, `openInvariant_shaped` — these
  hold as long as a cache is open.
* `marks_follow_copies` — **what is marked and what can be read is what was
  copied.**
-/

namespace Columnar

/-! ### The two kinds of marks -/

namespace OpenCache

/-- The marks of the positions agree with those of the chunks. -/
structure Synced (chunks : List SharedChunk) (o : OpenCache) : Prop where
  /-- There is a mark for each chunk. -/
  populated_length : o.populated.length = chunks.length
  /-- There is a mark for each position. -/
  filled_length : o.filled.length = startOf chunks chunks.length
  /-- A position has the mark of its chunk. -/
  filled_eq : ∀ {chunkId shared i}, chunks[chunkId]? = some shared →
    i < shared.chunk.positionCount →
      o.filled.bit (startOf chunks chunkId + i) = o.populated.bit chunkId

/-- The marks of the chunks agree with the record of a run. -/
structure Recorded (copied : List Nat) (o : OpenCache) : Prop where
  /-- No chunk is copied twice. -/
  nodup : copied.Nodup
  /-- There is a mark for each chunk that is copied. -/
  lt_length : ∀ chunkId ∈ copied, chunkId < o.populated.length
  /-- The chunks that are copied are marked, and no others. -/
  bit_eq : ∀ chunkId, o.populated.bit chunkId = decide (chunkId ∈ copied)
  /-- The marks are counted. -/
  ones_eq : o.populated.ones = copied.length

theorem Recorded.isPopulated_eq {copied : List Nat} {o : OpenCache} (h : o.Recorded copied)
    (chunkId : Nat) : o.isPopulated chunkId = decide (chunkId ∈ copied) := by
  rw [isPopulated, h.bit_eq]
  by_cases hmem : chunkId ∈ copied
  · simp [hmem, h.lt_length chunkId hmem]
  · simp [hmem]

end OpenCache

/-- **The two kinds of marks agree as long as the cache is open.** -/
theorem openInvariant_synced : OpenInvariant fun chunks _ contents _ => contents.Synced chunks where
  opened _ := by
    refine ⟨rfl, rfl, ?_⟩
    intro chunkId shared i _ _
    rw [OpenCache.fresh, Bitmap.bit_clear, Bitmap.bit_clear]
  failed h _ _ _ := ⟨h.populated_length, h.filled_length, h.filled_eq⟩
  copied := by
    intro chunks source contents copied chunkId shared stop h hshared hclear _
    obtain ⟨hid, -, -, hle, rfl⟩ := OpenCache.clearance_eq_ok_iff.1 hclear
    refine ⟨?_, ?_, ?_⟩
    · rw [OpenCache.mark, Bitmap.length_put]
      exact h.populated_length
    · rw [OpenCache.mark, Bitmap.length_putRange]
      exact h.filled_length
    · intro other owner i howner hi
      rw [OpenCache.mark, Bitmap.bit_putRange _ _ _ hle, Bitmap.bit_put _ _ _ _ hid,
        h.filled_eq howner hi]
      by_cases heq : other = chunkId
      · subst heq
        rw [hshared] at howner
        cases howner
        simp [hi]
      · -- The chunks do not overlap, so the other chunk lies outside the range.
        have hout : ¬ (startOf chunks chunkId ≤ startOf chunks other + i ∧
            startOf chunks other + i < startOf chunks chunkId + shared.chunk.positionCount) :=
          fun hin => heq (startOf_unique howner hshared ⟨by omega, by omega⟩ hin)
        rw [decide_eq_false hout, Bool.false_or, if_neg heq]

/-- **The marked chunks are those in the record.** -/
theorem openInvariant_recorded :
    OpenInvariant fun _ _ contents copied => contents.Recorded copied where
  opened _ := by
    refine ⟨List.nodup_nil, by simp, ?_, rfl⟩
    intro chunkId
    rw [OpenCache.fresh, Bitmap.bit_clear]
    simp
  failed h _ _ _ := ⟨h.nodup, h.lt_length, h.bit_eq, h.ones_eq⟩
  copied := by
    intro chunks source contents copied chunkId shared stop h _ hclear _
    obtain ⟨hid, hbit, -, -, rfl⟩ := OpenCache.clearance_eq_ok_iff.1 hclear
    -- The chunk was cleared for copying, so it has no mark and is not in the record.
    have hnew : chunkId ∉ copied := by
      have := h.bit_eq chunkId
      rw [hbit] at this
      exact of_decide_eq_false this.symm
    refine ⟨List.nodup_cons.2 ⟨hnew, h.nodup⟩, ?_, ?_, ?_⟩
    · intro other hother
      rw [OpenCache.mark, Bitmap.length_put]
      rcases List.mem_cons.1 hother with rfl | hother
      · exact hid
      · exact h.lt_length other hother
    · intro other
      rw [OpenCache.mark, Bitmap.bit_put _ _ _ _ hid, h.bit_eq]
      by_cases heq : other = chunkId <;> simp [heq]
    · rw [OpenCache.mark, Bitmap.ones_put hid hbit, h.ones_eq, List.length_cons]

/-- **The lists of key columns keep the kinds of their columns and have one
element per position.** -/
theorem openInvariant_shaped : OpenInvariant fun chunks source contents _ =>
    ∀ k : KeyColumns, source = k.source → contents.lists.map FlatList.shape =
      k.columns.map fun column => (column.2, startOf chunks chunks.length) where
  opened hlists := by
    rintro k rfl
    exact KeyColumns.map_shape_lists hlists
  failed h _ _ _ := by
    rintro k rfl
    exact (KeyColumns.map_shape_fillLists _ _).trans (h k rfl)
  copied h _ _ _ := by
    rintro k rfl
    exact (KeyColumns.map_shape_fillLists _ _).trans (h k rfl)

/-! ### The marks of an index -/

namespace OpenCache.Synced

variable {x : RowIndex} {o : OpenCache}

/-- The mark of a position is that of the chunk in which it is located. -/
theorem get_filled (h : o.Synced x.chunks.items.toList) (hx : x.WellFormed) {p : Nat}
    {l : Location} (hl : x.locate p = .ok l) :
    o.filled.get p = .ok (o.isPopulated l.chunkId) := by
  obtain ⟨hholds, rfl⟩ := (RowIndex.locate_eq_ok_iff hx).1 hl
  obtain ⟨shared, hshared, hoffset⟩ := hholds
  have hbit : o.filled.bit (x.positionOf l) = o.populated.bit l.chunkId := by
    rw [RowIndex.positionOf, ← RowIndex.startOf_chunks]
    exact h.filled_eq (by rwa [Array.getElem?_toList]) hoffset
  have hid : l.chunkId < o.populated.length := by
    rw [h.populated_length, Array.length_toList]
    exact (Array.getElem?_eq_some_iff.1 hshared).1
  have hposition : x.positionOf l < o.filled.length := by
    rw [h.filled_length, hx.startOf_length]
    exact RowIndex.Holds.positionOf_lt_positionCount ⟨shared, hshared, hoffset⟩ hx
  rw [Bitmap.get_of_lt hposition, hbit, OpenCache.isPopulated, decide_eq_true hid, Bool.true_and]

/-- A position is marked as filled if it is located in a chunk that is marked. -/
theorem isFilled_iff (h : o.Synced x.chunks.items.toList) (hx : x.WellFormed) {p : Nat} :
    o.isFilled p = true ↔ ∃ l, x.locate p = .ok l ∧ o.isPopulated l.chunkId = true := by
  have hcount : o.filled.length = x.positionCount := by
    rw [h.filled_length, hx.startOf_length]
  by_cases hp : p < x.positionCount
  · obtain ⟨l, hl⟩ := (RowIndex.exists_locate_iff hx).2 hp
    have hlength : p < o.filled.length := hcount ▸ hp
    have hget := h.get_filled hx hl
    rw [Bitmap.get_of_lt hlength] at hget
    rw [OpenCache.isFilled, decide_eq_true hlength, Bool.true_and, Except.ok.inj hget]
    constructor
    · intro hmark
      exact ⟨l, hl, hmark⟩
    · rintro ⟨m, hm, hmark⟩
      rw [hl] at hm
      cases hm
      exact hmark
  · -- Past the end there is neither a mark nor a chunk.
    rw [OpenCache.isFilled, hcount, decide_eq_false hp, Bool.false_and]
    constructor
    · intro hfalse
      cases hfalse
    · rintro ⟨l, hl, -⟩
      exact absurd ((RowIndex.exists_locate_iff hx).1 ⟨l, hl⟩) hp

end OpenCache.Synced

/-! ### Cached reads -/

theorem ColumnCache.listAt_eq_ok_iff {c : ColumnCache} {l p : Nat} {list : FlatList} :
    c.listAt l p = .ok list ↔ ∃ contents, c.phase = .opened contents ∧
      contents.isFilled p = true ∧ contents.lists[l]? = some list := by
  unfold listAt
  cases hphase : c.phase with
  | unopened => simp [Result.misuse]
  | closed => simp [Result.misuse]
  | opened contents =>
    simp only [Result.bind_eq_ok_iff, Result.require_eq_ok_iff, Result.nth_eq_ok_iff]
    constructor
    · rintro ⟨_, hfilled, hlist⟩
      exact ⟨contents, rfl, hfilled, hlist⟩
    · rintro ⟨_, heq, hfilled, hlist⟩
      cases heq
      exact ⟨(), hfilled, hlist⟩

/-- The cached reads of all types as one: a list is read if its cache allows it. -/
def RowIndex.cachedRead {α : Type} (x : RowIndex) (read : FlatList → Nat → Result α)
    (list position : Nat) : Result α := do
  read (← (← x.cacheForRead).listAt list position) position

theorem RowIndex.cachedRead_eq_ok_iff {α : Type} {x : RowIndex} {cache : ColumnCache}
    (hcache : x.cache? = some cache) {read : FlatList → Nat → Result α} {l p : Nat} {v : α} :
    x.cachedRead read l p = .ok v ↔ ∃ contents list, cache.phase = .opened contents ∧
      contents.isFilled p = true ∧ contents.lists[l]? = some list ∧ read list p = .ok v := by
  have hread : x.cacheForRead = .ok cache := by rw [cacheForRead, hcache]
  unfold cachedRead
  rw [hread]
  show (cache.listAt l p >>= fun list => read list p) = .ok v ↔ _
  simp only [Result.bind_eq_ok_iff, ColumnCache.listAt_eq_ok_iff]
  constructor
  · rintro ⟨list, ⟨contents, hphase, hfilled, hlist⟩, hv⟩
    exact ⟨contents, list, hphase, hfilled, hlist, hv⟩
  · rintro ⟨contents, list, hphase, hfilled, hlist, hv⟩
    exact ⟨list, ⟨contents, hphase, hfilled, hlist⟩, hv⟩

/-- The read succeeds inside the lists of the given kinds, and only there. -/
def FlatList.ReadsKinds {α : Type} (read : FlatList → Nat → Result α) (kinds : List ListKind) :
    Prop :=
  ∀ list p, (∃ v, read list p = .ok v) ↔ list.kind ∈ kinds ∧ p < list.length

theorem FlatList.readsKinds_getInt : ReadsKinds getInt [.int] := by
  intro list p
  cases list with
  | int xs => simpa [getInt, FlatList.kind, length] using Result.exists_element_iff
  | long xs => simp [getInt, FlatList.kind, Result.misuse]
  | double xs => simp [getInt, FlatList.kind, Result.misuse]

theorem FlatList.readsKinds_getLong : ReadsKinds getLong [.int, .long] := by
  intro list p
  cases list with
  | int xs =>
    simpa [getLong, FlatList.kind, length] using
      Result.exists_map_iff.trans Result.exists_element_iff
  | long xs => simpa [getLong, FlatList.kind, length] using Result.exists_element_iff
  | double xs => simp [getLong, FlatList.kind, Result.misuse]

theorem FlatList.readsKinds_getDouble : ReadsKinds getDouble [.double] := by
  intro list p
  cases list with
  | int xs => simp [getDouble, FlatList.kind, Result.misuse]
  | long xs => simp [getDouble, FlatList.kind, Result.misuse]
  | double xs => simpa [getDouble, FlatList.kind, length] using Result.exists_element_iff

/-- What reading a list takes: the cache is open, the chunk that holds the
position is among those copied, and the list is there and of a suitable kind. -/
def RowIndex.CanRead (x : RowIndex) (cache : ColumnCache) (copied : Nat → Prop)
    (kinds : List ListKind) (list position : Nat) : Prop :=
  ∃ contents l flat, cache.phase = .opened contents ∧ x.locate position = .ok l ∧
    copied l.chunkId ∧ contents.lists[list]? = some flat ∧ flat.kind ∈ kinds

/-- The lists of key columns can be read where their chunks were copied. -/
theorem RowIndex.exists_cachedRead_iff {α : Type} {x : RowIndex} {cache : ColumnCache}
    {copied : List Nat} (hx : x.WellFormed) (hcache : x.cache? = some cache)
    (hopened : ∀ contents, cache.phase = .opened contents →
      contents.Synced x.chunks.items.toList ∧ contents.Recorded copied ∧
        ∀ flat ∈ contents.lists, flat.length = x.positionCount)
    {read : FlatList → Nat → Result α} {kinds : List ListKind}
    (hread : FlatList.ReadsKinds read kinds) {list p : Nat} :
    (∃ v, x.cachedRead read list p = .ok v) ↔ x.CanRead cache (· ∈ copied) kinds list p := by
  simp only [cachedRead_eq_ok_iff hcache, CanRead]
  constructor
  · rintro ⟨v, contents, flat, hphase, hfilled, hflat, hv⟩
    obtain ⟨hsynced, hrecorded, -⟩ := hopened contents hphase
    obtain ⟨l, hl, hmark⟩ := (hsynced.isFilled_iff hx).1 hfilled
    rw [hrecorded.isPopulated_eq] at hmark
    have hkind := ((hread flat p).1 ⟨v, hv⟩).1
    exact ⟨contents, l, flat, hphase, hl, of_decide_eq_true hmark, hflat, hkind⟩
  · rintro ⟨contents, l, flat, hphase, hl, hcopied, hflat, hkind⟩
    obtain ⟨hsynced, hrecorded, hlength⟩ := hopened contents hphase
    have hmark : contents.isPopulated l.chunkId = true := by
      rw [hrecorded.isPopulated_eq, decide_eq_true hcopied]
    -- A list has an element for every position, so a marked one can be read.
    have hp : p < flat.length := by
      rw [hlength flat (List.mem_of_getElem? hflat)]
      exact (exists_locate_iff hx).1 ⟨l, hl⟩
    obtain ⟨v, hv⟩ := (hread flat p).2 ⟨hkind, hp⟩
    exact ⟨v, contents, flat, hphase, (hsynced.isFilled_iff hx).2 ⟨l, hl, hmark⟩, hflat, hv⟩

/-! ### Runs -/

/-- **What is marked and what can be read is what was copied.**  After any run
from a new index, an open cache has a mark per chunk and one per position, a
position is marked like the chunk it is located in, and the marked chunks are
those copied since the cache was opened.  If the lists are those of key columns,
they can be read at the positions of these chunks and nowhere else. -/
theorem marks_follow_copies {options : IndexOptions} {start x : RowIndex}
    {operations : List Operation} (hstart : RowIndex.ofOptions options = .ok start)
    (hops : ∀ operation ∈ operations, operation.Admissible)
    (hrun : (start.run operations).1 = x) {cache : ColumnCache} (hcache : x.cache? = some cache) :
    (∀ contents, cache.phase = .opened contents →
      contents.populated.length = x.chunkCount ∧ contents.filled.length = x.positionCount ∧
      (∀ p < x.positionCount, ∃ l, x.locate p = .ok l ∧
        contents.filled.get p = .ok (cache.isPopulated l.chunkId)) ∧
      (∀ chunkId, cache.isPopulated chunkId = true ↔ start.Copied operations chunkId) ∧
      ∃ ids : Finset Nat, (∀ chunkId, chunkId ∈ ids ↔ start.Copied operations chunkId) ∧
        cache.populatedChunks = ids.card) ∧
    ∀ k : KeyColumns, cache.source = k.source →
      (∀ contents, cache.phase = .opened contents →
        contents.lists.map FlatList.kind = k.columns.map Prod.snd) ∧
      ∀ list p,
        ((∃ v, x.cachedLong list p = .ok v) ↔
          x.CanRead cache (start.Copied operations) [.int, .long] list p) ∧
        ((∃ v, x.cachedInt list p = .ok v) ↔
          x.CanRead cache (start.Copied operations) [.int] list p) ∧
        ((∃ v, x.cachedDouble list p = .ok v) ↔
          x.CanRead cache (start.Copied operations) [.double] list p) := by
  subst hrun
  obtain ⟨source, phase⟩ := cache
  have hx : (start.run operations).1.WellFormed :=
    ((Reachable.start hstart).run hops).wellFormed
  have hmarks : ∀ contents, phase = .opened contents →
      contents.Synced (start.run operations).1.chunks.items.toList ∧
        contents.Recorded (start.copiedIds operations) := by
    rintro contents rfl
    exact ⟨openInvariant_synced.of_run hstart hops hcache,
      openInvariant_recorded.of_run hstart hops hcache⟩
  constructor
  · rintro contents rfl
    obtain ⟨hsynced, hrecorded⟩ := hmarks contents rfl
    refine ⟨?_, ?_, ?_, ?_, ?_⟩
    · rw [hsynced.populated_length, Array.length_toList]
      rfl
    · rw [hsynced.filled_length, hx.startOf_length]
    · intro p hp
      obtain ⟨l, hl⟩ := (RowIndex.exists_locate_iff hx).2 hp
      exact ⟨l, hl, hsynced.get_filled hx hl⟩
    · intro chunkId
      show contents.isPopulated chunkId = true ↔ _
      rw [hrecorded.isPopulated_eq, decide_eq_true_eq, RowIndex.mem_copiedIds_iff]
    · refine ⟨(start.copiedIds operations).toFinset, ?_, ?_⟩
      · intro chunkId
        rw [List.mem_toFinset, RowIndex.mem_copiedIds_iff]
      · show contents.populated.ones = _
        rw [hrecorded.ones_eq, List.toFinset_card_of_nodup hrecorded.nodup]
  · rintro k rfl
    have hshape : ∀ contents, phase = .opened contents →
        contents.lists.map FlatList.shape = k.columns.map fun column =>
          (column.2, (start.run operations).1.positionCount) := by
      rintro contents rfl
      have h := openInvariant_shaped.of_run hstart hops hcache k rfl
      rwa [hx.startOf_length] at h
    have hopened : ∀ contents, phase = .opened contents →
        contents.Synced (start.run operations).1.chunks.items.toList ∧
          contents.Recorded (start.copiedIds operations) ∧
            ∀ flat ∈ contents.lists, flat.length = (start.run operations).1.positionCount := by
      intro contents hphase
      refine ⟨(hmarks contents hphase).1, (hmarks contents hphase).2, ?_⟩
      intro flat hflat
      -- All lists have the same length, whatever their kinds.
      have hmem := List.mem_map_of_mem (f := FlatList.shape) hflat
      rw [hshape contents hphase] at hmem
      obtain ⟨column, -, heq⟩ := List.mem_map.1 hmem
      exact (congrArg Prod.snd heq).symm
    have hcopied : start.Copied operations = (· ∈ start.copiedIds operations) :=
      funext fun _ => propext RowIndex.mem_copiedIds_iff.symm
    rw [hcopied]
    refine ⟨?_, fun list p => ⟨?_, ?_, ?_⟩⟩
    · intro contents hphase
      have h := congrArg (List.map Prod.fst) (hshape contents hphase)
      rwa [List.map_map, List.map_map] at h
    · exact RowIndex.exists_cachedRead_iff hx hcache hopened FlatList.readsKinds_getLong
    · exact RowIndex.exists_cachedRead_iff hx hcache hopened FlatList.readsKinds_getInt
    · exact RowIndex.exists_cachedRead_iff hx hcache hopened FlatList.readsKinds_getDouble

/-- An empty chunk and a chunk with a row are copied, with failures between them. -/
theorem marks_follow_copies_two :
    ∃ x cache, RowIndex.ofCopied [⟨0, .ofLongs [7, 8]⟩, ⟨1, .ofLongs []⟩, ⟨2, .ofLongs [9]⟩]
        ⟨[(0, .long)]⟩ [1, 1, 9, 2] = x ∧
      x.cache? = some cache ∧ cache.populatedChunks = 2 ∧ cache.isPopulated 0 = false ∧
      (∃ v, x.cachedLong 0 2 = .ok v) ∧ ¬ ∃ v, x.cachedDouble 0 2 = .ok v := by
  obtain ⟨hopened, hlists⟩ := @marks_follow_copies .usual RowIndex.empty _
    (Operation.copying [⟨0, .ofLongs [7, 8]⟩, ⟨1, .ofLongs []⟩, ⟨2, .ofLongs [9]⟩]
      ⟨[(0, .long)]⟩ [1, 1, 9, 2])
    rfl Operation.admissible_of_mem_copying rfl _ rfl
  obtain ⟨-, -, hfilled, hmark, ids, hids, hcount⟩ := hopened _ rfl
  obtain ⟨-, hreads⟩ := hlists ⟨[(0, .long)]⟩ rfl
  simp only [← RowIndex.mem_copiedIds_iff] at hmark hids
  refine ⟨_, _, rfl, rfl, ?_, ?_, ?_, ?_⟩
  · have heq : ids = [2, 1].toFinset := by
      ext chunkId
      rw [hids, List.mem_toFinset]
      rfl
    rw [hcount, heq]
    rfl
  · rw [← Bool.not_eq_true, hmark]
    show 0 ∉ [2, 1]
    decide
  · obtain ⟨l, hl, hget⟩ := hfilled 2 (by decide)
    have hcopied := RowIndex.mem_copiedIds_iff.1 ((hmark l.chunkId).1 (Except.ok.inj hget).symm)
    exact (hreads 0 2).1.2 ⟨_, l, _, rfl, hl, hcopied, rfl, by decide⟩
  · intro h
    obtain ⟨_, _, _, hphase, -, -, hflat, hkind⟩ := (hreads 0 2).2.2.1 h
    cases hphase
    cases hflat
    cases hkind
    contradiction

end Columnar
