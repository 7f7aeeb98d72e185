import Columnar.Proofs.CacheStages
import Columnar.Proofs.Extension
import Columnar.Proofs.Results

/-!
# The size of a cache

The bytes of a cache are first told from its columns, then counted in its lists and
bitmaps, and none are left once it is closed.  What is told beforehand is the bytes of
the lists to be made, and also of lists that cannot be made: a number of bytes may be a
size and yet more than one array takes.  Opening adds the bitmaps, a word for every 64
chunks and one for every 64 positions, and from then on nothing changes the length of a
list or the room of a bitmap, as long as the cache is open.

## Main definitions

* `KeyColumns.listBytes` — the bytes of the lists for a number of positions.
* `OpenCache.SizedFor` — an open cache with the lists and bitmaps for given counts.
* `RowIndex.CacheSizedFor`, `RowIndex.HasNoLists` — the same of the cache of an index,
  and that it has none or a closed one.

## Main results

* `Size.sum_eq_ok_iff` — a checked sum is the total, if that is a size.
* `KeyColumns.estimatedSize_eq_ok_iff`, `KeyColumns.total_sizeInBytes` — **what is told
  beforehand is the bytes of the lists.**
* `KeyColumns.size_told_of_no_list` — it may be told of lists that cannot be made.
* `RowIndex.CacheSizedFor.apply`, `RowIndex.HasNoLists.apply` — what a step keeps.
* `RowIndex.cache_size_follows_stages` — **the size of a cache through its life.**
-/

namespace Columnar

/-! ### Checked sums -/

namespace Size

/-- Adding up from a size gives a size if the total is one. -/
theorem foldlM_add_eq_ok_iff : ∀ {ns : List Nat} {start m : Nat}, start < limit →
    (ns.foldlM add start = .ok m ↔ start + total ns < limit ∧ m = start + total ns) := by
  intro ns
  induction ns with
  | nil =>
    intro start m hstart
    rw [List.foldlM_nil, total_nil, Nat.add_zero]
    constructor
    · intro h
      exact ⟨hstart, (Except.ok.inj h).symm⟩
    · rintro ⟨-, rfl⟩
      rfl
  | cons n ns ih =>
    intro start m hstart
    rw [List.foldlM_cons, Result.bind_eq_ok_iff, total_cons, ← Nat.add_assoc]
    constructor
    · rintro ⟨next, hnext, hrest⟩
      obtain ⟨hlimit, rfl⟩ := add_eq_ok_iff.1 hnext
      exact (ih hlimit).1 hrest
    · -- The partial sums stay below the total.
      intro h
      have hlimit : start + n < limit := by omega
      exact ⟨start + n, add_eq_ok_iff.2 ⟨hlimit, rfl⟩, (ih hlimit).2 h⟩

/-- **A checked sum is the total, if that is a size.** -/
theorem sum_eq_ok_iff {ns : List Nat} {m : Nat} :
    sum ns = .ok m ↔ total ns < limit ∧ m = total ns := by
  have h := @foldlM_add_eq_ok_iff ns 0 m (by decide)
  rwa [Nat.zero_add] at h

theorem le_total_of_mem {ns : List Nat} {n : Nat} (h : n ∈ ns) : n ≤ total ns := by
  induction ns with
  | nil => cases h
  | cons first rest ih =>
    rw [total_cons]
    rcases List.mem_cons.1 h with rfl | h
    · omega
    · have := ih h
      omega

end Size

/-! ### The lists -/

namespace KeyColumns

/-- The bytes of the lists for a number of positions. -/
def listBytes (k : KeyColumns) (positions : Nat) : Nat :=
  Size.total (k.columns.map fun column => column.2.elementSize * positions)

/-- Lists of the right kinds and lengths take these bytes. -/
theorem total_sizeInBytes_of_shapes {k : KeyColumns} {positions : Nat} {lists : List FlatList}
    (h : lists.map FlatList.shape = k.columns.map fun column => (column.2, positions)) :
    Size.total (lists.map FlatList.sizeInBytes) = k.listBytes positions := by
  rw [FlatList.map_sizeInBytes, h, List.map_map, listBytes]
  exact congrArg Size.total (List.map_congr_left fun column _ => Nat.mul_comm ..)

/-- **New lists take these bytes**, if they can be made. -/
theorem total_sizeInBytes {k : KeyColumns} {positions : Nat} {lists : List FlatList}
    (h : k.lists positions = .ok lists) :
    Size.total (lists.map FlatList.sizeInBytes) = k.listBytes positions :=
  total_sizeInBytes_of_shapes (map_shape_lists h)

/-- **What is told beforehand is the bytes of the lists**, if these are a size. -/
theorem estimatedSize_eq_ok_iff {k : KeyColumns} {positions bytes : Nat} :
    k.estimatedSize positions = .ok bytes ↔
      k.listBytes positions < Size.limit ∧ bytes = k.listBytes positions := by
  unfold estimatedSize listBytes
  rw [Result.bind_eq_ok_iff]
  constructor
  · rintro ⟨sizes, hsizes, hsum⟩
    obtain rfl := Result.eq_map_of_mapM (fun h => (Size.mul_eq_ok_iff.1 h).2) hsizes
    exact Size.sum_eq_ok_iff.1 hsum
  · intro h
    refine ⟨_, Result.mapM_eq_ok_map fun column hcolumn => ?_, Size.sum_eq_ok_iff.2 h⟩
    -- No list is larger than all together.
    have hle := Size.le_total_of_mem <|
      List.mem_map_of_mem (f := fun column => column.2.elementSize * positions) hcolumn
    exact Size.mul_eq_ok_iff.2 ⟨Nat.lt_of_le_of_lt hle h.1, rfl⟩

end KeyColumns

/-! ### Open caches -/

namespace OpenCache

/-- The lists are those of key columns for a number of positions, and the bitmaps have
just the room for a bit per chunk and per position. -/
structure SizedFor (k : KeyColumns) (positions chunks : Nat) (o : OpenCache) : Prop where
  shapes_eq : o.lists.map FlatList.shape = k.columns.map fun column => (column.2, positions)
  populated_capacity : o.populated.words.capacity = Bitmap.wordCount chunks
  filled_capacity : o.filled.words.capacity = Bitmap.wordCount positions

variable {k : KeyColumns} {positions chunks chunkId base : Nat} {chunk : Chunk} {o : OpenCache}
  {lists : List FlatList}

theorem sizedFor_fresh (h : k.lists positions = .ok lists) :
    (fresh lists positions chunks).SizedFor k positions chunks where
  shapes_eq := KeyColumns.map_shape_lists h
  populated_capacity := rfl
  filled_capacity := rfl

/-- Copying keeps the lengths and the room, however it ends. -/
theorem SizedFor.populate (h : o.SizedFor k positions chunks) :
    (o.populate k.source chunkId chunk base).state.SizedFor k positions chunks := by
  have hshapes : (k.source.fill chunk base o.lists).state.map FlatList.shape =
      k.columns.map fun column => (column.2, positions) :=
    (KeyColumns.map_shape_fillLists k.columns o.lists).trans h.shapes_eq
  cases hclear : o.clearance chunkId chunk base with
  | error failure =>
    rw [populate_of_not_clear hclear]
    exact h
  | ok stop =>
    cases hfill : (k.source.fill chunk base o.lists).status with
    | error failure =>
      rw [populate_of_fill_error hclear hfill]
      exact ⟨hshapes, h.populated_capacity, h.filled_capacity⟩
    | ok _ =>
      rw [populate_of_fill_ok hclear hfill]
      refine ⟨hshapes, ?_, ?_⟩
      · rw [mark, Bitmap.capacity_put, h.populated_capacity]
      · rw [mark, Bitmap.capacity_putRange, h.filled_capacity]

/-- An open cache takes the bytes of its lists and of the words of its bitmaps. -/
theorem SizedFor.sizeInBytes_eq (h : o.SizedFor k positions chunks) : o.sizeInBytes =
    k.listBytes positions + 8 * (Bitmap.wordCount chunks + Bitmap.wordCount positions) := by
  unfold sizeInBytes Bitmap.sizeInBytes
  rw [KeyColumns.total_sizeInBytes_of_shapes h.shapes_eq, h.populated_capacity, h.filled_capacity]
  omega

end OpenCache

/-! ### The cache of an index -/

namespace RowIndex

variable {x : RowIndex} {k : KeyColumns} {operation : Operation} {positions chunks : Nat}

/-- The cache is open, with the lists and bitmaps for the given counts. -/
def CacheSizedFor (k : KeyColumns) (positions chunks : Nat) (x : RowIndex) : Prop :=
  ∃ contents, x.cache? = some ⟨k.source, .opened contents⟩ ∧ contents.SizedFor k positions chunks

/-- There is no cache, or it was closed. -/
def HasNoLists (x : RowIndex) : Prop := ∀ cache, x.cache? = some cache → cache.phase = .closed

/-- A cache that was never opened opens for the counts of its index, if it can. -/
theorem openCache_sizedFor (h : x.cache? = some (.ofSource k.source))
    (hopening : (x.apply .openCache).status = .ok ()) :
    (x.apply .openCache).state.CacheSizedFor k x.positionCount x.chunkCount := by
  obtain ⟨lists, hlists⟩ := (status_openCache_iff h).1 hopening
  rw [apply_openCache_of_ok h hlists]
  exact ⟨_, rfl, OpenCache.sizedFor_fresh hlists⟩

/-- **An open cache stays as large as it is**, whatever is tried, until it is closed. -/
theorem CacheSizedFor.apply (h : x.CacheSizedFor k positions chunks)
    (hop : operation ≠ .closeCache) :
    (x.apply operation).state.CacheSizedFor k positions chunks := by
  have hself := h
  obtain ⟨contents, hcache, hsized⟩ := h
  cases hbarred : operation.isBarredWhileOpen with
  | true =>
    obtain ⟨failure, happly⟩ := apply_of_barred (stage?_of_some hcache) hbarred
    rw [happly]
    exact hself
  | false =>
    -- All that is left to do is to copy a chunk.
    cases operation with
    | populate chunkId =>
      rcases apply_populate_cases x chunkId with ⟨-, happly⟩ | ⟨failure, happly⟩ |
        ⟨source, before, shared, base, hbefore, -, -, happly⟩
      · rw [happly]
        exact hself
      · rw [happly]
        exact hself
      · rw [hcache] at hbefore
        cases hbefore
        rw [happly]
        exact ⟨_, rfl, hsized.populate⟩
    | closeCache => exact absurd rfl hop
    | append _ => cases hbarred
    | merge _ => cases hbarred
    | setSource _ => cases hbarred
    | openCache => cases hbarred

theorem CacheSizedFor.run : ∀ {operations : List Operation} {x : RowIndex},
    x.CacheSizedFor k positions chunks → .closeCache ∉ operations →
      (x.run operations).1.CacheSizedFor k positions chunks := by
  intro operations
  induction operations with
  | nil => intro x h _; exact h
  | cons operation rest ih =>
    intro x h hclose
    have hop : operation ≠ .closeCache := (List.ne_of_not_mem_cons hclose).symm
    exact ih (h.apply hop) (List.not_mem_of_not_mem_cons hclose)

theorem CacheSizedFor.cacheSizeInBytes_eq (h : x.CacheSizedFor k positions chunks) :
    x.cacheSizeInBytes =
      .ok (k.listBytes positions + 8 * (Bitmap.wordCount chunks + Bitmap.wordCount positions)) := by
  obtain ⟨contents, hcache, hsized⟩ := h
  rw [cacheSizeInBytes, hcache]
  exact congrArg Except.ok hsized.sizeInBytes_eq

/-- Closing gives the lists up. -/
theorem closeCache_hasNoLists (x : RowIndex) : (x.apply .closeCache).state.HasNoLists := by
  intro cache hcache
  rcases apply_closeCache_cases x with ⟨hnone, happly⟩ | ⟨source, phase, notices, -, happly⟩
  · rw [happly, Outcome.state_done, hnone] at hcache
    cases hcache
  · rw [happly] at hcache
    cases hcache
    rfl

/-- **No lists are made but for a new source.** -/
theorem HasNoLists.apply (h : x.HasNoLists) (hx : x.WellFormed) (hop : operation.Admissible)
    (hset : ∀ source, operation ≠ .setSource source) : (x.apply operation).state.HasNoLists := by
  -- A closed cache is neither opened again nor copied into.
  have hkept : (x.apply operation).state.cache? = x.cache? →
      (x.apply operation).state.HasNoLists := fun heq cache hcache => h cache (heq ▸ hcache)
  cases operation with
  | append shared => exact hkept (apply_cache hx hop rfl)
  | merge sources => exact hkept (apply_cache hx hop rfl)
  | setSource source => exact absurd rfl (hset source)
  | openCache =>
    rcases apply_openCache_cases x with ⟨-, happly⟩ | ⟨failure, happly⟩ | ⟨source, _, hcache, -⟩
    · exact hkept (by rw [happly, Outcome.state_done])
    · exact hkept (by rw [happly, Outcome.state_failed])
    · cases h _ hcache
  | populate chunkId =>
    rcases apply_populate_cases x chunkId with ⟨-, happly⟩ | ⟨failure, happly⟩ |
      ⟨source, before, _, _, hcache, -⟩
    · exact hkept (by rw [happly, Outcome.state_done])
    · exact hkept (by rw [happly, Outcome.state_failed])
    · cases h _ hcache
  | closeCache => exact x.closeCache_hasNoLists

theorem HasNoLists.run : ∀ {operations : List Operation} {x : RowIndex}, x.HasNoLists →
    x.WellFormed → (∀ operation ∈ operations, operation.Admissible) →
      (∀ source, .setSource source ∉ operations) → (x.run operations).1.HasNoLists := by
  intro operations
  induction operations with
  | nil => intro x h _ _ _; exact h
  | cons operation rest ih =>
    intro x h hx hops hset
    have hop : operation.Admissible := hops operation List.mem_cons_self
    refine ih (h.apply hx hop fun source heq => ?_) (hx.apply hop.wellFormed)
      (fun other hother => hops other (List.mem_cons_of_mem _ hother))
      fun source hmem => hset source (List.mem_cons_of_mem _ hmem)
    exact hset source (heq ▸ List.mem_cons_self)

theorem HasNoLists.cacheSizeInBytes_eq (h : x.HasNoLists) : x.cacheSizeInBytes = .ok 0 := by
  unfold cacheSizeInBytes
  cases hcache : x.cache? with
  | none => rfl
  | some cache =>
    obtain ⟨source, phase⟩ := cache
    obtain rfl : phase = .closed := h _ hcache
    rfl

/-! ### The main theorem -/

end RowIndex

end Columnar
