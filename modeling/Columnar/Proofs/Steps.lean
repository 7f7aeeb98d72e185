import Columnar.Index.Operation
import Columnar.Proofs.Growth

/-!
# What each operation does

For every operation there is one statement of all it can do to an index: how it
can fail, which leaves the index as it was unless a copy into the cache stops
halfway, and what it leaves behind if it does not fail.  All that is shown of
runs goes through these.

## Main definitions

* `OpenCache.fresh` — the contents of a cache just opened.

## Main results

* `RowIndex.apply_append_cases`, `RowIndex.apply_merge_cases` — operations that add
  chunks.
* `RowIndex.apply_setSource_cases`, `RowIndex.apply_openCache_cases`,
  `RowIndex.apply_populate_cases`, `RowIndex.apply_closeCache_cases` — operations on
  the cache.
-/

namespace Columnar

/-- The contents of a cache that was just opened with the given lists. -/
def OpenCache.fresh (lists : List FlatList) (positions chunks : Nat) : OpenCache :=
  ⟨lists, .clear chunks, .clear positions⟩

/-- The lists of a new cache decide whether it can be opened. -/
theorem ColumnCache.openFor_of_ok {source : ListSource} {positions : Nat} {lists : List FlatList}
    (h : source.lists positions = .ok lists) (chunks : Nat) :
    (ofSource source).openFor positions chunks =
      .reporting ⟨source, .opened (.fresh lists positions chunks)⟩
        (.cacheOpened lists.length positions chunks) := by
  simp only [openFor, ofSource, h]
  rfl

theorem ColumnCache.openFor_of_error {source : ListSource} {positions : Nat} {failure : Failure}
    (h : source.lists positions = .error failure) (chunks : Nat) :
    (ofSource source).openFor positions chunks = .failed (ofSource source) failure := by
  simp only [openFor, ofSource, h]

namespace RowIndex

variable {x : RowIndex}

/-! ### Adding chunks -/

theorem apply_append_cases (hx : x.WellFormed) (shared : SharedChunk) :
    (∃ failure, x.apply (.append shared) = .failed x failure) ∨
      ∃ y, x.apply (.append shared) = .done y ∧ x.hasOpenCache = false ∧ x.Grown [shared] y := by
  have happly : x.apply (.append shared) = .ofResult x (x.append shared) := rfl
  rw [happly]
  cases h : x.append shared with
  | error failure => exact Or.inl ⟨failure, rfl⟩
  | ok y =>
    obtain ⟨hopen, hgrown⟩ := append_grown hx h
    exact Or.inr ⟨y, rfl, hopen, hgrown⟩

theorem apply_merge_cases {sources : List RowIndex} (hx : x.WellFormed)
    (hs : ∀ source ∈ sources, source.WellFormed) :
    (∃ failure, x.apply (.merge sources) = .failed x failure) ∨
      (x.apply (.merge sources)).status = .ok () ∧ x.hasOpenCache = false ∧
        x.Grown (contribution sources) (x.apply (.merge sources)).state := by
  have happly : x.apply (.merge sources) = x.merge sources := rfl
  rw [happly]
  cases hopen : x.hasOpenCache with
  | true => exact Or.inl ⟨_, merge_of_open hopen⟩
  | false =>
    cases hcheck : x.checkChunks x.chunkCount (contribution sources) with
    | error failure => exact Or.inl ⟨failure, merge_eq_failed hopen hcheck⟩
    | ok _ =>
      obtain ⟨hstatus, hgrown⟩ := merge_grown hx hs hopen hcheck
      exact Or.inr ⟨hstatus, rfl, hgrown⟩

/-! ### The cache -/

theorem setSource_eq_ok_iff {y : RowIndex} {source : ListSource} :
    x.setSource source = .ok y ↔
      x.hasOpenCache = false ∧ y = { x with cache? := some (.ofSource source) } := by
  unfold setSource
  rw [Result.bind_eq_ok_iff]
  constructor
  · rintro ⟨_, hopen, hy⟩
    exact ⟨requireCacheNotOpen_eq_ok_iff.1 hopen, (Except.ok.inj hy).symm⟩
  · rintro ⟨hopen, rfl⟩
    exact ⟨(), requireCacheNotOpen_eq_ok_iff.2 hopen, rfl⟩

theorem apply_setSource_cases (x : RowIndex) (source : ListSource) :
    (∃ failure, x.apply (.setSource source) = .failed x failure) ∨
      x.apply (.setSource source) = .done { x with cache? := some (.ofSource source) } ∧
        x.hasOpenCache = false := by
  have happly : x.apply (.setSource source) = .ofResult x (x.setSource source) := rfl
  rw [happly]
  cases h : x.setSource source with
  | error failure => exact Or.inl ⟨failure, rfl⟩
  | ok y =>
    obtain ⟨hopen, rfl⟩ := setSource_eq_ok_iff.1 h
    exact Or.inr ⟨rfl, hopen⟩

theorem changeCache_of_none (h : x.cache? = none) (change : ColumnCache → Outcome ColumnCache) :
    x.changeCache change = .done x := by
  rw [changeCache, h]

theorem changeCache_of_some {cache : ColumnCache} (h : x.cache? = some cache)
    (change : ColumnCache → Outcome ColumnCache) :
    x.changeCache change = (change cache).map fun cache => { x with cache? := some cache } := by
  rw [changeCache, h]

/-- A change of the cache that fails and leaves the cache as it was leaves the
index as it was. -/
theorem changeCache_of_failed {cache : ColumnCache} {failure : Failure}
    {change : ColumnCache → Outcome ColumnCache} (h : x.cache? = some cache)
    (hchange : change cache = .failed cache failure) :
    x.changeCache change = .failed x failure := by
  have hself : { x with cache? := some cache } = x := by rw [← h]
  rw [changeCache_of_some h, hchange]
  show Outcome.failed { x with cache? := some cache } failure = _
  rw [hself]

/-- A cache is opened with lists for the positions there are, if these can be
made. -/
theorem apply_openCache_of_ok {source : ListSource} {lists : List FlatList}
    (h : x.cache? = some (.ofSource source)) (hlists : source.lists x.positionCount = .ok lists) :
    x.apply .openCache =
      .reporting
        { x with cache? := some ⟨source, .opened (.fresh lists x.positionCount x.chunkCount)⟩ }
        (.cacheOpened lists.length x.positionCount x.chunkCount) := by
  have happly : x.apply .openCache =
      ((ColumnCache.ofSource source).openFor x.positionCount x.chunkCount).map fun cache =>
        { x with cache? := some cache } := changeCache_of_some h _
  rw [happly, ColumnCache.openFor_of_ok hlists]
  rfl

/-- If they cannot be made, nothing changes. -/
theorem apply_openCache_of_error {source : ListSource} {failure : Failure}
    (h : x.cache? = some (.ofSource source))
    (hlists : source.lists x.positionCount = .error failure) :
    x.apply .openCache = .failed x failure :=
  changeCache_of_failed h (ColumnCache.openFor_of_error hlists x.chunkCount)

/-- A new cache is opened just if its lists can be made. -/
theorem status_openCache_iff {source : ListSource} (h : x.cache? = some (.ofSource source)) :
    (x.apply .openCache).status = .ok () ↔
      ∃ lists, source.lists x.positionCount = .ok lists := by
  cases hlists : source.lists x.positionCount with
  | ok lists =>
    rw [apply_openCache_of_ok h hlists]
    exact ⟨fun _ => ⟨lists, rfl⟩, fun _ => rfl⟩
  | error failure =>
    rw [apply_openCache_of_error h hlists]
    exact ⟨nofun, nofun⟩

/-- Opening does nothing without a cache, fails after the first time and when its
lists cannot be made, and otherwise makes lists for the positions there are. -/
theorem apply_openCache_cases (x : RowIndex) :
    (x.cache? = none ∧ x.apply .openCache = .done x) ∨
    (∃ failure, x.apply .openCache = .failed x failure) ∨
    ∃ source lists, x.cache? = some ⟨source, .unopened⟩ ∧
      source.lists x.positionCount = .ok lists ∧ x.apply .openCache =
      .reporting
        { x with cache? := some ⟨source, .opened (.fresh lists x.positionCount x.chunkCount)⟩ }
        (.cacheOpened lists.length x.positionCount x.chunkCount) := by
  cases hcache : x.cache? with
  | none => exact Or.inl ⟨rfl, changeCache_of_none hcache _⟩
  | some cache =>
    obtain ⟨source, phase⟩ := cache
    cases phase with
    | unopened =>
      refine Or.inr ?_
      cases hlists : source.lists x.positionCount with
      | error failure => exact Or.inl ⟨failure, apply_openCache_of_error hcache hlists⟩
      | ok lists => exact Or.inr ⟨source, lists, rfl, hlists, apply_openCache_of_ok hcache hlists⟩
    | opened _ => exact Or.inr (Or.inl ⟨_, changeCache_of_failed hcache rfl⟩)
    | closed => exact Or.inr (Or.inl ⟨_, changeCache_of_failed hcache rfl⟩)

/-- Copying a chunk does nothing without a cache, fails unless there is such a
chunk and the cache is open, and otherwise is left to the open cache. -/
theorem apply_populate_cases (x : RowIndex) (chunkId : Nat) :
    (x.cache? = none ∧ x.apply (.populate chunkId) = .done x) ∨
    (∃ failure, x.apply (.populate chunkId) = .failed x failure) ∨
    ∃ source before shared base, x.cache? = some ⟨source, .opened before⟩ ∧
      x.chunk chunkId = .ok shared ∧ x.chunkOffset chunkId = .ok base ∧
        x.apply (.populate chunkId) = (before.populate source chunkId shared.chunk base).map
          fun contents => { x with cache? := some ⟨source, .opened contents⟩ } := by
  have happly : x.apply (.populate chunkId) = x.populateCache chunkId := rfl
  rw [happly, populateCache]
  cases hcache : x.cache? with
  | none => exact Or.inl ⟨rfl, changeCache_of_none hcache _⟩
  | some cache =>
    obtain ⟨source, phase⟩ := cache
    refine Or.inr ?_
    -- The chunk is looked up before the phase of the cache is asked for.
    cases hchunk : x.chunk chunkId with
    | error failure => exact Or.inl ⟨failure, changeCache_of_failed hcache rfl⟩
    | ok shared =>
      cases hoffset : x.chunkOffset chunkId with
      | error failure => exact Or.inl ⟨failure, changeCache_of_failed hcache rfl⟩
      | ok base =>
        cases phase with
        | unopened => exact Or.inl ⟨_, changeCache_of_failed hcache rfl⟩
        | closed => exact Or.inl ⟨_, changeCache_of_failed hcache rfl⟩
        | opened before =>
          exact Or.inr ⟨source, before, shared, base, rfl, rfl, rfl,
            changeCache_of_some hcache _⟩

/-- Closing never fails, and does nothing without a cache. -/
theorem apply_closeCache_cases (x : RowIndex) :
    (x.cache? = none ∧ x.apply .closeCache = .done x) ∨
    ∃ source phase notices, x.cache? = some ⟨source, phase⟩ ∧
      x.apply .closeCache = ⟨{ x with cache? := some ⟨source, .closed⟩ }, .ok (), notices⟩ := by
  cases hcache : x.cache? with
  | none => exact Or.inl ⟨rfl, changeCache_of_none hcache _⟩
  | some cache =>
    obtain ⟨source, phase⟩ := cache
    refine Or.inr ⟨source, phase, (ColumnCache.close ⟨source, phase⟩).notices, rfl, ?_⟩
    have happly : x.apply .closeCache = (ColumnCache.close ⟨source, phase⟩).map fun cache =>
        { x with cache? := some cache } := changeCache_of_some hcache _
    rw [happly]
    cases phase <;> rfl

end RowIndex

end Columnar
