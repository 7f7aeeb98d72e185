import Columnar.Proofs.CacheLife
import Columnar.Proofs.KeyLists

/-!
# Indices with cleared lists

What the lists of a cache hold does not influence the course of a run.  If they
are set to zero before an operation, the operation succeeds or fails as before,
gives the same notices, and leaves the same index but for what the lists hold.
So an index can be followed through a run with its lists cleared.

A copy that fails changes nothing but what the lists hold.

## Main definitions

* `FlatList.cleared`, `OpenCache.cleared`, `ColumnCache.cleared`,
  `RowIndex.cleared` — with zeros in place of all elements.
* `RowIndex.OfKeys`, `Operation.OfKeys` — caches hold key columns.

## Main results

* `RowIndex.map_cleared_apply` — **an operation does the same to a cleared index.**
* `RowIndex.cleared_of_failed_copy` — a copy that fails leaves the cleared index as
  it was.
-/

namespace Columnar

/-! ### Outcomes -/

namespace Outcome

variable {σ τ υ : Type}

theorem map_map (o : Outcome σ) (f : σ → τ) (g : τ → υ) : (o.map f).map g = o.map (g ∘ f) := rfl

theorem map_ofResult (f : σ → τ) (before : σ) (r : Result σ) :
    (ofResult before r).map f = ofResult (f before) (f <$> r) := by
  cases r <;> rfl

/-- Two changes in a row, seen in another state. -/
theorem map_andThen {f : σ → τ} {next : σ → Outcome σ} {after : τ → Outcome τ}
    (h : ∀ s, (next s).map f = after (f s)) (o : Outcome σ) :
    (o.andThen next).map f = (o.map f).andThen after := by
  obtain ⟨state, status, notices⟩ := o
  cases status with
  | error failure => rfl
  | ok _ =>
    show Outcome.mk (f (next state).state) (next state).status (notices ++ (next state).notices) =
      ⟨(after (f state)).state, (after (f state)).status, notices ++ (after (f state)).notices⟩
    rw [← h state]
    rfl

end Outcome

/-! ### Definitions -/

/-- A list of zeros in place of a list. -/
def FlatList.cleared (list : FlatList) : FlatList := zeros list.kind list.length

def OpenCache.cleared (o : OpenCache) : OpenCache := { o with lists := o.lists.map .cleared }

def CachePhase.cleared : CachePhase → CachePhase
  | opened contents => opened contents.cleared
  | unopened => unopened
  | closed => closed

def ColumnCache.cleared (c : ColumnCache) : ColumnCache := { c with phase := c.phase.cleared }

def RowIndex.cleared (x : RowIndex) : RowIndex := { x with cache? := x.cache?.map .cleared }

/-- The cache, if there is one, holds key columns. -/
def RowIndex.OfKeys (x : RowIndex) : Prop :=
  ∀ cache, x.cache? = some cache → ∃ k : KeyColumns, cache.source = k.source

/-- A cache that the operation attaches holds key columns. -/
def Operation.OfKeys : Operation → Prop
  | .setSource source => ∃ k : KeyColumns, source = k.source
  | _ => True

/-! ### Lists -/

namespace FlatList

/-- Only the shape of a list is left. -/
theorem cleared_eq_iff {a b : FlatList} : a.cleared = b.cleared ↔ a.shape = b.shape := by
  constructor
  · intro h
    have hshape := congrArg shape h
    rwa [cleared, cleared, shape_zeros, shape_zeros] at hshape
  · intro h
    exact congrArg (fun s : ListKind × Nat => zeros s.1 s.2) h

@[simp] theorem cleared_cleared (list : FlatList) : list.cleared.cleared = list.cleared :=
  cleared_eq_iff.2 (shape_zeros ..)

theorem map_cleared_eq_iff {as bs : List FlatList} :
    as.map cleared = bs.map cleared ↔ as.map shape = bs.map shape := by
  induction as generalizing bs with
  | nil => cases bs <;> simp
  | cons a as ih =>
    cases bs with
    | nil => simp
    | cons b bs => simp only [List.map_cons, List.cons.injEq, cleared_eq_iff, ih]

@[simp] theorem map_cleared_map_cleared (lists : List FlatList) :
    (lists.map cleared).map cleared = lists.map cleared := by
  rw [List.map_map]
  exact List.map_congr_left fun list _ => cleared_cleared list

theorem cleared_int (xs : Array Int32) : (int xs).cleared = zeros .int xs.size := rfl

theorem cleared_long (xs : Array Int64) : (long xs).cleared = zeros .long xs.size := rfl

theorem cleared_double (xs : Array Double) : (double xs).cleared = zeros .double xs.size := rfl

variable {α : Type}

/-- Whether an array can be overwritten depends on its size, which stays. -/
theorem cleared_overwrite {wrap : Array α → FlatList} {kind : ListKind} {xs xs' ys : Array α}
    {base : Nat} (hwrap : ∀ zs, (wrap zs).cleared = zeros kind zs.size)
    (hsize : xs'.size = xs.size) :
    cleared <$> wrap <$> overwrite xs base ys = cleared <$> wrap <$> overwrite xs' base ys := by
  unfold overwrite
  cases Size.add base ys.size with
  | error failure => rfl
  | ok stop =>
    simp only [bind, Except.bind, hsize]
    split
    · show Except.ok (wrap _).cleared = Except.ok (wrap _).cleared
      rw [hwrap, hwrap]
      simp only [Array.size_append, Array.size_extract, hsize]
    · rfl

/-- A block is copied into a cleared list as into any of its shape. -/
theorem cleared_copyBlock (list : FlatList) (block : Block) (base : Nat) :
    cleared <$> list.copyBlock block base = cleared <$> list.cleared.copyBlock block base := by
  cases list with
  | int xs =>
    cases block with
    | int c => exact cleared_overwrite (fun _ => cleared_int _) Array.size_replicate
    | _ => rfl
  | long xs =>
    cases block with
    | int c => exact cleared_overwrite (fun _ => cleared_long _) Array.size_replicate
    | long c => exact cleared_overwrite (fun _ => cleared_long _) Array.size_replicate
    | _ => rfl
  | double xs =>
    cases block with
    | double c => exact cleared_overwrite (fun _ => cleared_double _) Array.size_replicate
    | _ => rfl

end FlatList

namespace KeyColumns

variable {chunk : Chunk} {base : Nat}

theorem cleared_copyColumn (column : Nat) (list : FlatList) :
    FlatList.cleared <$> copyColumn chunk base column list =
      FlatList.cleared <$> copyColumn chunk base column list.cleared := by
  unfold copyColumn
  cases chunk.block column with
  | error failure => rfl
  | ok block => exact list.cleared_copyBlock block base

/-- **Filling does the same to cleared lists.** -/
theorem map_cleared_fillLists : ∀ (columns : List (Nat × ListKind)) (lists : List FlatList),
    (fillLists chunk base columns lists).map (List.map FlatList.cleared) =
      (fillLists chunk base columns (lists.map FlatList.cleared)).map
        (List.map FlatList.cleared) := by
  intro columns
  induction columns with
  | nil =>
    intro lists
    show Outcome.done (lists.map FlatList.cleared) =
      Outcome.done ((lists.map FlatList.cleared).map FlatList.cleared)
    rw [FlatList.map_cleared_map_cleared]
  | cons head columns ih =>
    obtain ⟨column, kind⟩ := head
    intro lists
    cases lists with
    | nil => rfl
    | cons list lists =>
      have hcopies := @cleared_copyColumn chunk base column list
      rw [List.map_cons]
      cases hcopy : copyColumn chunk base column list with
      | error failure =>
        rw [hcopy, eq_comm] at hcopies
        rw [fillLists_of_error hcopy, fillLists_of_error (Result.map_eq_error_iff.1 hcopies)]
        show Outcome.failed ((list :: lists).map FlatList.cleared) failure =
          Outcome.failed (((list :: lists).map FlatList.cleared).map FlatList.cleared) failure
        rw [FlatList.map_cleared_map_cleared]
      | ok after =>
        rw [hcopy, eq_comm] at hcopies
        obtain ⟨other, hother, hcleared⟩ := Result.map_eq_ok_iff.1 hcopies
        rw [fillLists_of_ok hcopy, fillLists_of_ok hother]
        -- Both have the same cleared list in front, and the rest by induction.
        have hrest := congrArg (Outcome.map (after.cleared :: ·)) (ih lists)
        rw [Outcome.map_map, Outcome.map_map]
        refine hrest.trans ?_
        rw [← hcleared]
        rfl

/-- Filling has nothing to report. -/
theorem notices_fillLists : ∀ (columns : List (Nat × ListKind)) (lists : List FlatList),
    (fillLists chunk base columns lists).notices = [] := by
  intro columns
  induction columns with
  | nil => intro lists; rfl
  | cons head columns ih =>
    obtain ⟨column, kind⟩ := head
    intro lists
    cases lists with
    | nil => rfl
    | cons list lists =>
      cases hcopy : copyColumn chunk base column list with
      | error failure => rw [fillLists_of_error hcopy, Outcome.notices_failed]
      | ok after => rw [fillLists_of_ok hcopy, Outcome.notices_map, ih]

end KeyColumns

/-! ### Caches -/

namespace OpenCache

@[simp] theorem cleared_cleared (o : OpenCache) : o.cleared.cleared = o.cleared := by
  simp [cleared]

/-- A chunk is copied into cleared lists as into any. -/
theorem map_cleared_populate (o : OpenCache) (k : KeyColumns) (chunkId : Nat) (chunk : Chunk)
    (base : Nat) : (o.populate k.source chunkId chunk base).map cleared =
      (o.cleared.populate k.source chunkId chunk base).map cleared := by
  have hclear : o.cleared.clearance chunkId chunk base = o.clearance chunkId chunk base := rfl
  cases h : o.clearance chunkId chunk base with
  | error failure =>
    rw [populate_of_not_clear h, populate_of_not_clear (hclear.trans h)]
    show Outcome.failed o.cleared failure = Outcome.failed o.cleared.cleared failure
    rw [cleared_cleared]
  | ok stop =>
    have hfill := congrArg (Outcome.map fun lists => { o with lists })
      (@KeyColumns.map_cleared_fillLists chunk base k.columns o.lists)
    -- Marking a chunk is the same in both, as it leaves the lists alone.
    have hmark := @Outcome.map_andThen _ _ cleared (fun o => .done (o.mark chunkId base stop))
      (fun o => .done (o.mark chunkId base stop)) fun _ => rfl
    unfold populate
    rw [hclear, h]
    dsimp only
    rw [hmark, hmark]
    exact congrArg (Outcome.andThen · fun after => .done (after.mark chunkId base stop)) hfill

end OpenCache

namespace ColumnCache

variable (c : ColumnCache)

@[simp] theorem cleared_cleared : c.cleared.cleared = c.cleared := by
  obtain ⟨source, phase⟩ := c
  cases phase <;> simp [cleared, CachePhase.cleared]

theorem map_cleared_openFor (positions chunks : Nat) :
    (c.openFor positions chunks).map cleared =
      (c.cleared.openFor positions chunks).map cleared := by
  obtain ⟨source, phase⟩ := c
  cases phase with
  | unopened =>
    -- There are no lists to clear yet.
    rfl
  | opened contents =>
    show Outcome.failed (cleared ⟨source, .opened contents⟩) _ =
      Outcome.failed (cleared ⟨source, .opened contents⟩).cleared _
    rw [cleared_cleared]
  | closed => rfl

theorem map_cleared_populate {k : KeyColumns} (hsource : c.source = k.source) (chunkId : Nat)
    (chunk : Chunk) (base : Nat) : (c.populate chunkId chunk base).map cleared =
      (c.cleared.populate chunkId chunk base).map cleared := by
  obtain ⟨source, phase⟩ := c
  obtain rfl : source = k.source := hsource
  cases phase with
  | unopened => rfl
  | opened contents =>
    exact congrArg (Outcome.map fun contents => ColumnCache.mk k.source (.opened contents))
      (contents.map_cleared_populate k chunkId chunk base)
  | closed => rfl

theorem map_cleared_close : c.close.map cleared = c.cleared.close.map cleared := by
  obtain ⟨source, phase⟩ := c
  cases phase with
  | unopened => rfl
  | opened contents =>
    show Outcome.reporting _ (.cacheClosed contents.lists.length) =
      Outcome.reporting _ (.cacheClosed (contents.lists.map FlatList.cleared).length)
    rw [List.length_map]
    rfl
  | closed => rfl

end ColumnCache

/-! ### Growing -/

namespace RowIndex

variable (x : RowIndex)

@[simp] theorem cleared_cleared : x.cleared.cleared = x.cleared := by
  unfold cleared
  cases x.cache? <;> simp

@[simp] theorem hasOpenCache_cleared : x.cleared.hasOpenCache = x.hasOpenCache := by
  unfold hasOpenCache cleared
  cases x.cache? with
  | none => rfl
  | some cache =>
    obtain ⟨source, phase⟩ := cache
    cases phase <;> rfl

theorem append_cleared (shared : SharedChunk) :
    x.cleared.append shared = cleared <$> x.append shared := by
  unfold append requireCacheNotOpen
  rw [hasOpenCache_cleared]
  cases Result.require (!x.hasOpenCache) (.cacheIsOpen .append) with
  | error failure => rfl
  | ok _ =>
    show (do
        x.checkChunk x.chunkCount shared.chunk.positionCount
        let stop ← Size.add x.positionCount shared.chunk.positionCount
        return { x.cleared with chunks := x.chunks.push shared, offsets := x.offsets.push stop }) =
      cleared <$> _
    cases x.checkChunk x.chunkCount shared.chunk.positionCount with
    | error failure => rfl
    | ok _ => cases Size.add x.positionCount shared.chunk.positionCount <;> rfl

theorem takeOver_cleared (source : RowIndex) :
    x.cleared.takeOver source = (x.takeOver source).map cleared := by
  have hcount : x.cleared.positionCount = x.positionCount := rfl
  unfold takeOver
  rw [hcount]
  split
  · rfl
  · dsimp only
    split <;> rfl

theorem takeOverAll_cleared (sources : List RowIndex) :
    x.cleared.takeOverAll sources = (x.takeOverAll sources).map cleared := by
  induction sources generalizing x with
  | nil => rfl
  | cons source rest ih =>
    have hrest := @Outcome.map_andThen _ _ cleared (·.takeOverAll rest) (·.takeOverAll rest)
      fun y => (ih y).symm
    rw [takeOverAll, takeOverAll, takeOver_cleared, hrest]

theorem merge_cleared (sources : List RowIndex) :
    x.cleared.merge sources = (x.merge sources).map cleared := by
  have hopen := hasOpenCache_cleared x
  have hchecks : x.cleared.checkChunks x.cleared.chunkCount (contribution sources) =
      x.checkChunks x.chunkCount (contribution sources) :=
    @checkChunks_congr x.cleared x rfl _ _
  cases h : x.hasOpenCache with
  | true =>
    rw [merge_of_open h, merge_of_open (hopen.trans h)]
    rfl
  | false =>
    cases hcheck : x.checkChunks x.chunkCount (contribution sources) with
    | error failure =>
      rw [merge_eq_failed h hcheck, merge_eq_failed (hopen.trans h) (hchecks.trans hcheck)]
      rfl
    | ok _ =>
      unfold merge
      rw [requireCacheNotOpen_eq_ok_iff.2 h, requireCacheNotOpen_eq_ok_iff.2 (hopen.trans h),
        hcheck, hchecks.trans hcheck, takeOverAll_cleared]
      -- The totals that are reported do not depend on the cache.
      show ((x.takeOverAll sources).map cleared).andThen (fun y => .reporting y (.merged _ _ _ _)) =
        ((x.takeOverAll sources).andThen fun y => .reporting y (.merged _ _ _ _)).map cleared
      exact (@Outcome.map_andThen _ _ cleared _ _ (fun _ => rfl) _).symm

theorem setSource_cleared (source : ListSource) :
    x.cleared.setSource source = cleared <$> x.setSource source := by
  unfold setSource requireCacheNotOpen
  rw [hasOpenCache_cleared]
  cases Result.require (!x.hasOpenCache) (.cacheIsOpen .setSource) <;> rfl

/-! ### Changing the cache -/

variable {x}

/-- A change of the cache that does the same to a cleared cache does the same to
a cleared index. -/
theorem map_cleared_changeCache {change : ColumnCache → Outcome ColumnCache}
    (h : ∀ cache, x.cache? = some cache →
      (change cache).map ColumnCache.cleared = (change cache.cleared).map ColumnCache.cleared) :
    (x.changeCache change).map cleared = (x.cleared.changeCache change).map cleared := by
  cases hcache : x.cache? with
  | none =>
    have hcleared : x.cleared.cache? = none := by rw [cleared, hcache]; rfl
    rw [changeCache_of_none hcache, changeCache_of_none hcleared]
    show Outcome.done x.cleared = Outcome.done x.cleared.cleared
    rw [cleared_cleared]
  | some cache =>
    have hcleared : x.cleared.cache? = some cache.cleared := by rw [cleared, hcache]; rfl
    rw [changeCache_of_some hcache, changeCache_of_some hcleared]
    exact congrArg (Outcome.map fun cache => { x with cache? := some cache }) (h cache hcache)

theorem OfKeys.of_cache_eq {y : RowIndex} (hx : x.OfKeys) (h : y.cache? = x.cache?) : y.OfKeys := by
  intro cache hcache
  exact hx cache (h ▸ hcache)

/-- A cache keeps its source, unless another one is attached. -/
theorem OfKeys.apply (hx : x.OfKeys) (hwell : x.WellFormed) {operation : Operation}
    (hop : operation.Admissible) (hkeys : operation.OfKeys) : (x.apply operation).state.OfKeys := by
  have hfailed : ∀ failure, x.apply operation = .failed x failure →
      (x.apply operation).state.OfKeys := fun failure h => h ▸ hx
  -- No operation but the one that sets a source changes it.
  cases operation with
  | append shared =>
    rcases apply_append_cases hwell shared with ⟨failure, h⟩ | ⟨y, h, -, hgrown⟩
    · exact hfailed failure h
    · rw [h]
      exact hx.of_cache_eq hgrown.cache_eq
  | merge sources =>
    rcases apply_merge_cases hwell (hop.wellFormed sources rfl) with ⟨failure, h⟩ | ⟨-, -, hgrown⟩
    · exact hfailed failure h
    · exact hx.of_cache_eq hgrown.cache_eq
  | setSource source =>
    rcases apply_setSource_cases x source with ⟨failure, h⟩ | ⟨h, -⟩
    · exact hfailed failure h
    · rw [h]
      rintro _ ⟨⟩
      exact hkeys
  | openCache =>
    rcases apply_openCache_cases x with ⟨-, h⟩ | ⟨failure, h⟩ | ⟨source, _, hcache, -, h⟩
    · rw [h]
      exact hx
    · exact hfailed failure h
    · rw [h]
      rintro _ ⟨⟩
      have hsource := hx _ hcache
      exact hsource
  | populate chunkId =>
    rcases apply_populate_cases x chunkId with
      ⟨-, h⟩ | ⟨failure, h⟩ | ⟨source, _, _, _, hcache, -, -, h⟩
    · rw [h]
      exact hx
    · exact hfailed failure h
    · rw [h]
      rintro _ ⟨⟩
      have hsource := hx _ hcache
      exact hsource
  | closeCache =>
    rcases apply_closeCache_cases x with ⟨-, h⟩ | ⟨source, _, _, hcache, h⟩
    · rw [h]
      exact hx
    · rw [h]
      rintro _ ⟨⟩
      have hsource := hx _ hcache
      exact hsource

/-- **An operation does the same to a cleared index**, in all but what the lists
hold. -/
theorem map_cleared_apply (hx : x.OfKeys) (operation : Operation) :
    (x.apply operation).map cleared = (x.cleared.apply operation).map cleared := by
  -- What does not look at the lists gives a cleared index if it is given one.
  have hidem : ∀ {o : Outcome RowIndex}, x.cleared.apply operation = o.map cleared →
      o.map cleared = (x.cleared.apply operation).map cleared := by
    intro o h
    rw [h, Outcome.map_map]
    exact congrArg (Outcome.map · o) (funext fun y => (cleared_cleared y).symm)
  cases operation with
  | append shared =>
    refine hidem ?_
    show Outcome.ofResult x.cleared (x.cleared.append shared) = _
    rw [append_cleared]
    exact (Outcome.map_ofResult ..).symm
  | merge sources => exact hidem (x.merge_cleared sources)
  | setSource source =>
    refine hidem ?_
    show Outcome.ofResult x.cleared (x.cleared.setSource source) = _
    rw [setSource_cleared]
    exact (Outcome.map_ofResult ..).symm
  | openCache => exact map_cleared_changeCache fun cache _ => cache.map_cleared_openFor _ _
  | populate chunkId =>
    refine map_cleared_changeCache ?_
    intro cache hcache
    obtain ⟨k, hsource⟩ := hx cache hcache
    dsimp only
    split
    · show Outcome.failed cache.cleared _ = Outcome.failed cache.cleared.cleared _
      rw [ColumnCache.cleared_cleared]
    · exact cache.map_cleared_populate hsource chunkId _ _
  | closeCache => exact map_cleared_changeCache fun cache _ => cache.map_cleared_close

/-! ### Copies that fail -/

/-- **A copy that fails leaves the cleared index as it was**, and gives no
notice. -/
theorem cleared_of_failed_copy (hx : x.OfKeys) {chunkId : Nat} {failure : Failure}
    (h : (x.apply (.populate chunkId)).status = .error failure) :
    (x.apply (.populate chunkId)).state.cleared = x.cleared ∧
      (x.apply (.populate chunkId)).notices = [] := by
  rcases apply_populate_cases x chunkId with ⟨-, happly⟩ | ⟨other, happly⟩ |
    ⟨source, before, shared, base, hcache, -, -, happly⟩
  · rw [happly] at h
    cases h
  · rw [happly]
    exact ⟨rfl, rfl⟩
  · obtain ⟨k, rfl⟩ := hx _ hcache
    have hself : { x with cache? := some ⟨k.source, .opened before⟩ } = x := by rw [← hcache]
    rw [happly] at h ⊢
    cases hclear : before.clearance chunkId shared.chunk base with
    | error other =>
      rw [OpenCache.populate_of_not_clear hclear]
      refine ⟨?_, rfl⟩
      rw [Outcome.state_map, Outcome.state_failed, hself]
    | ok stop =>
      cases hfill : (k.source.fill shared.chunk base before.lists).status with
      | error other =>
        rw [OpenCache.populate_of_fill_error hclear hfill]
        refine ⟨?_, KeyColumns.notices_fillLists _ _⟩
        -- The lists have kept their shapes.
        have hlists : (k.source.fill shared.chunk base before.lists).state.map FlatList.cleared =
            before.lists.map FlatList.cleared :=
          FlatList.map_cleared_eq_iff.2 (KeyColumns.map_shape_fillLists _ _)
        rw [← hself]
        simp only [Outcome.state_map, cleared, Option.map_some, ColumnCache.cleared,
          CachePhase.cleared, OpenCache.cleared, hlists]
      | ok _ =>
        rw [OpenCache.populate_of_fill_ok hclear hfill] at h
        cases h

end RowIndex

end Columnar
