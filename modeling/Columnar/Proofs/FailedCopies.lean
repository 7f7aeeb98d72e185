import Columnar.Index.Read
import Columnar.Proofs.Cleared
import Columnar.Proofs.ListContents

/-!
# Copies that fail leave no trace

A copy that fails may have overwritten some of the lists.  No answer that the
index gives changes by this, at once or later: without the copies that failed, a
run gives the same answers, with the same failures and the same notices.

Two indices that are the same once their lists are cleared go through a run in
step.  They also give the same answers, for what may be read of a list is settled
by the chunks.

## Main definitions

* `Answers`, `RowIndex.answers` — all that can be asked of an index.
* `RowIndex.Keyed`, `Operation.Keyed` — finished chunks, and caches of key columns.
* `RowIndex.kept` — the steps of a run that are not copies that failed.

## Main results

* `RowIndex.answers_eq` — the answers of indices that are the same once cleared.
* `RowIndex.failed_copies_leave_no_trace` — **copies that fail leave no trace.**
-/

namespace Columnar

/-! ### Answers -/

/-- What can be asked of the chunks of an index. -/
structure TableAnswers where
  positionCount : Nat
  chunkCount : Nat
  isEmpty : Bool
  chunks : List SharedChunk
  offsets : List Nat
  bookkeepingBytes : Nat
  chunk : Nat → Result SharedChunk
  chunkOffset : Nat → Result Nat
  locate : Nat → Result Location
  locateBatch : List Nat → LocationBuffers → Outcome LocationBuffers
  address : Nat → Result RowAddress
  getValue : Nat → Nat → Result Value
  getInt : Nat → Nat → Result Int32
  getLong : Nat → Nat → Result Int64
  getDouble : Nat → Nat → Result Double
  isNull : Nat → Nat → Result Bool
  writeTo : Nat → Nat → BlockBuilder → Result BlockBuilder
  writeChunkCellTo : Location → Nat → BlockBuilder → Result BlockBuilder
  row : Nat → Result Row
  resolve : RowAddress → Result (SharedChunk × Row)
  /-- The hash codes of rows, for any hash function of payloads. -/
  hashCode : PayloadHash → Nat → Result UInt64
  equals : Nat → Nat → Result Bool
  equalsChunkRow : Nat → Chunk → Nat → Result Bool

/-- What can be asked of the cache of an index, apart from its lists. -/
structure CacheAnswers where
  /-- The stage of the cache, if there is one. -/
  stage? : Option CacheStage
  isPopulated : Nat → Bool
  populatedChunks : Nat
  /-- The bytes for the positions there are. -/
  sizeInBytes : Result Nat
  /-- The bytes for a number of positions. -/
  sizeFor : Nat → Option (Result Nat)

/-- All that can be asked of an index. -/
structure Answers where
  tables : TableAnswers
  cache : CacheAnswers
  cachedInt : Nat → Nat → Result Int32
  cachedLong : Nat → Nat → Result Int64
  cachedDouble : Nat → Nat → Result Double

namespace RowIndex

def tableAnswers (x : RowIndex) : TableAnswers where
  positionCount := x.positionCount
  chunkCount := x.chunkCount
  isEmpty := x.isEmpty
  chunks := x.drain.rest
  offsets := x.offsets.items.toList
  bookkeepingBytes := x.bookkeepingBytes
  chunk := x.chunk
  chunkOffset := x.chunkOffset
  locate := x.locate
  locateBatch := x.locateBatch
  address := x.address
  getValue := x.getValue
  getInt := x.getInt
  getLong := x.getLong
  getDouble := x.getDouble
  isNull := x.isNull
  writeTo := x.writeTo
  writeChunkCellTo := x.writeChunkCellTo
  row := x.row
  resolve := x.resolve
  hashCode _ := x.hashCode
  equals := x.equals
  equalsChunkRow := x.equalsChunkRow

def cacheAnswers (x : RowIndex) : CacheAnswers where
  stage? := x.cache?.map ColumnCache.stage
  isPopulated chunkId := x.cache?.any (·.isPopulated chunkId)
  populatedChunks := (x.cache?.map ColumnCache.populatedChunks).getD 0
  sizeInBytes := x.cacheSizeInBytes
  sizeFor positions := x.cache?.map (·.sizeInBytes positions)

def answers (x : RowIndex) : Answers where
  tables := x.tableAnswers
  cache := x.cacheAnswers
  cachedInt := x.cachedInt
  cachedLong := x.cachedLong
  cachedDouble := x.cachedDouble

end RowIndex

/-! ### What clearing the lists leaves alone -/

theorem FlatList.sizeInBytes_cleared (list : FlatList) :
    list.cleared.sizeInBytes = list.sizeInBytes := by
  have hshape : list.cleared.shape = list.shape := shape_zeros ..
  obtain ⟨hkind, hlength⟩ := Prod.mk.inj hshape
  rw [sizeInBytes, hkind, hlength, sizeInBytes]

theorem OpenCache.sizeInBytes_cleared (o : OpenCache) : o.cleared.sizeInBytes = o.sizeInBytes := by
  unfold sizeInBytes cleared
  rw [List.map_map]
  congr 3
  exact List.map_congr_left fun list _ => list.sizeInBytes_cleared

theorem ColumnCache.sizeInBytes_cleared (c : ColumnCache) (positions : Nat) :
    c.cleared.sizeInBytes positions = c.sizeInBytes positions := by
  obtain ⟨source, phase⟩ := c
  cases phase with
  | unopened => rfl
  | opened contents => exact congrArg Except.ok contents.sizeInBytes_cleared
  | closed => rfl

namespace RowIndex

variable {x y : RowIndex}

theorem locateFrom_cleared (x : RowIndex) (positions : List Nat) :
    ∀ index out, x.cleared.locateFrom index out positions = x.locateFrom index out positions := by
  have hlocate : x.cleared.locate = x.locate := rfl
  induction positions with
  | nil => intro index out; rfl
  | cons position rest ih =>
    intro index out
    simp only [locateFrom, hlocate, ih]

/-- The cache has no part in what is asked of the chunks. -/
theorem tableAnswers_cleared (x : RowIndex) : x.cleared.tableAnswers = x.tableAnswers := by
  have hbatch : x.cleared.locateBatch = x.locateBatch := by
    funext positions out
    unfold locateBatch
    rw [locateFrom_cleared]
  show { x.tableAnswers with locateBatch := x.cleared.locateBatch } = x.tableAnswers
  rw [hbatch]
  rfl

theorem cacheAnswers_cleared (x : RowIndex) : x.cleared.cacheAnswers = x.cacheAnswers := by
  obtain ⟨chunks, offsets, maxChunkRows, cache?⟩ := x
  cases cache? with
  | none => rfl
  | some cache =>
    have hsize := cache.sizeInBytes_cleared
    obtain ⟨source, phase⟩ := cache
    simp only [cacheAnswers, cacheSizeInBytes, cleared, Option.map_some, hsize]
    cases phase <;> rfl

/-- The list that a cached read reads. -/
def listAt (x : RowIndex) (list position : Nat) : Result FlatList := do
  (← x.cacheForRead).listAt list position

theorem listAt_cleared (x : RowIndex) (list position : Nat) :
    x.cleared.listAt list position = FlatList.cleared <$> x.listAt list position := by
  obtain ⟨chunks, offsets, maxChunkRows, cache?⟩ := x
  cases cache? with
  | none => rfl
  | some cache =>
    obtain ⟨source, phase⟩ := cache
    cases phase with
    | unopened => rfl
    | closed => rfl
    | opened contents =>
      show (do
          Result.require (contents.isFilled position) (.notPopulated position)
          Result.nth (contents.lists.map FlatList.cleared) list) =
        FlatList.cleared <$> (do
          Result.require (contents.isFilled position) (.notPopulated position)
          Result.nth contents.lists list)
      -- Clearing keeps the marks and the number of lists.
      unfold Result.nth
      rw [List.getElem?_map]
      cases contents.isFilled position with
      | false => rfl
      | true => cases contents.lists[list]? <;> rfl

end RowIndex

/-! ### Reading lists -/

namespace FlatList

/-- The read depends on the kind of the list and the value at the position. -/
def ReadsValues {α : Type} (read : FlatList → Nat → Result α) : Prop :=
  ∀ {a b : FlatList} {p : Nat}, a.kind = b.kind → a.get? p = b.get? p → read a p = read b p

theorem element_eq {α : Type} {wrap : α → Value} (hwrap : ∀ u v, wrap u = wrap v → u = v)
    {xs ys : Array α} {p : Nat} (h : xs[p]?.map wrap = ys[p]?.map wrap) :
    Result.element xs p = Result.element ys p := by
  unfold Result.element
  rw [(Option.map_inj_right hwrap).1 h]

theorem readsValues_getInt : ReadsValues getInt := by
  intro a b p hkind hget
  cases a <;> cases b <;> cases hkind
  · exact element_eq (fun _ _ => Value.int.inj) hget
  · rfl
  · rfl

theorem readsValues_getLong : ReadsValues getLong := by
  intro a b p hkind hget
  cases a <;> cases b <;> cases hkind
  · exact congrArg (Int32.toInt64 <$> ·) (element_eq (fun _ _ => Value.int.inj) hget)
  · exact element_eq (fun _ _ => Value.long.inj) hget
  · rfl

theorem readsValues_getDouble : ReadsValues getDouble := by
  intro a b p hkind hget
  cases a <;> cases b <;> cases hkind
  · rfl
  · rfl
  · exact element_eq (fun _ _ => Value.double.inj) hget

end FlatList

/-! ### Indices with caches of key columns -/

/-- An index of finished chunks, whose cache holds key columns if there is one. -/
structure RowIndex.Keyed (x : RowIndex) : Prop where
  reachable : Reachable x
  built : x.EachChunk Chunk.Built
  ofKeys : x.OfKeys

/-- An operation that adds finished chunks, or attaches a cache of key columns. -/
structure Operation.Keyed (operation : Operation) : Prop where
  admissible : operation.Admissible
  built : operation.EachChunk Chunk.Built
  ofKeys : operation.OfKeys

/-- What it takes to copy finished chunks into key columns is among these. -/
theorem Operation.keyed_of_mem_copying {chunks : List SharedChunk} {k : KeyColumns}
    {ids : List Nat} (hchunks : ∀ shared ∈ chunks, shared.chunk.Built) :
    ∀ operation ∈ copying chunks k ids, operation.Keyed := by
  intro operation h
  simp only [copying, List.mem_append, List.mem_map, List.mem_cons, List.not_mem_nil,
    or_false] at h
  rcases h with (⟨shared, hshared, rfl⟩ | rfl | rfl) | ⟨chunkId, -, rfl⟩
  · exact ⟨trivial, hchunks shared hshared, trivial⟩
  · exact ⟨trivial, trivial, k, rfl⟩
  · exact ⟨trivial, trivial, trivial⟩
  · exact ⟨trivial, trivial, trivial⟩

namespace RowIndex

variable {x y : RowIndex}

theorem Keyed.apply (hx : x.Keyed) {operation : Operation} (hop : operation.Keyed) :
    (x.apply operation).state.Keyed where
  reachable := hx.reachable.apply hop.admissible
  built := hx.built.apply hx.reachable.wellFormed hop.admissible hop.built
  ofKeys := hx.ofKeys.apply hx.reachable.wellFormed hop.admissible hop.ofKeys

theorem Keyed.run : ∀ {operations : List Operation} {x : RowIndex}, x.Keyed →
    (∀ operation ∈ operations, operation.Keyed) → (x.run operations).1.Keyed := by
  intro operations
  induction operations with
  | nil => intro x hx _; exact hx
  | cons operation rest ih =>
    intro x hx hops
    exact ih (hx.apply (hops operation List.mem_cons_self)) fun other hother =>
      hops other (List.mem_cons_of_mem _ hother)

theorem keyed_ofOptions {options : IndexOptions} (h : ofOptions options = .ok x) : x.Keyed where
  reachable := .start h
  built := eachChunk_ofOptions h
  ofKeys := by
    intro cache hcache
    rw [cache?_ofOptions h] at hcache
    cases hcache

theorem cacheForRead_eq_ok_iff {cache : ColumnCache} :
    x.cacheForRead = .ok cache ↔ x.cache? = some cache := by
  unfold cacheForRead
  cases x.cache? <;> simp [Result.misuse]

/-- A list that may be read is one of an open cache of key columns. -/
theorem Keyed.exists_opened (hx : x.Keyed) {list p : Nat} {flat : FlatList}
    (h : x.listAt list p = .ok flat) :
    ∃ (k : KeyColumns) (contents : OpenCache), x.cache? = some ⟨k.source, .opened contents⟩ ∧
      contents.isFilled p = true ∧ contents.lists[list]? = some flat := by
  obtain ⟨cache, hcache, hlist⟩ := Result.bind_eq_ok_iff.1 h
  have hsome : x.cache? = some cache := cacheForRead_eq_ok_iff.1 hcache
  obtain ⟨contents, hphase, hfilled, hflat⟩ := ColumnCache.listAt_eq_ok_iff.1 hlist
  obtain ⟨k, hsource⟩ := hx.ofKeys cache hsome
  refine ⟨k, contents, ?_, hfilled, hflat⟩
  rw [hsome, ← hsource, ← hphase]

theorem Keyed.bounded (hx : x.Keyed) : x.EachChunk Chunk.Bounded :=
  fun shared hshared => (hx.built shared hshared).bounded

/-! ### Indices that are the same once their lists are cleared -/

section SameCleared

variable (hx : x.Keyed) (hy : y.Keyed) (h : x.cleared = y.cleared)

include h

theorem tableAnswers_eq : x.tableAnswers = y.tableAnswers := by
  rw [← tableAnswers_cleared, h, tableAnswers_cleared]

theorem cacheAnswers_eq : x.cacheAnswers = y.cacheAnswers := by
  rw [← cacheAnswers_cleared, h, cacheAnswers_cleared]

/-- Both have caches of one source. -/
theorem source_eq {c d : ColumnCache} (hc : x.cache? = some c) (hd : y.cache? = some d) :
    c.source = d.source := by
  have hcaches : x.cache?.map ColumnCache.cleared = y.cache?.map ColumnCache.cleared :=
    congrArg RowIndex.cache? h
  rw [hc, hd, Option.map_some, Option.map_some, Option.some.injEq] at hcaches
  have hsources := congrArg ColumnCache.source hcaches
  exact hsources

include hx hy

/-- **Where lists may be read they hold the same**, whatever else they hold. -/
theorem get?_eq {list p : Nat} {flat other : FlatList} (hflat : x.listAt list p = .ok flat)
    (hother : y.listAt list p = .ok other) (hkind : flat.kind = other.kind) :
    flat.get? p = other.get? p := by
  have htables := tableAnswers_eq h
  have hlocate : x.locate = y.locate := congrArg TableAnswers.locate htables
  have hchunk : x.chunk = y.chunk := congrArg TableAnswers.chunk htables
  obtain ⟨k, contents, hcache, hfilled, hlist⟩ := hx.exists_opened hflat
  obtain ⟨k', contents', hcache', hfilled', hlist'⟩ := hy.exists_opened hother
  have hsource : k.source = k'.source := source_eq h hcache hcache'
  rw [← hsource] at hcache'
  obtain ⟨l, shared, column, kind, hl, hshared, hcolumn, hget⟩ :=
    get?_eq_listed hx.reachable hx.bounded hcache hfilled hlist
  obtain ⟨l', shared', column', kind', hl', hshared', hcolumn', hget'⟩ :=
    get?_eq_listed hy.reachable hy.bounded hcache' hfilled' hlist'
  -- Both lists are of one column, and the position is in one row of one chunk.
  obtain rfl : l = l' := by
    rw [hlocate, hl'] at hl
    exact (Except.ok.inj hl).symm
  obtain rfl : shared = shared' := by
    rw [hchunk, hshared'] at hshared
    exact (Except.ok.inj hshared).symm
  obtain rfl : column = column' := by
    rw [hcolumn'] at hcolumn
    exact (Prod.mk.inj (Option.some.inj hcolumn)).1.symm
  rw [hget, hget', hkind]

/-- Cached reads have the same answers, with the same failures. -/
theorem cachedRead_eq {α : Type} {read : FlatList → Nat → Result α}
    (hread : FlatList.ReadsValues read) (list p : Nat) :
    x.cachedRead read list p = y.cachedRead read list p := by
  have hreads : ∀ z : RowIndex, z.cachedRead read list p = (do read (← z.listAt list p) p) := by
    intro z
    unfold cachedRead listAt
    rw [bind_assoc]
  -- The lists found may differ in elements without a mark, but this position has one.
  have hlists : FlatList.cleared <$> x.listAt list p = FlatList.cleared <$> y.listAt list p := by
    rw [← listAt_cleared, h, listAt_cleared]
  rw [hreads, hreads]
  cases hflat : x.listAt list p with
  | error failure =>
    rw [hflat, eq_comm] at hlists
    rw [Result.map_eq_error_iff.1 hlists]
  | ok flat =>
    rw [hflat, eq_comm] at hlists
    obtain ⟨other, hother, hcleared⟩ := Result.map_eq_ok_iff.1 hlists
    have hkind : flat.kind = other.kind :=
      (congrArg Prod.fst (FlatList.cleared_eq_iff.1 hcleared)).symm
    rw [hother]
    exact hread hkind (get?_eq hx hy h hflat hother hkind)

/-- **All answers are the same.** -/
theorem answers_eq : x.answers = y.answers := by
  have hint : x.cachedInt = y.cachedInt := by
    funext list p
    exact cachedRead_eq hx hy h FlatList.readsValues_getInt list p
  have hlong : x.cachedLong = y.cachedLong := by
    funext list p
    exact cachedRead_eq hx hy h FlatList.readsValues_getLong list p
  have hdouble : x.cachedDouble = y.cachedDouble := by
    funext list p
    exact cachedRead_eq hx hy h FlatList.readsValues_getDouble list p
  unfold answers
  rw [tableAnswers_eq h, cacheAnswers_eq h, hint, hlong, hdouble]

end SameCleared

end RowIndex

/-! ### Runs -/

namespace RowIndex

variable {x y : RowIndex}

/-- The operations of a run with their outcomes. -/
def steps (x : RowIndex) (operations : List Operation) : List (Operation × Outcome RowIndex) :=
  operations.zip (x.run operations).2

/-- Whether a step is a copy that failed. -/
def isFailedCopy (step : Operation × Outcome RowIndex) : Bool :=
  match step.1 with
  | .populate _ => !step.2.succeeded
  | _ => false

/-- The steps of a run that are not copies that failed. -/
def kept (x : RowIndex) (operations : List Operation) : List (Operation × Outcome RowIndex) :=
  (x.steps operations).filter fun step => !isFailedCopy step

/-- What shows of a step: the operation, whether it succeeds, its notices, and the
answers of the index after it. -/
def observe (step : Operation × Outcome RowIndex) :
    Operation × Result Unit × List Notice × Answers :=
  (step.1, step.2.status, step.2.notices, step.2.state.answers)

theorem steps_cons (x : RowIndex) (operation : Operation) (rest : List Operation) :
    x.steps (operation :: rest) =
      (operation, x.apply operation) :: (x.apply operation).state.steps rest := rfl

theorem run_cons (x : RowIndex) (operation : Operation) (rest : List Operation) :
    (x.run (operation :: rest)).1 = ((x.apply operation).state.run rest).1 := rfl

theorem exists_failure_of_isFailedCopy {operation : Operation} {o : Outcome RowIndex}
    (h : isFailedCopy (operation, o) = true) :
    ∃ chunkId failure, operation = .populate chunkId ∧ o.status = .error failure := by
  cases operation with
  | populate chunkId =>
    obtain ⟨state, status, notices⟩ := o
    cases status with
    | error failure => exact ⟨chunkId, failure, rfl, rfl⟩
    | ok _ => cases h
  | _ => cases h

/-- One operation, on indices that are the same once cleared: it does the same,
and leaves such indices. -/
theorem apply_of_cleared_eq (hx : x.OfKeys) (hy : y.OfKeys) (h : x.cleared = y.cleared)
    (operation : Operation) : (x.apply operation).status = (y.apply operation).status ∧
      (x.apply operation).notices = (y.apply operation).notices ∧
        (x.apply operation).state.cleared = (y.apply operation).state.cleared := by
  have hsame : (x.apply operation).map cleared = (y.apply operation).map cleared := by
    rw [map_cleared_apply hx, h, ← map_cleared_apply hy]
  have hstatus := congrArg Outcome.status hsame
  have hnotices := congrArg Outcome.notices hsame
  have hstate := congrArg Outcome.state hsame
  exact ⟨hstatus, hnotices, hstate⟩

/-- **A run and what is kept of it stay in step**, from indices that are the same
once cleared. -/
theorem observe_kept : ∀ {operations : List Operation} {x y : RowIndex}, x.Keyed → y.Keyed →
    x.cleared = y.cleared → (∀ operation ∈ operations, operation.Keyed) →
      (y.steps ((x.kept operations).map Prod.fst)).map observe = (x.kept operations).map observe ∧
        (y.run ((x.kept operations).map Prod.fst)).1.answers = (x.run operations).1.answers := by
  intro operations
  induction operations with
  | nil =>
    intro x y hx hy h _
    exact ⟨rfl, (answers_eq hx hy h).symm⟩
  | cons operation rest ih =>
    intro x y hx hy h hops
    have hop : operation.Keyed := hops operation List.mem_cons_self
    have hrest : ∀ other ∈ rest, other.Keyed := fun other hother =>
      hops other (List.mem_cons_of_mem _ hother)
    cases hfailed : isFailedCopy (operation, x.apply operation) with
    | true =>
      -- The copy is left out, and what it leaves is the same once cleared.
      have hkept : x.kept (operation :: rest) = (x.apply operation).state.kept rest := by
        rw [kept, steps_cons, List.filter_cons_of_neg (by rw [hfailed]; decide), kept]
      obtain ⟨chunkId, failure, rfl, hstatus⟩ := exists_failure_of_isFailedCopy hfailed
      have hcleared := (cleared_of_failed_copy hx.ofKeys hstatus).1
      rw [hkept, run_cons]
      exact ih (hx.apply hop) hy (hcleared.trans h) hrest
    | false =>
      have hkept : x.kept (operation :: rest) =
          (operation, x.apply operation) :: (x.apply operation).state.kept rest := by
        rw [kept, steps_cons, List.filter_cons_of_pos (by rw [hfailed]; decide), kept]
      obtain ⟨hstatus, hnotices, hcleared⟩ := apply_of_cleared_eq hx.ofKeys hy.ofKeys h operation
      have hanswers := answers_eq (hx.apply hop) (hy.apply hop) hcleared
      obtain ⟨hsteps, hlast⟩ := ih (hx.apply hop) (hy.apply hop) hcleared hrest
      rw [hkept, List.map_cons, steps_cons, List.map_cons, List.map_cons, hsteps, run_cons,
        run_cons]
      refine ⟨congrArg (· :: _) ?_, hlast⟩
      unfold observe
      rw [hstatus, hnotices, hanswers]

/-- **Copies that fail leave no trace.**  Without them, the operations of a run
succeed or fail as before, with the same notices, and after each the index gives
the same answers; and so it does at the end.  A copy that fails gives no notice
and changes no answer. -/
theorem failed_copies_leave_no_trace {options : IndexOptions} {start : RowIndex}
    {operations : List Operation} (hstart : ofOptions options = .ok start)
    (hops : ∀ operation ∈ operations, operation.Keyed) :
    (start.steps ((start.kept operations).map Prod.fst)).map observe =
      (start.kept operations).map observe ∧
    (start.run ((start.kept operations).map Prod.fst)).1.answers =
      (start.run operations).1.answers ∧
    ∀ {chunkId : Nat} {failure : Failure},
      ((start.run operations).1.apply (.populate chunkId)).status = .error failure →
        ((start.run operations).1.apply (.populate chunkId)).notices = [] ∧
          ((start.run operations).1.apply (.populate chunkId)).state.answers =
            (start.run operations).1.answers := by
  have hx : start.Keyed := keyed_ofOptions hstart
  obtain ⟨hsteps, hlast⟩ := observe_kept hx hx rfl hops
  refine ⟨hsteps, hlast, ?_⟩
  intro chunkId failure hstatus
  have hrun : (start.run operations).1.Keyed := hx.run hops
  have hpopulate : (Operation.populate chunkId).Keyed := ⟨trivial, trivial, trivial⟩
  obtain ⟨hcleared, hnotices⟩ := cleared_of_failed_copy hrun.ofKeys hstatus
  exact ⟨hnotices, answers_eq (hrun.apply hpopulate) hrun hcleared⟩

/-- The copy of a chunk fails at the second of two lists, when its number is
already in the first. -/
theorem failed_copies_leave_no_trace_half :
    ∃ whole half operations kept contents,
      ((ChunkBuilder.ofTypes [.long, .long]).appendRows [[.long 7, .long 8]]).state.build = whole ∧
      ((ChunkBuilder.ofTypes [.long, .boolean]).appendRows [[.long 9, .boolean true]]).state.build =
        half ∧
      Operation.copying [⟨0, whole⟩, ⟨1, half⟩] ⟨[(0, .long), (1, .long)]⟩ [1, 0] = operations ∧
      Operation.copying [⟨0, whole⟩, ⟨1, half⟩] ⟨[(0, .long), (1, .long)]⟩ [0] = kept ∧
      (∀ operation ∈ operations, operation.Keyed) ∧
      (empty.run operations).1.cache? =
        some ⟨KeyColumns.source ⟨[(0, .long), (1, .long)]⟩, .opened contents⟩ ∧
      contents.lists.map FlatList.values = [[.long 7, .long 9], [.long 8, .long 0]] ∧
      (empty.kept operations).map Prod.fst = kept ∧
      (empty.run kept).1.answers = (empty.run operations).1.answers := by
  obtain ⟨whole, hwhole⟩ : ∃ whole, ((ChunkBuilder.ofTypes [.long, .long]).appendRows
      [[.long 7, .long 8]]).state.build = whole := ⟨_, rfl⟩
  obtain ⟨half, hhalf⟩ : ∃ half, ((ChunkBuilder.ofTypes [.long, .boolean]).appendRows
      [[.long 9, .boolean true]]).state.build = half := ⟨_, rfl⟩
  have hkeyed : ∀ operation ∈ Operation.copying [⟨0, whole⟩, ⟨1, half⟩]
      ⟨[(0, .long), (1, .long)]⟩ [1, 0], operation.Keyed := by
    refine Operation.keyed_of_mem_copying ?_
    intro shared hshared
    rw [List.mem_cons, List.mem_singleton] at hshared
    rcases hshared with rfl | rfl
    · rw [← hwhole]
      exact .build ((ChunkBuilder.made_ofTypes _).appendRows _)
    · rw [← hhalf]
      exact .build ((ChunkBuilder.made_ofTypes _).appendRows _)
  have htrace :=
    (failed_copies_leave_no_trace (rfl : ofOptions .usual = .ok RowIndex.empty) hkeyed).2.1
  subst hwhole hhalf
  exact ⟨_, _, _, _, _, rfl, rfl, rfl, rfl, hkeyed, rfl, rfl, rfl, htrace⟩

end RowIndex

end Columnar
