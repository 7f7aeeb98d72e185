import Columnar.Proofs.CacheFlags
import Columnar.Proofs.Cleared

/-!
# The stages of a cache

The cache of an index is attached, opened and closed, and each of these steps can
be taken from certain stages only.  A session is the time from an opening to the
next closing.  While it lasts the tables of the index stand still, so that the
numbers given out at the opening are right until the closing, and no list comes
or goes.  The notices of a run are therefore those of the sessions that are over,
an opening and a closing each, and at last the opening of the one that goes on.

## Main definitions

* `RowIndex.stage?` — the stage of the cache, if there is one.
* `Operation.Moves` — the changes of stage.
* `Session`, `RowIndex.session?` — what an opening and its closing say.
* `RowIndex.cacheLog` — the notices of a run about sessions.
* `RowIndex.HonoursStages` — what is allowed in each stage.

## Main results

* `RowIndex.apply_stage_cases` — all that an operation can do to stage and session.
* `RowIndex.honoursStages` — in each stage only some operations succeed.
* `RowIndex.exists_log_run` — **the log of a run is that of its sessions.**
* `cache_follows_stages` — **the stages and the log of every run.**
-/

namespace Columnar

/-! ### Stages -/

/-- The stage of the cache, if there is one. -/
def RowIndex.stage? (x : RowIndex) : Option CacheStage := x.cache?.map ColumnCache.stage

/-- The changes of stage, each with the operation that makes it. -/
inductive Operation.Moves : Operation → Option CacheStage → Option CacheStage → Prop
  /-- A new cache takes the place of none or of one that is not open. -/
  | setSource (source : ListSource) {stage? : Option CacheStage} :
      stage? ≠ some .opened → Moves (.setSource source) stage? (some .unopened)
  | openCache : Moves .openCache (some .unopened) (some .opened)
  | closeCache (stage : CacheStage) : Moves .closeCache (some stage) (some .closed)

/-- The operations that an open cache forbids. -/
def Operation.isBarredWhileOpen : Operation → Bool
  | .append _ | .merge _ | .setSource _ | .openCache => true
  | .populate _ | .closeCache => false

/-! ### Sessions -/

/-- What is said about a session: the lists that are made, and the positions and
chunks they are made for. -/
structure Session where
  lists : Nat
  positions : Nat
  chunks : Nat

namespace Session

/-- The notice at the beginning. -/
def opening (s : Session) : Notice := .cacheOpened s.lists s.positions s.chunks

/-- The notice at the end. -/
def closing (s : Session) : Notice := .cacheClosed s.lists

/-- What is said about sessions that are over and about one that goes on. -/
def log (past : List Session) (current? : Option Session) : List Notice :=
  past.flatMap (fun s => [s.opening, s.closing]) ++ current?.toList.map opening

end Session

/-- The session of an open cache, as the index stands. -/
def RowIndex.session? (x : RowIndex) : Option Session :=
  match x.cache? with
  | some ⟨_, .opened contents⟩ => some ⟨contents.lists.length, x.positionCount, x.chunkCount⟩
  | _ => none

namespace Notice

/-- The cache was opened. -/
def isOpening : Notice → Bool
  | cacheOpened .. => true
  | _ => false

/-- The cache was closed. -/
def isClosing : Notice → Bool
  | cacheClosed .. => true
  | _ => false

/-- The notice is about a session. -/
def isOnSession (notice : Notice) : Bool := notice.isOpening || notice.isClosing

end Notice

/-- The notices of a change about sessions. -/
def Outcome.sessionNotices {σ : Type} (o : Outcome σ) : List Notice :=
  o.notices.filter Notice.isOnSession

/-- The notices of a run about sessions, in order. -/
def RowIndex.cacheLog (x : RowIndex) (operations : List Operation) : List Notice :=
  (x.run operations).2.flatMap Outcome.sessionNotices

namespace RowIndex

variable {x y : RowIndex} {operation : Operation}

theorem stage?_of_some {cache : ColumnCache} (h : x.cache? = some cache) :
    x.stage? = some cache.stage := by
  rw [stage?, h]
  rfl

theorem hasOpenCache_iff : x.hasOpenCache = true ↔ x.stage? = some .opened := by
  unfold hasOpenCache stage?
  cases x.cache? with
  | none => exact ⟨fun h => (by cases h), fun h => (by cases h)⟩
  | some cache =>
    show (cache.stage == .opened) = true ↔ some cache.stage = some .opened
    rw [beq_iff_eq, Option.some.injEq]

theorem stage?_ne_of_not_open (h : x.hasOpenCache = false) : x.stage? ≠ some .opened := by
  intro hstage
  rw [hasOpenCache_iff.2 hstage] at h
  cases h

theorem exists_cache_of_stage {stage : CacheStage} (h : x.stage? = some stage) :
    ∃ source phase, x.cache? = some ⟨source, phase⟩ ∧ phase.stage = stage := by
  obtain ⟨⟨source, phase⟩, hcache, hphase⟩ := Option.map_eq_some_iff.1 h
  exact ⟨source, phase, hcache, hphase⟩

theorem stage?_of_cache?_eq (h : y.cache? = x.cache?) : y.stage? = x.stage? := by
  rw [stage?, h, stage?]

/-- A session lasts as long as the cache is open. -/
theorem isSome_session?_iff : x.session?.isSome ↔ x.stage? = some .opened := by
  unfold session? stage?
  cases x.cache? with
  | none => exact ⟨fun h => (by cases h), fun h => (by cases h)⟩
  | some cache =>
    obtain ⟨source, phase⟩ := cache
    cases phase with
    | unopened => exact ⟨fun h => (by cases h), fun h => (by cases h)⟩
    | opened contents => exact ⟨fun _ => rfl, fun _ => rfl⟩
    | closed => exact ⟨fun h => (by cases h), fun h => (by cases h)⟩

theorem session?_of_not_opened (h : x.stage? ≠ some .opened) : x.session? = none := by
  exact Option.not_isSome_iff_eq_none.1 fun hsome => h (isSome_session?_iff.1 hsome)

theorem session?_of_opened {source : ListSource} {contents : OpenCache}
    (h : x.cache? = some ⟨source, .opened contents⟩) :
    x.session? = some ⟨contents.lists.length, x.positionCount, x.chunkCount⟩ := by
  rw [session?, h]

/-- A session that goes on is about the positions and chunks there are. -/
theorem session?_counts {session : Session} (h : x.session? = some session) :
    session.positions = x.positionCount ∧ session.chunks = x.chunkCount := by
  unfold session? at h
  split at h
  · cases h
    exact ⟨rfl, rfl⟩
  · cases h

/-- An index that grew had no open cache, and keeps the one it has. -/
theorem Grown.stage_eq {added : List SharedChunk} (h : x.Grown added y)
    (hopen : x.hasOpenCache = false) : y.stage? = x.stage? ∧ y.session? = x.session? := by
  have hstage : y.stage? = x.stage? := stage?_of_cache?_eq h.cache_eq
  have hx := stage?_ne_of_not_open hopen
  refine ⟨hstage, ?_⟩
  rw [session?_of_not_opened hx, session?_of_not_opened (hstage ▸ hx)]

/-! ### Steps -/

theorem sessionNotices_andThen {σ : Type} {o : Outcome σ} {next : σ → Outcome σ}
    (ho : o.sessionNotices = []) (hnext : ∀ s, (next s).sessionNotices = []) :
    (o.andThen next).sessionNotices = [] := by
  obtain ⟨state, status, notices⟩ := o
  cases status with
  | error failure => exact ho
  | ok _ =>
    show (notices ++ (next state).notices).filter Notice.isOnSession = []
    rw [List.filter_append]
    exact List.append_eq_nil_iff.2 ⟨ho, hnext state⟩

/-- Taking chunks over says nothing about sessions, though it may tell of a cache
that stays behind. -/
theorem sessionNotices_takeOver (x source : RowIndex) :
    (x.takeOver source).sessionNotices = [] := by
  unfold takeOver
  split
  · rfl
  · dsimp only
    split <;> cases source.hasOpenCache <;> rfl

theorem sessionNotices_takeOverAll : ∀ (sources : List RowIndex) (x : RowIndex),
    (x.takeOverAll sources).sessionNotices = [] := by
  intro sources
  induction sources with
  | nil => intro x; rfl
  | cons source rest ih =>
    intro x
    exact sessionNotices_andThen (sessionNotices_takeOver x source) fun y => ih y

theorem sessionNotices_merge (x : RowIndex) (sources : List RowIndex) :
    (x.merge sources).sessionNotices = [] := by
  unfold merge
  dsimp only
  split
  · rfl
  · exact sessionNotices_andThen (sessionNotices_takeOverAll sources x) fun _ => rfl

/-- Copying key columns keeps the number of lists and gives no notice. -/
theorem populate_keeps_session {k : KeyColumns} {o : OpenCache} {chunkId base : Nat}
    {chunk : Chunk} :
    (o.populate k.source chunkId chunk base).state.lists.length = o.lists.length ∧
      (o.populate k.source chunkId chunk base).notices = [] := by
  -- A copy may stop halfway, but the lists stay as many as they were.
  have hlists : (k.source.fill chunk base o.lists).state.length = o.lists.length := by
    have hshapes : (k.source.fill chunk base o.lists).state.map FlatList.shape =
        o.lists.map FlatList.shape := KeyColumns.map_shape_fillLists k.columns o.lists
    have hlength := congrArg List.length hshapes
    rwa [List.length_map, List.length_map] at hlength
  have hnotices : (k.source.fill chunk base o.lists).notices = [] :=
    KeyColumns.notices_fillLists k.columns o.lists
  cases hclear : o.clearance chunkId chunk base with
  | error failure =>
    rw [OpenCache.populate_of_not_clear hclear]
    exact ⟨rfl, rfl⟩
  | ok stop =>
    cases hfill : (k.source.fill chunk base o.lists).status with
    | error failure =>
      rw [OpenCache.populate_of_fill_error hclear hfill]
      exact ⟨hlists, hnotices⟩
    | ok _ =>
      rw [OpenCache.populate_of_fill_ok hclear hfill]
      exact ⟨hlists, hnotices⟩

/-- A change leaves the stage and the session alone.  If it fails, it gives no
notice at all. -/
structure KeepsStage (x : RowIndex) (o : Outcome RowIndex) : Prop where
  stage_eq : o.state.stage? = x.stage?
  session_eq : o.state.session? = x.session?
  sessionNotices_eq : o.sessionNotices = []
  notices_of_failed : o.status ≠ .ok () → o.notices = []

/-- An operation changes the stage, and gives notice of the session that begins or
ends with that. -/
structure ChangesStage (x : RowIndex) (operation : Operation) (o : Outcome RowIndex) : Prop where
  moves : operation.Moves x.stage? o.state.stage?
  status_eq : o.status = .ok ()
  notices : (x.session? = none ∧ o.sessionNotices = o.state.session?.toList.map Session.opening) ∨
    (o.state.session? = none ∧ o.sessionNotices = x.session?.toList.map Session.closing)

theorem keepsStage_failed (x : RowIndex) (failure : Failure) : x.KeepsStage (.failed x failure) :=
  ⟨rfl, rfl, rfl, fun _ => rfl⟩

theorem keepsStage_done (x : RowIndex) : x.KeepsStage (.done x) :=
  ⟨rfl, rfl, rfl, fun _ => rfl⟩

/-- Opening a cache begins a session. -/
theorem openCache_changesStage {source : ListSource} {lists : List FlatList}
    (hcache : x.cache? = some ⟨source, .unopened⟩) (happly : x.apply .openCache = .reporting
      { x with cache? := some ⟨source, .opened (.fresh lists x.positionCount x.chunkCount)⟩ }
      (.cacheOpened lists.length x.positionCount x.chunkCount)) :
    x.ChangesStage .openCache (x.apply .openCache) := by
  have hstage : x.stage? = some .unopened := stage?_of_some hcache
  have hsession : x.session? = none := session?_of_not_opened (by rw [hstage]; decide)
  rw [happly]
  exact ⟨hstage ▸ .openCache, rfl, Or.inl ⟨hsession, rfl⟩⟩

/-- Copying a chunk goes on with the session there is. -/
theorem populate_keepsStage (hx : x.OfKeys) (chunkId : Nat) :
    x.KeepsStage (x.apply (.populate chunkId)) := by
  rcases apply_populate_cases x chunkId with ⟨-, happly⟩ | ⟨failure, happly⟩ |
    ⟨source, before, shared, base, hcache, -, -, happly⟩
  · rw [happly]
    exact keepsStage_done x
  · rw [happly]
    exact keepsStage_failed x failure
  · -- The copy itself may fail, and then it has no notice either.
    obtain ⟨k, hk⟩ := hx _ hcache
    obtain rfl : source = k.source := hk
    obtain ⟨hlists, hnotices⟩ := @populate_keeps_session k before chunkId base shared.chunk
    rw [happly]
    refine ⟨?_, ?_, congrArg (List.filter Notice.isOnSession) hnotices, fun _ => hnotices⟩
    · rw [stage?_of_some hcache]
      rfl
    · rw [session?_of_opened hcache, ← hlists]
      rfl

/-- Closing a cache ends the session, if there is one. -/
theorem closeCache_changesStage {cache : ColumnCache} (hcache : x.cache? = some cache) :
    x.ChangesStage .closeCache (x.apply .closeCache) := by
  have happly : x.apply .closeCache = (ColumnCache.close cache).map fun cache =>
      { x with cache? := some cache } := changeCache_of_some hcache _
  have hstage : x.stage? = some cache.stage := stage?_of_some hcache
  obtain ⟨source, phase⟩ := cache
  rw [happly]
  -- Only an open cache tells that it is closed, and only an open one has a session.
  cases phase with
  | unopened => exact ⟨hstage ▸ .closeCache _, rfl, Or.inr ⟨rfl, by rw [session?, hcache]; rfl⟩⟩
  | opened contents =>
    exact ⟨hstage ▸ .closeCache _, rfl, Or.inr ⟨rfl, by rw [session?, hcache]; rfl⟩⟩
  | closed => exact ⟨hstage ▸ .closeCache _, rfl, Or.inr ⟨rfl, by rw [session?, hcache]; rfl⟩⟩

/-- **All that an operation can do to the stage and the session**: it leaves both
alone, or it attaches, opens or closes a cache. -/
theorem apply_stage_cases (hx : x.WellFormed) (hkeys : x.OfKeys) (hop : operation.Admissible) :
    x.KeepsStage (x.apply operation) ∨ x.ChangesStage operation (x.apply operation) := by
  cases operation with
  | append shared =>
    refine Or.inl ?_
    rcases apply_append_cases hx shared with ⟨failure, happly⟩ | ⟨y, happly, hopen, hgrown⟩
    · rw [happly]
      exact keepsStage_failed x failure
    · obtain ⟨hstage, hsession⟩ := hgrown.stage_eq hopen
      rw [happly]
      exact ⟨hstage, hsession, rfl, fun _ => rfl⟩
  | merge sources =>
    refine Or.inl ?_
    rcases apply_merge_cases hx (hop.wellFormed sources rfl) with ⟨failure, happly⟩ |
      ⟨hstatus, hopen, hgrown⟩
    · rw [happly]
      exact keepsStage_failed x failure
    · -- A merge that succeeds may have notices, but none of them is about a session.
      obtain ⟨hstage, hsession⟩ := hgrown.stage_eq hopen
      exact ⟨hstage, hsession, sessionNotices_merge x sources, fun h => absurd hstatus h⟩
  | setSource source =>
    rcases apply_setSource_cases x source with ⟨failure, happly⟩ | ⟨happly, hopen⟩
    · rw [happly]
      exact Or.inl (keepsStage_failed x failure)
    · have hstage := stage?_ne_of_not_open hopen
      rw [happly]
      exact Or.inr ⟨.setSource source hstage, rfl, Or.inl ⟨session?_of_not_opened hstage, rfl⟩⟩
  | openCache =>
    -- Without a cache there is nothing to open, and lists that cannot exist are refused.
    rcases apply_openCache_cases x with ⟨-, happly⟩ | ⟨failure, happly⟩ |
      ⟨source, lists, hcache, -, happly⟩
    · rw [happly]
      exact Or.inl (keepsStage_done x)
    · rw [happly]
      exact Or.inl (keepsStage_failed x failure)
    · exact Or.inr (openCache_changesStage hcache happly)
  | populate chunkId => exact Or.inl (populate_keepsStage hkeys chunkId)
  | closeCache =>
    cases hcache : x.cache? with
    | none =>
      have happly : x.apply .closeCache = .done x := changeCache_of_none hcache _
      rw [happly]
      exact Or.inl (keepsStage_done x)
    | some cache => exact Or.inr (closeCache_changesStage hcache)

/-! ### What is allowed in each stage -/

/-- What is allowed in each stage of the cache of an index. -/
structure HonoursStages (x : RowIndex) : Prop where
  /-- The stage changes by attaching, opening and closing only. -/
  eq_or_moves : ∀ operation : Operation, operation.Admissible → operation.OfKeys →
    (x.apply operation).state.stage? = x.stage? ∨
      operation.Moves x.stage? (x.apply operation).state.stage?
  /-- From the stages where these are allowed, they succeed; for an opening each list has
  to fit an array. -/
  of_moves : ∀ (operation : Operation) (stage? : Option CacheStage),
    operation.Moves x.stage? stage? →
    (operation = .openCache → ∀ k : KeyColumns, x.cache? = some (.ofSource k.source) →
      k.HasRoom x.positionCount) →
      (x.apply operation).status = .ok () ∧ (x.apply operation).state.stage? = stage?
  /-- An opening whose lists do not fit changes nothing. -/
  unopenable : ∀ k : KeyColumns, x.cache? = some (.ofSource k.source) →
    ¬ k.HasRoom x.positionCount →
      x.apply .openCache = .failed x (.misused .capacityOverflow)
  /-- What fails gives no notice and leaves the stage as it was. -/
  of_failed : ∀ operation : Operation, operation.Admissible → operation.OfKeys →
    (x.apply operation).status ≠ .ok () →
      (x.apply operation).notices = [] ∧ (x.apply operation).state.stage? = x.stage?
  /-- While the cache is open, nothing is added, attached or opened. -/
  barred : x.stage? = some .opened → ∀ operation : Operation,
    operation.isBarredWhileOpen = true → ∃ failure, x.apply operation = .failed x failure
  /-- A closed cache is not opened again. -/
  reopened : x.stage? = some .closed → ∃ failure, x.apply .openCache = .failed x failure
  /-- Only an open cache is filled. -/
  populated : ∀ stage, x.stage? = some stage → stage ≠ .opened → ∀ chunkId < x.chunkCount,
    ∃ failure, x.apply (.populate chunkId) = .failed x failure
  /-- Only an open cache is read. -/
  read : ∀ stage, x.stage? = some stage → stage ≠ .opened → ∀ list position,
    x.cachedInt list position = .error (.misused (.readWhile stage)) ∧
      x.cachedLong list position = .error (.misused (.readWhile stage)) ∧
      x.cachedDouble list position = .error (.misused (.readWhile stage))
  /-- Closing never fails, and closing again changes nothing. -/
  closed : (x.apply .closeCache).status = .ok () ∧
    (x.apply .closeCache).state.apply .closeCache = .done (x.apply .closeCache).state

/-- A cache is opened only once. -/
theorem openCache_of_not_unopened {stage : CacheStage} (h : x.stage? = some stage)
    (hne : stage ≠ .unopened) : ∃ failure, x.apply .openCache = .failed x failure := by
  obtain ⟨source, phase, hcache, rfl⟩ := exists_cache_of_stage h
  cases phase with
  | unopened => exact absurd rfl hne
  | opened contents => exact ⟨_, changeCache_of_failed hcache rfl⟩
  | closed => exact ⟨_, changeCache_of_failed hcache rfl⟩

/-- While the cache is open, the operations that it forbids fail at once. -/
theorem apply_of_barred (hopen : x.stage? = some .opened)
    (hbarred : operation.isBarredWhileOpen = true) :
    ∃ failure, x.apply operation = .failed x failure := by
  -- The guard is the first thing that the barred operations ask.
  have hguard := fun call => requireCacheNotOpen_of_open call (hasOpenCache_iff.2 hopen)
  cases operation with
  | append shared =>
    have happend : x.append shared = .error (.misused (.cacheIsOpen .append)) := by
      rw [append, hguard]
      rfl
    exact ⟨_, congrArg (Outcome.ofResult x) happend⟩
  | merge sources => exact ⟨_, merge_of_open (hasOpenCache_iff.2 hopen)⟩
  | setSource source =>
    have hset : x.setSource source = .error (.misused (.cacheIsOpen .setSource)) := by
      rw [setSource, hguard]
      rfl
    exact ⟨_, congrArg (Outcome.ofResult x) hset⟩
  | openCache => exact openCache_of_not_unopened hopen (by decide)
  | populate chunkId => cases hbarred
  | closeCache => cases hbarred

/-- A list is read only of an open cache, whatever its kind. -/
theorem cachedRead_of_not_opened {α : Type} {stage : CacheStage} (h : x.stage? = some stage)
    (hne : stage ≠ .opened) (read : FlatList → Nat → Result α) (list position : Nat) :
    x.cachedRead read list position = .error (.misused (.readWhile stage)) := by
  obtain ⟨source, phase, hcache, rfl⟩ := exists_cache_of_stage h
  have hread : x.cacheForRead = .ok ⟨source, phase⟩ := by rw [cacheForRead, hcache]
  rw [cachedRead, hread]
  cases phase with
  | unopened => rfl
  | opened contents => exact absurd rfl hne
  | closed => rfl

/-- From the stages from which the cache can be attached, opened or closed, that
succeeds, if there is room for the lists that an opening makes. -/
theorem apply_of_moves (hkeys : x.OfKeys) {stage? : Option CacheStage}
    (h : operation.Moves x.stage? stage?)
    (hroom : operation = .openCache → ∀ k : KeyColumns, x.cache? = some (.ofSource k.source) →
      k.HasRoom x.positionCount) :
    (x.apply operation).status = .ok () ∧ (x.apply operation).state.stage? = stage? := by
  generalize hstage : x.stage? = before at h
  -- Opening is the one move that may be refused, for want of room.
  cases h with
  | setSource source hne =>
    have hopen : x.hasOpenCache = false := by
      rw [← Bool.not_eq_true, hasOpenCache_iff, hstage]
      exact hne
    have hset : x.setSource source = .ok { x with cache? := some (.ofSource source) } :=
      setSource_eq_ok_iff.2 ⟨hopen, rfl⟩
    have happly : x.apply (.setSource source) =
        .done { x with cache? := some (.ofSource source) } := congrArg (Outcome.ofResult x) hset
    rw [happly]
    exact ⟨rfl, rfl⟩
  | openCache =>
    obtain ⟨source, phase, hcache, hphase⟩ := exists_cache_of_stage hstage
    cases phase with
    | unopened =>
      obtain ⟨k, hk⟩ := hkeys _ hcache
      obtain rfl : source = k.source := hk
      obtain ⟨lists, hlists⟩ := KeyColumns.exists_lists_iff.2 (hroom rfl k hcache)
      rw [apply_openCache_of_ok hcache hlists]
      exact ⟨rfl, rfl⟩
    | opened contents => cases hphase
    | closed => cases hphase
  | closeCache stage =>
    obtain ⟨source, phase, hcache, -⟩ := exists_cache_of_stage hstage
    have happly := changeCache_of_some hcache ColumnCache.close
    have hstatus := congrArg Outcome.status happly
    have hafter := congrArg (fun o => o.state.stage?) happly
    cases phase <;> exact ⟨hstatus, hafter⟩

/-- Closing never fails, and closing again changes nothing. -/
theorem closeCache_twice (x : RowIndex) : (x.apply .closeCache).status = .ok () ∧
    (x.apply .closeCache).state.apply .closeCache = .done (x.apply .closeCache).state := by
  rcases apply_closeCache_cases x with ⟨hnone, happly⟩ | ⟨source, phase, notices, -, happly⟩
  · rw [happly]
    exact ⟨rfl, changeCache_of_none hnone _⟩
  · rw [happly]
    exact ⟨rfl, rfl⟩

/-- **In each stage only some operations succeed**, and those that fail do nothing
first. -/
theorem honoursStages (hx : x.WellFormed) (hkeys : x.OfKeys) : x.HonoursStages where
  eq_or_moves operation hop _ := by
    rcases apply_stage_cases hx hkeys hop with hkeeps | hchanges
    · exact Or.inl hkeeps.stage_eq
    · exact Or.inr hchanges.moves
  of_moves _ _ h hroom := apply_of_moves hkeys h hroom
  unopenable _ hcache hroom :=
    apply_openCache_of_error hcache (KeyColumns.lists_of_not_hasRoom hroom)
  of_failed _ hop _ h := by
    rcases apply_stage_cases hx hkeys hop with hkeeps | hchanges
    · exact ⟨hkeeps.notices_of_failed h, hkeeps.stage_eq⟩
    · exact absurd hchanges.status_eq h
  barred hopen _ hbarred := apply_of_barred hopen hbarred
  reopened hclosed := openCache_of_not_unopened hclosed (by decide)
  populated stage hstage hne chunkId _ := by
    rcases apply_populate_cases x chunkId with ⟨hnone, -⟩ | hfailed |
      ⟨source, before, _, _, hcache, -⟩
    · rw [stage?, hnone] at hstage
      cases hstage
    · exact hfailed
    · rw [stage?_of_some hcache] at hstage
      exact absurd (Option.some.inj hstage).symm hne
  read stage hstage hne list position :=
    ⟨cachedRead_of_not_opened hstage hne FlatList.getInt list position,
      cachedRead_of_not_opened hstage hne FlatList.getLong list position,
      cachedRead_of_not_opened hstage hne FlatList.getDouble list position⟩
  closed := closeCache_twice x

/-! ### Runs -/

theorem cacheLog_cons (x : RowIndex) (operation : Operation) (rest : List Operation) :
    x.cacheLog (operation :: rest) =
      (x.apply operation).sessionNotices ++ (x.apply operation).state.cacheLog rest := rfl

/-- An operation goes on with the log of its sessions. -/
theorem exists_log_apply (hx : x.WellFormed) (hkeys : x.OfKeys) (hop : operation.Admissible)
    (past : List Session) : ∃ past', Session.log past x.session? ++
      (x.apply operation).sessionNotices =
        Session.log past' (x.apply operation).state.session? := by
  rcases apply_stage_cases hx hkeys hop with
    hkeeps | ⟨-, -, ⟨hnone, hnotices⟩ | ⟨hnone, hnotices⟩⟩
  · rw [hkeeps.session_eq, hkeeps.sessionNotices_eq, List.append_nil]
    exact ⟨past, rfl⟩
  · -- A session may begin.
    rw [hnone, hnotices]
    refine ⟨past, ?_⟩
    rw [Session.log, Session.log, Option.toList_none, List.map_nil, List.append_nil]
  · -- The session that goes on, if there is one, is now over.
    rw [hnone, hnotices]
    refine ⟨past ++ x.session?.toList, ?_⟩
    rw [Session.log, Session.log, List.flatMap_append, Option.toList_none, List.map_nil,
      List.append_nil, List.append_assoc]
    cases x.session? <;> rfl

/-- **The log of a run is that of its sessions.** -/
theorem exists_log_run : ∀ {operations : List Operation} {x : RowIndex} (past : List Session),
    x.WellFormed → x.OfKeys → (∀ operation ∈ operations, operation.Admissible ∧ operation.OfKeys) →
      (x.run operations).1.WellFormed ∧ (x.run operations).1.OfKeys ∧
        ∃ past', Session.log past x.session? ++ x.cacheLog operations =
          Session.log past' (x.run operations).1.session? := by
  intro operations
  induction operations with
  | nil => intro x past hx hkeys _; exact ⟨hx, hkeys, past, List.append_nil _⟩
  | cons operation rest ih =>
    intro x past hx hkeys hops
    obtain ⟨hop, hopkeys⟩ := hops operation List.mem_cons_self
    obtain ⟨next, hnext⟩ := exists_log_apply hx hkeys hop past
    obtain ⟨hrun, hrunkeys, past', hpast'⟩ := ih next (hx.apply hop.wellFormed)
      (hkeys.apply hx hop hopkeys) fun other hother => hops other (List.mem_cons_of_mem _ hother)
    refine ⟨hrun, hrunkeys, past', ?_⟩
    rw [cacheLog_cons, ← List.append_assoc, hnext]
    exact hpast'

end RowIndex

namespace Session

@[simp] theorem isOpening_opening (s : Session) : s.opening.isOpening = true := rfl

@[simp] theorem isClosing_opening (s : Session) : s.opening.isClosing = false := rfl

@[simp] theorem isOpening_closing (s : Session) : s.closing.isOpening = false := rfl

@[simp] theorem isClosing_closing (s : Session) : s.closing.isClosing = true := rfl

theorem log_cons (s : Session) (past : List Session) (current? : Option Session) :
    log (s :: past) current? = s.opening :: s.closing :: log past current? := rfl

/-- A log has an opening for each session and a closing for each that is over. -/
theorem countP_log (past : List Session) (current? : Option Session) :
    (log past current?).countP Notice.isOpening = past.length + current?.toList.length ∧
      (log past current?).countP Notice.isClosing = past.length := by
  induction past with
  | nil => cases current? <;> exact ⟨rfl, rfl⟩
  | cons s rest ih =>
    obtain ⟨hopenings, hclosings⟩ := ih
    constructor
    · rw [log_cons, List.countP_cons_of_pos (isOpening_opening s),
        List.countP_cons_of_neg (Bool.eq_false_iff.1 (isOpening_closing s)), hopenings,
        List.length_cons]
      omega
    · rw [log_cons, List.countP_cons_of_neg (Bool.eq_false_iff.1 (isClosing_opening s)),
        List.countP_cons_of_pos (isClosing_closing s), hclosings, List.length_cons]

/-- Openings and closings take turns. -/
theorem turns_log {current? : Option Session} : ∀ {past : List Session} {i : Nat} {notice : Notice},
    (log past current?)[i]? = some notice →
      notice.isOpening = decide (i % 2 = 0) ∧ notice.isClosing = decide (i % 2 = 1) := by
  intro past
  induction past with
  | nil =>
    intro i notice h
    cases current? with
    | none => cases h
    | some s =>
      cases i with
      | zero => cases h; exact ⟨rfl, rfl⟩
      | succ i => cases h
  | cons s rest ih =>
    intro i notice h
    -- Each session that is over takes up two places, so parity carries over to the rest.
    match i with
    | 0 => cases h; exact ⟨rfl, rfl⟩
    | 1 => cases h; exact ⟨rfl, rfl⟩
    | i + 2 =>
      rw [Nat.add_mod_right]
      exact ih h

/-- The last notice about a session that goes on is its opening. -/
theorem getLast?_log (past : List Session) (s : Session) :
    (log past (some s)).getLast? = some s.opening := by
  rw [log, Option.toList_some, List.map_singleton, List.getLast?_concat]

end Session

/-- **The stages and the log of every run.**  After any run with key columns, the
cache allows in each stage what the stage allows, and no more.  The log of the run
is that of its sessions: openings and closings take turns, each closing names the
lists of the opening before it, there is an opening more than there are closings
just when the cache is open, and the last opening then names the positions and
chunks that the index has. -/
theorem cache_follows_stages {options : IndexOptions} {start : RowIndex}
    (hstart : RowIndex.ofOptions options = .ok start) (operations : List Operation)
    (hops : ∀ operation ∈ operations, operation.Admissible ∧ operation.OfKeys) :
    (start.run operations).1.HonoursStages ∧
    (∃ past, start.cacheLog operations =
      Session.log past (start.run operations).1.session?) ∧
    (∀ i notice, (start.cacheLog operations)[i]? = some notice →
      notice.isOpening = decide (i % 2 = 0) ∧ notice.isClosing = decide (i % 2 = 1)) ∧
    ((start.run operations).1.stage? = some .opened ↔
      (start.cacheLog operations).countP Notice.isOpening =
        (start.cacheLog operations).countP Notice.isClosing + 1) ∧
    ((start.run operations).1.stage? = some .opened → ∃ lists,
      (start.cacheLog operations).getLast? = some (.cacheOpened lists
        (start.run operations).1.positionCount (start.run operations).1.chunkCount)) := by
  have hnone : start.cache? = none := cache?_ofOptions hstart
  have hkeys : start.OfKeys := by
    intro cache hcache
    rw [hnone] at hcache
    cases hcache
  have hsession : start.session? = none := by rw [RowIndex.session?, hnone]
  -- The log of the run is all there is to know: the rest is read off its closed form.
  obtain ⟨hwell, hrunkeys, past, hlog⟩ :=
    RowIndex.exists_log_run [] (RowIndex.wellFormed_ofOptions hstart) hkeys hops
  rw [hsession] at hlog
  have hlog : start.cacheLog operations = Session.log past (start.run operations).1.session? := hlog
  obtain ⟨hopenings, hclosings⟩ := Session.countP_log past (start.run operations).1.session?
  rw [← RowIndex.isSome_session?_iff, hlog]
  refine ⟨RowIndex.honoursStages hwell hrunkeys, ⟨past, rfl⟩, fun i notice => Session.turns_log,
    ?_, ?_⟩
  · rw [hopenings, hclosings]
    cases (start.run operations).1.session? <;> simp
  · intro hsome
    obtain ⟨session, hsome⟩ := Option.isSome_iff_exists.1 hsome
    obtain ⟨hpositions, hchunks⟩ := RowIndex.session?_counts hsome
    rw [hsome, ← hpositions, ← hchunks]
    exact ⟨_, Session.getLast?_log past session⟩

/-- Two sessions, the first of which is over.  A chunk is refused while it lasts,
and the closed cache is not opened again but replaced. -/
theorem cache_follows_stages_two :
    ∃ k operations x, (⟨[(0, .long)]⟩ : KeyColumns) = k ∧
      ([.closeCache, .append ⟨0, .ofLongs [7]⟩, .setSource k.source, .openCache,
        .append ⟨1, .ofLongs [8]⟩, .populate 0, .closeCache, .closeCache, .openCache,
        .append ⟨1, .ofLongs [8]⟩, .setSource k.source, .openCache] : List Operation) = operations ∧
      (RowIndex.empty.run operations).1 = x ∧ RowIndex.ofOptions .usual = .ok RowIndex.empty ∧
      (∀ operation ∈ operations, operation.Admissible ∧ operation.OfKeys) ∧
      RowIndex.empty.cacheLog operations =
        [.cacheOpened 1 1 1, .cacheClosed 1, .cacheOpened 1 2 2] ∧
      x.stage? = some .opened ∧
      (∃ failure, x.apply (.merge []) = .failed x failure) ∧
      ∃ lists, (RowIndex.empty.cacheLog operations).getLast? =
        some (.cacheOpened lists x.positionCount x.chunkCount) := by
  refine ⟨_, _, _, rfl, rfl, rfl, rfl, ?_⟩
  have hops : ∀ operation ∈ ([.closeCache, .append ⟨0, .ofLongs [7]⟩,
      .setSource (KeyColumns.source ⟨[(0, .long)]⟩), .openCache, .append ⟨1, .ofLongs [8]⟩,
      .populate 0, .closeCache, .closeCache, .openCache, .append ⟨1, .ofLongs [8]⟩,
      .setSource (KeyColumns.source ⟨[(0, .long)]⟩), .openCache] : List Operation),
      operation.Admissible ∧ operation.OfKeys := by
    intro operation h
    simp only [List.mem_cons, List.not_mem_nil, or_false] at h
    rcases h with rfl | rfl | rfl | rfl | rfl | rfl | rfl | rfl | rfl | rfl | rfl | rfl
    all_goals first
      | exact ⟨trivial, trivial⟩
      | exact ⟨trivial, _, rfl⟩
  obtain ⟨hstages, -, -, -, hlast⟩ := @cache_follows_stages .usual RowIndex.empty rfl _ hops
  exact ⟨hops, rfl, rfl, hstages.barred rfl (.merge []) rfl, hlast rfl⟩

end Columnar
