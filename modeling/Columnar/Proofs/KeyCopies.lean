import Columnar.Proofs.Bounds
import Columnar.Proofs.Built
import Columnar.Proofs.CachedReads
import Columnar.Proofs.CellKeys
import Columnar.Proofs.KeySchema

/-!
# Copying all chunks

If every chunk has the columns of the schema that the key columns were chosen
from, nothing can go wrong in copying them: each chunk ends within the positions
the cache was opened for, each list takes its column, and a chunk that is not yet
marked may be copied, in whatever order.  The lists are then of the types of their
columns, and store the payloads as they are.

## Main definitions

* `KeyColumns.copies` — attaching and opening a cache, and copying some chunks.
* `RowIndex.OpenWith` — a cache of key columns is open, with some chunks marked.
* `RowIndex.ReadsBack` — a list reads like its column.

## Main results

* `RowIndex.OpenWith.populate`, `RowIndex.OpenWith.run` — **a chunk that is not yet
  marked is copied**, and so are any number of them.
* `RowIndex.OpenWith.readsBack` — what was copied is read back.
* `key_columns_copied_in_any_order` — **which key columns are accepted, and that they
  are copied without fail.**
-/

namespace Columnar

/-! ### Definitions -/

/-- Attaches a cache of the key columns, opens it and copies the chunks with the
given ids. -/
def KeyColumns.copies (k : KeyColumns) (ids : List Nat) : List Operation :=
  .setSource k.source :: .openCache :: ids.map .populate

namespace RowIndex

/-- The index has an open cache of the key columns, in which just the given chunks
are marked. -/
def OpenWith (x : RowIndex) (k : KeyColumns) (marked : List Nat) : Prop :=
  ∃ contents, x.cache? = some ⟨k.source, .opened contents⟩ ∧
    ∀ chunkId, contents.populated.bit chunkId = decide (chunkId ∈ marked)

/-- At a position, reads of a list answer like those of a column, and the one for
the kind of the list gives a number. -/
structure ReadsBack (x : RowIndex) (list key : Nat) (kind : ListKind) (position : Nat) :
    Prop where
  int_eq : (x.cachedInt list position).toOption = (x.getInt key position).toOption
  long_eq : (x.cachedLong list position).toOption = (x.getLong key position).toOption
  double_eq : (x.cachedDouble list position).toOption = (x.getDouble key position).toOption
  exists_read : match kind with
    | .int => ∃ n, x.cachedInt list position = .ok n
    | .long => ∃ n, x.cachedLong list position = .ok n
    | .double => ∃ v, x.cachedDouble list position = .ok v

variable {x : RowIndex} {k : KeyColumns} {marked ids : List Nat}

/-! ### Opening -/

/-- A cache is attached unless there is an open one. -/
theorem apply_setSource_of_not_open (h : x.hasOpenCache = false) (source : ListSource) :
    x.apply (.setSource source) = .done { x with cache? := some (.ofSource source) } := by
  show Outcome.ofResult x (x.setSource source) = _
  rw [setSource_eq_ok_iff.2 ⟨h, rfl⟩]
  rfl

/-- A cache of key columns that was just attached is opened just if its lists fit
arrays. -/
theorem openCache_iff_hasRoom (h : x.hasOpenCache = false) (k : KeyColumns) :
    ((x.apply (.setSource k.source)).state.apply .openCache).status = .ok () ↔
      k.HasRoom x.positionCount := by
  rw [apply_setSource_of_not_open h, ← KeyColumns.exists_lists_iff]
  exact status_openCache_iff (x := { x with cache? := some (.ofSource k.source) }) rfl

/-- A cache of key columns that is attached and opened has no marks. -/
theorem openWith_opened (h : x.hasOpenCache = false) (hroom : k.HasRoom x.positionCount) :
    ∃ y z opening, x.apply (.setSource k.source) = .done y ∧
      y.apply .openCache = .reporting z opening ∧ z.chunks = x.chunks ∧ z.OpenWith k [] := by
  obtain ⟨lists, hlists⟩ := KeyColumns.exists_lists_iff.2 hroom
  have hset := apply_setSource_of_not_open h k.source
  refine ⟨_, _, _, hset, apply_openCache_of_ok rfl hlists, rfl, _, rfl, fun chunkId => ?_⟩
  rw [OpenCache.fresh, Bitmap.bit_clear]
  simp

/-! ### Copying -/

/-- Copying a chunk is left to an open cache. -/
theorem apply_populate_of_opened {source : ListSource} {contents : OpenCache} {chunkId base : Nat}
    {shared : SharedChunk} (hcache : x.cache? = some ⟨source, .opened contents⟩)
    (hchunk : x.chunk chunkId = .ok shared) (hbase : x.chunkOffset chunkId = .ok base) :
    x.apply (.populate chunkId) = (contents.populate source chunkId shared.chunk base).map
      fun contents => { x with cache? := some ⟨source, .opened contents⟩ } := by
  show x.populateCache chunkId = _
  rw [populateCache, hchunk, hbase]
  exact changeCache_of_some hcache _

/-- **A chunk that is not yet marked is copied**, if it fits, and is marked then. -/
theorem OpenWith.populate (hopen : x.OpenWith k marked) (hx : Reachable x)
    (hchunks : x.EachChunk k.Fits) {chunkId : Nat}
    (hid : chunkId < x.chunkCount) (hnew : chunkId ∉ marked) :
    (x.apply (.populate chunkId)).status = .ok () ∧
      (x.apply (.populate chunkId)).state.chunks = x.chunks ∧
        (x.apply (.populate chunkId)).state.OpenWith k (chunkId :: marked) := by
  obtain ⟨contents, hcache, hmarks⟩ := hopen
  obtain ⟨_, hsynced⟩ := openInvariant_synced.of_reachable hx hcache
  obtain ⟨_, hshaped⟩ := openInvariant_shaped.of_reachable hx hcache
  obtain ⟨shared, hshared⟩ : ∃ shared, x.chunks.items.toList[chunkId]? = some shared :=
    ⟨_, by rw [Array.getElem?_toList]; exact Array.getElem?_eq_getElem hid⟩
  have hfits : k.Fits shared.chunk := hchunks shared (List.mem_of_getElem? hshared)
  have hchunk : x.chunk chunkId = .ok shared := by
    rwa [Array.getElem?_toList, ← Result.element_eq_ok_iff] at hshared
  have hbase : x.chunkOffset chunkId = .ok (startOf x.chunks.items.toList chunkId) :=
    hx.wellFormed.chunkOffset_eq (Nat.le_of_lt hid)
  -- The chunk ends within the positions there are, and these can be counted.
  have hend := startOf_add_le hshared
  have hcount : startOf x.chunks.items.toList x.chunks.items.toList.length < Size.limit := by
    rw [hx.wellFormed.startOf_length]
    exact Nat.lt_of_le_of_lt hx.wellFormed.positionCount_le (by decide)
  have hlimit := Nat.lt_of_le_of_lt hend hcount
  have hlength : chunkId < contents.populated.length := by
    rw [hsynced.populated_length, Array.length_toList]
    exact hid
  have hclear : contents.clearance chunkId shared.chunk (startOf x.chunks.items.toList chunkId) =
      .ok (startOf x.chunks.items.toList chunkId + shared.chunk.positionCount) :=
    OpenCache.clearance_eq_ok_iff.2 ⟨hlength, by rw [hmarks, decide_eq_false hnew], hlimit,
      hsynced.filled_length ▸ hend, rfl⟩
  have hfill : (k.source.fill shared.chunk (startOf x.chunks.items.toList chunkId)
      contents.lists).status = .ok () :=
    KeyColumns.fillLists_of_fits hfits (hshaped k rfl) hlimit hend
  rw [apply_populate_of_opened hcache hchunk hbase, OpenCache.populate_of_fill_ok hclear hfill]
  refine ⟨rfl, rfl, _, rfl, fun other => ?_⟩
  rw [OpenCache.mark, Bitmap.bit_put _ _ _ _ hlength, hmarks]
  by_cases hother : other = chunkId <;> simp [hother]

/-- **Chunks that are not yet marked are copied one after the other.** -/
theorem OpenWith.run : ∀ (ids : List Nat) {marked : List Nat} {x : RowIndex}, x.OpenWith k marked →
    Reachable x → x.EachChunk k.Fits → ids.Nodup →
      (∀ chunkId ∈ ids, chunkId < x.chunkCount ∧ chunkId ∉ marked) →
        (∀ outcome ∈ (x.run (ids.map .populate)).2, outcome.status = .ok ()) ∧
          (x.run (ids.map .populate)).1.chunks = x.chunks ∧
            (x.run (ids.map .populate)).1.OpenWith k (ids.reverse ++ marked) := by
  intro ids
  induction ids with
  | nil =>
    intro marked x hopen _ _ _ _
    exact ⟨fun outcome houtcome => absurd houtcome List.not_mem_nil, rfl, hopen⟩
  | cons chunkId rest ih =>
    intro marked x hopen hx hchunks hnodup hids
    obtain ⟨hnotin, hnodup⟩ := List.nodup_cons.1 hnodup
    obtain ⟨⟨hid, hnew⟩, hrest⟩ := List.forall_mem_cons.1 hids
    obtain ⟨hstatus, hsame, hopen⟩ := hopen.populate hx hchunks hid hnew
    have hkept : (x.apply (.populate chunkId)).state.EachChunk k.Fits := hchunks.of_chunks_eq hsame
    -- No id comes twice, so the ones that are left are still without a mark.
    have hlater : ∀ other ∈ rest, other < (x.apply (.populate chunkId)).state.chunkCount ∧
        other ∉ chunkId :: marked := by
      intro other hother
      obtain ⟨hlt, hunmarked⟩ := hrest other hother
      refine ⟨by rwa [chunkCount, hsame], ?_⟩
      rw [List.mem_cons, not_or]
      exact ⟨fun heq => hnotin (heq ▸ hother), hunmarked⟩
    obtain ⟨hall, hchunks', hopen'⟩ := ih hopen (hx.apply trivial) hkept hnodup hlater
    have hrun : x.run ((chunkId :: rest).map .populate) =
        (((x.apply (.populate chunkId)).state.run (rest.map .populate)).1,
          x.apply (.populate chunkId) ::
            ((x.apply (.populate chunkId)).state.run (rest.map .populate)).2) := rfl
    rw [hrun, List.reverse_cons, List.append_assoc]
    exact ⟨List.forall_mem_cons.2 ⟨hstatus, hall⟩, hchunks'.trans hsame, hopen'⟩

/-- Attaching, opening and copying succeed if the lists fit arrays, and leave an index of
the same chunks in which the given ones are marked. -/
theorem run_copies (hx : Reachable x) (hopen : x.hasOpenCache = false)
    (hroom : k.HasRoom x.positionCount) (hchunks : x.EachChunk k.Fits) (hnodup : ids.Nodup)
    (hids : ∀ chunkId ∈ ids, chunkId < x.chunkCount) :
    (∀ outcome ∈ (x.run (k.copies ids)).2, outcome.status = .ok ()) ∧
      (x.run (k.copies ids)).1.chunks = x.chunks ∧
        (x.run (k.copies ids)).1.OpenWith k ids.reverse := by
  obtain ⟨y, z, notice, hset, hopening, hsame, hopened⟩ := openWith_opened hopen hroom
  have hy : Reachable y := by
    have h : Reachable (x.apply (.setSource k.source)).state := hx.apply trivial
    rwa [hset] at h
  have hz : Reachable z := by
    have h : Reachable (y.apply .openCache).state := hy.apply trivial
    rwa [hopening] at h
  have hkept : z.EachChunk k.Fits := hchunks.of_chunks_eq hsame
  -- Opening has changed neither chunks nor marks.
  have hbelow : ∀ chunkId ∈ ids, chunkId < z.chunkCount ∧ chunkId ∉ [] := by
    intro chunkId hid
    refine ⟨?_, List.not_mem_nil⟩
    rw [chunkCount, hsame]
    exact hids chunkId hid
  obtain ⟨hall, hchunks', hcopied⟩ := hopened.run ids hz hkept hnodup hbelow
  have hrun : x.run (k.copies ids) = ((z.run (ids.map .populate)).1,
      x.apply (.setSource k.source) :: y.apply .openCache :: (z.run (ids.map .populate)).2) := by
    rw [KeyColumns.copies, run, hset, Outcome.state_done, run, hopening]
    rfl
  rw [List.append_nil] at hcopied
  rw [hrun]
  refine ⟨List.forall_mem_cons.2 ⟨?_, List.forall_mem_cons.2 ⟨?_, hall⟩⟩, hchunks'.trans hsame,
    hcopied⟩
  · rw [hset]
    rfl
  · rw [hopening]
    rfl

/-! ### Reading back -/

/-- **What was copied is read back**, as the index has it. -/
theorem OpenWith.readsBack (hopen : x.OpenWith k marked) (hx : Reachable x)
    (hchunks : x.EachChunk k.Fits) {list key : Nat} {kind : ListKind}
    (hcolumn : k.columns[list]? = some (key, kind)) {p : Nat} {l : Location}
    (hl : x.locate p = .ok l) (hmarked : l.chunkId ∈ marked) : x.ReadsBack list key kind p := by
  obtain ⟨contents, hcache, hmarks⟩ := hopen
  obtain ⟨_, hsynced⟩ := openInvariant_synced.of_reachable hx hcache
  obtain ⟨_, hshaped⟩ := openInvariant_shaped.of_reachable hx hcache
  have hid : l.chunkId < contents.populated.length := by
    rw [hsynced.populated_length, Array.length_toList]
    exact ((locate_eq_ok_iff hx.wellFormed).1 hl).1.chunkId_lt
  have hcopied : contents.isPopulated l.chunkId = true := by
    rw [OpenCache.isPopulated, hmarks, decide_eq_true hid, decide_eq_true hmarked]
    rfl
  have hkey : k.keys[list]? = some key := by
    rw [KeyColumns.keys, List.getElem?_map, hcolumn]
    rfl
  obtain ⟨_, flat, shared, block, v, w, ⟨⟩, hfilled, hflat, hshared, hblock, hv, hstore, hw⟩ :=
    exists_stored hx (fun shared hmem => (hchunks shared hmem).rectangular) hcache rfl hkey hl
      hcopied
  -- The list has the kind for the type of the block, so that it stores what it gets.
  obtain ⟨hkind, -⟩ := KeyColumns.kind_of_shapes (hshaped k rfl) hcolumn hflat
  have htype : ListKind.ofType? block.type = some kind := by
    have hmem : shared ∈ x.chunks.items.toList := by
      rw [Array.mem_toList_iff]
      exact Array.mem_of_getElem? (Result.element_eq_ok_iff.1 hshared)
    obtain ⟨own, hown, htype⟩ :=
      (hchunks shared hmem).exists_block (List.mem_of_getElem? hcolumn)
    rwa [← Option.some.inj (hblock.symm.trans hown)] at htype
  have hvtype : v.type? = some block.type := Block.type?_of_payload hv
  obtain rfl : v = w := by
    rw [hkind, ListKind.store_of_type htype hvtype] at hstore
    exact Option.some.inj hstore
  have hmirrors : x.Mirrors list key p v v :=
    mirrors_of_stored hcache rfl hfilled hflat hw hl hshared hblock hv
  refine ⟨?_, ?_, ?_, ?_⟩
  · rw [hmirrors.cachedInt_eq, hmirrors.getInt_eq]
  · rw [hmirrors.cachedLong_eq, hmirrors.getLong_eq]
  · rw [hmirrors.cachedDouble_eq, hmirrors.getDouble_eq]
  · -- Only numbers have a type that a list takes, and each kind has its own.
    generalize block.type = type at htype hvtype
    cases v with
    | int n =>
      cases hvtype
      cases htype
      exact ⟨n, Result.toOption_eq_some_iff.1 hmirrors.cachedInt_eq⟩
    | long n =>
      cases hvtype
      cases htype
      exact ⟨n, Result.toOption_eq_some_iff.1 hmirrors.cachedLong_eq⟩
    | double d =>
      cases hvtype
      cases htype
      exact ⟨d, Result.toOption_eq_some_iff.1 hmirrors.cachedDouble_eq⟩
    | null => cases hvtype
    | boolean _ => cases hvtype; cases htype
    | string _ => cases hvtype; cases htype

end RowIndex

/-! ### All chunks -/

/-- **Key columns are copied without fail.**  A choice of columns is accepted if all
are columns of the schema, of integers or doubles; it keeps their order, and
otherwise the first that is not decides the refusal.  Attached to an index of
rectangular chunks with the types of the schema, a cache of them can be opened if
each of its lists fits an array.  Then any distinct chunks can be copied into it, in
any order; and once all are, each list reads like its column at every position. -/
theorem key_columns_copied_in_any_order (schema : List DataType) (keys : List Nat) :
    ((∃ k, KeyColumns.ofSchema schema keys = .ok k) ↔
      ∀ key ∈ keys, KeyColumns.Accepts schema key) ∧
    (∀ failure, KeyColumns.ofSchema schema keys = .error failure ↔
      ∃ before key after, keys = before ++ key :: after ∧
        (∀ earlier ∈ before, KeyColumns.Accepts schema earlier) ∧
          KeyColumns.Refuses schema key failure) ∧
    ∀ k, KeyColumns.ofSchema schema keys = .ok k → k.keys = keys ∧
      ∀ x : RowIndex, Reachable x → x.hasOpenCache = false →
        x.EachChunk (Chunk.OfSchema schema) →
          (((x.apply (.setSource k.source)).state.apply .openCache).status = .ok () ↔
            ∀ column ∈ k.columns, x.positionCount * column.2.elementSize < Size.arrayLimit) ∧
          (((x.apply (.setSource k.source)).state.apply .openCache).status = .ok () →
            ∀ ids : List Nat, ids.Nodup → (∀ chunkId ∈ ids, chunkId < x.chunkCount) →
              (∀ outcome ∈ (x.run (k.copies ids)).2, outcome.status = .ok ()) ∧
                ((∀ chunkId < x.chunkCount, chunkId ∈ ids) →
                  ∀ list key kind, k.columns[list]? = some (key, kind) →
                    ∀ p < x.positionCount,
                      (x.run (k.copies ids)).1.ReadsBack list key kind p)) := by
  refine ⟨KeyColumns.exists_ofSchema_iff, fun _ => KeyColumns.ofSchema_eq_error_iff, ?_⟩
  intro k hk
  refine ⟨KeyColumns.keys_ofSchema hk, ?_⟩
  intro x hx hopen hschema
  refine ⟨RowIndex.openCache_iff_hasRoom hopen k, ?_⟩
  intro hopened ids hnodup hids
  have hroom : k.HasRoom x.positionCount := (RowIndex.openCache_iff_hasRoom hopen k).1 hopened
  have hchunks : x.EachChunk k.Fits := fun shared hshared =>
    KeyColumns.fits_of_ofSchema hk (hschema shared hshared)
  obtain ⟨hall, hsame, hcopied⟩ := RowIndex.run_copies hx hopen hroom hchunks hnodup hids
  refine ⟨hall, ?_⟩
  intro hevery list key kind hcolumn p hp
  have hadmissible : ∀ operation ∈ k.copies ids, operation.Admissible :=
    @Operation.admissible_of_mem_copying [] k ids
  generalize hy : (x.run (k.copies ids)).1 = y at hsame hcopied
  have hreach : Reachable y := hy ▸ hx.run hadmissible
  have hkept : y.EachChunk k.Fits := hchunks.of_chunks_eq hsame
  -- The positions are those of the chunks, which have not changed.
  have hpositions : y.positionCount = x.positionCount := by
    rw [hreach.wellFormed.positionCount_eq, hx.wellFormed.positionCount_eq, RowIndex.rowCounts,
      hsame]
    rfl
  obtain ⟨l, hl⟩ := (RowIndex.exists_locate_iff hreach.wellFormed).2 (hpositions ▸ hp)
  have hid : l.chunkId < x.chunkCount := by
    have hlt := ((RowIndex.locate_eq_ok_iff hreach.wellFormed).1 hl).1.chunkId_lt
    rwa [RowIndex.chunkCount, hsame] at hlt
  exact hcopied.readsBack hreach hkept hcolumn hl (List.mem_reverse.2 (hevery _ hid))

/-- Two chunks with rows and an empty one between them are copied out of order, one
of their columns twice.  The second column of another schema is refused, before the
third is asked for, which the schema does not have. -/
theorem key_columns_copied_in_any_order_three :
    ∃ k x, KeyColumns.ofSchema [.long, .int] [1, 0, 1] = .ok k ∧
      RowIndex.ofChunks [⟨0, ⟨[.long ⟨#[7, 8], .none⟩, .int ⟨#[1, 2], .none⟩], 2⟩⟩,
        ⟨1, ⟨[.long ⟨#[], .none⟩, .int ⟨#[], .none⟩], 0⟩⟩,
        ⟨2, ⟨[.long ⟨#[9], .none⟩, .int ⟨#[3], .none⟩], 1⟩⟩] = x ∧
      x.hasOpenCache = false ∧ x.EachChunk (Chunk.OfSchema [.long, .int]) ∧
      (∀ outcome ∈ (x.run (k.copies [2, 0, 1])).2, outcome.status = .ok ()) ∧
      (x.run (k.copies [2, 0, 1])).1.ReadsBack 2 1 .int 2 ∧
      KeyColumns.ofSchema [.long, .boolean] [0, 1, 5] =
        .error (.refused (.unsupportedTypedColumn 1 .boolean)) := by
  obtain ⟨-, -, hcopies⟩ := key_columns_copied_in_any_order [.long, .int] [1, 0, 1]
  obtain ⟨-, hrefused, -⟩ := key_columns_copied_in_any_order [.long, .boolean] [0, 1, 5]
  have hchunk : ∀ (longs : Array Int64) (ints : Array Int32), ints.size = longs.size →
      Chunk.OfSchema [.long, .int]
        ⟨[.long ⟨longs, .none⟩, .int ⟨ints, .none⟩], longs.size⟩ := by
    intro longs ints hsize
    exact ⟨List.forall_mem_cons.2 ⟨rfl, List.forall_mem_singleton.2 hsize⟩, rfl⟩
  have hschema : (RowIndex.ofChunks [⟨0, ⟨[.long ⟨#[7, 8], .none⟩, .int ⟨#[1, 2], .none⟩], 2⟩⟩,
      ⟨1, ⟨[.long ⟨#[], .none⟩, .int ⟨#[], .none⟩], 0⟩⟩,
      ⟨2, ⟨[.long ⟨#[9], .none⟩, .int ⟨#[3], .none⟩], 1⟩⟩]).EachChunk
        (Chunk.OfSchema [.long, .int]) := by
    refine RowIndex.eachChunk_ofChunks ?_
    simp only [List.forall_mem_cons]
    exact ⟨hchunk #[7, 8] #[1, 2] rfl, hchunk #[] #[] rfl, hchunk #[9] #[3] rfl, nofun⟩
  obtain ⟨-, hreads⟩ := hcopies _ rfl
  obtain ⟨-, hopened⟩ := hreads _ (reachable_ofChunks _) rfl hschema
  obtain ⟨hall, hback⟩ := hopened rfl [2, 0, 1] (by decide) (by decide)
  refine ⟨_, _, rfl, rfl, rfl, hschema, hall, hback (by decide) 2 1 .int rfl 2 (by decide), ?_⟩
  refine (hrefused _).2 ⟨[0], 1, [5], rfl, ?_, .unsupported rfl (by decide)⟩
  exact List.forall_mem_singleton.2 ⟨.long, by decide, rfl⟩

end Columnar
