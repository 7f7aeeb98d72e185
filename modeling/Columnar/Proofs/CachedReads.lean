import Columnar.Proofs.CacheFlags
import Columnar.Proofs.Routing

/-!
# Cached reads

What an open cache answers for a key column is what its index answers.  The
reason is that every chunk marked as copied is stored in all lists: at each of
its positions a list holds the payload of its column, in the form the list has
for it.  Chunks copied later go to other positions, and so does a copy that
fails halfway.

## Main definitions

* `Chunk.StoredIn` — a list holds a column of a chunk.
* `OpenCache.Stores` — the lists hold all chunks that are marked.
* `RowIndex.Mirrors` — what reads make of a payload and of its copy.

## Main results

* `openInvariant_stores` — this is so as long as the cache is open.
* `RowIndex.cached_reads_eq` — **a cached read answers what the index does.**
-/

namespace Columnar

/-- At the positions of the chunk, the list holds what it stores of a column. -/
def Chunk.StoredIn (c : Chunk) (column base : Nat) (list : FlatList) : Prop :=
  ∃ block, c.blocks[column]? = some block ∧ ∀ i < c.positionCount, ∃ v w,
    block.payload i = .ok v ∧ list.kind.store v = some w ∧ list.get? (base + i) = some w

namespace Chunk.StoredIn

variable {c other : Chunk} {column base start : Nat} {before after : FlatList} {block : Block}

/-- A column that was copied is stored. -/
theorem of_copied (hrect : c.Rectangular) (hblock : c.blocks[column]? = some block)
    (h : before.Copied block base after) : c.StoredIn column base after := by
  refine ⟨block, hblock, ?_⟩
  intro i hi
  have hcount : block.positionCount = c.positionCount := hrect block (List.mem_of_getElem? hblock)
  rw [h.kind_eq]
  exact h.inside i (hcount ▸ hi)

/-- Copying to other positions does not disturb a column that is stored. -/
theorem of_disjoint (h : c.StoredIn column base before) (hcopied : before.Copied block start after)
    (hout : ∀ i < c.positionCount,
      ¬ (start ≤ base + i ∧ base + i < start + block.positionCount)) :
    c.StoredIn column base after := by
  obtain ⟨own, hown, hcells⟩ := h
  refine ⟨own, hown, ?_⟩
  intro i hi
  rw [hcopied.kind_eq, hcopied.outside _ (hout i hi)]
  exact hcells i hi

/-- Filling the positions of another chunk does not disturb a column that is
stored, whether filling succeeds or not. -/
theorem of_fillLists {columns : List (Nat × ListKind)} {lists : List FlatList} {l : Nat}
    (hother : other.Rectangular)
    (hafter : (KeyColumns.fillLists other start columns lists).state[l]? = some after)
    (hout : ∀ i < c.positionCount,
      ¬ (start ≤ base + i ∧ base + i < start + other.positionCount))
    (h : ∀ before, lists[l]? = some before → c.StoredIn column base before) :
    c.StoredIn column base after := by
  obtain ⟨before, hbefore, hcase⟩ := KeyColumns.fillLists_each hafter
  rcases hcase with rfl | ⟨_, _, block, -, hblock, hcopied⟩
  · exact h after hbefore
  · refine (h before hbefore).of_disjoint hcopied ?_
    rw [hother block (List.mem_of_getElem? hblock)]
    exact hout

end Chunk.StoredIn

/-- The chunks that are marked are stored in the lists of their columns. -/
def OpenCache.Stores (chunks : List SharedChunk) (columns : List (Nat × ListKind))
    (o : OpenCache) : Prop :=
  ∀ {chunkId l column : Nat} {shared : SharedChunk} {kind : ListKind} {list : FlatList},
    o.populated.bit chunkId = true → chunks[chunkId]? = some shared →
      columns[l]? = some (column, kind) → o.lists[l]? = some list →
        shared.chunk.StoredIn column (startOf chunks chunkId) list

/-- **Marked chunks are stored as long as the cache is open.** -/
theorem openInvariant_stores : OpenInvariant fun chunks source contents _ =>
    (∀ shared ∈ chunks, shared.chunk.Rectangular) → ∀ k : KeyColumns, source = k.source →
      contents.Stores chunks k.columns where
  opened _ := by
    intro _ k _ chunkId l column shared kind list hbit
    rw [OpenCache.fresh, Bitmap.bit_clear] at hbit
    cases hbit
  failed := by
    rintro chunks _ contents copied chunkId shared stop failure h hshared hclear - hrect k rfl
    intro marked l column owner kind list hbit howner hcolumn hlist
    obtain ⟨-, hnew, -⟩ := OpenCache.clearance_eq_ok_iff.1 hclear
    refine Chunk.StoredIn.of_fillLists (hrect shared (List.mem_of_getElem? hshared)) hlist ?_ ?_
    · -- The chunk that was being copied is not marked, so it is another one.
      intro i hi hin
      have heq : marked = chunkId := startOf_unique howner hshared ⟨by omega, by omega⟩ hin
      rw [heq, hnew] at hbit
      cases hbit
    · intro before hbefore
      exact h hrect k rfl hbit howner hcolumn hbefore
  copied := by
    rintro chunks _ contents copied chunkId shared stop h hshared hclear hfill hrect k rfl
    intro marked l column owner kind list hbit howner hcolumn hlist
    obtain ⟨hid, -, -, -, rfl⟩ := OpenCache.clearance_eq_ok_iff.1 hclear
    rw [OpenCache.mark, Bitmap.bit_put _ _ _ _ hid] at hbit
    by_cases heq : marked = chunkId
    · subst heq
      rw [hshared] at howner
      cases howner
      obtain ⟨before, block, -, hblock, hcopied⟩ :=
        KeyColumns.fillLists_all hfill hcolumn hlist
      exact .of_copied (hrect shared (List.mem_of_getElem? hshared)) hblock hcopied
    · rw [if_neg heq] at hbit
      refine Chunk.StoredIn.of_fillLists (hrect shared (List.mem_of_getElem? hshared)) hlist ?_ ?_
      · intro i hi hin
        exact heq (startOf_unique howner hshared ⟨by omega, by omega⟩ hin)
      · intro before hbefore
        exact h hrect k rfl hbit howner hcolumn hbefore

/-! ### Reading what is stored -/

namespace RowIndex

variable {α : Type} {x : RowIndex} {cache : ColumnCache} {contents : OpenCache} {l : Location}

/-- A cached read makes of the value in its list what it makes of any value. -/
theorem toOption_cachedRead {list p : Nat} {flat : FlatList} {w : Value}
    (hcache : x.cache? = some cache) (hphase : cache.phase = .opened contents)
    (hfilled : contents.isFilled p = true) (hflat : contents.lists[list]? = some flat)
    (hw : flat.get? p = some w) {read : FlatList → Nat → Result α} {view : Value → Option α}
    (hread : ∀ flat p, (read flat p).toOption = (flat.get? p).bind view) :
    (x.cachedRead read list p).toOption = view w := by
  have hlist : cache.listAt list p = .ok flat :=
    ColumnCache.listAt_eq_ok_iff.2 ⟨contents, hphase, hfilled, hflat⟩
  have heq : x.cachedRead read list p = read flat p := by
    unfold cachedRead cacheForRead
    rw [hcache]
    simp only [bind, Except.bind, hlist]
  rw [heq, hread, hw, Option.bind_some]

/-- A read of a cell makes of its payload what it makes of any value. -/
theorem toOption_readCell {key p : Nat} {shared : SharedChunk} {block : Block} {v : Value}
    (hl : x.locate p = .ok l) (hshared : x.chunk l.chunkId = .ok shared)
    (hblock : shared.chunk.blocks[key]? = some block) (hv : block.payload l.offset = .ok v)
    {read : Block → Nat → Result α} {view : Value → Option α}
    (hread : ∀ block p, (read block p).toOption = (block.payload p).toOption.bind view) :
    (x.readCell read key p).toOption = view v := by
  have hnth : shared.chunk.block key = .ok block := Result.nth_eq_ok_iff.2 hblock
  rw [readCell_eq hl hshared, hnth]
  show (read block l.offset).toOption = view v
  rw [hread, hv]
  rfl

/-- At a position, typed reads of the index make of a payload, and those of a list
of the cache make of a stored one, what they make of any value. -/
structure Mirrors (x : RowIndex) (list key position : Nat) (payload stored : Value) : Prop where
  cachedInt_eq : (x.cachedInt list position).toOption = stored.toInt?
  cachedLong_eq : (x.cachedLong list position).toOption = stored.toLong?
  cachedDouble_eq : (x.cachedDouble list position).toOption = stored.toDouble?
  getInt_eq : (x.getInt key position).toOption = payload.toInt?
  getLong_eq : (x.getLong key position).toOption = payload.toLong?
  getDouble_eq : (x.getDouble key position).toOption = payload.toDouble?

theorem mirrors_of_stored {list key p : Nat} {flat : FlatList} {shared : SharedChunk}
    {block : Block} {v w : Value} (hcache : x.cache? = some cache)
    (hphase : cache.phase = .opened contents) (hfilled : contents.isFilled p = true)
    (hflat : contents.lists[list]? = some flat) (hw : flat.get? p = some w)
    (hl : x.locate p = .ok l) (hshared : x.chunk l.chunkId = .ok shared)
    (hblock : shared.chunk.blocks[key]? = some block) (hv : block.payload l.offset = .ok v) :
    x.Mirrors list key p v w where
  cachedInt_eq := toOption_cachedRead hcache hphase hfilled hflat hw FlatList.toOption_getInt
  cachedLong_eq := toOption_cachedRead hcache hphase hfilled hflat hw FlatList.toOption_getLong
  cachedDouble_eq := toOption_cachedRead hcache hphase hfilled hflat hw FlatList.toOption_getDouble
  getInt_eq := toOption_readCell hl hshared hblock hv Block.toOption_getInt
  getLong_eq := toOption_readCell hl hshared hblock hv Block.toOption_getLong
  getDouble_eq := toOption_readCell hl hshared hblock hv Block.toOption_getDouble

/-- At a position whose chunk was copied, the list holds what it stores of the
payload that the index holds. -/
theorem exists_stored (hx : Reachable x)
    (hrect : ∀ shared ∈ x.chunks.items.toList, shared.chunk.Rectangular)
    (hcache : x.cache? = some cache) {k : KeyColumns} (hsource : cache.source = k.source)
    {list key p : Nat} (hkey : k.keys[list]? = some key) (hl : x.locate p = .ok l)
    (hcopied : cache.isPopulated l.chunkId = true) :
    ∃ contents flat shared block v w, cache.phase = .opened contents ∧
      contents.isFilled p = true ∧ contents.lists[list]? = some flat ∧
        x.chunk l.chunkId = .ok shared ∧ shared.chunk.blocks[key]? = some block ∧
          block.payload l.offset = .ok v ∧ flat.kind.store v = some w ∧ flat.get? p = some w := by
  obtain ⟨source, phase⟩ := cache
  cases phase with
  | unopened => cases hcopied
  | closed => cases hcopied
  | opened contents =>
    have hmark : contents.isPopulated l.chunkId = true := hcopied
    have hbit : contents.populated.bit l.chunkId = true := by
      rw [OpenCache.isPopulated, Bool.and_eq_true] at hmark
      exact hmark.2
    obtain ⟨_, hsynced⟩ := openInvariant_synced.of_reachable hx hcache
    obtain ⟨_, hshaped⟩ := openInvariant_shaped.of_reachable hx hcache
    obtain ⟨_, hstored⟩ := openInvariant_stores.of_reachable hx hcache
    obtain ⟨⟨shared, hshared, hoffset⟩, hposition⟩ := (locate_eq_ok_iff hx.wellFormed).1 hl
    obtain ⟨⟨column, kind⟩, hcolumn, rfl⟩ : ∃ column, k.columns[list]? = some column ∧
        column.1 = key := by
      rwa [KeyColumns.keys, List.getElem?_map, Option.map_eq_some_iff] at hkey
    -- There are as many lists as columns.
    obtain ⟨flat, hflat, -⟩ : ∃ flat, contents.lists[list]? = some flat ∧
        flat.shape = (kind, startOf x.chunks.items.toList x.chunks.items.toList.length) := by
      have hshape := congrArg (·[list]?) (hshaped k hsource)
      simpa only [List.getElem?_map, hcolumn, Option.map_some, Option.map_eq_some_iff] using hshape
    obtain ⟨block, hblock, hcells⟩ :=
      hstored hrect k hsource hbit (by rwa [Array.getElem?_toList]) hcolumn hflat
    obtain ⟨v, w, hv, hstore, hw⟩ := hcells l.offset hoffset
    rw [startOf_chunks, ← positionOf, hposition] at hw
    exact ⟨contents, flat, shared, block, v, w, rfl,
      (hsynced.isFilled_iff hx.wellFormed).2 ⟨l, hl, hmark⟩, hflat,
      Result.element_eq_ok_iff.2 hshared, hblock, hv, hstore, hw⟩

/-- **A cached read answers what the index does**, at every position whose chunk
was copied: integers of either width and doubles alike, with the same failures,
and 32-bit integers where the list has them. -/
theorem cached_reads_eq (hx : Reachable x)
    (hrect : ∀ shared ∈ x.chunks.items.toList, shared.chunk.Rectangular)
    (hcache : x.cache? = some cache) {k : KeyColumns} (hsource : cache.source = k.source)
    {list key p : Nat} (hkey : k.keys[list]? = some key) (hl : x.locate p = .ok l)
    (hcopied : cache.isPopulated l.chunkId = true) :
    (x.cachedLong list p).toOption = (x.getLong key p).toOption ∧
      (x.cachedDouble list p).toOption = (x.getDouble key p).toOption ∧
        ∀ n, x.cachedInt list p = .ok n → x.getInt key p = .ok n := by
  obtain ⟨contents, flat, shared, block, v, w, hphase, hfilled, hflat, hshared, hblock, hv,
    hstore, hw⟩ := exists_stored hx hrect hcache hsource hkey hl hcopied
  have hmirrors : x.Mirrors list key p v w :=
    mirrors_of_stored hcache hphase hfilled hflat hw hl hshared hblock hv
  refine ⟨?_, ?_, ?_⟩
  · rw [hmirrors.cachedLong_eq, hmirrors.getLong_eq, ListKind.toLong?_of_store hstore]
  · rw [hmirrors.cachedDouble_eq, hmirrors.getDouble_eq, ListKind.toDouble?_of_store hstore]
  · intro n hn
    have hstored : w.toInt? = some n := by
      rw [← hmirrors.cachedInt_eq, hn]
      rfl
    exact Result.toOption_eq_some_iff.1
      (hmirrors.getInt_eq.trans (ListKind.toInt?_of_store hstore hstored))

/-- A list of 64-bit integers answers for a chunk of 32-bit ones. -/
theorem cached_reads_eq_narrow :
    ∃ x cache l, RowIndex.ofCopied [⟨0, .ofLongs [7, 8]⟩, ⟨1, ⟨[.int ⟨#[5], .none⟩], 1⟩⟩]
        ⟨[(0, .long)]⟩ [1] = x ∧
      (∀ shared ∈ x.chunks.items.toList, shared.chunk.Rectangular) ∧
      x.cache? = some cache ∧ x.locate 2 = .ok l ∧ cache.isPopulated l.chunkId = true ∧
      (x.cachedLong 0 2).toOption = (x.getLong 0 2).toOption := by
  have hx := reachable_ofCopied [⟨0, .ofLongs [7, 8]⟩, ⟨1, ⟨[.int ⟨#[5], .none⟩], 1⟩⟩]
    ⟨[(0, .long)]⟩ [1]
  have hrect : ∀ shared ∈ [⟨0, .ofLongs [7, 8]⟩, ⟨1, ⟨[.int ⟨#[5], .none⟩], 1⟩⟩],
      Chunk.Rectangular (SharedChunk.chunk shared) := by
    intro shared hshared block hblock
    rw [List.mem_cons, List.mem_singleton] at hshared
    rcases hshared with rfl | rfl
    · rw [List.mem_singleton.1 hblock]
      rfl
    · rw [List.mem_singleton.1 hblock]
      rfl
  have hl := (locate_eq_ok_iff hx.wellFormed (p := 2) (l := ⟨1, 0⟩)).2
    ⟨⟨_, rfl, Nat.one_pos⟩, rfl⟩
  exact ⟨_, _, _, rfl, hrect, rfl, hl, by decide +kernel,
    (cached_reads_eq hx hrect rfl (k := ⟨[(0, .long)]⟩) rfl rfl hl (by decide +kernel)).1⟩

end RowIndex

end Columnar
