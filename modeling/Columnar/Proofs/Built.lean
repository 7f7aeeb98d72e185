import Columnar.Chunk.Builder
import Columnar.Proofs.BuilderContents
import Columnar.Proofs.CopyBlock
import Columnar.Proofs.KeyLists
import Columnar.Proofs.Reachable
import Columnar.Proofs.Results

/-!
# How blocks and chunks come about

A block is finished by a builder, or made from an array of payloads and a null
mask of the same length, where anything may stand under a null.  A chunk is made
of blocks of equal length, or finished by a chunk builder.  A row that stops at a
value of the wrong type leaves the columns of a chunk builder at different
lengths; the first one is then the longest.

Whatever was done to it before, each cell of a finished block can be read.

## Main definitions

* `BlockBuilder.Made`, `Block.Built` — the builders and blocks that come about.
* `ChunkBuilder.Made`, `Chunk.Built` — the same for chunks.
* `Block.Intact` — a block all of whose cells can be read.
* `Chunk.Bounded` — a chunk with no column longer than it is.
* `RowIndex.EachChunk`, `Operation.EachChunk` — indices and operations with such
  chunks only.

## Main results

* `Block.Built.exists_getValue` — **every cell of a finished block has a value.**
* `Chunk.Built.built_of_mem`, `Chunk.Built.bounded` — the columns of a finished
  chunk are finished blocks, and none is longer than the chunk.
* `RowIndex.EachChunk.run` — a run adds no chunks but those of its operations.
-/

namespace Columnar

/-! ### Definitions -/

/-- The builders that come about by adding cells, from builders without cells. -/
inductive BlockBuilder.Made : BlockBuilder → Prop
  | withCapacity {type : DataType} {capacity : Nat} {b : BlockBuilder} :
      BlockBuilder.withCapacity type capacity = .ok b → Made b
  | append {b after : BlockBuilder} {value : Value} :
      Made b → b.append value = .ok after → Made after
  | appendNull {b : BlockBuilder} : Made b → Made b.appendNull
  /-- The cell may be one of any block. -/
  | writeTo {block : Block} {position : Nat} {b after : BlockBuilder} :
      Made b → block.writeTo position b = .ok after → Made after

/-- The blocks that come about: those of builders, and those of fixed width that
are made from their parts. -/
inductive Block.Built : Block → Prop
  | build {b : BlockBuilder} : b.Made → Built b.build
  | int {values : Array Int32} {mask : Option Bitmap} {column : FixedColumn Int32} :
      FixedColumn.ofValues values mask = .ok column → Built (.int column)
  | long {values : Array Int64} {mask : Option Bitmap} {column : FixedColumn Int64} :
      FixedColumn.ofValues values mask = .ok column → Built (.long column)
  | double {values : Array Double} {mask : Option Bitmap} {column : FixedColumn Double} :
      FixedColumn.ofValues values mask = .ok column → Built (.double column)
  | boolean {values : Array Bool} {mask : Option Bitmap} {column : FixedColumn Bool} :
      FixedColumn.ofValues values mask = .ok column → Built (.boolean column)

/-- The chunk builders that come about by adding rows, also such as do not fit. -/
inductive ChunkBuilder.Made : ChunkBuilder → Prop
  | withCapacity {types : List DataType} {capacity : Nat} {c : ChunkBuilder} :
      ChunkBuilder.withCapacity types capacity = .ok c → Made c
  | appendRow {c : ChunkBuilder} (row : List Value) : Made c → Made (c.appendRow row).state

/-- The chunks that come about. -/
inductive Chunk.Built : Chunk → Prop
  | ofBlocks {blocks : List Block} {c : Chunk} :
      (∀ block ∈ blocks, block.Built) → Chunk.ofBlocks blocks = .ok c → Built c
  | build {b : ChunkBuilder} : b.Made → Built b.build

/-- No column is longer than the chunk. -/
def Chunk.Bounded (c : Chunk) : Prop := ∀ block ∈ c.blocks, block.positionCount ≤ c.positionCount

/-! ### Null masks -/

namespace NullMask

variable {mask : NullMask} {count : Nat}

/-- The mask marks a number of cells, if it keeps a bitmap at all. -/
def Covers (mask : NullMask) (count : Nat) : Prop :=
  ∀ bits, mask.bits? = some bits → bits.length = count

theorem covers_none : none.Covers count := by
  intro bits hbits
  cases hbits

theorem covers_ofBitmap (bits : Bitmap) : (ofBitmap bits).Covers bits.length := by
  intro kept hkept
  unfold ofBitmap at hkept
  dsimp only at hkept
  split at hkept
  · rw [← Option.some.inj hkept]
  · cases hkept

theorem Covers.exists_isNull (h : mask.Covers count) {i : Nat} (hi : i < count) :
    ∃ null, mask.isNull i = .ok null := by
  unfold isNull
  split
  · exact ⟨false, rfl⟩
  · next bits hbits =>
    have hlt : i < bits.length := h bits hbits ▸ hi
    refine ⟨bits.bit i, ?_⟩
    rw [Bitmap.get, decide_eq_true hlt]
    rfl

end NullMask

/-! ### Blocks -/

/-- All cells of the block can be read. -/
structure Block.Intact (b : Block) : Prop where
  nulls_cover : b.nulls.Covers b.positionCount
  exists_payload : ∀ i < b.positionCount, ∃ v, b.payload i = .ok v

theorem Block.Intact.exists_getValue {b : Block} (h : b.Intact) {i : Nat}
    (hi : i < b.positionCount) : ∃ v, b.getValue i = .ok v := by
  obtain ⟨null, hnull⟩ : ∃ null, b.isNull i = .ok null := h.nulls_cover.exists_isNull hi
  obtain ⟨v, hv⟩ := h.exists_payload i hi
  unfold Block.getValue
  rw [hnull]
  cases null with
  | true => exact ⟨.null, rfl⟩
  | false => exact ⟨v, hv⟩

namespace FixedColumn

variable {α : Type}

/-- The payloads of a column can be read, whatever they are wrapped into. -/
theorem exists_map_get (c : FixedColumn α) (wrap : α → Value) :
    ∀ i < c.length, ∃ v, wrap <$> c.get i = .ok v :=
  fun _ hi => Result.exists_map_iff.2 ⟨_, get_of_lt hi⟩

/-- A mask is accepted only if it marks as many cells as there are. -/
theorem covers_ofValues {values : Array α} {mask : Option Bitmap} {c : FixedColumn α}
    (h : ofValues values mask = .ok c) : c.nulls.Covers c.length := by
  cases mask with
  | none =>
    cases h
    exact NullMask.covers_none
  | some bits =>
    obtain ⟨_, hlength, hc⟩ := Result.bind_eq_ok_iff.1 h
    cases hc
    have hcount : bits.length = values.size := by simpa using Result.require_eq_ok_iff.1 hlength
    rw [length, ← hcount]
    exact NullMask.covers_ofBitmap bits

end FixedColumn

/-! ### Block builders -/

namespace BlockBuilder

variable {b : BlockBuilder} {value : Value} {values : List Value}

/-- There is a mark for each cell of the builder, and its strings can be told
apart. -/
def Intact : BlockBuilder → Prop
  | int b => b.nulls.length = b.length
  | long b => b.nulls.length = b.length
  | double b => b.nulls.length = b.length
  | boolean b => b.nulls.length = b.length
  | varchar b => ∃ strings, b.Holds strings

theorem positionCount_blank (type : DataType) (capacity : Nat) :
    (blank type capacity).positionCount = 0 := by
  cases type <;> rfl

/-- The builders that come about hold some values. -/
theorem Made.exists_holds (h : b.Made) : ∃ values, b.Holds values := by
  induction h with
  | withCapacity h =>
    rw [eq_blank_of_withCapacity h]
    exact ⟨_, holds_blank _ _⟩
  | append _ happend ih =>
    obtain ⟨values, hvalues⟩ := ih
    obtain ⟨hvalue, rfl⟩ := append_eq_ok_iff.1 happend
    exact ⟨_, hvalues.push hvalue⟩
  | appendNull _ ih =>
    obtain ⟨values, hvalues⟩ := ih
    rw [← push_null]
    exact ⟨_, hvalues.push rfl⟩
  | writeTo _ hwrite ih =>
    obtain ⟨values, hvalues⟩ := ih
    -- A copied cell adds what its value would have added.
    obtain ⟨value, -, happend⟩ := append_of_writeTo hwrite
    obtain ⟨hvalue, rfl⟩ := append_eq_ok_iff.1 happend
    exact ⟨_, hvalues.push hvalue⟩

/-- A builder that holds values is intact. -/
theorem Holds.intact (h : b.Holds values) : b.Intact := by
  have hmarks : b.nulls.length = b.positionCount := by
    rw [h.marks.length_eq, h.positionCount_eq, List.length_map]
  cases b with
  | int b => exact hmarks
  | long b => exact hmarks
  | double b => exact hmarks
  | boolean b => exact hmarks
  | varchar b =>
    obtain ⟨strings, hstrings, -⟩ := h.payloads
    exact ⟨strings, hstrings⟩

theorem Made.intact (h : b.Made) : b.Intact := by
  obtain ⟨values, hvalues⟩ := h.exists_holds
  exact hvalues.intact

/-- A value that fits makes a builder longer by one. -/
theorem Made.positionCount_push (h : b.Made) (hvalue : b.accepts value = true) :
    (b.push value).positionCount = b.positionCount + 1 := by
  obtain ⟨values, hvalues⟩ := h.exists_holds
  rw [(hvalues.push hvalue).positionCount_eq, hvalues.positionCount_eq, List.length_append]
  rfl

@[simp] theorem positionCount_build (b : BlockBuilder) :
    b.build.positionCount = b.positionCount := by
  cases b <;> rfl

theorem covers_build {α : Type} {b : FixedBuilder α} (h : b.nulls.length = b.length) :
    b.build.nulls.Covers b.length := h ▸ NullMask.covers_ofBitmap b.nulls

/-- A builder that is intact yields a block that is. -/
theorem Intact.build (h : b.Intact) : b.build.Intact := by
  cases b with
  | int b => exact ⟨covers_build h, b.build.exists_map_get .int⟩
  | long b => exact ⟨covers_build h, b.build.exists_map_get .long⟩
  | double b => exact ⟨covers_build h, b.build.exists_map_get .double⟩
  | boolean b => exact ⟨covers_build h, b.build.exists_map_get .boolean⟩
  | varchar b =>
    obtain ⟨strings, hstrings⟩ := h
    refine ⟨?_, fun i hi => Result.exists_map_iff.2 (hstrings.build.exists_get hi)⟩
    have hcovers : b.build.nulls.Covers b.nulls.length := NullMask.covers_ofBitmap b.nulls
    rwa [hstrings.length_nulls, ← hstrings.length_eq] at hcovers

end BlockBuilder

/-! ### Finished blocks -/

namespace Block.Built

variable {b : Block}

theorem intact (h : b.Built) : b.Intact := by
  cases h with
  | build hmade => exact hmade.intact.build
  | int h => exact ⟨FixedColumn.covers_ofValues h, FixedColumn.exists_map_get _ .int⟩
  | long h => exact ⟨FixedColumn.covers_ofValues h, FixedColumn.exists_map_get _ .long⟩
  | double h => exact ⟨FixedColumn.covers_ofValues h, FixedColumn.exists_map_get _ .double⟩
  | boolean h => exact ⟨FixedColumn.covers_ofValues h, FixedColumn.exists_map_get _ .boolean⟩

/-- **Every cell of a finished block has a value.** -/
theorem exists_getValue (h : b.Built) {i : Nat} (hi : i < b.positionCount) :
    ∃ v, b.getValue i = .ok v := h.intact.exists_getValue hi

end Block.Built

/-! ### Chunk builders -/

namespace ChunkBuilder

variable {c : ChunkBuilder}

theorem made_ofTypes (types : List DataType) : (ofTypes types).Made := by
  have hroom : withCapacity types 0 = .ok (ofTypes types) := by
    unfold withCapacity
    rw [Result.mapM_eq_ok_map fun type _ => BlockBuilder.withCapacity_zero type]
    rfl
  exact .withCapacity hroom

/-- Each column is left alone by a row or takes one value of it. -/
theorem appendCells_each : ∀ {builders : List BlockBuilder} {values : List Value},
    ∀ after ∈ (appendCells builders values).state, ∃ before ∈ builders,
      after = before ∨ ∃ value, before.append value = .ok after := by
  intro builders
  induction builders with
  | nil => intro values after h; simp [appendCells] at h
  | cons builder builders ih =>
    intro values after h
    cases values with
    | nil => exact ⟨after, h, Or.inl rfl⟩
    | cons value values =>
      -- A value that is refused stops the row, and all builders from there on are as before.
      cases hcheck : builder.check value with
      | error failure =>
        rw [appendCells, hcheck] at h
        exact ⟨after, h, Or.inl rfl⟩
      | ok _ =>
        rw [appendCells, hcheck] at h
        rcases List.mem_cons.1 h with rfl | h
        · refine ⟨builder, List.mem_cons_self, Or.inr ⟨value, ?_⟩⟩
          exact BlockBuilder.append_eq_ok_iff.2 ⟨Result.require_eq_ok_iff.1 hcheck, rfl⟩
        · obtain ⟨before, hbefore, hcase⟩ := ih after h
          exact ⟨before, List.mem_cons_of_mem _ hbefore, hcase⟩

/-- The first column takes its value unless the row is turned away whole. -/
theorem appendRow_cases (c : ChunkBuilder) (row : List Value) :
    (c.appendRow row).state = c ∨ ∃ builder builders value,
      c.builders = builder :: builders ∧ builder.accepts value = true ∧
        (c.appendRow row).state.builders.head? = some (builder.push value) := by
  unfold appendRow
  split
  · obtain ⟨builders⟩ := c
    cases builders with
    | nil => exact Or.inl rfl
    | cons builder builders =>
      cases row with
      | nil => exact Or.inl rfl
      | cons value values =>
        -- The first cell decides, as no later one is tried before it is in.
        cases hcheck : builder.check value with
        | error failure =>
          refine Or.inl ?_
          rw [appendCells, hcheck]
          rfl
        | ok _ =>
          refine Or.inr ⟨builder, builders, value, rfl, Result.require_eq_ok_iff.1 hcheck, ?_⟩
          rw [appendCells, hcheck]
          rfl
  · exact Or.inl rfl

theorem appendRow_each {row : List Value} : ∀ after ∈ (c.appendRow row).state.builders,
    ∃ before ∈ c.builders, after = before ∨ ∃ value, before.append value = .ok after := by
  unfold appendRow
  split
  · exact appendCells_each
  · intro after h
    exact ⟨after, h, Or.inl rfl⟩

/-- Rows may be added one after the other, also past one that does not fit. -/
theorem Made.appendRows (h : c.Made) (rows : List (List Value)) :
    (c.appendRows rows).state.Made := by
  unfold ChunkBuilder.appendRows
  -- The builder is made after each row, so the induction is on where it has got to.
  have hrows : ∀ o : Outcome ChunkBuilder, o.state.Made →
      (rows.foldl (fun before row => before.andThen (·.appendRow row)) o).state.Made := by
    induction rows with
    | nil => exact fun _ ho => ho
    | cons row rest ih =>
      intro o ho
      refine ih _ ?_
      obtain ⟨state, status, notices⟩ := o
      cases status with
      | error failure => exact ho
      | ok _ => exact .appendRow row ho
  exact hrows (.done c) h

/-- The columns of a chunk builder are builders of blocks. -/
theorem Made.made_of_mem (h : c.Made) : ∀ builder ∈ c.builders, builder.Made := by
  induction h with
  | withCapacity h =>
    obtain ⟨builders, hbuilders, rfl⟩ := Result.map_eq_ok_iff.1 h
    intro builder hbuilder
    obtain ⟨type, -, htype⟩ := Result.exists_of_mem_mapM hbuilders hbuilder
    exact .withCapacity htype
  | appendRow row _ ih =>
    intro after hafter
    obtain ⟨before, hbefore, rfl | ⟨value, happend⟩⟩ := appendRow_each after hafter
    · exact ih after hbefore
    · exact (ih before hbefore).append happend

/-- **No column is ever longer than the first.** -/
theorem Made.positionCount_le (h : c.Made) :
    ∀ builder ∈ c.builders, builder.positionCount ≤ c.positionCount := by
  induction h with
  | withCapacity h =>
    obtain ⟨builders, hbuilders, rfl⟩ := Result.map_eq_ok_iff.1 h
    intro builder hbuilder
    obtain ⟨type, -, htype⟩ := Result.exists_of_mem_mapM hbuilders hbuilder
    rw [BlockBuilder.eq_blank_of_withCapacity htype, BlockBuilder.positionCount_blank]
    exact Nat.zero_le _
  | @appendRow c row hc ih =>
    intro after hafter
    rcases c.appendRow_cases row with hsame | ⟨first, rest, value, hfirst, hvalue, hhead⟩
    · rw [hsame] at hafter ⊢
      exact ih after hafter
    · -- The first column is now longer by one, and any other by one at most.
      have hmade := hc.made_of_mem
      have hcount : c.positionCount = first.positionCount := by rw [positionCount, hfirst]
      have hgrown : (c.appendRow row).state.positionCount = c.positionCount + 1 := by
        have hfirstmade := hmade first (hfirst ▸ List.mem_cons_self)
        obtain ⟨others, hothers⟩ := List.head?_eq_some_iff.1 hhead
        rw [positionCount, hothers, hcount]
        exact hfirstmade.positionCount_push hvalue
      obtain ⟨before, hbefore, rfl | ⟨added, happend⟩⟩ := appendRow_each after hafter
      · have hle := ih after hbefore
        omega
      · obtain ⟨hadded, rfl⟩ := BlockBuilder.append_eq_ok_iff.1 happend
        have hle := ih before hbefore
        have hone := (hmade before hbefore).positionCount_push hadded
        omega

end ChunkBuilder

/-! ### Finished chunks -/

namespace Chunk

variable {c : Chunk}

/-- A chunk is made of blocks if they are all as long as the first. -/
theorem ofBlocks_eq_ok {blocks : List Block} (h : ofBlocks blocks = .ok c) :
    c.blocks = blocks ∧ c.Rectangular := by
  unfold ofBlocks at h
  dsimp only at h
  split at h
  · next hnone =>
    cases h
    refine ⟨rfl, fun block hblock => ?_⟩
    have hcount := List.findIdx?_eq_none_iff.1 hnone block hblock
    simpa using hcount
  · obtain ⟨_, -, hrefused⟩ := Result.bind_eq_ok_iff.1 h
    cases hrefused

/-- The columns of a finished chunk are finished blocks. -/
theorem Built.built_of_mem (h : c.Built) : ∀ block ∈ c.blocks, block.Built := by
  cases h with
  | ofBlocks hblocks hmade =>
    rw [(ofBlocks_eq_ok hmade).1]
    exact hblocks
  | build hmade =>
    intro block hblock
    obtain ⟨builder, hbuilder, rfl⟩ := List.mem_map.1 hblock
    exact .build (hmade.made_of_mem builder hbuilder)

/-- **No column of a finished chunk is longer than the chunk.** -/
theorem Built.bounded (h : c.Built) : c.Bounded := by
  cases h with
  | ofBlocks _ hmade =>
    intro block hblock
    exact Nat.le_of_eq ((ofBlocks_eq_ok hmade).2 block hblock)
  | build hmade =>
    intro block hblock
    obtain ⟨builder, hbuilder, rfl⟩ := List.mem_map.1 hblock
    rw [BlockBuilder.positionCount_build]
    exact hmade.positionCount_le builder hbuilder

end Chunk

/-! ### Indices of such chunks -/

/-- All chunks of the index have a property. -/
def RowIndex.EachChunk (P : Chunk → Prop) (x : RowIndex) : Prop :=
  ∀ shared ∈ x.chunks.items.toList, P shared.chunk

/-- All chunks that the operation would add have a property. -/
def Operation.EachChunk (P : Chunk → Prop) : Operation → Prop
  | .append shared => P shared.chunk
  | .merge sources => ∀ source ∈ sources, source.EachChunk P
  | _ => True

namespace RowIndex

variable {P : Chunk → Prop} {x y : RowIndex}

/-- A property of the chunks does not depend on the rest of the index. -/
theorem EachChunk.of_chunks_eq (h : x.EachChunk P) (hchunks : y.chunks = x.chunks) :
    y.EachChunk P := by
  unfold EachChunk
  rw [hchunks]
  exact h

theorem EachChunk.grown {added : List SharedChunk} (h : x.EachChunk P) (hgrown : x.Grown added y)
    (hadded : ∀ shared ∈ added, P shared.chunk) : y.EachChunk P := by
  intro shared hshared
  rw [hgrown.chunks_eq] at hshared
  rcases List.mem_append.1 hshared with hshared | hshared
  · exact h shared hshared
  · exact hadded shared hshared

theorem EachChunk.contribution {sources : List RowIndex}
    (h : ∀ source ∈ sources, source.EachChunk P) :
    ∀ shared ∈ contribution sources, P shared.chunk := by
  intro shared hshared
  obtain ⟨source, hsource, hmem⟩ := List.mem_flatMap.1 hshared
  exact h source (List.mem_filter.1 hsource).1 shared hmem

/-- One step adds only the chunks of its operation. -/
theorem EachChunk.apply (h : x.EachChunk P) (hx : x.WellFormed) {operation : Operation}
    (hop : operation.Admissible) (hadded : operation.EachChunk P) :
    (x.apply operation).state.EachChunk P := by
  -- Chunks come in by an append or a merge only.
  have hcache : ∀ change, (x.changeCache change).state.EachChunk P := by
    intro change
    obtain ⟨cache?, hstate⟩ := x.changeCache_eq_or change
    rw [hstate]
    exact h
  cases operation with
  | append shared =>
    rcases apply_append_cases hx shared with ⟨failure, happly⟩ | ⟨y, happly, -, hgrown⟩
    · rw [happly]
      exact h
    · rw [happly]
      refine h.grown hgrown ?_
      intro other hother
      rw [List.mem_singleton.1 hother]
      exact hadded
  | merge sources =>
    rcases apply_merge_cases hx (hop.wellFormed sources rfl) with ⟨failure, happly⟩ | ⟨-, -, hgrown⟩
    · rw [happly]
      exact h
    · exact h.grown hgrown (EachChunk.contribution hadded)
  | setSource source =>
    rcases apply_setSource_cases x source with ⟨failure, happly⟩ | ⟨happly, -⟩
    · rw [happly]
      exact h
    · rw [happly]
      exact h
  | openCache => exact hcache _
  | populate chunkId => exact hcache _
  | closeCache => exact hcache _

/-- A run adds only the chunks of its operations. -/
theorem EachChunk.run : ∀ {operations : List Operation} {x : RowIndex}, x.EachChunk P →
    x.WellFormed → (∀ operation ∈ operations, operation.Admissible ∧ operation.EachChunk P) →
      (x.run operations).1.EachChunk P := by
  intro operations
  induction operations with
  | nil => intro x h _ _; exact h
  | cons operation rest ih =>
    intro x h hx hops
    obtain ⟨hop, hadded⟩ := hops operation List.mem_cons_self
    exact ih (h.apply hx hop hadded) (hx.apply hop.wellFormed) fun other hother =>
      hops other (List.mem_cons_of_mem _ hother)

theorem eachChunk_ofOptions {options : IndexOptions} (h : ofOptions options = .ok x) :
    x.EachChunk P := by
  obtain rfl := eq_of_ofOptions h
  intro shared hshared
  cases hshared

theorem eachChunk_ofChunks {chunks : List SharedChunk} (h : ∀ shared ∈ chunks, P shared.chunk) :
    (ofChunks chunks).EachChunk P := by
  refine EachChunk.run (@eachChunk_ofOptions _ _ .usual rfl) reachable_empty.wellFormed ?_
  intro operation hoperation
  obtain ⟨shared, hshared, rfl⟩ := List.mem_map.1 hoperation
  exact ⟨trivial, h shared hshared⟩

end RowIndex

end Columnar
