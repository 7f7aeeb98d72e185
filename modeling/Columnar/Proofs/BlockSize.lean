import Columnar.Proofs.BufferRoom
import Columnar.Proofs.RowStops

/-!
# The bytes of a block

A finished block holds its payloads without spare room, so that their bytes follow from
the cells.  Its null mask is the bitmap of the builder with the room the builder had for
it.  That room depends on how many cells the builder was made for, and the mask is kept
only if there is a null at all.

## Main definitions

* `DataType.payloadBytes` — the bytes of the payloads of some cells.
* `BlockBuilder.RoomFor` — a builder whose marks began with room for so many cells.
* `Block.SizedFor` — a block of given cells whose size is that of payloads and mask.

## Main results

* `BlockBuilder.Stores.sizeInBytes_build` — the size of a finished block, but for the
  words of the mask.
* `BlockBuilder.RoomFor.run` — **the room for the marks after any calls.**
* `sizes_follow_cells` — **the size of a block from what was added to it.**
-/

namespace Columnar

/-! ### The bytes of payloads -/

/-- The bytes of a string in a column of text.  A null takes none. -/
def Value.textBytes : Value → Nat
  | string s => s.utf8ByteSize
  | _ => 0

/-- The bytes of the payloads of some cells.  A column of text has its offsets too, one
more than there are cells. -/
def DataType.payloadBytes (type : DataType) (cells : List Value) : Nat :=
  match type with
  | int => cells.length * 4
  | long => cells.length * 8
  | double => cells.length * 8
  | boolean => cells.length * 1
  | varchar => (cells.length + 1) * 8 + Size.total (cells.map Value.textBytes)

/-- The bytes are those of the payloads of a column of the type, also under nulls. -/
theorem Value.textBytes_payloadOf (v : Value) :
    (DataType.varchar.payloadOf v).textBytes = v.textBytes := by
  cases v <;> rfl

/-! ### The room for marks -/

namespace Bitmap

variable {m : Bitmap} {initial : Nat}

/-- Pushing a bit adds a word at most. -/
theorem grows_pushClear (m : Bitmap) : m.words.Grows m.pushClear.words := by
  unfold pushClear
  dsimp only
  split
  · exact m.words.grows_push 0
  · exact .refl

theorem size_words (m : Bitmap) : m.words.size = wordCount m.length := m.words_size

/-- Writing a bit leaves the room as it is. -/
theorem roomFrom_put (h : m.words.RoomFrom initial) (i : Nat) (value : Bool) :
    (m.put i value).words.RoomFrom initial := by
  have hsize : (m.put i value).words.size = m.words.size := by
    rw [size_words, size_words, length_put]
  constructor
  · rw [hsize, capacity_put]
    exact h.capacity_eq
  · rw [hsize, capacity_put]
    exact h.capacity_le

theorem roomFrom_push (h : m.words.RoomFrom initial) (value : Bool) :
    (m.push value).words.RoomFrom initial := by
  have hclear := h.grows m.grows_pushClear
  cases value with
  | false => exact hclear
  | true => exact roomFrom_put hclear m.length true

end Bitmap

/-- The size of the block is the one it should have if it was built with room for `capacity`
cells and has the given ones.  The bytes of the payloads are exact, and so is the number of
words in the mask as long as the cells fit. -/
structure Block.SizedFor (b : Block) (capacity : Nat) (cells : List Value) : Prop where
  without_null : .null ∉ cells → b.sizeInBytes = b.type.payloadBytes cells
  with_null : .null ∈ cells → ∃ words, b.sizeInBytes = b.type.payloadBytes cells + 8 * words ∧
    Bitmap.wordCount cells.length ≤ words ∧
    words ≤ max (max (Bitmap.wordCount capacity) (2 * Bitmap.wordCount cells.length)) 4 ∧
    (cells.length ≤ capacity → words = Bitmap.wordCount capacity)

namespace BlockBuilder

variable {b : BlockBuilder} {capacity : Nat} {payloads values : List Value} {value : Value}

/-- The marks of the builder began with room for the given number of cells. -/
def RoomFor (capacity : Nat) (b : BlockBuilder) : Prop :=
  b.nulls.words.RoomFrom (Bitmap.wordCount capacity)

theorem roomFor_blank (type : DataType) (capacity : Nat) :
    (blank type capacity).RoomFor capacity := by
  have hroom := Buffer.roomFrom_withCapacity (α := BitVec 64) (Bitmap.wordCount capacity)
  cases type <;> exact hroom

theorem RoomFor.push (h : b.RoomFor capacity) (hvalue : b.accepts value = true) :
    (b.push value).RoomFor capacity := by
  unfold RoomFor
  rw [nulls_push hvalue]
  exact Bitmap.roomFrom_push h value.isNull

/-- **The room for the marks after any calls**, whether they succeeded or not. -/
theorem RoomFor.run : ∀ (calls : List Call) {b : BlockBuilder}, b.RoomFor capacity →
    (b.run calls).1.RoomFor capacity := by
  intro calls
  induction calls with
  | nil => intro b h; exact h
  | cons c rest ih =>
    intro b h
    show ((b.call c).state.run rest).1.RoomFor capacity
    cases hadded : c.added? b.type with
    | none =>
      obtain ⟨failure, hcall⟩ := call_of_not_added hadded
      rw [hcall]
      exact ih h
    | some value =>
      obtain ⟨hcall, hfits⟩ := call_of_added hadded
      rw [hcall]
      exact ih (h.push hfits)

/-! ### The size of a finished block -/

/-- The size of a finished block is that of its payloads and of its mask. -/
theorem Stores.sizeInBytes_build (h : b.Stores (values.map b.type.payloadOf)) :
    b.build.sizeInBytes =
      b.type.payloadBytes values + (NullMask.ofBitmap b.nulls).sizeInBytes := by
  have hcount := h.positionCount_eq
  rw [List.length_map] at hcount
  cases b with
  | int b => exact congrArg (· * 4 + _) hcount
  | long b => exact congrArg (· * 8 + _) hcount
  | double b => exact congrArg (· * 8 + _) hcount
  | boolean b => exact congrArg (· * 1 + _) hcount
  | varchar b =>
    obtain ⟨strings, hstrings, hvalues⟩ := h
    -- Under a null stands the empty string, which takes no bytes.
    have htexts : strings.map String.utf8ByteSize = values.map Value.textBytes := by
      have hbytes := congrArg (List.map Value.textBytes) hvalues
      rw [List.map_map, List.map_map] at hbytes
      exact hbytes.symm.trans (List.map_congr_left fun v _ => v.textBytes_payloadOf)
    have hlength : strings.length = values.length := by
      have := congrArg List.length hvalues
      rwa [List.length_map, List.length_map, eq_comm] at this
    have hoffsets : b.offsets.size = values.length + 1 := by
      rw [hstrings.strings_eq.size_offsets, hlength]
    have hbytes : b.bytes.size = Size.total (values.map Value.textBytes) := by
      rw [hstrings.strings_eq.2, HoldsStrings.size_join, htexts]
    show b.offsets.size * 8 + b.bytes.size + _ = _
    rw [hoffsets, hbytes]
    rfl

/-- There is a mark just in case there is a null. -/
theorem Holds.any_nulls_iff (h : b.Holds values) : b.nulls.any = true ↔ .null ∈ values := by
  rw [h.marks.any_iff, List.mem_map]
  constructor
  · rintro ⟨v, hv, hnull⟩
    cases v <;> first | exact hv | cases hnull
  · exact fun hnull => ⟨.null, hnull, rfl⟩

/-- **The size of a finished block** from the cells of the builder and from the room that
its marks began with. -/
theorem Holds.sizedFor_build (h : b.Holds values) (hroom : b.RoomFor capacity) :
    b.build.SizedFor capacity values := by
  have hsize := h.payloads.sizeInBytes_build
  have hwords : b.nulls.words.size = Bitmap.wordCount values.length := by
    rw [Bitmap.size_words, h.marks.length_eq, List.length_map]
  constructor
  · intro hnone
    rw [hsize, type_build, NullMask.ofBitmap, if_neg (mt h.any_nulls_iff.1 hnone)]
    rfl
  · -- The mask keeps the words with all the room they were given.
    intro hnull
    refine ⟨b.nulls.words.capacity, ?_, ?_, ?_, fun hfits => hroom.capacity_eq ?_⟩
    · rw [hsize, type_build, NullMask.ofBitmap, if_pos (h.any_nulls_iff.2 hnull), Nat.mul_comm 8]
      rfl
    · rw [← hwords]
      exact b.nulls.words.size_le_capacity
    · rw [← hwords]
      exact hroom.capacity_le
    · rw [hwords]
      unfold Bitmap.wordCount
      omega

end BlockBuilder

/-! ### Chunks -/

/-- Adding up the bytes of some blocks to what there was before. -/
theorem Block.foldl_sizeInBytes : ∀ (blocks : List Block) (bytes : Nat),
    blocks.foldl (fun bytes block => bytes + block.sizeInBytes) bytes =
      bytes + Size.total (blocks.map sizeInBytes) := by
  intro blocks
  induction blocks with
  | nil => intro bytes; rfl
  | cons block rest ih =>
    intro bytes
    rw [List.foldl_cons, ih, List.map_cons, Size.total_cons, Nat.add_assoc]

namespace ChunkBuilder

variable {c : ChunkBuilder} {types : List DataType} {capacity : Nat}

/-- Every column keeps the room for its marks that it began with, whatever rows are
added. -/
theorem roomFor_run : ∀ (rows : List (List Value)) {c : ChunkBuilder},
    (∀ builder ∈ c.builders, builder.RoomFor capacity) →
      ∀ builder ∈ (c.run rows).1.builders, builder.RoomFor capacity := by
  intro rows
  induction rows with
  | nil => intro c h; exact h
  | cons row rest ih =>
    intro c h
    refine ih fun after hafter => ?_
    obtain ⟨before, hbefore, rfl | ⟨value, happend⟩⟩ := appendRow_each after hafter
    · exact h after hbefore
    · obtain ⟨hvalue, rfl⟩ := BlockBuilder.append_eq_ok_iff.1 happend
      exact (h before hbefore).push hvalue

theorem roomFor_of_withCapacity (h : withCapacity types capacity = .ok c) :
    ∀ builder ∈ c.builders, builder.RoomFor capacity := by
  obtain ⟨builders, hbuilders, rfl⟩ := Result.map_eq_ok_iff.1 h
  obtain rfl := Result.eq_map_of_mapM BlockBuilder.eq_blank_of_withCapacity hbuilders
  intro builder hbuilder
  obtain ⟨type, -, rfl⟩ := List.mem_map.1 hbuilder
  exact BlockBuilder.roomFor_blank type capacity

/-- **The size of each column of a finished chunk** from the values it took of the rows. -/
theorem sizedFor_build_run (hstart : withCapacity types capacity = .ok c)
    (rows : List (List Value)) {i : Nat} {block : Block}
    (hblock : (c.run rows).1.build.blocks[i]? = some block) :
    block.SizedFor capacity (columnValues types rows i) := by
  obtain ⟨builder, hbuilder, rfl⟩ : ∃ builder, (c.run rows).1.builders[i]? = some builder ∧
      builder.build = block := by
    rw [← Option.map_eq_some_iff, ← List.getElem?_map]
    exact hblock
  have hholds := (holds_of_withCapacity hstart).run rows
  rw [List.nil_append] at hholds
  exact (hholds.column_holds i builder hbuilder).sizedFor_build
    (roomFor_run rows (roomFor_of_withCapacity hstart) builder (List.mem_of_getElem? hbuilder))

end ChunkBuilder

/-- **The size of a block follows from the cells that were added to it.**  Whatever calls
were made on a builder with room for `capacity` cells, the finished block shows the values
that they added.  Without a null among them it takes the bytes of their payloads alone.
With one it takes those of a mask too, of at least as many words as the cells need and at
most twice as many, or four, or as many as the builder had room for; and of just these as
long as the cells fit there.  The columns of a chunk builder are sized in the same way, and
a chunk takes the bytes of its blocks. -/
theorem sizes_follow_cells {type : DataType} {capacity : Nat} {start : BlockBuilder}
    (hstart : BlockBuilder.withCapacity type capacity = .ok start)
    (calls : List BlockBuilder.Call) :
    (start.run calls).1.build.ShowsAll (calls.filterMap (BlockBuilder.Call.added? type)) ∧
    (start.run calls).1.build.type = type ∧
    (start.run calls).1.build.SizedFor capacity
      (calls.filterMap (BlockBuilder.Call.added? type)) ∧
    (∀ types c, ChunkBuilder.withCapacity types capacity = .ok c → ∀ rows i (block : Block),
      (c.run rows).1.build.blocks[i]? = some block →
        block.SizedFor capacity (ChunkBuilder.columnValues types rows i)) ∧
    ∀ chunk : Chunk, chunk.sizeInBytes =
      chunk.blocks.foldl (fun bytes block => bytes + block.sizeInBytes) 0 := by
  obtain ⟨hholds, htype, -⟩ := BlockBuilder.holds_run_of_withCapacity hstart calls
  have hroom : (start.run calls).1.RoomFor capacity := by
    obtain rfl := BlockBuilder.eq_blank_of_withCapacity hstart
    exact (BlockBuilder.roomFor_blank type capacity).run calls
  refine ⟨hholds.showsAll_build, ?_, hholds.sizedFor_build hroom, ?_, ?_⟩
  · rw [BlockBuilder.type_build, htype]
  · intro types c hc rows i block hblock
    exact ChunkBuilder.sizedFor_build_run hc rows hblock
  · intro chunk
    rw [Block.foldl_sizeInBytes, Nat.zero_add, Chunk.sizeInBytes]

/-- A column of text with room for four cells, which is offered two strings, a null and an
integer, and one without a null. -/
theorem sizes_follow_cells_texts :
    ∃ start calls, BlockBuilder.withCapacity .varchar 4 = .ok start ∧
      ([.append (.string "né"), .appendNull, .append (.int 1), .append (.string "ab")] :
        List BlockBuilder.Call) = calls ∧
      (start.run calls).1.build.positionCount = 3 ∧
      (start.run calls).1.build.sizeInBytes = 8 * 4 + 5 + 8 * 1 ∧
      (start.run [.append (.string "né")]).1.build.sizeInBytes = 8 * 2 + 3 := by
  have hstart : BlockBuilder.withCapacity .varchar 4 = .ok (.blank .varchar 4) := rfl
  refine ⟨_, _, hstart, rfl, ?_⟩
  obtain ⟨hshows, htype, hsized, -⟩ := sizes_follow_cells hstart
    [.append (.string "né"), .appendNull, .append (.int 1), .append (.string "ab")]
  obtain ⟨words, hsize, -, -, hwords⟩ :=
    hsized.with_null (List.mem_cons_of_mem _ List.mem_cons_self)
  obtain ⟨-, htype', hsized', -⟩ := sizes_follow_cells hstart [.append (.string "né")]
  refine ⟨hshows.positionCount_eq, ?_, ?_⟩
  · rw [hsize, hwords (by decide), htype]
    rfl
  · have hnone : Value.null ∉ [Value.string "né"] := by simp
    rw [hsized'.without_null hnone, htype']
    rfl

end Columnar
