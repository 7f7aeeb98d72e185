import Columnar.Proofs.AppendedRows
import Columnar.Proofs.BitWrites

/-!
# Equal blocks and equal values

Blocks are compared by what they are made of: the payloads, also those under nulls, and
the bitmap of the nulls, which is there only if some cell is null; a column of text by
its table of offsets and its run of bytes.  None of this is free in a block that was
built.  The payload under a null is the blank one, the bitmap is packed from the marks
of the values alone, and offsets and bytes are those of the strings.  So built blocks
are equal if their values are, whatever room was set aside and however the cells were
added; and so are built chunks if their rows are.

Equality of values is not that of bits: a NaN differs from itself, and the two zeros
agree.  It is therefore never used here that equal things are the same.

## Main definitions

* `Block.SameValues`, `Chunk.SameRows` — what can be read of two blocks, or of two
  chunks, is equal.

## Main results

* `Value.beq_eq` — values are equal if their marks and their payloads are.
* `NullMask.ofBitmap_beq_iff`, `BlockBuilder.Stores.build_beq` — what equality of masks
  and of blocks compares.
* `BlockBuilder.Holds.build_beq`, `ChunkBuilder.Holds.build_beq` — **equality of what
  is built is that of the values that were added.**
* `built_equal_iff_same_values` — **equality of what is built is that of what is
  read.**
-/

namespace Columnar

/-! ### What is read -/

/-- The blocks have as many positions, and equal values at each. -/
def Block.SameValues (b c : Block) : Prop :=
  b.positionCount = c.positionCount ∧ ∀ i < b.positionCount,
    ∃ v w, b.getValue i = .ok v ∧ c.getValue i = .ok w ∧ (v == w) = true

/-- The chunks have as many rows, and equal values in each. -/
def Chunk.SameRows (c d : Chunk) : Prop :=
  c.positionCount = d.positionCount ∧ ∀ i < c.positionCount,
    ∃ vs ws, (do (← c.row i).values) = Except.ok vs ∧ (do (← d.row i).values) = Except.ok ws ∧
      (vs == ws) = true

/-! ### Lists compared element by element -/

section Lists

variable {α β : Type} [BEq α] [BEq β]

theorem beq_iff_getElem? {xs ys : List α} : (xs == ys) = true ↔ xs.length = ys.length ∧
    ∀ (i : Nat) (x y : α), xs[i]? = some x → ys[i]? = some y → (x == y) = true := by
  rw [List.beq_eq_decide]
  by_cases hlength : xs.length = ys.length
  · rw [dif_pos hlength, decide_eq_true_iff]
    constructor
    · intro h
      refine ⟨hlength, fun i x y hx hy => ?_⟩
      obtain ⟨hi, rfl⟩ := List.getElem?_eq_some_iff.1 hx
      obtain ⟨-, rfl⟩ := List.getElem?_eq_some_iff.1 hy
      exact h i hi
    · exact fun h i hi =>
        h.2 i _ _ (List.getElem?_eq_getElem hi) (List.getElem?_eq_getElem (hlength ▸ hi))
  · rw [dif_neg hlength]
    exact iff_of_false nofun fun h => hlength h.1

/-- Lists are equal if reads of their elements give equal answers. -/
theorem reads_beq_iff {xs ys : List α} {read other : Nat → Result α}
    (hread : ∀ {i x}, xs[i]? = some x → read i = .ok x)
    (hother : ∀ {i y}, ys[i]? = some y → other i = .ok y) :
    (xs.length = ys.length ∧ ∀ i < xs.length,
      ∃ x y, read i = .ok x ∧ other i = .ok y ∧ (x == y) = true) ↔ (xs == ys) = true := by
  rw [beq_iff_getElem?]
  refine and_congr_right fun hlength => ⟨fun h i x y hx hy => ?_, fun h i hi => ?_⟩
  · obtain ⟨x', y', hx', hy', hequal⟩ := h i (List.getElem?_eq_some_iff.1 hx).1
    rw [hread hx] at hx'
    rw [hother hy] at hy'
    cases hx'
    cases hy'
    exact hequal
  · have hx := List.getElem?_eq_getElem hi
    have hy := List.getElem?_eq_getElem (hlength ▸ hi)
    exact ⟨_, _, hread hx, hother hy, h i _ _ hx hy⟩

/-- Elements may be replaced by others that compare alike. -/
theorem map_beq_map {f : α → β} (hf : ∀ a b, (f a == f b) = (a == b)) :
    ∀ xs ys : List α, (xs.map f == ys.map f) = (xs == ys) := by
  intro xs
  induction xs with
  | nil => intro ys; cases ys <;> rfl
  | cons x xs ih =>
    intro ys
    cases ys with
    | nil => rfl
    | cons y ys => rw [List.map_cons, List.map_cons, List.cons_beq_cons, List.cons_beq_cons, hf, ih]

theorem map_toList_beq_map {f : α → β} (hf : ∀ a b, (f a == f b) = (a == b)) (xs ys : Array α) :
    (xs.toList.map f == ys.toList.map f) = (xs == ys) := by
  rw [map_beq_map hf, Array.beq_toList]

end Lists

/-! ### Values -/

/-- The payload under nulls equals itself, also as a number. -/
theorem DataType.blank_beq_blank (type : DataType) : (type.blank == type.blank) = true := by
  cases type <;> decide

/-- **Values are equal if their marks and their payloads are**, in a column of any
type. -/
theorem Value.beq_eq (type : DataType) (v w : Value) :
    (v == w) = (v.isNull == w.isNull && type.payloadOf v == type.payloadOf w) := by
  cases v with
  | null =>
    cases w with
    | null => exact type.blank_beq_blank.symm
    | _ => rfl
  | _ => cases w <;> rfl

theorem beq_values (type : DataType) : ∀ vs ws : List Value, (vs == ws) =
    (vs.map Value.isNull == ws.map Value.isNull &&
      vs.map type.payloadOf == ws.map type.payloadOf) := by
  intro vs
  induction vs with
  | nil => intro ws; cases ws <;> rfl
  | cons v vs ih =>
    intro ws
    cases ws with
    | nil => rfl
    | cons w ws =>
      simp only [List.map_cons, List.cons_beq_cons, ih, Value.beq_eq type v w]
      ac_rfl

/-! ### Null masks -/

/-- A bitmap without a set bit stands for clear bits. -/
theorem Bitmap.Holds.eq_replicate {m : Bitmap} {bits : List Bool} (h : m.Holds bits)
    (hany : ¬ m.any = true) : bits = List.replicate bits.length false := by
  refine List.eq_replicate_iff.2 ⟨rfl, fun bit hbit => ?_⟩
  cases bit with
  | false => rfl
  | true => exact absurd (h.any_iff.2 hbit) hany

namespace NullMask

theorem ofBitmap_of_any {bits : Bitmap} (h : bits.any = true) : ofBitmap bits = ⟨some bits⟩ := by
  rw [ofBitmap, if_pos h]

theorem ofBitmap_of_not_any {bits : Bitmap} (h : ¬ bits.any = true) : ofBitmap bits = none := by
  rw [ofBitmap, if_neg h]
  rfl

/-- **Masks for as many cells are equal if they mark the same ones**, also if no bitmap
is kept. -/
theorem ofBitmap_beq_iff {a b : Bitmap} {marks others : List Bool} (ha : a.Holds marks)
    (hb : b.Holds others) (hlength : marks.length = others.length) :
    (ofBitmap a == ofBitmap b) = true ↔ marks = others := by
  by_cases hany : a.any = true
  · rw [ofBitmap_of_any hany]
    by_cases hother : b.any = true
    · rw [ofBitmap_of_any hother]
      exact ha.beq_iff hb
    · -- Only one of the bitmaps is kept, and the other has no bit set.
      rw [ofBitmap_of_not_any hother]
      exact iff_of_false nofun fun heq => hother (hb.any_iff.2 (heq ▸ ha.any_iff.1 hany))
  · rw [ofBitmap_of_not_any hany]
    by_cases hother : b.any = true
    · rw [ofBitmap_of_any hother]
      exact iff_of_false nofun fun heq => hany (ha.any_iff.2 (heq ▸ hb.any_iff.1 hother))
    · rw [ofBitmap_of_not_any hother]
      refine iff_of_true rfl ?_
      rw [ha.eq_replicate hany, hb.eq_replicate hother, hlength]

end NullMask

/-! ### Text -/

theorem byteArray_beq_iff {a b : ByteArray} : (a == b) = true ↔ a = b := by
  show a.beq b = true ↔ a = b
  rw [ByteArray.beq, beq_iff_eq, ByteArray.ext_iff]

/-- Offsets and bytes tell the strings, and the strings tell them. -/
theorem HoldsStrings.eq_iff {offsets otherOffsets : Array Nat} {bytes otherBytes : ByteArray}
    {strings others : List String} (h : HoldsStrings offsets bytes strings)
    (h' : HoldsStrings otherOffsets otherBytes others) :
    offsets = otherOffsets ∧ bytes = otherBytes ↔ strings = others := by
  constructor
  · rintro ⟨rfl, rfl⟩
    -- Both lists of strings are read from one column.
    have hcolumn : (TextColumn.mk offsets bytes .none).Holds strings := h
    have hcolumn' : (TextColumn.mk offsets bytes .none).Holds others := h'
    refine List.ext_getElem (hcolumn.length_eq.symm.trans hcolumn'.length_eq) fun i hi hi' => ?_
    have hstring := hcolumn.get_eq (List.getElem?_eq_getElem hi)
    rw [hcolumn'.get_eq (List.getElem?_eq_getElem hi')] at hstring
    exact (Except.ok.inj hstring).symm
  · rintro rfl
    exact ⟨Array.toList_inj.1 (h.1.trans h'.1.symm), h.2.trans h'.2.symm⟩

theorem HoldsStrings.beq_eq {offsets otherOffsets : Array Nat} {bytes otherBytes : ByteArray}
    {strings others : List String} (h : HoldsStrings offsets bytes strings)
    (h' : HoldsStrings otherOffsets otherBytes others) :
    (offsets == otherOffsets && bytes == otherBytes) = (strings == others) := by
  rw [Bool.eq_iff_iff, Bool.and_eq_true, beq_iff_eq, byteArray_beq_iff, beq_iff_eq]
  exact h.eq_iff h'

/-! ### Blocks -/

namespace BlockBuilder

variable {a b : BlockBuilder} {payloads others vs ws : List Value}

/-- **Equality of built blocks compares all payloads and the masks.** -/
theorem Stores.build_beq (ha : a.Stores payloads) (hb : b.Stores others)
    (htype : a.type = b.type) : (a.build == b.build) =
      (payloads == others && NullMask.ofBitmap a.nulls == NullMask.ofBitmap b.nulls) := by
  -- Payloads are compared as elements here and as values there, which comes to the same.
  cases a with
  | int a =>
    cases b with
    | int b => rw [ha, hb, map_toList_beq_map (f := Value.int) fun _ _ => rfl]; rfl
    | _ => cases htype
  | long a =>
    cases b with
    | long b => rw [ha, hb, map_toList_beq_map (f := Value.long) fun _ _ => rfl]; rfl
    | _ => cases htype
  | double a =>
    cases b with
    | double b => rw [ha, hb, map_toList_beq_map (f := Value.double) fun _ _ => rfl]; rfl
    | _ => cases htype
  | boolean a =>
    cases b with
    | boolean b => rw [ha, hb, map_toList_beq_map (f := Value.boolean) fun _ _ => rfl]; rfl
    | _ => cases htype
  | varchar a =>
    cases b with
    | varchar b =>
      obtain ⟨strings, hstrings, rfl⟩ := ha
      obtain ⟨otherStrings, hothers, rfl⟩ := hb
      rw [map_beq_map (f := Value.string) fun _ _ => rfl,
        ← hstrings.strings_eq.beq_eq hothers.strings_eq]
      rfl
    | _ => cases htype

/-- **Built blocks are equal if the values that were added are.** -/
theorem Holds.build_beq (ha : a.Holds vs) (hb : b.Holds ws) (htype : a.type = b.type) :
    (a.build == b.build) = (vs == ws) := by
  have hpayloads := ha.payloads
  rw [htype] at hpayloads
  rw [hpayloads.build_beq hb.payloads htype, beq_values b.type vs ws, Bool.and_comm,
    Bool.eq_iff_iff, Bool.and_eq_true, Bool.and_eq_true]
  refine and_congr_left fun hequal => ?_
  -- Equal payloads are as many, so the masks are for as many cells.
  have hmarks : (vs.map Value.isNull).length = (ws.map Value.isNull).length := by
    simpa using (beq_iff_getElem?.1 hequal).1
  rw [NullMask.ofBitmap_beq_iff ha.marks hb.marks hmarks, beq_iff_eq]

/-- Equal values are read just in case equal values were added. -/
theorem Holds.sameValues_iff (ha : a.Holds vs) (hb : b.Holds ws) :
    a.build.SameValues b.build ↔ (vs == ws) = true := by
  rw [Block.SameValues, ha.showsAll_build.positionCount_eq, hb.showsAll_build.positionCount_eq]
  exact reads_beq_iff ha.getValue_build hb.getValue_build

end BlockBuilder

/-! ### Chunks -/

theorem Chunk.beq_iff {c d : Chunk} : (c == d) = true ↔
    c.positionCount = d.positionCount ∧ (c.blocks == d.blocks) = true := by
  show (c.blocks == d.blocks && c.positionCount == d.positionCount) = true ↔ _
  rw [Bool.and_eq_true, beq_iff_eq (a := c.positionCount), and_comm]

/-- The value of a row in a column. -/
def cellIn (column : Nat) (row : List Value) : Value := row[column]?.getD .null

/-- Rows of one width are equal if their columns are. -/
theorem beq_rows_iff {rows others : List (List Value)} {width : Nat}
    (hrows : ∀ row ∈ rows, row.length = width) (hothers : ∀ row ∈ others, row.length = width) :
    (rows == others) = true ↔ rows.length = others.length ∧ ∀ column < width,
      (rows.map (cellIn column) == others.map (cellIn column)) = true := by
  have hcell : ∀ {row : List Value} {column : Nat}, row.length = width → column < width →
      row[column]? = some (cellIn column row) := by
    intro row column hrow hcolumn
    rw [cellIn, List.getElem?_eq_getElem (hrow ▸ hcolumn)]
    rfl
  -- Both sides compare the same cells, once along the rows and once along the columns.
  rw [beq_iff_getElem?]
  refine and_congr_right fun hlength =>
    ⟨fun h column hcolumn => ?_, fun h i row other hrow hother => ?_⟩
  · refine beq_iff_getElem?.2 ⟨by simp [hlength], fun i v w hv hw => ?_⟩
    rw [List.getElem?_map] at hv hw
    obtain ⟨row, hrow, rfl⟩ := Option.map_eq_some_iff.1 hv
    obtain ⟨other, hother, rfl⟩ := Option.map_eq_some_iff.1 hw
    exact (beq_iff_getElem?.1 (h i row other hrow hother)).2 column _ _
      (hcell (hrows row (List.mem_of_getElem? hrow)) hcolumn)
      (hcell (hothers other (List.mem_of_getElem? hother)) hcolumn)
  · have hwidth := hrows row (List.mem_of_getElem? hrow)
    have hwidth' := hothers other (List.mem_of_getElem? hother)
    refine beq_iff_getElem?.2 ⟨hwidth.trans hwidth'.symm, fun column v w hv hw => ?_⟩
    have hcolumn : column < width := hwidth ▸ (List.getElem?_eq_some_iff.1 hv).1
    rw [hcell hwidth hcolumn] at hv
    rw [hcell hwidth' hcolumn] at hw
    cases hv
    cases hw
    exact (beq_iff_getElem?.1 (h column hcolumn)).2 i _ _ (by simp [hrow]) (by simp [hother])

namespace ChunkBuilder

variable {c d : ChunkBuilder} {types : List DataType} {rows others : List (List Value)}

/-- If all rows fit, there are as many in the chunk, unless it has no columns. -/
theorem Holds.positionCount_eq_length (h : c.Holds types rows) (htypes : types ≠ [])
    (hrows : ∀ row ∈ rows, Fits types row) : c.build.positionCount = rows.length := by
  have hlength := congrArg List.length (h.rowValues_build htypes hrows)
  rwa [Chunk.rowValues, List.length_map, List.length_range, List.length_map] at hlength

/-- If all rows fit, a row of the chunk is read as it was added. -/
theorem Holds.values_build (h : c.Holds types rows) (htypes : types ≠ [])
    (hrows : ∀ row ∈ rows, Fits types row) {i : Nat} {row : List Value}
    (hrow : rows[i]? = some row) : (do (← c.build.row i).values) = Except.ok row := by
  have hread := congrArg (·[i]?) (h.rowValues_build htypes hrows)
  have hi : i < c.build.positionCount := by
    rw [h.positionCount_eq_length htypes hrows]
    exact (List.getElem?_eq_some_iff.1 hrow).1
  simp only [Chunk.rowValues, List.getElem?_map, List.getElem?_range hi, hrow, Option.map_some,
    Option.some.injEq] at hread
  exact hread

theorem Holds.length_blocks (h : c.Holds types rows) : c.build.blocks.length = types.length := by
  rw [← h.types_build, List.length_map]

/-- Two columns of built chunks are equal if the rows have equal values in them. -/
theorem Holds.column_beq (hc : c.Holds types rows) (hd : d.Holds types others)
    (hrows : ∀ row ∈ rows, Fits types row) (hothers : ∀ row ∈ others, Fits types row)
    {column : Nat} {block other : Block} (hblock : c.build.blocks[column]? = some block)
    (hother : d.build.blocks[column]? = some other) :
    (block == other) = (rows.map (cellIn column) == others.map (cellIn column)) := by
  have hlt : column < types.length := hc.length_blocks ▸ (List.getElem?_eq_some_iff.1 hblock).1
  rw [build, List.getElem?_map] at hblock hother
  obtain ⟨left, hleft, rfl⟩ := Option.map_eq_some_iff.1 hblock
  obtain ⟨right, hright, rfl⟩ := Option.map_eq_some_iff.1 hother
  have htype : left.type = right.type := by
    have hat := congrArg (·[column]?) (hc.types_eq.trans hd.types_eq.symm)
    simpa only [List.getElem?_map, hleft, hright, Option.map_some, Option.some.injEq] using hat
  rw [(hc.column_holds column left hleft).build_beq (hd.column_holds column right hright) htype,
    columnValues_eq_taken hlt, columnValues_eq_taken hlt, taken_of_fits hlt hrows,
    taken_of_fits hlt hothers]
  rfl

/-- **Built chunks are equal if the rows that were added are**, unless there are no
columns. -/
theorem Holds.build_beq (hc : c.Holds types rows) (hd : d.Holds types others)
    (htypes : types ≠ []) (hrows : ∀ row ∈ rows, Fits types row)
    (hothers : ∀ row ∈ others, Fits types row) : (c.build == d.build) = (rows == others) := by
  rw [Bool.eq_iff_iff, Chunk.beq_iff, hc.positionCount_eq_length htypes hrows,
    hd.positionCount_eq_length htypes hothers, beq_rows_iff (fun row hrow => (hrows row hrow).1)
    fun row hrow => (hothers row hrow).1]
  refine and_congr_right fun _ => ?_
  rw [beq_iff_getElem?, hc.length_blocks, hd.length_blocks]
  refine ⟨fun h column hcolumn => ?_, fun h => ⟨rfl, fun column block other hblock hother => ?_⟩⟩
  · have hblock := List.getElem?_eq_getElem (hc.length_blocks ▸ hcolumn)
    have hother := List.getElem?_eq_getElem (hd.length_blocks ▸ hcolumn)
    rw [← hc.column_beq hd hrows hothers hblock hother]
    exact h.2 column _ _ hblock hother
  · rw [hc.column_beq hd hrows hothers hblock hother]
    exact h column (hc.length_blocks ▸ (List.getElem?_eq_some_iff.1 hblock).1)

/-- Equal rows are read just in case equal rows were added. -/
theorem Holds.sameRows_iff (hc : c.Holds types rows) (hd : d.Holds types others)
    (htypes : types ≠ []) (hrows : ∀ row ∈ rows, Fits types row)
    (hothers : ∀ row ∈ others, Fits types row) :
    c.build.SameRows d.build ↔ (rows == others) = true := by
  rw [Chunk.SameRows, hc.positionCount_eq_length htypes hrows,
    hd.positionCount_eq_length htypes hothers]
  exact reads_beq_iff (hc.values_build htypes hrows) (hd.values_build htypes hothers)

/-- A chunk without columns has no rows to be read, whatever was added. -/
theorem Holds.build_eq_of_nil (h : c.Holds [] rows) : c.build = ⟨[], 0⟩ := by
  obtain ⟨builders⟩ := c
  obtain rfl : builders = [] := List.map_eq_nil_iff.1 h.types_eq
  rfl

end ChunkBuilder

/-! ### The main theorem -/

/-- **Equality of what is built is that of what is read.**  Two builders of one type,
with whatever room, are made to take cells by any calls, some of which may fail: the
blocks are equal if they have as many positions and equal values at each.  Two builders
of one schema take any rows, none of which fails: the chunks are equal if they have as
many rows and each has equal values in both. -/
theorem built_equal_iff_same_values :
    (∀ (type : DataType) (capacity otherCapacity : Nat) (start other : BlockBuilder),
      BlockBuilder.withCapacity type capacity = .ok start →
      BlockBuilder.withCapacity type otherCapacity = .ok other →
        ∀ calls later : List BlockBuilder.Call,
          ((start.run calls).1.build == (other.run later).1.build) = true ↔
            (start.run calls).1.build.SameValues (other.run later).1.build) ∧
    ∀ (types : List DataType) (capacity otherCapacity : Nat) (start other : ChunkBuilder),
      ChunkBuilder.withCapacity types capacity = .ok start →
      ChunkBuilder.withCapacity types otherCapacity = .ok other →
        ∀ rows others : List (List Value),
          (∀ outcome ∈ (start.run rows).2, outcome.status = .ok ()) →
          (∀ outcome ∈ (other.run others).2, outcome.status = .ok ()) →
            (((start.run rows).1.build == (other.run others).1.build) = true ↔
              (start.run rows).1.build.SameRows (other.run others).1.build) := by
  constructor
  · intro type capacity otherCapacity start other hstart hother calls later
    obtain ⟨hholds, htype, -⟩ := BlockBuilder.holds_run_of_withCapacity hstart calls
    obtain ⟨hother, hotherType, -⟩ := BlockBuilder.holds_run_of_withCapacity hother later
    rw [hholds.build_beq hother (htype.trans hotherType.symm), hholds.sameValues_iff hother]
  · intro types capacity otherCapacity start other hstart hother rows others hall hallOthers
    have hblank := ChunkBuilder.holds_of_withCapacity hstart
    have hotherBlank := ChunkBuilder.holds_of_withCapacity hother
    have hfits := (hblank.forall_run_ok_iff rows).1 hall
    have hotherFits := (hotherBlank.forall_run_ok_iff others).1 hallOthers
    have hholds : (start.run rows).1.Holds types rows := hblank.run rows
    have hother : (other.run others).1.Holds types others := hotherBlank.run others
    -- A chunk without columns has no rows, however many were appended.
    by_cases htypes : types = []
    · subst htypes
      rw [hholds.build_eq_of_nil, hother.build_eq_of_nil]
      exact iff_of_true rfl ⟨rfl, fun i hi => absurd hi (Nat.not_lt_zero i)⟩
    · rw [hholds.build_beq hother htypes hfits hotherFits,
        hholds.sameRows_iff hother htypes hfits hotherFits]

/-- A negative zero and a null, with room for none, against a positive zero and the null
of another column, with room for many: the blocks are equal.  A chunk with a NaN is not
equal to one that was built in the same way. -/
theorem built_equal_iff_same_values_zeros :
    ∃ source calls later rows start,
      ((BlockBuilder.blank .varchar 0).push .null).build = source ∧
      ([.append (.double ⟨0x8000000000000000⟩), .append (.int 1), .appendNull] :
        List BlockBuilder.Call) = calls ∧
      ([.append (.double ⟨0⟩), .writeTo source 0] : List BlockBuilder.Call) = later ∧
      ([[.double ⟨Double.canonicalNaN⟩]] : List (List Value)) = rows ∧
      ChunkBuilder.withCapacity [.double] 1 = .ok start ∧
      (((BlockBuilder.blank .double 0).run calls).1.build ==
        ((BlockBuilder.blank .double 100).run later).1.build) = true ∧
      (∀ outcome ∈ (start.run rows).2, outcome.status = .ok ()) ∧
      ¬ ((start.run rows).1.build == (start.run rows).1.build) = true := by
  obtain ⟨hblocks, hchunks⟩ := built_equal_iff_same_values
  have hall : ∀ outcome ∈ (ChunkBuilder.run ⟨[.blank .double 1]⟩
      [[.double ⟨Double.canonicalNaN⟩]]).2, outcome.status = .ok () :=
    List.forall_mem_singleton.2 rfl
  refine ⟨_, _, _, _, ⟨[.blank .double 1]⟩, rfl, rfl, rfl, rfl, rfl, ?_, hall, ?_⟩
  · refine (hblocks .double 0 100 _ _ rfl rfl _ _).2 ⟨rfl, fun i hi => ?_⟩
    match i, hi with
    | 0, _ => exact ⟨.double ⟨0x8000000000000000⟩, .double ⟨0⟩, rfl, rfl, by decide⟩
    | 1, _ => exact ⟨.null, .null, rfl, rfl, rfl⟩
  · intro hequal
    obtain ⟨-, hrows⟩ := (hchunks [.double] 1 1 _ _ rfl rfl _ _ hall hall).1 hequal
    obtain ⟨vs, ws, hvs, hws, hsame⟩ := hrows 0 Nat.one_pos
    cases hvs
    cases hws
    revert hsame
    decide

end Columnar
