import Columnar.Hash.Folding
import Columnar.Proofs.ReadBack

/-!
# Gathering cells

The rows of an index can be gathered in any order: the cell at each of some
positions is copied to a builder, which may hold other values already.  The cell
is copied from its block without being made a value first, and still the builder
is left as if its value had been appended.  A null is no exception to this,
although it is copied before the types are compared, since a null fits a column
of any type.

## Main definitions

* `RowIndex.appendValueTo` — the detour through the value of a cell.
* `RowIndex.fits` — whether a column of some type can take a cell.
* `RowIndex.RefusesCell` — why it cannot.
* `RowIndex.gather` — copies the cells at positions one after the other.

## Main results

* `Block.Intact.writeTo_eq_error_iff` — when the cell of a block cannot be copied.
* `RowIndex.cell_cases` — what is at a position of an index of regular chunks.
* `RowIndex.toOption_writeTo`, `RowIndex.writeTo_eq_error_iff` — one copy.
* `RowIndex.holds_gather` — what a builder holds after any copies.
* `RowIndex.gather_appends_cells` — **gathering appends the cells that fit, in order.**
-/

namespace Columnar

/-! ### Copying a cell of a block -/

namespace Block

variable {block : Block} {b : BlockBuilder} {i : Nat}

/-- A null is copied to a builder of any type. -/
theorem writeTo_of_null (h : block.isNull i = .ok true) : block.writeTo i b = .ok b.appendNull := by
  unfold writeTo
  rw [h]
  rfl

/-- Any other cell is copied only to a builder of its type. -/
theorem writeTo_of_type_ne (h : block.isNull i = .ok false) (htype : block.type ≠ b.type) :
    block.writeTo i b = .error (.misused (.cellType block.type b.type)) := by
  unfold writeTo
  rw [h]
  cases block <;> cases b <;> first | rfl | exact absurd rfl htype

/-- The two ways to add a cell have the same effect. -/
theorem toOption_writeTo (block : Block) (i : Nat) (b : BlockBuilder) :
    (block.writeTo i b).toOption = (do b.append (← block.getValue i) : Result _).toOption := by
  refine Option.ext fun after => ?_
  rw [Result.toOption_eq_some_iff, Result.toOption_eq_some_iff, Result.bind_eq_ok_iff]
  constructor
  · exact BlockBuilder.append_of_writeTo
  · rintro ⟨value, hvalue, happend⟩
    exact BlockBuilder.writeTo_of_append hvalue happend

/-- **A cell that is there cannot be copied if it is no null and the types
differ**, and for no other reason. -/
theorem Intact.writeTo_eq_error_iff (h : block.Intact) (hi : i < block.positionCount)
    {failure : Failure} :
    block.writeTo i b = .error failure ↔ block.isNull i = .ok false ∧ block.type ≠ b.type ∧
      failure = .misused (.cellType block.type b.type) := by
  constructor
  · intro herror
    obtain ⟨value, hvalue⟩ := h.exists_getValue hi
    have hnull := isNull_of_getValue hvalue
    cases hcase : value.isNull with
    | true =>
      rw [hcase] at hnull
      rw [writeTo_of_null hnull] at herror
      cases herror
    | false =>
      rw [hcase] at hnull
      by_cases htype : block.type = b.type
      · -- The value of the cell fits, so it would have been copied.
        have hfits : b.accepts value = true := by
          rw [BlockBuilder.accepts_eq, DataType.accepts_iff, ← htype]
          exact Or.inr (type?_of_getValue hvalue hcase)
        have happend : b.append value = .ok (b.push value) :=
          BlockBuilder.append_eq_ok_iff.2 ⟨hfits, rfl⟩
        rw [BlockBuilder.writeTo_of_append hvalue happend] at herror
        cases herror
      · rw [writeTo_of_type_ne hnull htype] at herror
        exact ⟨hnull, htype, (Except.error.inj herror).symm⟩
  · rintro ⟨hnull, htype, rfl⟩
    exact writeTo_of_type_ne hnull htype

end Block

namespace RowIndex

/-! ### Definitions -/

/-- Adds the value at a position to a builder. -/
def appendValueTo (x : RowIndex) (column position : Nat) (b : BlockBuilder) :
    Result BlockBuilder := do
  b.append (← x.getValue column position)

/-- Whether there is a cell at the position and a column of the type can take
it. -/
def fits (x : RowIndex) (column : Nat) (type : DataType) (position : Nat) : Bool :=
  (x.getValue column position).toOption.any type.accepts

/-- Why the cell at a position is not copied to a builder of the type. -/
inductive RefusesCell (x : RowIndex) (column : Nat) (type : DataType) (position : Nat) :
    Failure → Prop
  /-- The position is past the end. -/
  | pastEnd : x.positionCount ≤ position →
      RefusesCell x column type position (.misused (.positionOutOfRange position x.positionCount))
  /-- The chunk that holds the row has too few columns. -/
  | noColumn {l : Location} {shared : SharedChunk} : x.locate position = .ok l →
      x.chunk l.chunkId = .ok shared → shared.chunk.blockCount ≤ column →
        RefusesCell x column type position .outOfBounds
  /-- The cell is no null and of another type. -/
  | otherType {block : Block} {offset : Nat} : x.cell column position = .ok (block, offset) →
      block.isNull offset = .ok false → block.type ≠ type →
        RefusesCell x column type position (.misused (.cellType block.type type))

/-- Copies the cell at a position to a builder, which stays as it was if this
fails. -/
def gatherCell (x : RowIndex) (column : Nat) (b : BlockBuilder) (position : Nat) :
    Outcome BlockBuilder :=
  .ofResult b (x.writeTo column position b)

/-- Copies the cells at positions one after the other, whether this succeeds or
not. -/
def gather (x : RowIndex) (column : Nat) (b : BlockBuilder) (positions : List Nat) :
    BlockBuilder × List (Outcome BlockBuilder) :=
  Outcome.runAll (x.gatherCell column) b positions

variable {x : RowIndex} {column p : Nat} {b : BlockBuilder}

/-! ### One cell -/

/-- **What is at a position of an index of regular chunks**: nothing, a row
without the column, or a cell that can be read. -/
theorem cell_cases (hx : x.WellFormed) (hregular : x.EachChunk Chunk.Regular) (column p : Nat) :
    (x.positionCount ≤ p ∧
      x.cell column p = .error (.misused (.positionOutOfRange p x.positionCount))) ∨
    (∃ l shared, x.locate p = .ok l ∧ x.chunk l.chunkId = .ok shared ∧
      shared.chunk.blockCount ≤ column ∧ x.cell column p = .error .outOfBounds) ∨
    ∃ block offset, x.cell column p = .ok (block, offset) ∧ block.Intact ∧
      offset < block.positionCount := by
  rcases Nat.lt_or_ge p x.positionCount with hp | hp
  · obtain ⟨l, hl⟩ := (exists_locate_iff hx).2 hp
    obtain ⟨shared, hshared, hoffset⟩ := exists_chunk_of_locate hx hl
    have hcell : x.cell column p = (do return (← shared.chunk.block column, l.offset)) := by
      unfold cell
      rw [hl]
      simp only [bind, Except.bind, hshared]
    -- There is such a row, so only the column can be missing.
    cases hblock : shared.chunk.blocks[column]? with
    | none =>
      refine Or.inr (Or.inl ⟨l, shared, hl, hshared, List.getElem?_eq_none_iff.1 hblock, ?_⟩)
      rw [hcell, Chunk.block, Result.nth, hblock]
      rfl
    | some block =>
      have hlookup := Result.element_eq_ok_iff.1 hshared
      rw [← Array.getElem?_toList] at hlookup
      have hchunk : shared.chunk.Regular := hregular shared (List.mem_of_getElem? hlookup)
      have hmem : block ∈ shared.chunk.blocks := List.mem_of_getElem? hblock
      have hintact : block.Intact := (hchunk.built.built_of_mem block hmem).intact
      refine Or.inr (Or.inr ⟨block, l.offset, ?_, hintact, ?_⟩)
      · rw [hcell, Chunk.block, Result.nth_eq_ok_iff.2 hblock]
        rfl
      · rw [hchunk.rectangular block hmem]
        exact hoffset
  · refine Or.inl ⟨hp, ?_⟩
    rw [cell, locate_of_le hp]
    rfl

theorem writeTo_of_cell {block : Block} {offset : Nat} (h : x.cell column p = .ok (block, offset)) :
    x.writeTo column p b = block.writeTo offset b := by
  rw [writeTo, h]
  rfl

theorem getValue_of_cell {block : Block} {offset : Nat}
    (h : x.cell column p = .ok (block, offset)) :
    x.getValue column p = block.getValue offset := by
  rw [getValue, h]
  rfl

/-- **Copying a cell has the effect of appending its value.** -/
theorem toOption_writeTo (x : RowIndex) (column p : Nat) (b : BlockBuilder) :
    (x.writeTo column p b).toOption = (x.appendValueTo column p b).toOption := by
  unfold appendValueTo
  cases h : x.cell column p with
  | error failure =>
    rw [writeTo, getValue, h]
    rfl
  | ok found =>
    obtain ⟨block, offset⟩ := found
    rw [writeTo_of_cell h, getValue_of_cell h]
    exact Block.toOption_writeTo block offset b

/-- Copying a cell by its position is copying it by its location. -/
theorem writeTo_eq_writeChunkCellTo {l : Location} (hl : x.locate p = .ok l) (column : Nat)
    (b : BlockBuilder) : x.writeTo column p b = x.writeChunkCellTo l column b := by
  unfold writeTo cell writeChunkCellTo
  rw [hl]
  simp only [bind, Except.bind]
  cases x.chunk l.chunkId with
  | error failure => rfl
  | ok shared =>
    dsimp only
    cases shared.chunk.block column <;> rfl

/-- **A cell is not copied for one of three reasons.** -/
theorem writeTo_eq_error_iff (hx : x.WellFormed) (hregular : x.EachChunk Chunk.Regular)
    {failure : Failure} :
    x.writeTo column p b = .error failure ↔ x.RefusesCell column b.type p failure := by
  have hother : ∀ {reason : Failure}, x.cell column p = .error reason →
      (x.writeTo column p b = .error failure ↔ failure = reason) := by
    intro reason h
    rw [writeTo, h]
    exact ⟨fun heq => (Except.error.inj heq).symm, fun heq => congrArg Except.error heq.symm⟩
  -- The three ways to refuse a cell exclude each other, and the cell tells which one it is.
  rcases cell_cases hx hregular column p with ⟨hp, hcell⟩ |
    ⟨l, shared, hl, hshared, hcolumn, hcell⟩ | ⟨block, offset, hcell, hintact, hoffset⟩
  · rw [hother hcell]
    constructor
    · rintro rfl
      exact .pastEnd hp
    · rintro (_ | ⟨hl, -, -⟩ | ⟨hfound, -, -⟩)
      · rfl
      · rw [locate_of_le hp] at hl
        cases hl
      · rw [hcell] at hfound
        cases hfound
  · rw [hother hcell]
    constructor
    · rintro rfl
      exact .noColumn hl hshared hcolumn
    · rintro (hle | _ | ⟨hfound, -, -⟩)
      · rw [locate_of_le hle] at hl
        cases hl
      · rfl
      · rw [hcell] at hfound
        cases hfound
  · rw [writeTo_of_cell hcell, hintact.writeTo_eq_error_iff hoffset]
    constructor
    · rintro ⟨hnull, htype, rfl⟩
      exact .otherType hcell hnull htype
    · rintro (hle | ⟨hl, hshared, hcolumn⟩ | ⟨hfound, hnull, htype⟩)
      · rw [cell, locate_of_le hle] at hcell
        cases hcell
      · -- The chunk has the column, for there is a cell.
        simp only [cell, bind, Except.bind, hl, hshared, Chunk.block, Result.nth,
          List.getElem?_eq_none_iff.2 hcolumn] at hcell
        cases hcell
      · rw [hcell] at hfound
        cases hfound
        exact ⟨hnull, htype, rfl⟩

/-- A null is copied to a builder of any type. -/
theorem writeTo_of_isNull (h : x.isNull column p = .ok true) :
    x.writeTo column p b = .ok b.appendNull := by
  obtain ⟨⟨block, offset⟩, hcell, hnull⟩ := Result.bind_eq_ok_iff.1 h
  rw [writeTo_of_cell hcell, Block.writeTo_of_null hnull]

theorem status_gatherCell_eq_error_iff {failure : Failure} :
    (x.gatherCell column b p).status = .error failure ↔ x.writeTo column p b = .error failure := by
  unfold gatherCell
  cases x.writeTo column p b <;> simp [Outcome.ofResult]

/-- A cell that is not copied leaves the builder as it was. -/
theorem state_gatherCell_of_failed (h : (x.gatherCell column b p).status ≠ .ok ()) :
    (x.gatherCell column b p).state = b := by
  unfold gatherCell at h ⊢
  cases hwrite : x.writeTo column p b with
  | ok after =>
    rw [hwrite] at h
    exact absurd rfl h
  | error failure => rfl

/-! ### Cells that fit -/

theorem fits_iff {type : DataType} : x.fits column type p = true ↔
    ∃ value, x.getValue column p = .ok value ∧ type.accepts value = true := by
  simp only [fits, Option.any_eq_true, Result.toOption_eq_some_iff]

/-- A cell that fits is added as its value. -/
theorem gatherCell_of_fits (h : x.fits column b.type p = true) :
    ∃ value, x.getValue column p = .ok value ∧ b.accepts value = true ∧
      x.gatherCell column b p = .done (b.push value) := by
  obtain ⟨value, hvalue, hfits⟩ := fits_iff.1 h
  rw [← BlockBuilder.accepts_eq] at hfits
  have happend : x.appendValueTo column p b = .ok (b.push value) := by
    rw [appendValueTo, hvalue]
    exact BlockBuilder.append_eq_ok_iff.2 ⟨hfits, rfl⟩
  have hwrite : x.writeTo column p b = .ok (b.push value) := by
    rw [← Result.toOption_eq_some_iff, toOption_writeTo, happend]
    rfl
  exact ⟨value, hvalue, hfits, by rw [gatherCell, hwrite]; rfl⟩

/-- Any other cell is refused. -/
theorem gatherCell_of_not_fits (h : x.fits column b.type p = false) :
    ∃ failure, x.gatherCell column b p = .failed b failure := by
  cases hwrite : x.writeTo column p b with
  | error failure => exact ⟨failure, by rw [gatherCell, hwrite]; rfl⟩
  | ok after =>
    have happend : x.appendValueTo column p b = .ok after := by
      rw [← Result.toOption_eq_some_iff, ← toOption_writeTo, hwrite]
      rfl
    obtain ⟨value, hvalue, hafter⟩ := Result.bind_eq_ok_iff.1 happend
    have hfits := (BlockBuilder.append_eq_ok_iff.1 hafter).1
    rw [BlockBuilder.accepts_eq] at hfits
    rw [fits_iff.2 ⟨value, hvalue, hfits⟩] at h
    cases h

/-! ### Any number of cells -/

/-- After any copies a builder holds, after what it held, the values of the cells
that fit. -/
theorem holds_gather (x : RowIndex) (column : Nat) :
    ∀ (positions : List Nat) {b : BlockBuilder} {values : List Value}, b.Holds values →
      ∃ gathered, (positions.filter (x.fits column b.type)).mapM (x.getValue column) =
          .ok gathered ∧
        (x.gather column b positions).1.Holds (values ++ gathered) ∧
        (x.gather column b positions).1.type = b.type ∧
        (x.gather column b positions).2.map Outcome.succeeded =
          positions.map (x.fits column b.type) := by
  intro positions
  induction positions with
  | nil =>
    intro b values h
    refine ⟨[], rfl, ?_, rfl, rfl⟩
    rw [List.append_nil]
    exact h
  | cons p rest ih =>
    intro b values h
    show ∃ gathered, _ ∧ (x.gather column (x.gatherCell column b p).state rest).1.Holds _ ∧
      (x.gather column (x.gatherCell column b p).state rest).1.type = _ ∧
      (x.gatherCell column b p).succeeded ::
        (x.gather column (x.gatherCell column b p).state rest).2.map Outcome.succeeded = _
    -- A cell that does not fit leaves the builder as it is, and the filter leaves it out.
    cases hfits : x.fits column b.type p with
    | false =>
      obtain ⟨failure, hcell⟩ := gatherCell_of_not_fits hfits
      rw [hcell, List.filter_cons_of_neg (by rw [hfits]; exact Bool.false_ne_true), List.map_cons,
        hfits]
      obtain ⟨gathered, hgathered, hholds, htype, hsucceeded⟩ := ih h
      exact ⟨gathered, hgathered, hholds, htype, congrArg (false :: ·) hsucceeded⟩
    | true =>
      obtain ⟨value, hvalue, haccepts, hcell⟩ := gatherCell_of_fits hfits
      obtain ⟨gathered, hgathered, hholds, htype, hsucceeded⟩ := ih (h.push haccepts)
      rw [BlockBuilder.type_push] at hgathered htype hsucceeded
      rw [hcell, List.filter_cons_of_pos hfits, List.map_cons, hfits]
      refine ⟨value :: gathered, ?_, ?_, htype, congrArg (true :: ·) hsucceeded⟩
      · rw [List.mapM_cons, hvalue, hgathered]
        rfl
      · rwa [List.append_assoc, List.singleton_append] at hholds

/-- What shows the value of a cell equals the cell and hashes like it. -/
theorem equals_of_getValue_eq [PayloadHash] {block copy : Block} {i j : Nat} {value : Value}
    (h : copy.getValue i = .ok value) (h' : block.getValue j = .ok value) :
    copy.equals i block j = .ok true ∧
      ∃ code, copy.hashCode i = .ok code ∧ block.hashCode j = .ok code := by
  have hkey : copy.key i = .ok value.key := by rw [Block.key, h]; rfl
  have hkey' : block.key j = .ok value.key := by rw [Block.key, h']; rfl
  refine ⟨?_, _, Block.hashCode_of_key hkey, Block.hashCode_of_key hkey'⟩
  rw [Block.equals_of_values h h', decide_eq_true rfl]

/-! ### The main result -/

/-- **Gathering appends the cells that fit, in order.**

Copying one cell, whatever the builder holds, has the effect of appending its
value, and is the copy from the chunk and offset where the position is located.
It fails where the position is past the end, the chunk lacks the column or the
cell is of another type and no null, for that reason, and then changes nothing.
After copies from any positions, repeated or in any order, the finished block
shows what the builder held before and then the cells that fit; each of them
equals the cell it was copied from and has its hash code. -/
theorem gather_appends_cells [PayloadHash] {x : RowIndex} (hx : Reachable x)
    (hregular : x.EachChunk Chunk.Regular) (column : Nat) :
    (∀ (b : BlockBuilder) (p : Nat),
      (x.writeTo column p b).toOption = (x.appendValueTo column p b).toOption ∧
      (p < x.positionCount → ∃ l, x.locate p = .ok l ∧
        x.writeTo column p b = x.writeChunkCellTo l column b) ∧
      (∀ failure, (x.gatherCell column b p).status = .error failure ↔
        x.RefusesCell column b.type p failure) ∧
      ((x.gatherCell column b p).status ≠ .ok () → (x.gatherCell column b p).state = b) ∧
      (x.isNull column p = .ok true → x.writeTo column p b = .ok b.appendNull)) ∧
    ∀ (sink : BlockBuilder) (positions : List Nat), sink.Made →
      (x.gather column sink positions).2.map Outcome.succeeded =
        positions.map (x.fits column sink.type) ∧
      ∃ previous gathered, sink.build.ShowsAll previous ∧
        (positions.filter (x.fits column sink.type)).mapM (x.getValue column) = .ok gathered ∧
        (x.gather column sink positions).1.build.type = sink.type ∧
        (x.gather column sink positions).1.build.ShowsAll (previous ++ gathered) ∧
        ∀ i p, (positions.filter (x.fits column sink.type))[i]? = some p →
          ∃ block offset, x.cell column p = .ok (block, offset) ∧
            (x.gather column sink positions).1.build.equals (previous.length + i) block offset =
              .ok true ∧
            ∃ code,
              (x.gather column sink positions).1.build.hashCode (previous.length + i) = .ok code ∧
              block.hashCode offset = .ok code := by
  have hwell := hx.wellFormed
  constructor
  · intro b p
    refine ⟨toOption_writeTo x column p b, ?_, ?_, state_gatherCell_of_failed, writeTo_of_isNull⟩
    · intro hp
      obtain ⟨l, hl⟩ := (exists_locate_iff hwell).2 hp
      exact ⟨l, hl, writeTo_eq_writeChunkCellTo hl column b⟩
    · intro failure
      rw [status_gatherCell_eq_error_iff, writeTo_eq_error_iff hwell hregular]
  · intro sink positions hsink
    obtain ⟨previous, hprevious⟩ := hsink.exists_holds
    obtain ⟨gathered, hgathered, hholds, htype, hsucceeded⟩ :=
      holds_gather x column positions hprevious
    refine ⟨hsucceeded, previous, gathered, hprevious.showsAll_build, hgathered, ?_,
      hholds.showsAll_build, ?_⟩
    · rw [BlockBuilder.type_build, htype]
    · intro i p hp
      -- The gathered cell and its source show one value, and so have one key.
      obtain ⟨value, hvalue, hcell⟩ := Result.exists_getElem?_of_mapM hgathered hp
      obtain ⟨⟨block, offset⟩, hfound, hsource⟩ := Result.bind_eq_ok_iff.1 hcell
      have hplace : (previous ++ gathered)[previous.length + i]? = some value := by
        rw [List.getElem?_append_right (Nat.le_add_right _ _), Nat.add_sub_cancel_left, hvalue]
      exact ⟨block, offset, hfound, equals_of_getValue_eq (hholds.getValue_build hplace) hsource⟩

/-- A column of longs that holds a three, and the cells of an index with a long in
one chunk and a null and an int in another: a null, a seven, an int, nothing and
the seven again. -/
theorem gather_appends_cells_mixed :
    ∃ narrow x sink final,
      ((ChunkBuilder.ofTypes [.int]).appendRows [[.null], [.int 5]]).state.build = narrow ∧
      ofChunks [⟨0, .ofLongs [7]⟩, ⟨1, narrow⟩] = x ∧
      (BlockBuilder.blank .long 0).push (.long 3) = sink ∧
      (x.gather 0 sink [1, 0, 2, 3, 0]).1.build = final ∧
      Reachable x ∧ x.EachChunk Chunk.Regular ∧ sink.Made ∧
      (x.gather 0 sink [1, 0, 2, 3, 0]).2.map Outcome.succeeded =
        [true, true, false, false, true] ∧
      final.ShowsAll [.long 3, .null, .long 7, .long 7] ∧
      ∃ block offset code, x.cell 0 1 = .ok (block, offset) ∧
        final.equals 1 block offset = .ok true ∧
        final.hashCode 1 = .ok code ∧ block.hashCode offset = .ok code := by
  refine ⟨_, _, _, _, rfl, rfl, rfl, rfl, reachable_ofChunks _, ?_⟩
  have hregular : (ofChunks [⟨0, .ofLongs [7]⟩, ⟨1, ((ChunkBuilder.ofTypes [.int]).appendRows
      [[.null], [.int 5]]).state.build⟩]).EachChunk Chunk.Regular := by
    refine eachChunk_ofChunks ?_
    intro shared hshared
    rw [List.mem_cons, List.mem_singleton] at hshared
    rcases hshared with rfl | rfl
    · have hseven : FixedColumn.ofValues #[(7 : Int64)] none = .ok ⟨#[7], .none⟩ := rfl
      exact Chunk.regular_ofBlocks (List.forall_mem_singleton.2 (.long hseven)) rfl
    · refine ⟨.build ((ChunkBuilder.made_ofTypes [.int]).appendRows _), ?_⟩
      intro block hblock
      rw [List.mem_singleton.1 hblock]
      rfl
  have hthree : (BlockBuilder.blank .long 0).append (.long 3) =
      .ok ((BlockBuilder.blank .long 0).push (.long 3)) := rfl
  have hsink : ((BlockBuilder.blank .long 0).push (.long 3)).Made :=
    .append (.withCapacity (BlockBuilder.withCapacity_zero .long)) hthree
  obtain ⟨hsucceeded, previous, gathered, hprevious, hgathered, -, hshows, hcells⟩ :=
    (gather_appends_cells (reachable_ofChunks _) hregular 0).2 _ [1, 0, 2, 3, 0] hsink
  obtain rfl : previous = [.long 3] :=
    hprevious.unique ((BlockBuilder.holds_blank .long 0).push rfl).showsAll_build
  obtain rfl : gathered = [.null, .long 7, .long 7] :=
    Except.ok.inj (hgathered.symm.trans (by cbv))
  obtain ⟨block, offset, hcell, hequals, code, hcodes⟩ := hcells 0 1 (by cbv)
  exact ⟨hregular, hsink, hsucceeded.trans (by cbv), hshows, block, offset, code, hcell, hequals,
    hcodes⟩

end RowIndex

end Columnar
