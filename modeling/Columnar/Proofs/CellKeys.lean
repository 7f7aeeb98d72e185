import Columnar.Hash.Folding
import Columnar.Proofs.Built
import Columnar.Proofs.Reads

/-!
# Equality and hashing by keys

Two cells are equal if they have the same key, and the hash code of a cell is a
function of its key.  The key of a row is the list of those of its cells.  So
equality is an equivalence relation, over blocks of all types and over chunks of
any columns, and what is equal has equal hash codes.

Blocks of two types decide by their types whether the payloads are compared at
all.  This agrees with the keys because cells of types that are not compared
never have the same key, unless both are null.

## Main definitions

* `FinishedCell`, `RegularRow` — cells and rows that can be compared.
* `FinishedCell.key`, `Row.keys` — their keys.
* `CellKey.hashRow` — the hash code of a list of keys.

## Main results

* `Double.canonicalBits_eq_iff` — which doubles have the same key.
* `Block.equals_of_keys`, `Chunk.equals_of_keys` — comparing is comparing keys.
* `equality_and_hashing_by_keys` — **equality is that of keys, and hash codes
  depend on keys only.**
-/

namespace Columnar

/-! ### Keys of doubles -/

namespace Double

variable {x y : Double}

theorem isNaN_of_bits_eq (h : x.bits = canonicalNaN) : x.isNaN = true := by
  unfold isNaN magnitude
  rw [h]
  rfl

theorem isZero_of_bits_eq (h : x.bits = 0) : x.isZero = true := by
  unfold isZero magnitude
  rw [h]
  rfl

/-- No zero lies above the infinities. -/
theorem not_isNaN_of_isZero (h : x.isZero = true) : x.isNaN = false := by
  have hzero : x.magnitude = 0 := by simpa [isZero] using h
  rw [isNaN, hzero]
  rfl

/-- **The canonical bits identify the two zeros, and all NaNs, and nothing
else.** -/
theorem canonicalBits_eq_iff :
    x.canonicalBits = y.canonicalBits ↔
      x = y ∨ (x.isZero = true ∧ y.isZero = true) ∨ (x.isNaN = true ∧ y.isNaN = true) := by
  have hext : x.bits = y.bits ↔ x = y := by
    rw [Double.mk.injEq]
  have hzero : (0 : UInt64) ≠ canonicalNaN := by decide
  have hleft := @isZero_of_bits_eq x
  have hright := @isZero_of_bits_eq y
  have hleft' := @isNaN_of_bits_eq x
  have hright' := @isNaN_of_bits_eq y
  have hapart := @not_isNaN_of_isZero x
  have hapart' := @not_isNaN_of_isZero y
  unfold canonicalBits
  -- A zero, a NaN or any other number, on either side.
  split <;> split <;> grind

end Double

/-! ### Keys of values -/

namespace Value

variable {v w : Value}

theorem key_eq_null_iff : v.key = .null ↔ v.isNull = true := by
  cases v <;> simp [key, isNull]

/-- No payload has the key of a null. -/
theorem key_ne_of_isNull (hv : v.isNull = true) (hw : w.isNull = false) : v.key ≠ w.key := by
  intro hkey
  rw [key_eq_null_iff.2 hv, eq_comm, key_eq_null_iff, hw] at hkey
  cases hkey

/-- Payloads with the same key are of types that are compared. -/
theorem comparable_of_key_eq {s t : DataType} (h : v.key = w.key) (hv : v.type? = some s)
    (hw : w.type? = some t) : s.comparable t = true := by
  -- Only integers have keys in common without being of one type.
  cases v <;> cases hv <;> cases w <;> cases hw <;> first | rfl | cases h

end Value

/-! ### Comparing and hashing cells -/

namespace Block

variable {a b : Block} {i j : Nat} {v w : Value} {k l : CellKey}

theorem type?_of_payload (h : b.payload i = .ok v) : v.type? = some b.type := by
  cases b with
  | int c => obtain ⟨n, -, rfl⟩ := Result.map_eq_ok_iff.1 h; rfl
  | long c => obtain ⟨n, -, rfl⟩ := Result.map_eq_ok_iff.1 h; rfl
  | double c => obtain ⟨x, -, rfl⟩ := Result.map_eq_ok_iff.1 h; rfl
  | boolean c => obtain ⟨x, -, rfl⟩ := Result.map_eq_ok_iff.1 h; rfl
  | varchar c => obtain ⟨s, -, rfl⟩ := Result.map_eq_ok_iff.1 h; rfl

/-- A value that is no null has the type of its block. -/
theorem type?_of_getValue (h : b.getValue i = .ok v) (hv : v.isNull = false) :
    v.type? = some b.type := by
  obtain ⟨null, -, hcell⟩ := Result.bind_eq_ok_iff.1 h
  cases null with
  | true =>
    rw [← Except.ok.inj hcell] at hv
    cases hv
  | false => exact type?_of_payload hcell

/-- Comparing cells is comparing the keys of their values. -/
theorem equals_of_values (ha : a.getValue i = .ok v) (hb : b.getValue j = .ok w) :
    a.equals i b j = .ok (decide (v.key = w.key)) := by
  have hleft : (a.cellAt i).isNull = .ok v.isNull := by rw [Cell.isNull, cellAt, ha]
  have hright : (b.cellAt j).isNull = .ok w.isNull := by rw [Cell.isNull, cellAt, hb]
  rw [equals_eq, Cell.equals, hleft, hright]
  cases hv : v.isNull with
  | true =>
    cases hw : w.isNull with
    | true =>
      rw [Value.key_eq_null_iff.2 hv, Value.key_eq_null_iff.2 hw]
      rfl
    | false =>
      rw [decide_eq_false (Value.key_ne_of_isNull hv hw)]
      rfl
  | false =>
    cases hw : w.isNull with
    | true =>
      rw [decide_eq_false (Value.key_ne_of_isNull hw hv).symm]
      rfl
    | false =>
      -- The types decide first whether the keys are compared.
      show (if a.type.comparable b.type then
        (do return (← (a.cellAt i).key) == (← (b.cellAt j).key)) else .ok false) = _
      have hkeys : (do return (← (a.cellAt i).key) == (← (b.cellAt j).key) : Result Bool) =
          .ok (decide (v.key = w.key)) := by
        rw [Cell.key, Cell.key, cellAt, cellAt, ha, hb]
        refine congrArg Except.ok (Bool.eq_iff_iff.2 ?_)
        rw [beq_iff_eq, decide_eq_true_eq]
      split
      · exact hkeys
      · next htypes =>
        have hne : v.key ≠ w.key := fun hkey => htypes
          (Value.comparable_of_key_eq hkey (type?_of_getValue ha hv) (type?_of_getValue hb hw))
        rw [decide_eq_false hne]

/-- **Comparing cells is comparing their keys.** -/
theorem equals_of_keys (ha : a.key i = .ok k) (hb : b.key j = .ok l) :
    a.equals i b j = .ok (decide (k = l)) := by
  obtain ⟨v, hv, rfl⟩ := Result.map_eq_ok_iff.1 ha
  obtain ⟨w, hw, rfl⟩ := Result.map_eq_ok_iff.1 hb
  exact equals_of_values hv hw

/-- **The hash code of a cell is that of its key.** -/
theorem hashCode_of_key [PayloadHash] (hb : b.key i = .ok k) : b.hashCode i = .ok k.hashCode := by
  have hcell : (b.cellAt i).key = .ok k := hb
  rw [hashCode_eq, Cell.hashCode, hcell]
  rfl

/-- The key of a cell that can be read. -/
def keyAt (b : Block) (position : Nat) : CellKey := (b.key position).toOption.getD .null

/-- A cell of a finished block has a key. -/
theorem Built.key_eq (h : b.Built) (hi : i < b.positionCount) : b.key i = .ok (b.keyAt i) := by
  obtain ⟨v, hv⟩ := h.exists_getValue hi
  unfold keyAt key
  rw [hv]
  rfl

end Block

/-! ### Comparing and hashing rows -/

/-- The hash code of a row, by the keys of its cells. -/
def CellKey.hashRow [PayloadHash] (keys : List CellKey) : UInt64 :=
  keys.foldl (fun row key => Hash.combine row key.hashCode) 0

namespace Chunk

/-- Comparing the columns one by one is comparing their keys one by one. -/
theorem allM_equals_of_keys {i j : Nat} {left right : Block → CellKey} :
    ∀ {as bs : List Block}, as.length = bs.length → (∀ a ∈ as, a.key i = .ok (left a)) →
      (∀ b ∈ bs, b.key j = .ok (right b)) →
        (as.zip bs).allM (fun (a, b) => a.equals i b j) =
          (.ok (decide (as.map left = bs.map right)) : Result Bool) := by
  intro as
  induction as with
  | nil =>
    intro bs hlength _ _
    rw [List.length_nil, eq_comm, List.length_eq_zero_iff] at hlength
    rw [hlength]
    rfl
  | cons a as ih =>
    intro bs hlength ha hb
    cases bs with
    | nil => cases hlength
    | cons b bs =>
      have hfirst : a.equals i b j = .ok (decide (left a = right b)) :=
        Block.equals_of_keys (ha a List.mem_cons_self) (hb b List.mem_cons_self)
      have hrest := ih (Nat.succ.inj hlength) (fun c hc => ha c (List.mem_cons_of_mem _ hc))
        fun c hc => hb c (List.mem_cons_of_mem _ hc)
      simp only [List.zip_cons_cons, List.allM_cons, hfirst, List.map_cons, List.cons.injEq]
      -- No column is looked at after the first difference.
      by_cases hkey : left a = right b
      · simp only [hkey, decide_true, true_and]
        exact hrest
      · simp only [hkey, decide_false, false_and]
        rfl

/-- **Comparing rows is comparing the lists of their keys.** -/
theorem equals_of_keys {c d : Chunk} {i j : Nat} {left right : Block → CellKey}
    (hc : ∀ a ∈ c.blocks, a.key i = .ok (left a)) (hd : ∀ b ∈ d.blocks, b.key j = .ok (right b)) :
    c.equals i d j = .ok (decide (c.blocks.map left = d.blocks.map right)) := by
  unfold equals
  split
  · next hlength => exact allM_equals_of_keys hlength hc hd
  · next hlength =>
    have hne : c.blocks.map left ≠ d.blocks.map right := by
      intro heq
      have hcount := congrArg List.length heq
      rw [List.length_map, List.length_map] at hcount
      exact hlength hcount
    rw [decide_eq_false hne]

/-- **The hash code of a row is that of the list of its keys.** -/
theorem hashCode_of_keys [PayloadHash] {c : Chunk} {i : Nat} {left : Block → CellKey}
    (hc : ∀ a ∈ c.blocks, a.key i = .ok (left a)) :
    c.hashCode i = .ok (CellKey.hashRow (c.blocks.map left)) := by
  unfold hashCode CellKey.hashRow
  generalize (0 : UInt64) = row
  generalize c.blocks = blocks at hc
  induction blocks generalizing row with
  | nil => rfl
  | cons a as ih =>
    have hfirst : a.hashCode i = .ok (left a).hashCode :=
      Block.hashCode_of_key (hc a List.mem_cons_self)
    simp only [List.foldlM_cons, hfirst, List.map_cons, List.foldl_cons]
    exact ih _ fun b hb => hc b (List.mem_cons_of_mem _ hb)

end Chunk

/-! ### Cells and rows of finished blocks -/

/-- A cell of a finished block. -/
structure FinishedCell where
  block : Block
  position : Nat
  built : block.Built
  lt_positionCount : position < block.positionCount

namespace FinishedCell

def key (c : FinishedCell) : CellKey := c.block.keyAt c.position

def Equal (c d : FinishedCell) : Prop := c.block.equals c.position d.block d.position = .ok true

theorem key_eq (c : FinishedCell) : c.block.key c.position = .ok c.key :=
  c.built.key_eq c.lt_positionCount

theorem equal_iff {c d : FinishedCell} : c.Equal d ↔ c.key = d.key := by
  rw [Equal, Block.equals_of_keys c.key_eq d.key_eq, Except.ok.injEq, decide_eq_true_eq]

end FinishedCell

/-- A finished chunk, all of whose columns are as long as it is. -/
structure Chunk.Regular (c : Chunk) : Prop where
  built : c.Built
  rectangular : c.Rectangular

theorem Chunk.regular_ofBlocks {c : Chunk} {blocks : List Block}
    (hbuilt : ∀ block ∈ blocks, block.Built) (h : ofBlocks blocks = .ok c) : c.Regular :=
  ⟨.ofBlocks hbuilt h, (ofBlocks_eq_ok h).2⟩

/-- The keys of the cells of a row, in the order of the columns. -/
def Row.keys (r : Row) : List CellKey := r.chunk.blocks.map (·.keyAt r.position)

/-- A row of a regular chunk. -/
structure RegularRow extends Row where
  regular : chunk.Regular
  lt_positionCount : position < chunk.positionCount

namespace RegularRow

def Equal (r s : RegularRow) : Prop := r.toRow.equals s.toRow = .ok true

theorem key_eq (r : RegularRow) :
    ∀ block ∈ r.chunk.blocks, block.key r.position = .ok (block.keyAt r.position) := by
  intro block hblock
  refine (r.regular.built.built_of_mem block hblock).key_eq ?_
  rw [r.regular.rectangular block hblock]
  exact r.lt_positionCount

theorem keys_eq (r : RegularRow) : r.chunk.blocks.mapM (·.key r.position) = .ok r.keys :=
  Result.mapM_eq_ok_map r.key_eq

theorem equals_eq (r s : RegularRow) : r.toRow.equals s.toRow = .ok (decide (r.keys = s.keys)) :=
  Chunk.equals_of_keys r.key_eq s.key_eq

theorem hashCode_eq [PayloadHash] (r : RegularRow) :
    r.toRow.hashCode = .ok (CellKey.hashRow r.keys) :=
  Chunk.hashCode_of_keys r.key_eq

theorem equal_iff {r s : RegularRow} : r.Equal s ↔ r.keys = s.keys := by
  rw [Equal, equals_eq, Except.ok.injEq, decide_eq_true_eq]

end RegularRow

/-! ### Rows of an index -/

namespace RowIndex

variable {x : RowIndex} {p : Nat}

/-- The row at a position is the one in the sequence of rows. -/
theorem row_eq_ok_iff (hx : x.WellFormed) {row : Row} :
    x.row p = .ok row ↔ x.rowSequence[p]? = some row := by
  constructor
  · intro h
    obtain ⟨l, hl, -⟩ := Result.bind_eq_ok_iff.1 h
    have hp : p < x.rowSequence.length := by
      rw [length_rowSequence hx]
      exact (exists_locate_iff hx).1 ⟨l, hl⟩
    have hlookup := List.getElem?_eq_getElem hp
    rw [(readsAs_rowSequence hx).row_eq hlookup, Except.ok.injEq] at h
    rw [hlookup, h]
  · exact (readsAs_rowSequence hx).row_eq

/-- Each row of an index of regular chunks can be compared. -/
theorem exists_regularRow (hx : x.WellFormed) (hregular : x.EachChunk Chunk.Regular)
    (hp : p < x.positionCount) : ∃ r : RegularRow, x.rowSequence[p]? = some r.toRow := by
  obtain ⟨row, hrow⟩ : ∃ row, x.rowSequence[p]? = some row :=
    ⟨_, List.getElem?_eq_getElem (by rw [length_rowSequence hx]; exact hp)⟩
  obtain ⟨l, shared, -, hshared, hoffset, rfl⟩ := exists_location_of_row hx hrow
  have hlookup := Result.element_eq_ok_iff.1 hshared
  rw [← Array.getElem?_toList] at hlookup
  have hchunk : shared.chunk.Regular := hregular shared (List.mem_of_getElem? hlookup)
  exact ⟨⟨⟨shared.chunk, l.offset⟩, hchunk, hoffset⟩, hrow⟩

/-- Comparing the row at a position with a row of some chunk. -/
theorem equalsChunkRow_eq (hx : x.WellFormed) {row : Row} (hrow : x.rowSequence[p]? = some row)
    (other : Row) : x.equalsChunkRow p other.chunk other.position = row.equals other := by
  obtain ⟨l, shared, hl, hshared, -, rfl⟩ := exists_location_of_row hx hrow
  unfold equalsChunkRow
  rw [hl]
  simp only [bind, Except.bind, hshared]
  rfl

end RowIndex

/-! ### The main theorem -/

/-- **Equality is that of keys, and hash codes depend on keys only**, whatever hash
function the payloads have.  This holds for cells of any two finished blocks, for rows
of any two regular chunks, and for the rows of an index of such chunks, whichever of
them they are in.  Equality of cells and of rows is therefore an equivalence
relation. -/
theorem equality_and_hashing_by_keys [PayloadHash] :
    (∀ c d : FinishedCell, c.block.key c.position = .ok c.key ∧
      c.block.equals c.position d.block d.position = .ok (decide (c.key = d.key)) ∧
      c.block.hashCode c.position = .ok c.key.hashCode) ∧
    (∀ x y : Double, (Value.double x).key = (Value.double y).key ↔
      x = y ∨ (x.isZero = true ∧ y.isZero = true) ∨ (x.isNaN = true ∧ y.isNaN = true)) ∧
    Equivalence FinishedCell.Equal ∧
    (∀ r s : RegularRow, r.chunk.blocks.mapM (·.key r.position) = .ok r.keys ∧
      r.chunk.equals r.position s.chunk s.position = .ok (decide (r.keys = s.keys)) ∧
      r.toRow.equals s.toRow = .ok (decide (r.keys = s.keys)) ∧
      r.chunk.hashCode r.position = .ok (CellKey.hashRow r.keys)) ∧
    Equivalence RegularRow.Equal ∧
    ∀ {x : RowIndex}, Reachable x → x.EachChunk Chunk.Regular → ∀ p < x.positionCount,
      ∃ r : RegularRow, x.row p = .ok r.toRow ∧ x.hashCode p = .ok (CellKey.hashRow r.keys) ∧
      (∀ s : RegularRow,
        x.equalsChunkRow p s.chunk s.position = .ok (decide (r.keys = s.keys))) ∧
      ∀ q s, x.row q = .ok (RegularRow.toRow s) →
        x.equals p q = .ok (decide (r.keys = s.keys)) := by
  refine ⟨?_, ?_, ?_, ?_, ?_, ?_⟩
  · intro c d
    exact ⟨c.key_eq, Block.equals_of_keys c.key_eq d.key_eq, Block.hashCode_of_key c.key_eq⟩
  · intro x y
    rw [← Double.canonicalBits_eq_iff]
    simp only [Value.key, CellKey.double.injEq]
  · -- Being equal is having one key, and so an equivalence.
    constructor
    · intro c
      exact FinishedCell.equal_iff.2 rfl
    · intro c d h
      exact FinishedCell.equal_iff.2 (FinishedCell.equal_iff.1 h).symm
    · intro c d e h h'
      exact FinishedCell.equal_iff.2
        ((FinishedCell.equal_iff.1 h).trans (FinishedCell.equal_iff.1 h'))
  · intro r s
    exact ⟨r.keys_eq, r.equals_eq s, r.equals_eq s, r.hashCode_eq⟩
  · constructor
    · intro r
      exact RegularRow.equal_iff.2 rfl
    · intro r s h
      exact RegularRow.equal_iff.2 (RegularRow.equal_iff.1 h).symm
    · intro r s t h h'
      exact RegularRow.equal_iff.2 ((RegularRow.equal_iff.1 h).trans (RegularRow.equal_iff.1 h'))
  · intro x hx hregular p hp
    have hwell := hx.wellFormed
    have hreads := RowIndex.readsAs_rowSequence hwell
    obtain ⟨r, hr⟩ := RowIndex.exists_regularRow hwell hregular hp
    refine ⟨r, hreads.row_eq hr, ?_, ?_, ?_⟩
    · rw [hreads.hashCode_eq hr, r.hashCode_eq]
    · intro s
      exact (RowIndex.equalsChunkRow_eq hwell hr s.toRow).trans (r.equals_eq s)
    · intro q s hs
      rw [hreads.equals_eq hr ((RowIndex.row_eq_ok_iff hwell).1 hs), r.equals_eq]

/-- A column of 32-bit integers with something under its null, and one of 64-bit
integers: the two fives are equal, and so are the two nulls. -/
theorem equality_and_hashing_by_keys_mixed :
    ∃ column narrow wide x,
      FixedColumn.ofValues #[5, 9] (some (Bitmap.empty.pushAll [false, true])) = .ok column ∧
      Chunk.ofBlocks [.int column] = .ok narrow ∧
      ((ChunkBuilder.ofTypes [.long]).appendRows [[.null], [.long 5]]).state.build = wide ∧
      RowIndex.ofChunks [⟨0, narrow⟩, ⟨1, wide⟩] = x ∧ x.EachChunk Chunk.Regular ∧
      x.equals 0 3 = .ok true ∧ x.equals 1 2 = .ok true := by
  obtain ⟨column, hcolumn⟩ : ∃ column : FixedColumn Int32,
      FixedColumn.ofValues #[5, 9] (some (Bitmap.empty.pushAll [false, true])) = .ok column :=
    ⟨_, rfl⟩
  obtain ⟨narrow, hnarrow⟩ : ∃ narrow, Chunk.ofBlocks [.int column] = .ok narrow := by
    cases hcolumn
    exact ⟨_, rfl⟩
  obtain ⟨wide, hwide⟩ : ∃ wide, ((ChunkBuilder.ofTypes [.long]).appendRows
      [[.null], [.long 5]]).state.build = wide := ⟨_, rfl⟩
  have hmade : Chunk.Built wide := by
    rw [← hwide]
    exact .build ((ChunkBuilder.made_ofTypes [.long]).appendRows _)
  have hregular : (RowIndex.ofChunks [⟨0, narrow⟩, ⟨1, wide⟩]).EachChunk Chunk.Regular := by
    refine RowIndex.eachChunk_ofChunks ?_
    intro shared hshared
    rw [List.mem_cons, List.mem_singleton] at hshared
    rcases hshared with rfl | rfl
    · refine Chunk.regular_ofBlocks ?_ hnarrow
      intro block hblock
      rw [List.mem_singleton.1 hblock]
      exact .int hcolumn
    · refine ⟨hmade, ?_⟩
      subst hwide
      intro block hblock
      rw [List.mem_singleton.1 hblock]
      rfl
  have hrows := equality_and_hashing_by_keys.2.2.2.2.2
    (reachable_ofChunks [⟨0, narrow⟩, ⟨1, wide⟩]) hregular
  have hlookup : ∀ {p : Nat} {r : RegularRow},
      (RowIndex.ofChunks [⟨0, narrow⟩, ⟨1, wide⟩]).row p = .ok r.toRow →
        (RowIndex.ofChunks [⟨0, narrow⟩, ⟨1, wide⟩]).rowSequence[p]? = some r.toRow :=
    (RowIndex.row_eq_ok_iff (reachable_ofChunks _).wellFormed).1
  cases hcolumn
  cases hnarrow
  subst hwide
  obtain ⟨five, hfive, -, -, hcompare⟩ := hrows 0 (by decide)
  obtain ⟨wideFive, hwideFive, -⟩ := hrows 3 (by decide)
  obtain ⟨null, hnull, -, -, hcompareNull⟩ := hrows 1 (by decide)
  obtain ⟨wideNull, hwideNull, -⟩ := hrows 2 (by decide)
  refine ⟨_, _, _, _, rfl, rfl, rfl, rfl, hregular, ?_, ?_⟩
  · have hkeys : five.keys = wideFive.keys := by
      rw [← Option.some.inj (hlookup hfive), ← Option.some.inj (hlookup hwideFive)]
      rfl
    rw [hcompare 3 wideFive hwideFive, decide_eq_true hkeys]
  · have hkeys : null.keys = wideNull.keys := by
      rw [← Option.some.inj (hlookup hnull), ← Option.some.inj (hlookup hwideNull)]
      rfl
    rw [hcompareNull 2 wideNull hwideNull, decide_eq_true hkeys]

end Columnar
