import Columnar.Proofs.ListContents
import Columnar.Proofs.ReadBack

/-!
# What stands under nulls

A copy into a flat list moves payloads and does not look at the null mask, so a
null is copied as whatever stands under it.  A builder puts the default payload
there.  A column made from an array and a mask keeps what the array holds, which
may be anything: it has defaults under its nulls only if it was given them.

## Main definitions

* `FixedColumn.DefaultUnderNulls`, `Block.DefaultUnderNulls` — the payloads under the
  nulls of a column are the default.
* `Block.BlankUnderNulls` — a read of any null cell gives the blank payload.
* `FlatList.ZeroAt` — a list reads as zero at a place.

## Main results

* `BlockBuilder.Made.blankUnderNulls`, `Block.Built.blankUnderNulls_iff` — **a builder
  leaves blank payloads**, and so does a column that has defaults.
* `FixedColumn.defaultUnderNulls_ofValues_iff` — a column made from its parts has
  the payloads it was given.
* `FlatList.Copied.zeroAt_iff` — **a cell is copied as zero if its payload is blank.**
* `nulls_copied_as_held` — what all of this means for null cells.
-/

namespace Columnar

/-! ### Definitions -/

/-- Under each null of the column stands the default payload. -/
def FixedColumn.DefaultUnderNulls {α : Type} [Inhabited α] (c : FixedColumn α) : Prop :=
  ∀ i, c.isNull i = .ok true → c.get i = .ok default

/-- Under each null of the block stands the default payload, if the block is of
fixed width. -/
def Block.DefaultUnderNulls : Block → Prop
  | int c => c.DefaultUnderNulls
  | long c => c.DefaultUnderNulls
  | double c => c.DefaultUnderNulls
  | boolean c => c.DefaultUnderNulls
  | varchar _ => True

/-- A read of any null cell gives the blank payload of the type. -/
def Block.BlankUnderNulls (b : Block) : Prop :=
  ∀ i, b.isNull i = .ok true → b.payload i = .ok b.type.blank

/-- The list holds a zero at a place, and every read there that it allows gives
zero. -/
structure FlatList.ZeroAt (list : FlatList) (i : Nat) : Prop where
  get?_eq : list.get? i = some list.kind.zero
  getInt_eq : (list.getInt i).toOption = list.kind.zero.toInt?
  getLong_eq : (list.getLong i).toOption = list.kind.zero.toLong?
  getDouble_eq : (list.getDouble i).toOption = list.kind.zero.toDouble?

/-! ### Masks -/

namespace NullMask

variable {bits : Bitmap} {marks : List Bool} {i : Nat}

/-- The mask that a bitmap amounts to marks the cells whose bits are set. -/
theorem isNull_ofBitmap_iff (h : bits.Holds marks) :
    (ofBitmap bits).isNull i = .ok true ↔ bits.bit i = true := by
  rw [h.bit_eq]
  cases hmark : marks[i]? with
  | some mark =>
    rw [BlockBuilder.isNull_ofBitmap h hmark]
    exact ⟨Except.ok.inj, congrArg _⟩
  | none =>
    -- Past the end a bitmap that is kept does not answer, and one that is not says no.
    have hle : bits.length ≤ i := h.length_eq ▸ List.getElem?_eq_none_iff.1 hmark
    refine ⟨fun hnull => ?_, nofun⟩
    unfold ofBitmap isNull at hnull
    by_cases hany : bits.any = true
    · rw [if_pos hany] at hnull
      dsimp only at hnull
      rw [Bitmap.get_of_le hle] at hnull
      cases hnull
    · rw [if_neg hany] at hnull
      cases hnull

end NullMask

/-! ### Columns made from their parts -/

namespace FixedColumn

variable {α : Type} {values : Array α} {mask : Option Bitmap} {c : FixedColumn α}

theorem values_of_ofValues (h : ofValues values mask = .ok c) : c.values = values := by
  cases mask with
  | none =>
    cases h
    rfl
  | some bits =>
    obtain ⟨_, -, hc⟩ := Result.bind_eq_ok_iff.1 h
    cases hc
    rfl

theorem isNull_ofValues_iff (h : ofValues values mask = .ok c)
    (hmask : ∀ bits ∈ mask, ∃ marks, bits.Holds marks) {i : Nat} :
    c.isNull i = .ok true ↔ mask.any (·.bit i) = true := by
  cases mask with
  | none =>
    cases h
    exact ⟨nofun, nofun⟩
  | some bits =>
    obtain ⟨_, -, hc⟩ := Result.bind_eq_ok_iff.1 h
    cases hc
    obtain ⟨marks, hmarks⟩ := hmask bits rfl
    exact NullMask.isNull_ofBitmap_iff hmarks

/-- **A column made from its parts has defaults under its nulls only if the parts
have them.** -/
theorem defaultUnderNulls_ofValues_iff [Inhabited α] (h : ofValues values mask = .ok c)
    (hmask : ∀ bits ∈ mask, ∃ marks, bits.Holds marks) :
    c.DefaultUnderNulls ↔ ∀ i, mask.any (·.bit i) = true → values[i]? = some default := by
  unfold DefaultUnderNulls
  simp only [isNull_ofValues_iff h hmask, get, Result.element_eq_ok_iff, values_of_ofValues h]

end FixedColumn

/-! ### Blocks -/

namespace Block

variable {b : Block} {i : Nat}

/-- Payloads that are wrapped are blank if they are the default. -/
theorem blankUnderNulls_iff_of_wrap {α : Type} [Inhabited α] {c : FixedColumn α} {wrap : α → Value}
    (hwrap : Function.Injective wrap) (hblank : b.type.blank = wrap default)
    (hnull : ∀ i, b.isNull i = c.isNull i) (hpayload : ∀ i, b.payload i = wrap <$> c.get i) :
    b.BlankUnderNulls ↔ c.DefaultUnderNulls := by
  have hmap : ∀ r : Result α, wrap <$> r = .ok (wrap default) ↔ r = .ok default := by
    intro r
    rw [Result.map_eq_ok_iff]
    constructor
    · rintro ⟨a, rfl, ha⟩
      rw [hwrap ha]
    · exact fun hr => ⟨default, hr, rfl⟩
  unfold BlankUnderNulls FixedColumn.DefaultUnderNulls
  simp only [hnull, hpayload, hblank, hmap]

/-- A cell that is null is one that there is. -/
theorem Intact.lt_of_isNull (h : b.Intact) (hnull : b.isNull i = .ok true) :
    i < b.positionCount := h.exists_getValue_iff.1 ⟨.null, getValue_of_null hnull⟩

/-- Over a blank payload a null reads as the default of its type. -/
theorem shows_null (hnull : b.isNull i = .ok true) (hblank : b.payload i = .ok b.type.blank) :
    b.Shows i .null := shows_of_payload (getValue_of_null hnull) hblank

end Block

/-- **A builder leaves the blank payload under each null.** -/
theorem BlockBuilder.Made.blankUnderNulls {b : BlockBuilder} (h : b.Made) :
    b.build.BlankUnderNulls := by
  intro i hnull
  obtain ⟨values, hvalues⟩ := h.exists_holds
  have hi : i < values.length := by
    rw [← hvalues.positionCount_eq, ← positionCount_build]
    exact hvalues.intact.build.lt_of_isNull hnull
  have hvalue := List.getElem?_eq_getElem hi
  -- The mark is that of the value, so the value is null.
  have hmark : values[i].isNull = true := by
    rw [hvalues.isNull_build hvalue] at hnull
    exact Except.ok.inj hnull
  rw [hvalues.payload_build hvalue, type_build, DataType.payloadOf, if_pos hmark]

/-- **A block gives blank payloads under its nulls if its column has defaults
there.**  A column of text does in any case, as only a builder makes one. -/
theorem Block.Built.blankUnderNulls_iff {b : Block} (h : b.Built) :
    b.BlankUnderNulls ↔ b.DefaultUnderNulls := by
  cases b with
  | int c =>
    exact blankUnderNulls_iff_of_wrap (fun _ _ => Value.int.inj) rfl (fun _ => rfl) fun _ => rfl
  | long c =>
    exact blankUnderNulls_iff_of_wrap (fun _ _ => Value.long.inj) rfl (fun _ => rfl) fun _ => rfl
  | double c =>
    exact blankUnderNulls_iff_of_wrap (fun _ _ => Value.double.inj) rfl (fun _ => rfl) fun _ => rfl
  | boolean c =>
    exact blankUnderNulls_iff_of_wrap (fun _ _ => Value.boolean.inj) rfl (fun _ => rfl) fun _ => rfl
  | varchar c =>
    refine iff_of_true ?_ trivial
    generalize hb : Block.varchar c = b at h
    cases h with
    | build hmade => exact hmade.blankUnderNulls
    | _ => cases hb

/-! ### Copies -/

/-- What a list stores is zero if the payload is blank. -/
theorem ListKind.eq_zero_iff_of_store {kind : ListKind} {type : DataType} {v w : Value}
    (h : kind.store v = some w) (htype : v.type? = some type) :
    w = kind.zero ↔ v = type.blank := by
  cases kind with
  | int =>
    cases v with
    | int n => cases h; cases htype; exact Iff.rfl
    | _ => cases h
  | double =>
    cases v with
    | double x => cases h; cases htype; exact Iff.rfl
    | _ => cases h
  | long =>
    cases v with
    | long n => cases h; cases htype; exact Iff.rfl
    | int n =>
      cases h
      cases htype
      simp only [zero, DataType.blank, Value.long.injEq, Value.int.injEq]
      -- Widening keeps the number, so it makes zero of zero only.
      rw [← Int64.toInt_inj, ← Int32.toInt_inj, Int32.toInt_toInt64]
      exact Iff.rfl
    | _ => cases h

namespace FlatList

variable {before after list : FlatList} {block : Block} {base i : Nat}

theorem zeroAt_iff : list.ZeroAt i ↔ list.get? i = some list.kind.zero := by
  refine ⟨ZeroAt.get?_eq, fun hget => ⟨hget, ?_, ?_, ?_⟩⟩
  · rw [toOption_getInt, hget]; rfl
  · rw [toOption_getLong, hget]; rfl
  · rw [toOption_getDouble, hget]; rfl

/-- **A cell is copied as zero if its payload is blank**, null or not. -/
theorem Copied.zeroAt_iff (h : before.Copied block base after) (hi : i < block.positionCount) :
    after.ZeroAt (base + i) ↔ block.payload i = .ok block.type.blank := by
  obtain ⟨v, w, hv, hw, hget⟩ := h.inside i hi
  have hzero := ListKind.eq_zero_iff_of_store hw (Block.type?_of_payload hv)
  rw [FlatList.zeroAt_iff, hget, h.kind_eq, hv, Option.some.injEq, hzero, Except.ok.injEq]

end FlatList

/-! ### Null cells -/

/-- **Null cells are what they were given.**  Under the nulls of a block that a
builder made stands the blank payload, and under those of any other block if its
column has defaults there.  A column made from its parts has the payloads it was
given, so it does just in case it was so given.  A null over the blank payload reads
as the default of its type, and a copy of a null into a list is zero just in case the
payload is. -/
theorem nulls_copied_as_held {block : Block} (hblock : block.Built) :
    (∀ b : BlockBuilder, b.Made → b.build = block → block.BlankUnderNulls) ∧
    (block.BlankUnderNulls ↔ block.DefaultUnderNulls) ∧
    (∀ {α : Type} [Inhabited α] {values : Array α} {mask : Option Bitmap} {c : FixedColumn α},
      (∀ bits ∈ mask, ∃ marks, bits.Holds marks) → FixedColumn.ofValues values mask = .ok c →
        c.values = values ∧
          (c.DefaultUnderNulls ↔ ∀ i, mask.any (·.bit i) = true → values[i]? = some default)) ∧
    ∀ i, block.isNull i = .ok true →
      (block.payload i = .ok block.type.blank → block.Shows i .null) ∧
        ∀ {list after : FlatList} {base : Nat}, list.copyBlock block base = .ok after →
          (after.ZeroAt (base + i) ↔ block.payload i = .ok block.type.blank) := by
  refine ⟨?_, hblock.blankUnderNulls_iff, fun hmask hc => ?_, fun i hnull => ⟨?_, ?_⟩⟩
  · rintro b hb rfl
    exact hb.blankUnderNulls
  · exact ⟨FixedColumn.values_of_ofValues hc, FixedColumn.defaultUnderNulls_ofValues_iff hc hmask⟩
  · exact Block.shows_null hnull
  · intro list after base hcopy
    exact (FlatList.copyBlock_copied hcopy).zeroAt_iff (hblock.intact.lt_of_isNull hnull)

/-- A block of a builder that was given a null, and one made of two integers of which
the second is marked.  That was given with a five under the mark, and is copied so. -/
theorem nulls_copied_as_held_two :
    ((BlockBuilder.blank .long 0).push .null).build.BlankUnderNulls ∧
      ∃ bits c after, (Bitmap.clear 2).set 1 true = .ok bits ∧
        FixedColumn.ofValues #[7, 5] (some bits) = .ok c ∧ (Block.int c).Built ∧
          (Block.int c).isNull 1 = .ok true ∧
            (FlatList.zeros .int 4).copyBlock (.int c) 1 = .ok after ∧
              ¬ (Block.int c).BlankUnderNulls ∧ ¬ after.ZeroAt 2 := by
  have happend : (BlockBuilder.blank .long 0).append .null =
      .ok ((BlockBuilder.blank .long 0).push .null) := rfl
  have hmade : ((BlockBuilder.blank .long 0).push .null).Made :=
    .append (.withCapacity (BlockBuilder.withCapacity_zero .long)) happend
  obtain ⟨hbuilder, -⟩ := nulls_copied_as_held (.build hmade)
  obtain ⟨bits, c, after, hset, hc, hnull, hcopy, hfive⟩ : ∃ bits c after,
      (Bitmap.clear 2).set 1 true = .ok bits ∧ FixedColumn.ofValues #[7, 5] (some bits) = .ok c ∧
        (Block.int c).isNull 1 = .ok true ∧
          (FlatList.zeros .int 4).copyBlock (.int c) 1 = .ok after ∧
            (Block.int c).payload 1 = .ok (.int 5) :=
    ⟨_, _, _, rfl, rfl, rfl, rfl, rfl⟩
  obtain ⟨-, hcolumn, hparts, hcells⟩ := nulls_copied_as_held (.int hc)
  refine ⟨hbuilder _ hmade rfl, bits, c, after, hset, hc, .int hc, hnull, hcopy, fun hblank => ?_,
    fun hzero => ?_⟩
  · have hmask : ∀ marked ∈ some bits, ∃ marks, marked.Holds marks := by
      rintro _ ⟨⟩
      cases hset
      exact ⟨_, (Bitmap.holds_clear 2).put (by decide) true⟩
    have hmarked : (some bits).any (·.bit 1) = true := by
      cases hset
      rfl
    have hgiven := (hparts hmask hc).2.1 (hcolumn.1 hblank) 1 hmarked
    exact absurd hgiven (by decide)
  · have hblank := ((hcells 1 hnull).2 hcopy).1 hzero
    rw [hfive] at hblank
    have hfive : Value.int 5 = DataType.int.blank := Except.ok.inj hblank
    exact absurd hfive (by decide)

/-- Not every null is copied as zero.  The column of one integer that is marked as
null was made with a five under the mark, which every read of the block for an
integer gives, and a copy moves to the list. -/
theorem five_under_null_is_copied :
    ∃ bits c after, (Bitmap.clear 1).set 0 true = .ok bits ∧
      FixedColumn.ofValues #[5] (some bits) = .ok c ∧ (Block.int c).Built ∧
        (Block.int c).isNull 0 = .ok true ∧ c.values = #[5] ∧ (Block.int c).getInt 0 = .ok 5 ∧
          (FlatList.zeros .int 1).copyBlock (.int c) 0 = .ok after ∧ after.getInt 0 = .ok 5 := by
  refine ⟨_, _, _, rfl, rfl, ?_, rfl, rfl, rfl, rfl, rfl⟩
  exact .int (@rfl _ (FixedColumn.ofValues #[5] (some ((Bitmap.clear 1).put 0 true))))

end Columnar
