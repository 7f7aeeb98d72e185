import Columnar.Proofs.Locate

/-!
# Packed addresses

Below the sign bit an address is the number `chunkId * 2 ^ 32 + offset`, so both
fields can be read off by division.  The offset is kept by a mask; the chunk id
comes down by an arithmetic shift, and the mask after it drops the copies of the
sign.

## Main results

* `RowAddress.decodeChunkId_eq`, `RowAddress.decodeOffset_eq` — the fields of any
  integer.
* `RowAddress.exists_encode` — the number that a pair is packed into.
* `RowIndex.exists_address` — **the address of a position names its location.**
-/

namespace Columnar

namespace RowAddress

/-! ### The fields of an integer -/

/-- A mask of low bits keeps a remainder. -/
theorem toNat_toInt_and {mask : Int64} {n : Nat} (hmask : mask.toBitVec.toNat = n)
    (hmod : ∀ a : Nat, a &&& n = a % (n + 1)) (hn : n < 0x8000000000000000) (raw : Int64) :
    (raw &&& mask).toInt.toNat = raw.toBitVec.toNat % (n + 1) := by
  have hnat : (raw &&& mask).toBitVec.toNat = raw.toBitVec.toNat % (n + 1) := by
    rw [Int64.toBitVec_and, BitVec.toNat_and, hmask, hmod]
  have hlt : raw.toBitVec.toNat % (n + 1) < n + 1 := Nat.mod_lt _ (Nat.succ_pos n)
  -- The sign bit is masked out, so the integer is the number.
  rw [← Int64.toInt_toBitVec, BitVec.toInt_eq_toNat_of_lt (by omega), hnat, Int.toNat_natCast]

theorem decodeOffset_eq (raw : Int64) :
    decodeOffset raw = raw.toBitVec.toNat % 0x100000000 := by
  have hmask : offsetMask.toBitVec.toNat = 0xffffffff := rfl
  exact toNat_toInt_and hmask (fun a => Nat.and_two_pow_sub_one_eq_mod a 32) (by decide) raw

theorem decodeChunkId_eq (raw : Int64) :
    decodeChunkId raw = raw.toBitVec.toNat / 0x100000000 % 0x80000000 := by
  have hmask : chunkIdMask.toBitVec.toNat = 0x7fffffff := rfl
  have hlow : decodeChunkId raw = (raw >>> 32).toBitVec.toNat % 0x80000000 :=
    toNat_toInt_and hmask (fun a => Nat.and_two_pow_sub_one_eq_mod a 31) (by decide) (raw >>> 32)
  have hshift : (raw >>> 32).toBitVec.toInt = raw.toBitVec.toInt / 0x100000000 := by
    rw [Int64.toBitVec_shiftRight, BitVec.sshiftRight', BitVec.toInt_sshiftRight,
      Int.shiftRight_eq_div_pow]
    rfl
  have hlt := raw.toBitVec.isLt
  have hlt' := (raw >>> 32).toBitVec.isLt
  rw [BitVec.toInt_eq_toNat_cond, BitVec.toInt_eq_toNat_cond] at hshift
  rw [hlow]
  -- A negative integer is its number less `2 ^ 64`, which is `2 ^ 32` times a
  -- number that the mask drops.
  split at hshift <;> split at hshift <;> omega

/-! ### Packing -/

variable {chunkId offset : Nat}

theorem toNat_ofNat_of_lt {n : Nat} (hn : n < 0x10000000000000000) :
    (Int64.ofNat n).toBitVec.toNat = n := Nat.mod_eq_of_lt hn

theorem toNat_shiftLeft (hc : chunkId < Limits.maxChunks) :
    (Int64.ofNat chunkId <<< 32).toBitVec.toNat = chunkId * 0x100000000 := by
  unfold Limits.maxChunks at hc
  rw [Int64.toBitVec_shiftLeft, BitVec.shiftLeft_eq', BitVec.toNat_shiftLeft,
    toNat_ofNat_of_lt (by omega)]
  show chunkId <<< 32 % 0x10000000000000000 = _
  rw [Nat.shiftLeft_eq]
  omega

theorem toNat_and_offsetMask (ho : offset < Limits.maxChunkRows) :
    (Int64.ofNat offset &&& offsetMask).toBitVec.toNat = offset := by
  unfold Limits.maxChunkRows at ho
  rw [Int64.toBitVec_and, BitVec.toNat_and, toNat_ofNat_of_lt (by omega)]
  have hmod : offset &&& offsetMask.toBitVec.toNat = offset % 0x100000000 :=
    Nat.and_two_pow_sub_one_eq_mod offset 32
  rw [hmod, Nat.mod_eq_of_lt ho]

theorem eq_of_toNat_eq {raw other : Int64} (h : raw.toBitVec.toNat = other.toBitVec.toNat) :
    raw = other := by
  rw [← Int64.toBitVec_inj]
  exact BitVec.eq_of_toNat_eq h

/-- An integer whose sign bit is clear is not negative. -/
theorem nonneg_of_toNat_lt {raw : Int64} (h : raw.toBitVec.toNat < 0x8000000000000000) :
    0 ≤ raw := by
  rw [Int64.le_iff_toInt_le, ← Int64.toInt_toBitVec raw, BitVec.toInt_eq_toNat_of_lt (by omega)]
  exact Int.natCast_nonneg _

/-- **A pair whose fields fit is packed into a number that has them as digits.** -/
theorem exists_encode (hc : chunkId < Limits.maxChunks) (ho : offset < Limits.maxChunkRows) :
    ∃ raw, encode chunkId offset = .ok raw ∧
      raw.toBitVec.toNat = chunkId * 0x100000000 + offset := by
  refine ⟨(Int64.ofNat chunkId <<< 32) ||| (Int64.ofNat offset &&& offsetMask), ?_, ?_⟩
  · unfold encode
    rw [decide_eq_true hc, decide_eq_true ho]
    rfl
  · have hdigits : chunkId <<< 32 + offset = chunkId <<< 32 ||| offset :=
      Nat.shiftLeft_add_eq_or_of_lt ho chunkId
    rw [Nat.shiftLeft_eq] at hdigits
    rw [Int64.toBitVec_or, BitVec.toNat_or, toNat_shiftLeft hc, toNat_and_offsetMask ho]
    exact hdigits.symm

/-- The fields of a packed pair are the pair, and its sign bit is clear. -/
theorem decode_of_toNat_eq {raw : Int64} (hc : chunkId < Limits.maxChunks)
    (ho : offset < Limits.maxChunkRows)
    (hraw : raw.toBitVec.toNat = chunkId * 0x100000000 + offset) :
    decodeChunkId raw = chunkId ∧ decodeOffset raw = offset ∧ 0 ≤ raw := by
  unfold Limits.maxChunks at hc
  unfold Limits.maxChunkRows at ho
  refine ⟨?_, ?_, ?_⟩
  · rw [decodeChunkId_eq, hraw]
    omega
  · rw [decodeOffset_eq, hraw]
    omega
  · refine nonneg_of_toNat_lt ?_
    rw [hraw]
    omega

end RowAddress

/-- **The address of a position names its location.** -/
theorem RowIndex.exists_address {x : RowIndex} (hx : x.WellFormed) {p : Nat} {l : Location}
    (hl : x.locate p = .ok l) :
    ∃ a, x.address p = .ok a ∧ a.chunkId = l.chunkId ∧ a.offset = l.offset := by
  obtain ⟨hholds, -⟩ := (locate_eq_ok_iff hx).1 hl
  have hc : l.chunkId < Limits.maxChunks := Nat.lt_of_lt_of_le hholds.chunkId_lt hx.chunkCount_le
  have ho : l.offset < Limits.maxChunkRows := by
    obtain ⟨n, hn, hlt⟩ := holds_iff.1 hholds
    have hcount : n ≤ x.maxChunkRows := hx.rowCount_le n (List.mem_of_getElem? hn)
    exact Nat.lt_of_lt_of_le hlt (Nat.le_trans hcount hx.maxChunkRows_le)
  obtain ⟨raw, hraw, hnat⟩ := RowAddress.exists_encode hc ho
  obtain ⟨hchunkId, hoffset, hsign⟩ := RowAddress.decode_of_toNat_eq hc ho hnat
  refine ⟨⟨raw⟩, ?_, hchunkId, hoffset⟩
  unfold address
  rw [hl]
  simp only [bind, Except.bind, hraw, RowAddress.ofRaw, decide_eq_true hsign]
  rfl

end Columnar
