import Columnar.Proofs.AddressOrder
import Mathlib.Data.Prod.Lex

/-!
# Addresses as pairs

The pairs that fit are packed into all integers that are not negative, one each,
and unpacking is the inverse.  An integer that is negative has fields as well,
which are those of the integer without its sign bit.  Integers that are not
negative are ordered as their pairs are, chunk id first.

## Main definitions

* `RowAddress.fields` — the two fields, as a pair in lexicographic order.

## Main results

* `RowAddress.encode_eq_ok_iff` — **packing and unpacking are inverse.**
* `RowAddress.encode_decode` — what comes of an integer that is unpacked and
  packed again.
* `RowAddress.fields_lt_iff`, `RowAddress.fields_inj` — addresses compare as their
  pairs.
* `RowAddress.addresses_ordered_as_pairs` — **addresses are the pairs that fit, in
  the same order.**
-/

namespace Columnar.RowAddress

variable {chunkId offset : Nat} {raw : Int64} {a b : RowAddress}

/-! ### Unpacking any integer -/

theorem decodeChunkId_lt (raw : Int64) : decodeChunkId raw < Limits.maxChunks := by
  rw [decodeChunkId_eq]
  exact Nat.mod_lt _ (by decide)

theorem decodeOffset_lt (raw : Int64) : decodeOffset raw < Limits.maxChunkRows := by
  rw [decodeOffset_eq]
  exact Nat.mod_lt _ (by decide)

/-- The largest integer has all bits but the sign bit, so it drops that. -/
theorem toNat_and_maxValue (raw : Int64) :
    (raw &&& Int64.maxValue).toBitVec.toNat = raw.toBitVec.toNat % 0x8000000000000000 := by
  have hmask : Int64.maxValue.toBitVec.toNat = 0x7fffffffffffffff := rfl
  rw [Int64.toBitVec_and, BitVec.toNat_and, hmask]
  exact Nat.and_two_pow_sub_one_eq_mod _ 63

/-- An integer that is not negative has no sign bit to drop. -/
theorem and_maxValue_eq_iff : raw &&& Int64.maxValue = raw ↔ 0 ≤ raw := by
  have hdropped := toNat_and_maxValue raw
  constructor
  · intro h
    rw [h] at hdropped
    refine nonneg_of_toNat_lt ?_
    rw [hdropped]
    exact Nat.mod_lt _ (by decide)
  · intro h
    refine eq_of_toNat_eq ?_
    rw [hdropped, Nat.mod_eq_of_lt (toNat_lt h)]

/-! ### Packing and unpacking -/

/-- **Packing and unpacking are inverse** on the pairs that fit and the integers
that are not negative. -/
theorem encode_eq_ok_iff :
    encode chunkId offset = .ok raw ↔
      (chunkId < Limits.maxChunks ∧ offset < Limits.maxChunkRows) ∧
        0 ≤ raw ∧ decodeChunkId raw = chunkId ∧ decodeOffset raw = offset := by
  constructor
  · intro h
    have hfits : chunkId < Limits.maxChunks ∧ offset < Limits.maxChunkRows := by
      unfold encode at h
      simp only [Result.bind_eq_ok_iff, Result.require_eq_ok_iff, decide_eq_true_eq] at h
      obtain ⟨_, hc, _, ho, -⟩ := h
      exact ⟨hc, ho⟩
    obtain ⟨packed, hpacked, hnat⟩ := exists_encode hfits.1 hfits.2
    rw [hpacked] at h
    cases h
    obtain ⟨hc, ho, hsign⟩ := decode_of_toNat_eq hfits.1 hfits.2 hnat
    exact ⟨hfits, hsign, hc, ho⟩
  · rintro ⟨⟨hc, ho⟩, hsign, rfl, rfl⟩
    obtain ⟨packed, hpacked, hnat⟩ := exists_encode hc ho
    rw [hpacked, eq_of_toNat_eq (hnat.trans (toNat_eq hsign).symm)]

/-- **Unpacking an integer and packing the fields again drops the sign bit.** -/
theorem encode_decode (raw : Int64) :
    encode (decodeChunkId raw) (decodeOffset raw) = .ok (raw &&& Int64.maxValue) := by
  have hnat := toNat_and_maxValue raw
  -- The bits below the sign are the two fields.
  have hsame : decodeChunkId (raw &&& Int64.maxValue) = decodeChunkId raw ∧
      decodeOffset (raw &&& Int64.maxValue) = decodeOffset raw := by
    rw [decodeChunkId_eq, decodeChunkId_eq, decodeOffset_eq, decodeOffset_eq, hnat]
    omega
  have hsign : 0 ≤ raw &&& Int64.maxValue := by
    refine and_maxValue_eq_iff.1 (eq_of_toNat_eq ?_)
    rw [toNat_and_maxValue, hnat, Nat.mod_mod]
  exact encode_eq_ok_iff.2 ⟨⟨decodeChunkId_lt raw, decodeOffset_lt raw⟩, hsign, hsame⟩

/-! ### Order -/

/-- The two fields of an address, the chunk id first. -/
def fields (a : RowAddress) : Nat ×ₗ Nat := toLex (a.chunkId, a.offset)

/-- The pair that was packed is the pair of fields. -/
theorem fields_of_encode (h : encode chunkId offset = .ok raw) :
    fields ⟨raw⟩ = toLex (chunkId, offset) := by
  obtain ⟨-, -, hc, ho⟩ := encode_eq_ok_iff.1 h
  rw [fields, RowAddress.chunkId, RowAddress.offset, hc, ho]

theorem fields_inj (ha : 0 ≤ a.raw) (hb : 0 ≤ b.raw) : a.fields = b.fields ↔ a = b := by
  constructor
  · intro h
    have hpair := Prod.mk.inj (toLex_inj.1 h)
    exact eq_of_fields ha hb hpair.1 hpair.2
  · rintro rfl
    rfl

/-- **Addresses are ordered as their pairs**: the chunk id decides, and the offset
if that is the same. -/
theorem fields_lt_iff (ha : 0 ≤ a.raw) (hb : 0 ≤ b.raw) : a.fields < b.fields ↔ a < b := by
  have hoffset : ∀ c : RowAddress, c.offset < 0x100000000 := fun c => decodeOffset_lt c.raw
  have hleft := hoffset a
  have hright := hoffset b
  have hnat : a.raw.toBitVec.toNat = a.chunkId * 0x100000000 + a.offset := toNat_eq ha
  have hnat' : b.raw.toBitVec.toNat = b.chunkId * 0x100000000 + b.offset := toNat_eq hb
  rw [lt_iff ha hb, hnat, hnat', fields, fields, Prod.Lex.toLex_lt_toLex]
  omega

theorem fields_le_iff (ha : 0 ≤ a.raw) (hb : 0 ≤ b.raw) : a.fields ≤ b.fields ↔ a ≤ b := by
  rw [← not_lt, fields_lt_iff hb ha]
  exact Int64.not_lt

/-! ### Addresses -/

/-- An address is made of a pair by packing it, if that succeeds. -/
theorem ofPair?_eq_ok_iff : ofPair? chunkId offset = .ok a ↔ encode chunkId offset = .ok a.raw := by
  unfold ofPair?
  split
  · next hbad =>
    have hnot : ¬ encode chunkId offset = .ok a.raw := by
      intro h
      obtain ⟨⟨hc, ho⟩, -⟩ := encode_eq_ok_iff.1 h
      omega
    simp [Result.refuse, hnot]
  · rw [Result.map_eq_ok_iff]
    constructor
    · rintro ⟨raw, hraw, rfl⟩
      exact hraw
    · intro h
      exact ⟨a.raw, h, rfl⟩

/-- **Addresses are the pairs that fit, in the same order.**  A pair that fits is
packed into an integer that is not negative, and unpacked from it; two such
integers, and the addresses made of them, compare as the pairs do, the chunk id
first.  Any integer has fields that fit, and packing them gives it back without
its sign bit.  The addresses made of pairs, which are those that fit, are the
ones made of integers. -/
theorem addresses_ordered_as_pairs :
    (∀ chunkId offset, chunkId < Limits.maxChunks → offset < Limits.maxChunkRows →
      ∃ raw, encode chunkId offset = .ok raw ∧ 0 ≤ raw ∧ raw ≤ Int64.maxValue ∧
        decodeChunkId raw = chunkId ∧ decodeOffset raw = offset) ∧
    (∀ chunkId offset chunkId' offset' raw raw', encode chunkId offset = .ok raw →
      encode chunkId' offset' = .ok raw' →
        ((raw < raw' ↔ toLex (chunkId, offset) < toLex (chunkId', offset')) ∧
          (raw ≤ raw' ↔ toLex (chunkId, offset) ≤ toLex (chunkId', offset')) ∧
          (raw = raw' ↔ (chunkId, offset) = (chunkId', offset'))) ∧
        ((mk raw < mk raw' ↔ toLex (chunkId, offset) < toLex (chunkId', offset')) ∧
          (mk raw ≤ mk raw' ↔ toLex (chunkId, offset) ≤ toLex (chunkId', offset')) ∧
          (mk raw == mk raw') = decide ((chunkId, offset) = (chunkId', offset')))) ∧
    (∀ raw, decodeChunkId raw < Limits.maxChunks ∧ decodeOffset raw < Limits.maxChunkRows ∧
      encode (decodeChunkId raw) (decodeOffset raw) = .ok (raw &&& Int64.maxValue) ∧
      (encode (decodeChunkId raw) (decodeOffset raw) = .ok raw ↔ 0 ≤ raw)) ∧
    (∀ chunkId offset, ((∃ a, ofPair? chunkId offset = .ok a) ↔
        chunkId < Limits.maxChunks ∧ offset < Limits.maxChunkRows) ∧
      ∀ a, ofPair? chunkId offset = .ok a → encode chunkId offset = .ok a.raw) ∧
    ∀ a, (∃ chunkId offset, ofPair? chunkId offset = .ok a) ↔ ∃ raw, ofRaw raw = .ok a := by
  refine ⟨?_, ?_, fun raw => ⟨decodeChunkId_lt raw, decodeOffset_lt raw, encode_decode raw, ?_⟩,
    ?_, ?_⟩
  · intro chunkId offset hc ho
    obtain ⟨raw, hraw, -⟩ := exists_encode hc ho
    obtain ⟨-, hsign, hdecode⟩ := encode_eq_ok_iff.1 hraw
    exact ⟨raw, hraw, hsign, Int64.le_maxValue raw, hdecode⟩
  · -- The halves of a packed number are the pair again, so its order is theirs.
    intro chunkId offset chunkId' offset' raw raw' h h'
    have hsign : 0 ≤ (mk raw).raw := (encode_eq_ok_iff.1 h).2.1
    have hsign' : 0 ≤ (mk raw').raw := (encode_eq_ok_iff.1 h').2.1
    have hlt := (fields_lt_iff hsign hsign').symm
    have hle := (fields_le_iff hsign hsign').symm
    have heq := (fields_inj hsign hsign').symm
    rw [fields_of_encode h, fields_of_encode h'] at hlt hle heq
    rw [toLex_inj] at heq
    refine ⟨⟨hlt, hle, ?_⟩, hlt, hle, decide_eq_decide.2 heq⟩
    rw [← heq, mk.injEq]
  · rw [encode_decode, Except.ok.injEq, and_maxValue_eq_iff]
  · intro chunkId offset
    refine ⟨⟨?_, ?_⟩, fun a => ofPair?_eq_ok_iff.1⟩
    · rintro ⟨a, ha⟩
      exact (encode_eq_ok_iff.1 (ofPair?_eq_ok_iff.1 ha)).1
    · rintro ⟨hc, ho⟩
      obtain ⟨raw, hraw, -⟩ := exists_encode hc ho
      exact ⟨⟨raw⟩, ofPair?_eq_ok_iff.2 hraw⟩
  · intro a
    constructor
    · rintro ⟨chunkId, offset, ha⟩
      have hsign := (encode_eq_ok_iff.1 (ofPair?_eq_ok_iff.1 ha)).2.1
      exact ⟨a.raw, ofRaw_eq_ok_iff.2 ⟨hsign, rfl⟩⟩
    · -- Packing the halves clears the sign, which is clear already.
      rintro ⟨raw, hraw⟩
      obtain ⟨hsign, rfl⟩ := ofRaw_eq_ok_iff.1 hraw
      refine ⟨decodeChunkId raw, decodeOffset raw, ofPair?_eq_ok_iff.2 ?_⟩
      rw [encode_decode, and_maxValue_eq_iff.2 hsign]

/-- The last row of a chunk comes right before the first row of the next one, and
the last of all addresses is the largest integer. -/
theorem addresses_ordered_as_pairs_ends :
    ∃ last next most, encode 0 (Limits.maxChunkRows - 1) = .ok last ∧ encode 1 0 = .ok next ∧
      encode (Limits.maxChunks - 1) (Limits.maxChunkRows - 1) = .ok most ∧
      last < next ∧ next < most ∧ most = Int64.maxValue ∧
      encode (decodeChunkId nullAddress) (decodeOffset nullAddress) = .ok most := by
  obtain ⟨hpack, hcompare, hunpack, -⟩ := addresses_ordered_as_pairs
  obtain ⟨last, hlast, -⟩ := hpack 0 (Limits.maxChunkRows - 1) (by decide) (by decide)
  obtain ⟨next, hnext, -⟩ := hpack 1 0 (by decide) (by decide)
  obtain ⟨most, hmost, -⟩ :=
    hpack (Limits.maxChunks - 1) (Limits.maxChunkRows - 1) (by decide) (by decide)
  have hnull := (hunpack nullAddress).2.2.1
  have hsame : encode (decodeChunkId nullAddress) (decodeOffset nullAddress) = .ok most := hmost
  refine ⟨last, next, most, hlast, hnext, hmost, ?_, ?_, ?_, hsame⟩
  · exact (hcompare _ _ _ _ _ _ hlast hnext).1.1.2 (by decide)
  · exact (hcompare _ _ _ _ _ _ hnext hmost).1.1.2 (by decide)
  · rw [hsame] at hnull
    exact Except.ok.inj hnull

end Columnar.RowAddress
