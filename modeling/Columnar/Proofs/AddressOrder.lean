import Columnar.Proofs.Address
import Columnar.Proofs.Reachable
import Columnar.Proofs.Routing
import Mathlib.Logic.ExistsUnique

/-!
# Addresses and positions

An integer that is not negative is settled by its two fields, and the order of
such integers is that of their fields, chunk id first.  The rows of an index are
counted in the same order, so that the address of a later row is larger, however
many empty chunks lie in between.  An integer leads to a row exactly if its
fields are the location of one, and then it is the address of that row.

## Main results

* `RowAddress.toNat_eq`, `RowAddress.lt_iff` — integers and their fields.
* `RowIndex.address_eq_ok_iff` — what the address of a position is.
* `RowIndex.resolveRaw_eq_ok_iff` — which integers lead to a row.
* `RowIndex.addresses_name_rows` — **addresses are in order, and name each row
  once.**
-/

namespace Columnar

namespace RowAddress

/-! ### Integers that are not negative -/

theorem toNat_lt {raw : Int64} (h : 0 ≤ raw) : raw.toBitVec.toNat < 0x8000000000000000 := by
  rw [Int64.le_iff_toInt_le, ← Int64.toInt_toBitVec raw, BitVec.toInt_eq_toNat_cond] at h
  have hzero : Int64.toInt 0 = 0 := rfl
  have hlt := raw.toBitVec.isLt
  rw [hzero] at h
  split at h <;> omega

/-- **An integer that is not negative has its fields as digits.** -/
theorem toNat_eq {raw : Int64} (h : 0 ≤ raw) :
    raw.toBitVec.toNat = decodeChunkId raw * 0x100000000 + decodeOffset raw := by
  have hlt := toNat_lt h
  rw [decodeChunkId_eq, decodeOffset_eq]
  omega

/-- Addresses are ordered like their numbers. -/
theorem lt_iff {a b : RowAddress} (ha : 0 ≤ a.raw) (hb : 0 ≤ b.raw) :
    a < b ↔ a.raw.toBitVec.toNat < b.raw.toBitVec.toNat := by
  have hlt := toNat_lt ha
  have hlt' := toNat_lt hb
  show a.raw < b.raw ↔ _
  rw [Int64.lt_iff_toInt_lt, ← Int64.toInt_toBitVec a.raw, ← Int64.toInt_toBitVec b.raw,
    BitVec.toInt_eq_toNat_of_lt (by omega), BitVec.toInt_eq_toNat_of_lt (by omega)]
  exact Int.ofNat_lt

/-- Two addresses with the same fields are the same. -/
theorem eq_of_fields {a b : RowAddress} (ha : 0 ≤ a.raw) (hb : 0 ≤ b.raw)
    (hchunkId : a.chunkId = b.chunkId) (hoffset : a.offset = b.offset) : a = b := by
  have hnat : a.raw.toBitVec.toNat = b.raw.toBitVec.toNat := by
    rw [toNat_eq ha, toNat_eq hb]
    unfold chunkId at hchunkId
    unfold offset at hoffset
    rw [hchunkId, hoffset]
  obtain ⟨raw⟩ := a
  obtain ⟨raw'⟩ := b
  rw [mk.injEq]
  exact eq_of_toNat_eq hnat

theorem ofRaw_eq_ok_iff {raw : Int64} {a : RowAddress} :
    ofRaw raw = .ok a ↔ 0 ≤ raw ∧ a = ⟨raw⟩ := by
  unfold ofRaw
  simp only [Result.bind_eq_ok_iff, Result.require_eq_ok_iff, decide_eq_true_eq]
  constructor
  · rintro ⟨_, h, ha⟩
    exact ⟨h, (Except.ok.inj ha).symm⟩
  · rintro ⟨h, rfl⟩
    exact ⟨(), h, rfl⟩

/-- The mark of an empty slot is negative. -/
theorem ne_nullAddress {raw : Int64} (h : 0 ≤ raw) : raw ≠ nullAddress := by
  rintro rfl
  revert h
  decide

end RowAddress

namespace RowIndex

variable {x : RowIndex} {p q : Nat} {a b : RowAddress} {l m : Location}

/-! ### The order of rows -/

/-- **Rows are counted in the order of their chunks**, and in each chunk in the
order of their offsets. -/
theorem chunkId_lt_or_of_positionOf_lt (hm : x.Holds m) (h : x.positionOf l < x.positionOf m) :
    l.chunkId < m.chunkId ∨ l.chunkId = m.chunkId ∧ l.offset < m.offset := by
  rcases Nat.lt_trichotomy l.chunkId m.chunkId with hlt | heq | hgt
  · exact Or.inl hlt
  · refine Or.inr ⟨heq, ?_⟩
    rw [positionOf, positionOf, heq] at h
    omega
  · -- The chunk of the second location ends before that of the first one begins.
    have hend := hm.positionOf_lt
    have hbegin : x.rowsBefore (m.chunkId + 1) ≤ x.rowsBefore l.chunkId :=
      Size.total_take_le_total_take _ hgt
    have hle : x.rowsBefore l.chunkId ≤ x.positionOf l := Nat.le_add_right _ _
    omega

/-! ### Addresses of positions -/

/-- **The address of a position is the one with the fields of its location.** -/
theorem address_eq_ok_iff (hx : x.WellFormed) :
    x.address p = .ok a ↔
      ∃ l, x.locate p = .ok l ∧ 0 ≤ a.raw ∧ a.chunkId = l.chunkId ∧ a.offset = l.offset := by
  -- The last step of an address is the check of its sign.
  have hsign : ∀ {b}, x.address p = .ok b → 0 ≤ b.raw := by
    intro b hb
    unfold address at hb
    simp only [Result.bind_eq_ok_iff] at hb
    obtain ⟨_, -, raw, -, hraw⟩ := hb
    obtain ⟨h, rfl⟩ := RowAddress.ofRaw_eq_ok_iff.1 hraw
    exact h
  constructor
  · intro h
    obtain ⟨l, hl, -⟩ := Result.bind_eq_ok_iff.1 h
    obtain ⟨b, hb, hchunkId, hoffset⟩ := exists_address hx hl
    rw [h] at hb
    cases hb
    exact ⟨l, hl, hsign h, hchunkId, hoffset⟩
  · rintro ⟨l, hl, ha, hchunkId, hoffset⟩
    obtain ⟨b, hb, hchunkId', hoffset'⟩ := exists_address hx hl
    rw [hb, RowAddress.eq_of_fields ha (hsign hb) (hchunkId.trans hchunkId'.symm)
      (hoffset.trans hoffset'.symm)]

theorem exists_address_iff (hx : x.WellFormed) :
    (∃ a, x.address p = .ok a) ↔ p < x.positionCount := by
  rw [← exists_locate_iff hx]
  constructor
  · rintro ⟨a, ha⟩
    obtain ⟨l, hl, -⟩ := (address_eq_ok_iff hx).1 ha
    exact ⟨l, hl⟩
  · rintro ⟨l, hl⟩
    obtain ⟨a, ha, -⟩ := exists_address hx hl
    exact ⟨a, ha⟩

/-- **A later row has a larger address.** -/
theorem address_lt (hx : x.WellFormed) (ha : x.address p = .ok a) (hb : x.address q = .ok b)
    (h : p < q) : a < b := by
  obtain ⟨l, hl, hsign, hchunkId, hoffset⟩ := (address_eq_ok_iff hx).1 ha
  obtain ⟨m, hm, hsign', hchunkId', hoffset'⟩ := (address_eq_ok_iff hx).1 hb
  obtain ⟨-, rfl⟩ := (locate_eq_ok_iff hx).1 hl
  obtain ⟨hholds, rfl⟩ := (locate_eq_ok_iff hx).1 hm
  have hfield : a.offset < 0x100000000 := by
    rw [RowAddress.offset, RowAddress.decodeOffset_eq]
    exact Nat.mod_lt _ (by decide)
  have horder := chunkId_lt_or_of_positionOf_lt hholds h
  rw [← hchunkId, ← hchunkId', ← hoffset, ← hoffset'] at horder
  rw [RowAddress.lt_iff hsign hsign', RowAddress.toNat_eq hsign, RowAddress.toNat_eq hsign']
  show a.chunkId * 0x100000000 + a.offset < b.chunkId * 0x100000000 + b.offset
  rcases horder with hlt | ⟨heq, hlt⟩
  · omega
  · rw [heq]
    omega

/-- Positions have distinct addresses. -/
theorem address_injective (hx : x.WellFormed) (hp : x.address p = .ok a)
    (hq : x.address q = .ok a) : p = q := by
  have hirrefl : ¬ a < a := Int64.lt_irrefl
  rcases Nat.lt_trichotomy p q with h | h | h
  · exact absurd (address_lt hx hp hq h) hirrefl
  · exact h
  · exact absurd (address_lt hx hq hp h) hirrefl

/-- The order of addresses is that of positions. -/
theorem address_le_iff (hx : x.WellFormed) (ha : x.address p = .ok a) (hb : x.address q = .ok b) :
    a ≤ b ↔ p ≤ q := by
  constructor
  · intro h
    refine Nat.le_of_not_lt fun hlt => ?_
    exact Int64.not_le.2 (address_lt hx hb ha hlt) h
  · intro h
    rcases Nat.lt_or_eq_of_le h with hlt | rfl
    · exact Int64.le_of_lt (address_lt hx ha hb hlt)
    · rw [ha] at hb
      cases hb
      exact Int64.le_refl _

/-- **Sorting addresses sorts positions.** -/
theorem sort_addresses (hx : x.WellFormed) {positions : List Nat}
    (h : ∀ p ∈ positions, p < x.positionCount) :
    ∃ addresses, positions.mapM x.address = .ok addresses ∧
      positions.mergeSort.mapM x.address = .ok (RowAddress.sort addresses) := by
  have hall : ∀ p ∈ positions, x.address p = .ok ((x.address p).toOption.getD default) := by
    intro p hp
    obtain ⟨a, ha⟩ := (exists_address_iff hx).2 (h p hp)
    rw [ha]
    rfl
  refine ⟨_, Result.mapM_eq_ok_map hall, ?_⟩
  have hsorted : ∀ p ∈ positions.mergeSort,
      x.address p = .ok ((x.address p).toOption.getD default) :=
    fun p hp => hall p (List.mem_mergeSort.1 hp)
  rw [Result.mapM_eq_ok_map hsorted, RowAddress.sort]
  refine congrArg Except.ok (List.map_mergeSort ?_)
  intro p hp q hq
  exact decide_eq_decide.2 (address_le_iff hx (hall p hp) (hall q hq)).symm

/-! ### Integers that lead to rows -/

/-- The row that an integer leads to, taken as an address. -/
def resolveRaw (x : RowIndex) (raw : Int64) : Result (SharedChunk × Row) := do
  x.resolve (← RowAddress.ofRaw raw)

theorem resolve_eq_ok_iff {shared : SharedChunk} {row : Row} :
    x.resolve a = .ok (shared, row) ↔ x.chunk a.chunkId = .ok shared ∧
      a.offset < shared.chunk.positionCount ∧ row = ⟨shared.chunk, a.offset⟩ := by
  unfold resolve Chunk.row
  simp only [Result.bind_eq_ok_iff, Result.require_eq_ok_iff, decide_eq_true_eq]
  constructor
  · rintro ⟨owner, hshared, other, ⟨_, hlt, hrow⟩, hfound⟩
    cases hrow
    cases hfound
    exact ⟨hshared, hlt, rfl⟩
  · rintro ⟨hshared, hlt, rfl⟩
    exact ⟨shared, hshared, _, ⟨(), hlt, rfl⟩, rfl⟩

/-- **An integer leads to a row exactly if it is the address of that row.** -/
theorem resolveRaw_eq_ok_iff (hx : x.WellFormed) {raw : Int64} {shared : SharedChunk} {row : Row} :
    x.resolveRaw raw = .ok (shared, row) ↔ ∃ p l, x.address p = .ok ⟨raw⟩ ∧
      x.locate p = .ok l ∧ x.chunk l.chunkId = .ok shared ∧ row = ⟨shared.chunk, l.offset⟩ := by
  unfold resolveRaw
  simp only [Result.bind_eq_ok_iff, RowAddress.ofRaw_eq_ok_iff]
  constructor
  · rintro ⟨_, ⟨hsign, rfl⟩, hfound⟩
    obtain ⟨hshared, hlt, hrow⟩ := resolve_eq_ok_iff.1 hfound
    -- The fields of the integer are a location, so they have a position.
    have hholds : x.Holds ⟨RowAddress.chunkId ⟨raw⟩, RowAddress.offset ⟨raw⟩⟩ :=
      ⟨shared, Result.element_eq_ok_iff.1 hshared, hlt⟩
    have hl := locate_positionOf hx hholds
    exact ⟨_, _, (address_eq_ok_iff hx).2 ⟨_, hl, hsign, rfl, rfl⟩, hl, hshared, hrow⟩
  · rintro ⟨p, l, ha, hl, hshared, hrow⟩
    obtain ⟨m, hm, hsign, hchunkId, hoffset⟩ := (address_eq_ok_iff hx).1 ha
    rw [hl] at hm
    cases hm
    obtain ⟨owner, howner, hlt⟩ := exists_chunk_of_locate hx hl
    rw [hshared] at howner
    cases howner
    refine ⟨_, ⟨hsign, rfl⟩, resolve_eq_ok_iff.2 ⟨?_, ?_, ?_⟩⟩
    · rw [hchunkId]
      exact hshared
    · rw [hoffset]
      exact hlt
    · rw [hoffset]
      exact hrow

theorem exists_resolveRaw_iff (hx : x.WellFormed) {raw : Int64} :
    (∃ found, x.resolveRaw raw = .ok found) ↔
      ∃ p < x.positionCount, x.address p = .ok ⟨raw⟩ := by
  simp only [Prod.exists, resolveRaw_eq_ok_iff hx]
  constructor
  · rintro ⟨shared, row, p, l, ha, -⟩
    exact ⟨p, (exists_address_iff hx).1 ⟨_, ha⟩, ha⟩
  · rintro ⟨p, -, ha⟩
    obtain ⟨l, hl, -⟩ := (address_eq_ok_iff hx).1 ha
    obtain ⟨shared, hshared, -⟩ := exists_chunk_of_locate hx hl
    exact ⟨shared, _, p, l, ha, hl, hshared, rfl⟩

/-- **Addresses are in order, and name each row once.**  Every position has an
address, which is not negative and so not the mark of an empty slot; a later
position has a larger one, so that sorting addresses sorts positions.  Of all
64-bit integers, those that lead to a row are the addresses of positions, each of
a single one, and the row is the one at that position. -/
theorem addresses_name_rows (hx : Reachable x) :
    (∀ p < x.positionCount, ∃ a, x.address p = .ok a ∧ 0 ≤ a.raw ∧
      a.raw ≠ RowAddress.nullAddress) ∧
    (∀ p q a b, x.address p = .ok a → x.address q = .ok b → p < q → a < b) ∧
    (∀ positions : List Nat, (∀ p ∈ positions, p < x.positionCount) → ∃ addresses,
      positions.mapM x.address = .ok addresses ∧
        positions.mergeSort.mapM x.address = .ok (RowAddress.sort addresses)) ∧
    ∀ raw : Int64,
      ((∃ found, x.resolveRaw raw = .ok found) ↔
        ∃ p < x.positionCount, ∃ a, x.address p = .ok a ∧ a.raw = raw) ∧
      ∀ shared row, x.resolveRaw raw = .ok (shared, row) →
        ∃! p, x.address p = .ok ⟨raw⟩ ∧ x.row p = .ok row ∧
          ∃ chunkId, x.locate p = .ok ⟨chunkId, row.position⟩ ∧ x.chunk chunkId = .ok shared ∧
            row.chunk = shared.chunk := by
  have hx := hx.wellFormed
  refine ⟨?_, fun _ _ _ _ => address_lt hx, fun _ => sort_addresses hx, fun raw => ⟨?_, ?_⟩⟩
  · intro p hp
    obtain ⟨a, ha⟩ := (exists_address_iff hx).2 hp
    obtain ⟨-, -, hsign, -⟩ := (address_eq_ok_iff hx).1 ha
    exact ⟨a, ha, hsign, RowAddress.ne_nullAddress hsign⟩
  · rw [exists_resolveRaw_iff hx]
    constructor
    · rintro ⟨p, hp, ha⟩
      exact ⟨p, hp, _, ha, rfl⟩
    · rintro ⟨p, hp, a, ha, rfl⟩
      exact ⟨p, hp, ha⟩
  · -- The row is that of the one position with this address, whose chunk reaches that far.
    intro shared row hfound
    obtain ⟨p, l, ha, hl, hshared, rfl⟩ := (resolveRaw_eq_ok_iff hx).1 hfound
    refine ⟨p, ⟨ha, ?_, l.chunkId, hl, hshared, rfl⟩, fun q hq => address_injective hx hq.1 ha⟩
    obtain ⟨owner, howner, hlt⟩ := exists_chunk_of_locate hx hl
    rw [hshared] at howner
    cases howner
    rw [row_eq hl hshared, Chunk.row, decide_eq_true hlt]
    rfl

/-- The row behind an empty chunk has an address that leads back to it, and the
mark of an empty slot leads nowhere. -/
theorem addresses_name_rows_three :
    (ofChunks [⟨0, .ofLongs [7, 8]⟩, ⟨1, .ofLongs []⟩, ⟨2, .ofLongs [9]⟩]).address 2 =
      .ok ⟨0x200000000⟩ ∧
    (∃ found, (ofChunks [⟨0, .ofLongs [7, 8]⟩, ⟨1, .ofLongs []⟩, ⟨2, .ofLongs [9]⟩]).resolveRaw
      0x200000000 = .ok found) ∧
    ¬ ∃ found, (ofChunks [⟨0, .ofLongs [7, 8]⟩, ⟨1, .ofLongs []⟩, ⟨2, .ofLongs [9]⟩]).resolveRaw
      RowAddress.nullAddress = .ok found := by
  have hx := reachable_ofChunks [⟨0, .ofLongs [7, 8]⟩, ⟨1, .ofLongs []⟩, ⟨2, .ofLongs [9]⟩]
  obtain ⟨hsign, -, -, hraw⟩ := addresses_name_rows hx
  have hl := (locate_eq_ok_iff hx.wellFormed (p := 2) (l := ⟨2, 0⟩)).2
    ⟨⟨_, rfl, Nat.one_pos⟩, rfl⟩
  have ha := (address_eq_ok_iff hx.wellFormed (a := ⟨0x200000000⟩)).2
    ⟨_, hl, by decide, by decide, by decide⟩
  refine ⟨ha, (hraw _).1.2 ⟨2, by decide, _, ha, rfl⟩, ?_⟩
  intro h
  obtain ⟨p, hp, a, ha, heq⟩ := (hraw _).1.1 h
  obtain ⟨b, hb, -, hne⟩ := hsign p hp
  rw [ha] at hb
  cases hb
  exact hne heq

end RowIndex

end Columnar
