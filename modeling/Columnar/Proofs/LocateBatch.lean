import Columnar.Proofs.Locate
import Columnar.Proofs.Reachable

/-!
# Locating several positions

A batch stores one location after another and stops at the first position that lies
past the end.  So the two arrays hold the locations of the positions before that one,
and everything behind them is as it was, whether the batch came to its end or not.

## Main definitions

* `RowIndex.firstPastEnd` — the place of the first position that lies past the end.
* `RowIndex.StoresFrom` — some locations were stored at consecutive places, and nothing
  else.

## Main results

* `RowIndex.locateFrom_stores` — what the loop stores, wherever it begins.
* `RowIndex.status_locateFrom` — how the loop ends.
* `RowIndex.batches_store_until_past_end` — **what a batch stores, and when it fails.**
-/

namespace Columnar.RowIndex

variable {x : RowIndex} {positions rest : List Nat} {position : Nat}
  {before after : LocationBuffers} {index count : Nat}

/-! ### Definitions -/

/-- The place of the first position that lies past the end of the index; the number of
positions if there is none. -/
def firstPastEnd (x : RowIndex) (positions : List Nat) : Nat :=
  positions.findIdx (x.positionCount ≤ ·)

/-- The locations of the first positions, so many of them, were stored from an index on,
and nothing else was stored. -/
structure StoresFrom (x : RowIndex) (index count : Nat) (positions : List Nat)
    (before after : LocationBuffers) : Prop where
  size_chunkIds_eq : after.chunkIds.size = before.chunkIds.size
  size_offsets_eq : after.offsets.size = before.offsets.size
  stored : ∀ i < count, ∃ p l, positions[i]? = some p ∧ x.locate p = .ok l ∧
    after.chunkIds[index + i]? = some l.chunkId ∧ after.offsets[index + i]? = some l.offset
  kept : ∀ i, i < index ∨ index + count ≤ i →
    after.chunkIds[i]? = before.chunkIds[i]? ∧ after.offsets[i]? = before.offsets[i]?

/-! ### The first position past the end -/

theorem firstPastEnd_cons_of_lt (h : position < x.positionCount) :
    x.firstPastEnd (position :: rest) = x.firstPastEnd rest + 1 := by
  simp [firstPastEnd, List.findIdx_cons, Nat.not_le_of_lt h]

theorem firstPastEnd_cons_of_le (h : x.positionCount ≤ position) :
    x.firstPastEnd (position :: rest) = 0 := by
  simp [firstPastEnd, List.findIdx_cons, h]

theorem le_of_firstPastEnd (h : positions[x.firstPastEnd positions]? = some position) :
    x.positionCount ≤ position := by
  obtain ⟨hlt, rfl⟩ := List.getElem?_eq_some_iff.1 h
  exact of_decide_eq_true (List.findIdx_getElem (w := hlt))

/-! ### The loop -/

namespace StoresFrom

theorem refl (x : RowIndex) (index : Nat) (positions : List Nat) (out : LocationBuffers) :
    x.StoresFrom index 0 positions out out :=
  ⟨rfl, rfl, fun _ hi => absurd hi (Nat.not_lt_zero _), fun _ _ => ⟨rfl, rfl⟩⟩

/-- One location was stored, and then others behind it. -/
theorem cons {l : Location} (hl : x.locate position = .ok l)
    (hids : index < before.chunkIds.size) (hoffsets : index < before.offsets.size)
    (h : x.StoresFrom (index + 1) count rest (before.set index l) after) :
    x.StoresFrom index (count + 1) (position :: rest) before after where
  size_chunkIds_eq := by rw [h.size_chunkIds_eq, LocationBuffers.set, Array.size_setIfInBounds]
  size_offsets_eq := by rw [h.size_offsets_eq, LocationBuffers.set, Array.size_setIfInBounds]
  stored i hi := by
    cases i with
    | zero =>
      -- What is stored later leaves the first location alone.
      obtain ⟨hid, hoffset⟩ := h.kept index (Or.inl (Nat.lt_succ_self index))
      refine ⟨position, l, rfl, hl, ?_, ?_⟩
      · rw [Nat.add_zero, hid]
        exact Array.getElem?_setIfInBounds_self_of_lt hids
      · rw [Nat.add_zero, hoffset]
        exact Array.getElem?_setIfInBounds_self_of_lt hoffsets
    | succ i =>
      rw [List.getElem?_cons_succ, ← Nat.succ_add_eq_add_succ]
      exact h.stored i (Nat.lt_of_succ_lt_succ hi)
  kept i hi := by
    have hne : index ≠ i := by omega
    obtain ⟨hid, hoffset⟩ := h.kept i (by omega)
    rw [hid, hoffset]
    exact ⟨Array.getElem?_setIfInBounds_ne hne, Array.getElem?_setIfInBounds_ne hne⟩

end StoresFrom

theorem locateFrom_of_lt {l : Location} (hl : x.locate position = .ok l) (out : LocationBuffers) :
    x.locateFrom index out (position :: rest) =
      x.locateFrom (index + 1) (out.set index l) rest := by
  rw [locateFrom, hl]

theorem locateFrom_of_le (h : x.positionCount ≤ position) (out : LocationBuffers) :
    x.locateFrom index out (position :: rest) =
      .failed out (.misused (.positionOutOfRange position x.positionCount)) := by
  rw [locateFrom, locate_of_le h]

/-- **The loop stores the locations before the first position past the end**, as long as
there is room for all. -/
theorem locateFrom_stores (hx : x.WellFormed) : ∀ (positions : List Nat) (index : Nat)
    (out : LocationBuffers), index + positions.length ≤ out.chunkIds.size →
      index + positions.length ≤ out.offsets.size →
        x.StoresFrom index (x.firstPastEnd positions) positions out
          (x.locateFrom index out positions).state := by
  intro positions
  induction positions with
  | nil => intro index out _ _; exact .refl x index [] out
  | cons position rest ih =>
    intro index out hids hoffsets
    rw [List.length_cons] at hids hoffsets
    -- A position in range goes to the next slot, and the first one past the end stops the
    -- loop.
    rcases Nat.lt_or_ge position x.positionCount with hlt | hle
    · obtain ⟨l, hl⟩ := (exists_locate_iff hx).2 hlt
      rw [firstPastEnd_cons_of_lt hlt, locateFrom_of_lt hl]
      refine .cons hl (by omega) (by omega) (ih (index + 1) (out.set index l) ?_ ?_)
      · simp only [LocationBuffers.set, Array.size_setIfInBounds]
        omega
      · simp only [LocationBuffers.set, Array.size_setIfInBounds]
        omega
    · rw [firstPastEnd_cons_of_le hle, locateFrom_of_le hle]
      exact .refl x index _ out

/-- **The loop fails at the first position past the end**, in the way that locating it
fails, and gives no notice. -/
theorem status_locateFrom (hx : x.WellFormed) : ∀ (positions : List Nat) (index : Nat)
    (out : LocationBuffers),
      (x.locateFrom index out positions).notices = [] ∧
        (x.locateFrom index out positions).status =
          match positions[x.firstPastEnd positions]? with
          | none => .ok ()
          | some p => .error (.misused (.positionOutOfRange p x.positionCount)) := by
  intro positions
  induction positions with
  | nil => intro index out; exact ⟨rfl, rfl⟩
  | cons position rest ih =>
    intro index out
    rcases Nat.lt_or_ge position x.positionCount with hlt | hle
    · obtain ⟨l, hl⟩ := (exists_locate_iff hx).2 hlt
      rw [firstPastEnd_cons_of_lt hlt, locateFrom_of_lt hl, List.getElem?_cons_succ]
      exact ih _ _
    · rw [firstPastEnd_cons_of_le hle, locateFrom_of_le hle]
      exact ⟨rfl, rfl⟩

/-! ### Batches -/

/-- **What a batch stores, and when it fails.**  A batch that one of the arrays is too
short for is refused, and stores nothing.  Any other stores the locations of the
positions before the first that lies past the end, whatever their order and however
often they are asked for, and nothing else.  It fails just in case there is such a
position, for the reason for which that one cannot be located. -/
theorem batches_store_until_past_end (hx : Reachable x) (positions : List Nat)
    (out : LocationBuffers) :
    (out.chunkIds.size < positions.length ∨ out.offsets.size < positions.length →
      x.locateBatch positions out = .failed out (.misused (.outputTooShort positions.length))) ∧
    (positions.length ≤ out.chunkIds.size → positions.length ≤ out.offsets.size →
      x.StoresFrom 0 (x.firstPastEnd positions) positions out
        (x.locateBatch positions out).state ∧
      ((∃ failure, (x.locateBatch positions out).status = .error failure) ↔
        x.firstPastEnd positions < positions.length) ∧
      ∀ p, positions[x.firstPastEnd positions]? = some p → ∀ failure,
        (x.locateBatch positions out).status = .error failure ↔ x.locate p = .error failure) := by
  have hwell := hx.wellFormed
  constructor
  · intro hshort
    rw [locateBatch, if_neg (by omega)]
  · intro hids hoffsets
    have hbatch : x.locateBatch positions out = x.locateFrom 0 out positions := by
      rw [locateBatch, if_pos ⟨hids, hoffsets⟩]
    obtain ⟨-, hstatus⟩ := status_locateFrom hwell positions 0 out
    rw [hbatch]
    refine ⟨locateFrom_stores hwell positions 0 out (by omega) (by omega), ?_, ?_⟩
    · rw [hstatus]
      cases hfirst : positions[x.firstPastEnd positions]? with
      | none => exact iff_of_false nofun (Nat.not_lt.2 (List.getElem?_eq_none_iff.1 hfirst))
      | some p => exact iff_of_true ⟨_, rfl⟩ (List.getElem?_eq_some_iff.1 hfirst).1
    · intro p hp failure
      rw [hstatus, hp, locate_of_le (le_of_firstPastEnd hp)]
      simp only [Except.error.injEq]

/-- Three rows lie around an empty chunk.  Of four positions the third is past the end,
so two locations are stored; arrays without an entry are refused. -/
theorem batches_store_until_past_end_three :
    ∃ x o, ofChunks [⟨0, .ofLongs [7]⟩, ⟨1, .ofLongs []⟩, ⟨2, .ofLongs [8, 9]⟩] = x ∧
      x.locateBatch [2, 0, 3, 1] ⟨#[5, 5, 5, 5, 5], #[6, 6, 6, 6]⟩ = o ∧
      o.state.chunkIds[0]? = some 2 ∧ o.state.offsets[0]? = some 1 ∧
      o.state.chunkIds[1]? = some 0 ∧ o.state.offsets[1]? = some 0 ∧
      (∀ i, 2 ≤ i → o.state.chunkIds[i]? = #[5, 5, 5, 5, 5][i]?) ∧
      o.status = .error (.misused (.positionOutOfRange 3 3)) ∧
      x.locateBatch [0] ⟨#[5], #[]⟩ = .failed ⟨#[5], #[]⟩ (.misused (.outputTooShort 1)) := by
  refine ⟨_, _, rfl, rfl, ?_⟩
  have hx := reachable_ofChunks [⟨0, .ofLongs [7]⟩, ⟨1, .ofLongs []⟩, ⟨2, .ofLongs [8, 9]⟩]
  obtain ⟨-, hlong⟩ :=
    batches_store_until_past_end hx [2, 0, 3, 1] ⟨#[5, 5, 5, 5, 5], #[6, 6, 6, 6]⟩
  obtain ⟨hstored, -, hfailure⟩ := hlong (by decide) (by decide)
  have htwo := (locate_eq_ok_iff hx.wellFormed (p := 2) (l := ⟨2, 1⟩)).2 ⟨⟨_, rfl, by decide⟩, rfl⟩
  have hzero := (locate_eq_ok_iff hx.wellFormed (p := 0) (l := ⟨0, 0⟩)).2 ⟨⟨_, rfl, by decide⟩, rfl⟩
  obtain ⟨_, l, ⟨⟩, hl, hid, hoffset⟩ := hstored.stored 0 (by decide)
  obtain ⟨_, m, ⟨⟩, hm, hid', hoffset'⟩ := hstored.stored 1 (by decide)
  obtain rfl := Except.ok.inj (hl.symm.trans htwo)
  obtain rfl := Except.ok.inj (hm.symm.trans hzero)
  refine ⟨hid, hoffset, hid', hoffset', fun i hi => (hstored.kept i (Or.inr hi)).1, ?_, ?_⟩
  · exact (hfailure 3 rfl _).2 (locate_of_le (by decide))
  · exact (batches_store_until_past_end hx [0] ⟨#[5], #[]⟩).1 (Or.inr (by decide))

end Columnar.RowIndex
