import Columnar.Proofs.Bitmap

/-!
# Bitmaps as lists of bits

A bitmap stands for the list of its bits.  The bits past the end of the list are
clear even where the last word has room for them, so that a bit pushed there only
has to be set, and the running count is the number of set bits in the list.

## Main definitions

* `Bitmap.Holds` — the bits of a bitmap.

## Main results

* `Bitmap.Holds.push`, `Bitmap.Holds.put` — **pushing a bit adds it at the end of the
  list, and writing one replaces it.**
* `Bitmap.Holds.get_eq`, `Bitmap.Holds.get_of_le` — reading a bit.
* `Bitmap.Holds.any_iff` — whether some bit is set.
-/

namespace Columnar.Bitmap

/-- The bitmap holds the bits of the list and no others. -/
structure Holds (m : Bitmap) (bits : List Bool) : Prop where
  length_eq : m.length = bits.length
  /-- A bit past the end is clear. -/
  bit_eq : ∀ i, m.bit i = bits[i]?.getD false
  ones_eq : m.ones = bits.count true

variable {m : Bitmap} {bits : List Bool}

/-! ### Growing -/

theorem bit_withCapacity (n i : Nat) : (withCapacity n).bit i = false := by
  unfold bit
  rw [withCapacity, Buffer.items_withCapacity]
  rfl

theorem holds_withCapacity (n : Nat) : (withCapacity n).Holds [] where
  length_eq := rfl
  bit_eq := bit_withCapacity n
  ones_eq := rfl

theorem holds_clear (n : Nat) : (clear n).Holds (List.replicate n false) where
  length_eq := List.length_replicate.symm
  bit_eq i := by
    rw [bit_clear, List.getElem?_replicate]
    split <;> rfl
  ones_eq := by
    rw [List.count_replicate]
    rfl

/-- A new clear bit shows nowhere, also if there is a new word for it. -/
theorem bit_pushClear (m : Bitmap) (i : Nat) : m.pushClear.bit i = m.bit i := by
  unfold bit pushClear
  dsimp only
  by_cases hfull : m.length % 64 = 0
  · rw [if_pos hfull, Buffer.items_push, Array.getElem?_push]
    by_cases hlast : i / 64 = m.words.items.size
    · -- The place is in the new word, and there was no word before.
      rw [if_pos hlast, Array.getElem?_eq_none (Nat.le_of_eq hlast.symm)]
      exact BitVec.getLsbD_zero
    · rw [if_neg hlast]
  · rw [if_neg hfull]

theorem length_pushClear (m : Bitmap) : m.pushClear.length = m.length + 1 := rfl

theorem Holds.pushClear (h : m.Holds bits) : m.pushClear.Holds (bits ++ [false]) where
  length_eq := by
    rw [length_pushClear, h.length_eq, List.length_append, List.length_singleton]
  bit_eq i := by
    rw [bit_pushClear, h.bit_eq, List.getElem?_append]
    by_cases hi : i < bits.length
    · rw [if_pos hi]
    · -- Past the old end there is the new bit or none, and both are clear.
      rw [if_neg hi, List.getElem?_eq_none (Nat.le_of_not_lt hi)]
      cases i - bits.length <;> rfl
  ones_eq := by
    rw [List.count_append, ← h.ones_eq]
    rfl

/-! ### Writing -/

/-- A bit that is set in the list is among those counted. -/
theorem Holds.ones_pos (h : m.Holds bits) {i : Nat} (hset : m.bit i = true) : 0 < m.ones := by
  rw [h.ones_eq, List.count_pos_iff]
  rw [h.bit_eq] at hset
  cases hvalue : bits[i]? with
  | none => rw [hvalue] at hset; cases hset
  | some value =>
    rw [hvalue] at hset
    rw [← show value = true from hset]
    exact List.mem_of_getElem? hvalue

/-- **Writing a bit replaces it in the list.** -/
theorem Holds.put (h : m.Holds bits) {i : Nat} (hi : i < bits.length) (value : Bool) :
    (m.put i value).Holds (bits.set i value) := by
  have hlt : i < m.length := h.length_eq ▸ hi
  refine ⟨?_, fun j => ?_, ?_⟩
  · rw [length_put, List.length_set, h.length_eq]
  · rw [bit_put _ _ _ _ hlt, List.getElem?_set, h.bit_eq]
    by_cases hj : i = j
    · rw [if_pos hj.symm, if_pos hj, if_pos hi]
      rfl
    · rw [if_neg (Ne.symm hj), if_neg hj]
  · have hbit : m.bit i = bits[i] := by
      rw [h.bit_eq, List.getElem?_eq_getElem hi]
      rfl
    rw [ones_put_eq hlt h.ones_pos, List.count_set hi, h.ones_eq, hbit]
    cases bits[i] <;> cases value <;> rfl

/-- **Pushing a bit adds it at the end of the list.** -/
theorem Holds.push (h : m.Holds bits) (value : Bool) : (m.push value).Holds (bits ++ [value]) := by
  cases value with
  | false => exact h.pushClear
  | true =>
    -- The new bit is clear at first, and then the last one to be set.
    have hset := h.pushClear.put (i := bits.length) (by simp) true
    rw [List.set_append_right _ _ (Nat.le_refl _), Nat.sub_self, ← h.length_eq] at hset
    exact hset

/-! ### Reading -/

theorem Holds.get_eq (h : m.Holds bits) {i : Nat} {value : Bool} (hvalue : bits[i]? = some value) :
    m.get i = .ok value := by
  have hi : i < m.length := h.length_eq ▸ (List.getElem?_eq_some_iff.1 hvalue).1
  rw [get_of_lt hi, h.bit_eq, hvalue]
  rfl

/-- Past the end there is no bit to read. -/
theorem get_of_le {i : Nat} (hi : m.length ≤ i) :
    m.get i = .error (.misused (.bitOutOfBounds i m.length)) := by
  rw [get, decide_eq_false (Nat.not_lt.2 hi)]
  rfl

/-- Some bit is set if the count says so. -/
theorem Holds.any_iff (h : m.Holds bits) : m.any = true ↔ true ∈ bits := by
  rw [any, decide_eq_true_iff, h.ones_eq, List.count_pos_iff]

end Columnar.Bitmap
