import Columnar.Bitmap.Lemmas

/-!
# Clear bitmaps and counts

## Main results

* `Bitmap.bit_clear` — a clear bitmap has no set bit.
* `Bitmap.ones_put_eq` — the count after writing a bit.
-/

namespace Columnar.Bitmap

@[simp] theorem bit_clear (n i : Nat) : (clear n).bit i = false := by
  unfold bit
  split
  · next word h =>
    rw [clear, Buffer.items_replicate, Array.getElem?_replicate] at h
    split at h
    · cases h
      exact BitVec.getLsbD_zero
    · cases h
  · rfl

theorem get_of_lt {m : Bitmap} {i : Nat} (hi : i < m.length) : m.get i = .ok (m.bit i) := by
  rw [get, decide_eq_true hi]
  rfl

/-- Writing a bit takes the old one out of the count and the new one in. -/
theorem ones_put_eq {m : Bitmap} {i : Nat} (hi : i < m.length)
    (hcounted : m.bit i = true → 0 < m.ones) (value : Bool) :
    (m.put i value).ones = m.ones - (m.bit i).toNat + value.toNat := by
  have hw : i / 64 < m.words.items.size := by have := m.words_size; omega
  have hword : m.words.items[i / 64]? = some m.words.items[i / 64] := Array.getElem?_eq_getElem hw
  have hbit : m.bit i = m.words.items[i / 64].getLsbD (i % 64) := by
    unfold bit
    rw [hword]
  unfold put
  rw [hword]
  simp only [← hbit]
  cases hold : m.bit i with
  | false => cases value <;> rfl
  | true =>
    have hpos : 0 < m.ones := hcounted hold
    cases value with
    | false => rfl
    | true =>
      -- The bit was set and counted before.
      show m.ones = m.ones - 1 + 1
      omega

/-- Setting a bit that is clear counts one more. -/
theorem ones_put {m : Bitmap} {i : Nat} (hi : i < m.length) (h : m.bit i = false) :
    (m.put i true).ones = m.ones + 1 := by
  have hcounted : m.bit i = true → 0 < m.ones := fun hset => by
    rw [h] at hset
    cases hset
  rw [ones_put_eq hi hcounted, h]
  rfl

end Columnar.Bitmap
