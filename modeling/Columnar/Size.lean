import Columnar.Result

/-!
# Sizes

Counts, positions and byte sizes are natural numbers below `2 ^ 64`.  Sums and
products of sizes that may leave the range are formed here and fail when they
do.  A single array takes fewer than `2 ^ 63` bytes, and asking for a longer one
fails as well.  Whether there is memory for an array that may exist is not a
question that is asked here.

## Main definitions

* `Size.limit` — the bound.
* `Size.add`, `Size.mul`, `Size.sum` — checked arithmetic.
* `Size.total` — the sum of sizes that are known to stay in range.
* `Size.arrayLimit`, `Size.room` — the bound on the bytes of an array.
-/

namespace Columnar.Size

/-- The least number that is no size, which is `2 ^ 64`. -/
def limit : Nat := 0x10000000000000000

/-- The number itself if it is a size. -/
def checked (n : Nat) : Result Nat := if n < limit then .ok n else .error .overflow

def add (m n : Nat) : Result Nat := checked (m + n)

def mul (m n : Nat) : Result Nat := checked (m * n)

/-- The sum of a list of sizes.  A partial sum out of range fails. -/
def sum (ns : List Nat) : Result Nat := ns.foldlM add 0

/-- The sum of a list of sizes of things that exist, and so cannot exceed the
memory they are in. -/
def total (ns : List Nat) : Nat := ns.foldr (· + ·) 0

/-- The least number of bytes that is too many for one array, which is
`2 ^ 63`. -/
def arrayLimit : Nat := 0x8000000000000000

/-- Checks that there can be an array of so many elements of the given
width. -/
def room (count width : Nat) : Result Unit :=
  Result.require (count * width < arrayLimit) .capacityOverflow

theorem checked_eq_ok_iff {n k : Nat} : checked n = .ok k ↔ n < limit ∧ k = n := by
  unfold checked
  by_cases h : n < limit <;> simp [h, eq_comm]

theorem add_eq_ok_iff {m n k : Nat} : add m n = .ok k ↔ m + n < limit ∧ k = m + n :=
  checked_eq_ok_iff

theorem mul_eq_ok_iff {m n k : Nat} : mul m n = .ok k ↔ m * n < limit ∧ k = m * n :=
  checked_eq_ok_iff

theorem room_eq_ok_iff {count width : Nat} {u : Unit} :
    room count width = .ok u ↔ count * width < arrayLimit := by
  rw [room, Result.require_eq_ok_iff, decide_eq_true_eq]

theorem room_eq_error_iff {count width : Nat} {failure : Failure} :
    room count width = .error failure ↔
      arrayLimit ≤ count * width ∧ failure = .misused .capacityOverflow := by
  rw [room, Result.require_eq_error_iff, decide_eq_false_iff_not, Nat.not_lt]

/-- There are never more words in an array than a size can count. -/
theorem lt_limit_of_room {count : Nat} (h : count * 8 < arrayLimit) : count < limit := by
  unfold arrayLimit at h
  unfold limit
  omega

end Columnar.Size
