/-!
# Binary search

The elements of an array that satisfy a condition all come before those that do
not; how many are there?  The window that holds the answer is halved at every
step.

## Main definitions

* `partitionPoint` — the number of leading elements that satisfy the condition.

## Main results

* `lt_partitionPoint_iff` — the elements before that point are those that
  satisfy the condition.
-/

namespace Columnar

variable {α : Type}

/-- Searches between `low` and `high`: the elements before `low` satisfy the
condition and those from `high` on do not. -/
def partitionPointIn (xs : Array α) (p : α → Bool) (low high : Nat) (high_le : high ≤ xs.size) :
    Nat :=
  if h : low < high then
    let middle := low + (high - low) / 2
    have middle_lt : middle < xs.size := by omega
    if p xs[middle] then partitionPointIn xs p (middle + 1) high high_le
    else partitionPointIn xs p low middle (by omega)
  else low
termination_by high - low

/-- The number of leading elements that satisfy a condition which fails for all
elements once it fails for one. -/
def partitionPoint (xs : Array α) (p : α → Bool) : Nat :=
  partitionPointIn xs p 0 xs.size (Nat.le_refl _)

/-- The search keeps what is known about the elements outside its window. -/
theorem lt_partitionPointIn_iff (xs : Array α) (p : α → Bool) (low high : Nat)
    (high_le : high ≤ xs.size)
    (leading : ∀ i j, (hj : j < xs.size) → (hij : i ≤ j) → p xs[j] → p xs[i])
    (before : ∀ i, (hi : i < xs.size) → i < low → p xs[i])
    (after : ∀ i, (hi : i < xs.size) → high ≤ i → ¬ p xs[i]) (i : Nat) (hi : i < xs.size) :
    i < partitionPointIn xs p low high high_le ↔ p xs[i] := by
  fun_induction partitionPointIn xs p low high high_le with
  | case1 low high high_le h middle middle_lt hp ih =>
    -- The middle element satisfies the condition, and so do those before it.
    exact ih leading (fun k hk hlt => leading k middle middle_lt (by omega) hp) after
  | case2 low high high_le h middle middle_lt hp ih =>
    -- The middle element does not, and neither do those after it.
    exact ih leading before fun k hk hle hpk => hp (leading middle k hk hle hpk)
  | case3 low high high_le h =>
    constructor
    · exact before i hi
    · intro hpi
      exact Nat.lt_of_not_le fun hle => after i hi (by omega) hpi

/-- If the elements that satisfy a condition come first, the partition point
parts them from the others. -/
theorem lt_partitionPoint_iff (xs : Array α) (p : α → Bool)
    (leading : ∀ i j, (hj : j < xs.size) → (hij : i ≤ j) → p xs[j] → p xs[i])
    (i : Nat) (hi : i < xs.size) : i < partitionPoint xs p ↔ p xs[i] :=
  lt_partitionPointIn_iff xs p 0 xs.size _ leading (fun _ _ h => absurd h (Nat.not_lt_zero _))
    (fun _ hk hle => absurd hk (by omega)) i hi

end Columnar
