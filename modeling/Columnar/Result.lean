import Columnar.Failure

/-!
# Results

An operation that only reads, or that leaves everything as it was when it
fails, answers with a `Result`: what it found or made, or why it failed.

## Main definitions

* `Result` — an answer or a failure.
* `Result.refuse`, `Result.misuse`, `Result.require` — ways to fail.
* `Result.element`, `Result.nth` — the elements of arrays and lists.

## Main results

* `Result.bind_eq_ok_iff` — a sequence of steps succeeds if each of them does.
* `Result.require_eq_ok_iff`, `Result.element_eq_ok_iff`, `Result.nth_eq_ok_iff` — when
  the steps above succeed.
-/

namespace Columnar

/-- The answer of an operation, or the reason why there is none. -/
abbrev Result := Except Failure

namespace Result

variable {α β : Type}

/-! ### Failing -/

/-- Fails with a refusal. -/
def refuse (refusal : Refusal) : Result α := .error (.refused refusal)

/-- Fails with a misuse. -/
def misuse (misuse : Misuse) : Result α := .error (.misused misuse)

/-- Fails with a misuse unless the condition holds. -/
def require (condition : Bool) (misuse : Misuse) : Result Unit :=
  if condition then .ok () else .error (.misused misuse)

/-! ### Elements -/

/-- The element of an array at an index. -/
def element (xs : Array α) (index : Nat) : Result α :=
  match xs[index]? with
  | some x => .ok x
  | none => .error .outOfBounds

/-- The element of a list at an index. -/
def nth (xs : List α) (index : Nat) : Result α :=
  match xs[index]? with
  | some x => .ok x
  | none => .error .outOfBounds

/-! ### When a step succeeds -/

theorem bind_eq_ok_iff {r : Result α} {f : α → Result β} {b : β} :
    (r >>= f) = .ok b ↔ ∃ a, r = .ok a ∧ f a = .ok b := by
  cases r with
  | error failure => simp [bind, Except.bind]
  | ok a => simp [bind, Except.bind]

theorem bind_eq_error_iff {r : Result α} {f : α → Result β} {failure : Failure} :
    (r >>= f) = .error failure ↔
      r = .error failure ∨ ∃ a, r = .ok a ∧ f a = .error failure := by
  cases r with
  | error failure => simp [bind, Except.bind]
  | ok a => simp [bind, Except.bind]

theorem map_eq_ok_iff {r : Result α} {f : α → β} {b : β} :
    (f <$> r) = .ok b ↔ ∃ a, r = .ok a ∧ f a = b := by
  cases r with
  | error failure => simp [Functor.map, Except.map]
  | ok a => simp [Functor.map, Except.map]

theorem require_eq_ok_iff {condition : Bool} {m : Misuse} {u : Unit} :
    require condition m = .ok u ↔ condition = true := by
  cases condition <;> simp [require]

theorem require_eq_error_iff {condition : Bool} {m : Misuse} {failure : Failure} :
    require condition m = .error failure ↔ condition = false ∧ failure = .misused m := by
  cases condition <;> simp [require, eq_comm]

theorem element_eq_ok_iff {xs : Array α} {index : Nat} {x : α} :
    element xs index = .ok x ↔ xs[index]? = some x := by
  unfold element
  split <;> simp_all

theorem element_eq_error_iff {xs : Array α} {index : Nat} {failure : Failure} :
    element xs index = .error failure ↔ xs.size ≤ index ∧ failure = .outOfBounds := by
  unfold element
  split
  · rename_i x h
    have := (Array.getElem?_eq_some_iff.1 h).1
    simp only [reduceCtorEq, false_iff, not_and]
    omega
  · rename_i h
    simp [Array.getElem?_eq_none_iff.1 h, eq_comm]

theorem nth_eq_ok_iff {xs : List α} {index : Nat} {x : α} :
    nth xs index = .ok x ↔ xs[index]? = some x := by
  unfold nth
  split <;> simp_all

end Result

end Columnar
