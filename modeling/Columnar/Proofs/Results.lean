import Columnar.Outcome

/-!
# Steps that succeed

A list of steps each of which succeeds succeeds as a whole, with the answers in
order; and after a change that succeeded, the next one decides.

## Main results

* `Result.mapM_eq_ok_map` — a step for each element of a list.
* `Result.mapM_eq_mapM_range` — a step for each place.
* `Result.mapM_eq_error_iff` — the first step that fails decides.
* `Outcome.andThen_of_ok` — a change after one that succeeded.
-/

namespace Columnar

namespace Result

variable {α β : Type}

/-- If the step succeeds for each element, the answers are those of the single
steps. -/
theorem mapM_eq_ok_map {f : α → Result β} {g : α → β} {xs : List α}
    (h : ∀ x ∈ xs, f x = .ok (g x)) : xs.mapM f = .ok (xs.map g) := by
  induction xs with
  | nil => rfl
  | cons x xs ih =>
    have hx : f x = .ok (g x) := h x List.mem_cons_self
    have hxs : xs.mapM f = .ok (xs.map g) := ih fun y hy => h y (List.mem_cons_of_mem _ hy)
    rw [List.mapM_cons, hx, hxs]
    rfl

/-- An answer in the list is that of some step. -/
theorem exists_of_mem_mapM {f : α → Result β} : ∀ {xs : List α} {ys : List β},
    xs.mapM f = .ok ys → ∀ {y : β}, y ∈ ys → ∃ x ∈ xs, f x = .ok y := by
  intro xs
  induction xs with
  | nil =>
    intro ys h y hy
    cases h
    cases hy
  | cons x xs ih =>
    intro ys h y hy
    rw [List.mapM_cons] at h
    obtain ⟨first, hfirst, h⟩ := bind_eq_ok_iff.1 h
    obtain ⟨rest, hrest, h⟩ := bind_eq_ok_iff.1 h
    cases h
    rcases List.mem_cons.1 hy with rfl | hy
    · exact ⟨x, List.mem_cons_self, hfirst⟩
    · obtain ⟨z, hz, hanswer⟩ := ih hrest hy
      exact ⟨z, List.mem_cons_of_mem _ hz, hanswer⟩

/-- If the step can only succeed with one answer, the answers are those. -/
theorem eq_map_of_mapM {f : α → Result β} {g : α → β} (hf : ∀ {x y}, f x = .ok y → y = g x) :
    ∀ {xs : List α} {ys : List β}, xs.mapM f = .ok ys → ys = xs.map g := by
  intro xs
  induction xs with
  | nil => intro ys h; cases h; rfl
  | cons x xs ih =>
    intro ys h
    rw [List.mapM_cons] at h
    obtain ⟨first, hfirst, h⟩ := bind_eq_ok_iff.1 h
    obtain ⟨rest, hrest, h⟩ := bind_eq_ok_iff.1 h
    cases h
    rw [hf hfirst, ih hrest, List.map_cons]

/-- If an answer tells its element, the answers tell the elements. -/
theorem map_eq_of_mapM {f : α → Result β} {g : β → α} (hg : ∀ {x y}, f x = .ok y → g y = x) :
    ∀ {xs : List α} {ys : List β}, xs.mapM f = .ok ys → ys.map g = xs := by
  intro xs
  induction xs with
  | nil => intro ys h; cases h; rfl
  | cons x xs ih =>
    intro ys h
    rw [List.mapM_cons] at h
    obtain ⟨first, hfirst, h⟩ := bind_eq_ok_iff.1 h
    obtain ⟨rest, hrest, h⟩ := bind_eq_ok_iff.1 h
    cases h
    rw [List.map_cons, hg hfirst, ih hrest]

/-- The answers stand at the places of their elements. -/
theorem exists_getElem?_of_mapM {f : α → Result β} : ∀ {xs : List α} {ys : List β},
    xs.mapM f = .ok ys → ∀ {i : Nat} {x : α}, xs[i]? = some x →
      ∃ y, ys[i]? = some y ∧ f x = .ok y := by
  intro xs
  induction xs with
  | nil => intro ys _ i x hx; cases hx
  | cons first xs ih =>
    intro ys h i x hx
    rw [List.mapM_cons] at h
    obtain ⟨y, hy, h⟩ := bind_eq_ok_iff.1 h
    obtain ⟨rest, hrest, h⟩ := bind_eq_ok_iff.1 h
    cases h
    cases i with
    | zero =>
      cases hx
      exact ⟨y, rfl, hy⟩
    | succ i => exact ih hrest hx

theorem exists_mapM_iff {f : α → Result β} : ∀ {xs : List α},
    (∃ ys, xs.mapM f = .ok ys) ↔ ∀ x ∈ xs, ∃ y, f x = .ok y := by
  intro xs
  induction xs with
  | nil => exact ⟨fun _ x hx => (List.not_mem_nil hx).elim, fun _ => ⟨[], rfl⟩⟩
  | cons x xs ih =>
    rw [List.forall_mem_cons, ← ih, List.mapM_cons]
    constructor
    · rintro ⟨ys, h⟩
      obtain ⟨first, hfirst, h⟩ := bind_eq_ok_iff.1 h
      obtain ⟨rest, hrest, -⟩ := bind_eq_ok_iff.1 h
      exact ⟨⟨first, hfirst⟩, rest, hrest⟩
    · rintro ⟨⟨first, hfirst⟩, rest, hrest⟩
      exact ⟨first :: rest, by rw [hfirst, hrest]; rfl⟩

/-- **The first step that fails decides**, and those before it have succeeded. -/
theorem mapM_eq_error_iff {f : α → Result β} {failure : Failure} : ∀ {xs : List α},
    xs.mapM f = .error failure ↔ ∃ before x after, xs = before ++ x :: after ∧
      (∀ y ∈ before, ∃ b, f y = .ok b) ∧ f x = .error failure := by
  intro xs
  induction xs with
  | nil =>
    constructor
    · exact nofun
    · rintro ⟨before, x, after, hsplit, -, -⟩
      cases before <;> cases hsplit
  | cons x xs ih =>
    rw [List.mapM_cons]
    constructor
    · intro h
      -- The first failure is here or in the rest.
      rcases bind_eq_error_iff.1 h with hx | ⟨first, hfirst, h⟩
      · exact ⟨[], x, xs, rfl, by simp, hx⟩
      · rcases bind_eq_error_iff.1 h with hrest | ⟨rest, -, h⟩
        · obtain ⟨before, y, after, rfl, hbefore, hy⟩ := ih.1 hrest
          exact ⟨x :: before, y, after, rfl, List.forall_mem_cons.2 ⟨⟨first, hfirst⟩, hbefore⟩, hy⟩
        · cases h
    · rintro ⟨before, y, after, hsplit, hbefore, hy⟩
      cases before with
      | nil =>
        cases hsplit
        rw [hy]
        rfl
      | cons z before =>
        obtain ⟨rfl, hrest⟩ : x = z ∧ xs = before ++ y :: after := List.cons.inj hsplit
        obtain ⟨⟨first, hfirst⟩, hbefore⟩ := List.forall_mem_cons.1 hbefore
        rw [hfirst, ih.2 ⟨before, y, after, hrest, hbefore, hy⟩]
        rfl

/-- A step for each element of a list is one for each place in it. -/
theorem mapM_eq_mapM_range {f : α → Result β} : ∀ {xs : List α},
    xs.mapM f = (List.range xs.length).mapM (fun i => do f (← nth xs i)) := by
  intro xs
  induction xs with
  | nil => rfl
  | cons x xs ih =>
    have hrest : ((List.range xs.length).map Nat.succ).mapM (fun i => do f (← nth (x :: xs) i)) =
        xs.mapM f := by
      rw [ih, List.mapM_map]
      rfl
    rw [List.length_cons, List.range_succ_eq_map, List.mapM_cons, List.mapM_cons, hrest]
    rfl

theorem map_eq_error_iff {f : α → β} {r : Result α} {failure : Failure} :
    f <$> r = .error failure ↔ r = .error failure := by
  cases r <;> simp [Functor.map, Except.map]

theorem exists_map_iff {f : α → β} {r : Result α} :
    (∃ b, f <$> r = .ok b) ↔ ∃ a, r = .ok a := by
  cases r <;> simp [Functor.map, Except.map]

theorem exists_element_iff {xs : Array α} {i : Nat} :
    (∃ a, element xs i = .ok a) ↔ i < xs.size := by
  constructor
  · rintro ⟨a, ha⟩
    exact (Array.getElem?_eq_some_iff.1 (element_eq_ok_iff.1 ha)).1
  · intro hi
    exact ⟨xs[i], element_eq_ok_iff.2 (Array.getElem?_eq_getElem hi)⟩

end Result

namespace Outcome

variable {σ : Type}

theorem succeeded_iff {o : Outcome σ} : o.succeeded = true ↔ o.status = .ok () := by
  unfold succeeded
  cases o.status with
  | error failure => exact ⟨nofun, nofun⟩
  | ok _ => exact ⟨fun _ => rfl, fun _ => rfl⟩

/-- After a success the next change decides, and the notices of both are given. -/
theorem andThen_of_ok {o : Outcome σ} {next : σ → Outcome σ} (h : o.status = .ok ()) :
    o.andThen next =
      ⟨(next o.state).state, (next o.state).status, o.notices ++ (next o.state).notices⟩ := by
  obtain ⟨state, status, notices⟩ := o
  subst h
  rfl

end Outcome

end Columnar
