import Columnar.Result

/-!
# Outcomes

A change that can fail halfway, or that has something to report, answers with
an `Outcome`: the state it leaves behind, whether it succeeded, and the notices
it gave on the way.  After a failure the state holds whatever had been done
before it.  A change that leaves everything as it was when it fails is a plain
`Result` instead.

## Main definitions

* `Notice` — what a change reports.
* `Outcome` — the state, the status and the notices after a change.
* `Outcome.andThen` — one change after another, up to the first failure.
* `Outcome.runAll` — one change after another, past any failure.
-/

namespace Columnar

/-! ### Notices -/

/-- How much attention a notice asks for. -/
inductive Level
  | debug
  | warn
  deriving DecidableEq, Repr

/-- A message about a change. -/
inductive Notice
  /-- Indices were merged: how many of those offered, and the totals after. -/
  | merged (taken offered chunks positions : Nat)
  /-- A merged index had an open cache, which stays behind. -/
  | cacheLeftBehind
  /-- A cache was opened for so many positions and chunks. -/
  | cacheOpened (lists positions chunks : Nat)
  /-- An open cache was closed. -/
  | cacheClosed (lists : Nat)
  deriving DecidableEq, Repr

namespace Notice

/-- The level of a notice: only a cache left behind is a warning. -/
def level : Notice → Level
  | cacheLeftBehind => .warn
  | _ => .debug

def message : Notice → String
  | merged taken offered chunks positions =>
    s!"merged {taken} of {offered} indices: {chunks} chunks, {positions} positions"
  | cacheLeftBehind =>
    "merging an index with an open typed cache; the cache is not carried over"
  | cacheOpened lists positions chunks =>
    s!"opened typed column cache: {lists} lists, {positions} positions, {chunks} chunks"
  | cacheClosed lists => s!"closing typed column cache with {lists} lists"

end Notice

/-! ### Outcomes -/

/-- What a change leaves behind. -/
structure Outcome (σ : Type) where
  /-- The state after the change, also after a failure. -/
  state : σ
  status : Result Unit
  notices : List Notice

namespace Outcome

variable {σ τ : Type}

/-- A change that succeeded. -/
def done (state : σ) : Outcome σ := ⟨state, .ok (), []⟩

/-- A change that succeeded and has something to report. -/
def reporting (state : σ) (notice : Notice) : Outcome σ := ⟨state, .ok (), [notice]⟩

/-- A change that failed, leaving the given state. -/
def failed (state : σ) (failure : Failure) : Outcome σ := ⟨state, .error failure, []⟩

/-- A change that either yields a new state or leaves the old one. -/
def ofResult (before : σ) : Result σ → Outcome σ
  | .ok after => done after
  | .error failure => failed before failure

/-- The same outcome, seen in a larger or smaller state. -/
def map (f : σ → τ) (o : Outcome σ) : Outcome τ := ⟨f o.state, o.status, o.notices⟩

/-- Goes on with another change unless this one failed. -/
def andThen (o : Outcome σ) (next : σ → Outcome σ) : Outcome σ :=
  match o with
  | ⟨state, .error failure, notices⟩ => ⟨state, .error failure, notices⟩
  | ⟨state, .ok (), notices⟩ =>
    let later := next state
    ⟨later.state, later.status, notices ++ later.notices⟩

/-- Makes changes in order, each on what the one before it left, whether that
succeeded or not, and gives the outcome of each. -/
def runAll {ι : Type} (change : σ → ι → Outcome σ) (s : σ) : List ι → σ × List (Outcome σ)
  | [] => (s, [])
  | request :: rest =>
    let outcome := change s request
    let (last, outcomes) := runAll change outcome.state rest
    (last, outcome :: outcomes)

def succeeded (o : Outcome σ) : Bool := o.status.isOk

@[simp] theorem state_done (s : σ) : (done s).state = s := rfl

@[simp] theorem status_done (s : σ) : (done s).status = .ok () := rfl

@[simp] theorem notices_done (s : σ) : (done s).notices = [] := rfl

@[simp] theorem state_failed (s : σ) (f : Failure) : (failed s f).state = s := rfl

@[simp] theorem status_failed (s : σ) (f : Failure) : (failed s f).status = .error f := rfl

@[simp] theorem notices_failed (s : σ) (f : Failure) : (failed s f).notices = [] := rfl

@[simp] theorem andThen_done (s : σ) (next : σ → Outcome σ) : (done s).andThen next = next s := rfl

@[simp] theorem andThen_failed (s : σ) (f : Failure) (next : σ → Outcome σ) :
    (failed s f).andThen next = failed s f := rfl

@[simp] theorem state_map (f : σ → τ) (o : Outcome σ) : (o.map f).state = f o.state := rfl

@[simp] theorem status_map (f : σ → τ) (o : Outcome σ) : (o.map f).status = o.status := rfl

@[simp] theorem notices_map (f : σ → τ) (o : Outcome σ) : (o.map f).notices = o.notices := rfl

end Outcome

end Columnar
