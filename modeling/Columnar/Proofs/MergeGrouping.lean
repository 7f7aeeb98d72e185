import Columnar.Proofs.Merge

/-!
# Merging in groups

Indices can be merged at once, one batch after the other, or in groups that are
first merged into new indices of their own.  What comes out is the same.  A
merge depends on its sources through the chunks they contribute alone, and an
index that was new before it merged some sources contributes what they do: if
none of them has a position, then neither has the index, and it is skipped as
they would have been; otherwise it holds just the chunks they contribute, among
them the empty ones of sources that are not skipped.

A group can fail where the whole does not, if its index accepts only smaller
chunks.

## Main definitions

* `RowIndex.MergesAlike` — two merges into an index that come to the same.
* `RowIndex.HasRoomFor` — an index can take some chunks.
* `MergePlan` — a tree of merges, with indices that are there as its leaves.
* `MergePlan.build`, `MergePlan.leaves` — what it makes, and from what.
* `MergePlan.Admits` — its groups accept chunks up to a size.

## Main results

* `RowIndex.merge_status_eq_ok_iff` — when a merge succeeds.
* `RowIndex.contribution_merge` — what a merged index contributes.
* `MergePlan.contribution_buildAll` — the same for all that plans build.
* `RowIndex.merge_in_groups` — **merging does not depend on the grouping.**
-/

namespace Columnar

namespace RowIndex

variable {x m : RowIndex} {sources others : List RowIndex}

/-! ### Merges that come to the same -/

/-- Two merges into an index both succeed, with the same chunks in the same order
and the same offsets, or both fail for the same reason and leave the index as it
was. -/
def MergesAlike (x : RowIndex) (sources others : List RowIndex) : Prop :=
  ((x.merge sources).status = .ok () ∧ (x.merge others).status = .ok () ∧
    (x.merge sources).state.chunks.items = (x.merge others).state.chunks.items ∧
    (x.merge sources).state.offsets.items = (x.merge others).state.offsets.items) ∨
  ∃ failure, x.merge sources = .failed x failure ∧ x.merge others = .failed x failure

/-- A merge depends on what its sources contribute alone. -/
theorem mergesAlike_of_contribution_eq (hx : x.WellFormed)
    (hsources : ∀ source ∈ sources, source.WellFormed)
    (hothers : ∀ other ∈ others, other.WellFormed)
    (h : contribution sources = contribution others) : x.MergesAlike sources others := by
  cases hopen : x.hasOpenCache with
  | true => exact Or.inr ⟨_, merge_of_open hopen, merge_of_open hopen⟩
  | false =>
    cases hcheck : x.checkChunks x.chunkCount (contribution sources) with
    | error failure =>
      exact Or.inr ⟨failure, merge_eq_failed hopen hcheck, merge_eq_failed hopen (h ▸ hcheck)⟩
    | ok _ =>
      obtain ⟨hstatus, hgrown⟩ := merge_grown hx hsources hopen hcheck
      obtain ⟨hstatus', hgrown'⟩ := merge_grown hx hothers hopen (h ▸ hcheck)
      rw [← h] at hgrown'
      exact Or.inl ⟨hstatus, hstatus', hgrown.tables_eq hgrown'⟩

/-! ### When a merge succeeds -/

/-- Chunks that fit, in number and each in size, pass together. -/
theorem checkChunks_of_le : ∀ {chunks : List SharedChunk} {chunkId : Nat},
    chunkId + chunks.length ≤ Limits.maxChunks →
      (∀ shared ∈ chunks, shared.chunk.positionCount ≤ x.maxChunkRows) →
        x.checkChunks chunkId chunks = .ok () := by
  intro chunks
  induction chunks with
  | nil => intro chunkId _ _; rfl
  | cons shared rest ih =>
    intro chunkId hcount hrows
    rw [List.length_cons] at hcount
    obtain ⟨hfirst, hrest⟩ := List.forall_mem_cons.1 hrows
    rw [checkChunks_cons (checkChunk_eq_ok_iff.2 ⟨by omega, hfirst⟩)]
    exact ih (by omega) hrest

/-- The chunks may be added to the index: there are ids for all of them, and none
is too large. -/
structure HasRoomFor (x : RowIndex) (chunks : List SharedChunk) : Prop where
  count_le : x.chunkCount + chunks.length ≤ Limits.maxChunks
  rows_le : ∀ shared ∈ chunks, shared.chunk.positionCount ≤ x.maxChunkRows

/-- **A merge succeeds if and only if there is room for what the sources
contribute.** -/
theorem merge_status_eq_ok_iff (hx : x.WellFormed) (hs : ∀ source ∈ sources, source.WellFormed)
    (hopen : x.hasOpenCache = false) :
    (x.merge sources).status = .ok () ↔ x.HasRoomFor (contribution sources) := by
  constructor
  · intro h
    cases hcheck : x.checkChunks x.chunkCount (contribution sources) with
    | error failure =>
      rw [merge_eq_failed hopen hcheck] at h
      cases h
    | ok _ =>
      obtain ⟨hcount, hrows⟩ := le_of_checkChunks hx.chunkCount_le hcheck
      exact ⟨hcount, hrows⟩
  · intro h
    exact (merge_grown hx hs hopen (checkChunks_of_le h.count_le h.rows_le)).1

/-- A merge that succeeds adds what its sources contribute. -/
theorem grown_of_merge (hx : x.WellFormed) (hs : ∀ source ∈ sources, source.WellFormed)
    (h : (x.merge sources).status = .ok ()) :
    x.hasOpenCache = false ∧ x.Grown (contribution sources) (x.merge sources).state := by
  rcases apply_merge_cases hx hs with ⟨failure, hfailed⟩ | ⟨-, hopen, hgrown⟩
  · rw [show x.merge sources = _ from hfailed] at h
    cases h
  · exact ⟨hopen, hgrown⟩

theorem HasRoomFor.left {chunks more : List SharedChunk} (h : x.HasRoomFor (chunks ++ more)) :
    x.HasRoomFor chunks := by
  have hcount := h.count_le
  rw [List.length_append] at hcount
  exact ⟨by omega, fun shared hshared => h.rows_le shared (List.mem_append_left _ hshared)⟩

/-- After some of the chunks were added there is room for the others. -/
theorem HasRoomFor.right {y : RowIndex} {chunks more : List SharedChunk}
    (h : x.HasRoomFor (chunks ++ more)) (hgrown : x.Grown chunks y) : y.HasRoomFor more := by
  have hcount := h.count_le
  rw [List.length_append] at hcount
  constructor
  · rw [hgrown.chunkCount_eq]
    omega
  · intro shared hshared
    rw [hgrown.maxChunkRows_eq]
    exact h.rows_le shared (List.mem_append_right _ hshared)

/-! ### One batch after the other -/

/-- A merge that succeeds can be done in two parts. -/
theorem merge_append (hx : x.WellFormed) (hsources : ∀ source ∈ sources, source.WellFormed)
    (hothers : ∀ other ∈ others, other.WellFormed)
    (h : (x.merge (sources ++ others)).status = .ok ()) :
    (x.merge sources).status = .ok () ∧
    ((x.merge sources).state.merge others).status = .ok () ∧
    ((x.merge sources).state.merge others).state.chunks.items =
      (x.merge (sources ++ others)).state.chunks.items ∧
    ((x.merge sources).state.merge others).state.offsets.items =
      (x.merge (sources ++ others)).state.offsets.items := by
  have hall : ∀ source ∈ sources ++ others, source.WellFormed :=
    List.forall_mem_append.2 ⟨hsources, hothers⟩
  obtain ⟨hopen, hgrown⟩ := grown_of_merge hx hall h
  have hroom := (merge_status_eq_ok_iff hx hall hopen).1 h
  rw [contribution_append] at hgrown hroom
  -- The first part leaves room for the second.
  have hfirst := (merge_status_eq_ok_iff hx hsources hopen).2 hroom.left
  obtain ⟨-, hpart⟩ := grown_of_merge hx hsources hfirst
  have hsecond := (merge_status_eq_ok_iff hpart.wellFormed hothers
    (hpart.hasOpenCache_eq.trans hopen)).2 (hroom.right hpart)
  obtain ⟨-, hrest⟩ := grown_of_merge hpart.wellFormed hothers hsecond
  exact ⟨hfirst, hsecond, (hpart.trans hrest).tables_eq hgrown⟩

/-! ### What a group contributes -/

/-- Sources without positions contribute nothing. -/
theorem contribution_eq_nil (h : Size.total (sources.map positionCount) = 0) :
    contribution sources = [] := by
  induction sources with
  | nil => rfl
  | cons source rest ih =>
    rw [List.map_cons, Size.total_cons, Nat.add_eq_zero_iff] at h
    rw [contribution_cons_of_eq_zero h.1, ih h.2]

/-- **An index without chunks contributes, once it has merged some sources, what
they do.** -/
theorem contribution_merge (hm : m.WellFormed) (hnone : m.chunkCount = 0)
    (hs : ∀ source ∈ sources, source.WellFormed) (h : (m.merge sources).status = .ok ()) :
    contribution [(m.merge sources).state] = contribution sources := by
  obtain ⟨-, hgrown⟩ := grown_of_merge hm hs h
  have hempty : m.chunks.items.toList = [] := by
    rw [← List.length_eq_zero_iff, Array.length_toList]
    exact hnone
  have hchunks := hgrown.chunks_eq
  rw [hempty, List.nil_append] at hchunks
  have hcount : (m.merge sources).state.positionCount = Size.total (sources.map positionCount) := by
    rw [hgrown.positionCount_eq hm, total_contribution hs, hm.positionCount_eq, rowCounts, hempty]
    exact Nat.zero_add _
  rcases Nat.eq_zero_or_pos (m.merge sources).state.positionCount with hzero | hpos
  · -- No source has a position, so all are skipped, and so is the index.
    rw [contribution_cons_of_eq_zero hzero, contribution_eq_nil (hcount.symm.trans hzero)]
    rfl
  · rw [contribution_cons_of_pos hpos, hchunks]
    exact List.append_nil _

end RowIndex

/-! ### Trees of merges -/

/-- A way to merge indices in groups. -/
inductive MergePlan
  /-- An index that is there. -/
  | index (x : RowIndex)
  /-- A new index with the given options, into which all that the parts make is
  merged. -/
  | group (options : IndexOptions) (parts : List MergePlan)

namespace MergePlan

open RowIndex

mutual

/-- The index that a plan makes; none if a merge in it fails. -/
def build : MergePlan → Result RowIndex
  | .index x => .ok x
  | .group options parts => do
    let sources ← buildAll parts
    let merged := (← ofOptions options).merge sources
    merged.status
    return merged.state

/-- The indices that several plans make, in order. -/
def buildAll : List MergePlan → Result (List RowIndex)
  | [] => .ok []
  | plan :: rest => do return (← plan.build) :: (← buildAll rest)

end

mutual

/-- The indices a plan starts from, from left to right. -/
def leaves : MergePlan → List RowIndex
  | .index x => [x]
  | .group _ parts => leavesAll parts

/-- The indices several plans start from, from left to right. -/
def leavesAll : List MergePlan → List RowIndex
  | [] => []
  | plan :: rest => plan.leaves ++ leavesAll rest

end

mutual

/-- The groups of a plan can be made and accept chunks of so many rows. -/
def Admits (rows : Nat) : MergePlan → Prop
  | .index _ => True
  | .group options parts =>
    (∃ x, ofOptions options = .ok x) ∧ rows ≤ options.maxChunkRows ∧ AdmitsAll rows parts

/-- The groups of several plans can be made and accept chunks of so many rows. -/
def AdmitsAll (rows : Nat) : List MergePlan → Prop
  | [] => True
  | plan :: rest => plan.Admits rows ∧ AdmitsAll rows rest

end

theorem build_group_eq_ok_iff {options : IndexOptions} {parts : List MergePlan} {y : RowIndex} :
    (group options parts).build = .ok y ↔ ∃ sources m, buildAll parts = .ok sources ∧
      ofOptions options = .ok m ∧ (m.merge sources).status = .ok () ∧
        y = (m.merge sources).state := by
  simp only [build, Result.bind_eq_ok_iff]
  constructor
  · rintro ⟨sources, hsources, m, hm, _, hstatus, hy⟩
    exact ⟨sources, m, hsources, hm, hstatus, (Except.ok.inj hy).symm⟩
  · rintro ⟨sources, m, hsources, hm, hstatus, rfl⟩
    exact ⟨sources, hsources, m, hm, (), hstatus, rfl⟩

theorem buildAll_cons_eq_ok_iff {plan : MergePlan} {rest : List MergePlan}
    {sources : List RowIndex} :
    buildAll (plan :: rest) = .ok sources ↔ ∃ y ys, plan.build = .ok y ∧
      buildAll rest = .ok ys ∧ sources = y :: ys := by
  simp only [buildAll, Result.bind_eq_ok_iff]
  constructor
  · rintro ⟨y, hy, ys, hys, h⟩
    exact ⟨y, ys, hy, hys, (Except.ok.inj h).symm⟩
  · rintro ⟨y, ys, hy, hys, rfl⟩
    exact ⟨y, hy, ys, hys, rfl⟩

mutual

/-- What a plan makes is reachable and contributes what its leaves do. -/
theorem contribution_build : ∀ {plan : MergePlan} {y : RowIndex},
    (∀ leaf ∈ plan.leaves, Reachable leaf) → plan.build = .ok y →
      Reachable y ∧ contribution [y] = contribution plan.leaves
  | .index x, y, hs, h => by
    rw [build] at h
    cases h
    rw [leaves] at hs ⊢
    exact ⟨hs x List.mem_cons_self, rfl⟩
  | .group options parts, y, hs, h => by
    rw [leaves] at hs ⊢
    obtain ⟨sources, m, hsources, hm, hstatus, rfl⟩ := build_group_eq_ok_iff.1 h
    obtain ⟨hreach, hsame⟩ := contribution_buildAll hs hsources
    refine ⟨(Reachable.start hm).merge hreach, ?_⟩
    rw [contribution_merge (wellFormed_ofOptions hm) (by rw [eq_of_ofOptions hm]; rfl)
      (fun source hsource => (hreach source hsource).wellFormed) hstatus, hsame]

/-- **What plans make contributes what their leaves do.** -/
theorem contribution_buildAll : ∀ {plans : List MergePlan} {sources : List RowIndex},
    (∀ leaf ∈ leavesAll plans, Reachable leaf) → buildAll plans = .ok sources →
      (∀ source ∈ sources, Reachable source) ∧
        contribution sources = contribution (leavesAll plans)
  | [], sources, _, h => by
    rw [buildAll] at h
    cases h
    exact ⟨fun _ hsource => (List.not_mem_nil hsource).elim, by rw [leavesAll]⟩
  | plan :: rest, sources, hs, h => by
    rw [leavesAll] at hs ⊢
    obtain ⟨hplan, hrest⟩ := List.forall_mem_append.1 hs
    obtain ⟨y, ys, hy, hys, rfl⟩ := buildAll_cons_eq_ok_iff.1 h
    obtain ⟨hreach, hfirst⟩ := contribution_build hplan hy
    obtain ⟨hreachs, hothers⟩ := contribution_buildAll hrest hys
    refine ⟨List.forall_mem_cons.2 ⟨hreach, hreachs⟩, ?_⟩
    rw [← List.singleton_append, contribution_append, hfirst, hothers, contribution_append]

end

mutual

/-- A plan can be carried out if its groups accept the chunks of its leaves, and
these are not too many. -/
theorem exists_build {rows : Nat} : ∀ {plan : MergePlan},
    (∀ leaf ∈ plan.leaves, Reachable leaf) → plan.Admits rows →
      (contribution plan.leaves).length ≤ Limits.maxChunks →
        (∀ shared ∈ contribution plan.leaves, shared.chunk.positionCount ≤ rows) →
          ∃ y, plan.build = .ok y
  | .index x, _, _, _, _ => ⟨x, by rw [build]⟩
  | .group options parts, hs, hadmits, hcount, hrows => by
    rw [leaves] at hs hcount hrows
    obtain ⟨⟨m, hm⟩, hlimit, hparts⟩ : (∃ x, ofOptions options = .ok x) ∧
      rows ≤ options.maxChunkRows ∧ AdmitsAll rows parts := by rwa [Admits] at hadmits
    obtain ⟨sources, hsources⟩ := exists_buildAll hs hparts hcount hrows
    obtain ⟨hreach, hsame⟩ := contribution_buildAll hs hsources
    -- The new index is empty, and no chunk is larger than it accepts.
    have hroom : m.HasRoomFor (contribution sources) := by
      rw [eq_of_ofOptions hm, hsame]
      refine ⟨?_, fun shared hshared => Nat.le_trans (hrows shared hshared) hlimit⟩
      show 0 + _ ≤ _
      rwa [Nat.zero_add]
    have hstatus : (m.merge sources).status = .ok () :=
      (merge_status_eq_ok_iff (wellFormed_ofOptions hm)
        (fun source hsource => (hreach source hsource).wellFormed)
        (by rw [eq_of_ofOptions hm]; rfl)).2 hroom
    exact ⟨_, build_group_eq_ok_iff.2 ⟨sources, m, hsources, hm, hstatus, rfl⟩⟩

/-- Plans can be carried out if their groups accept the chunks of the leaves, and
these are not too many. -/
theorem exists_buildAll {rows : Nat} : ∀ {plans : List MergePlan},
    (∀ leaf ∈ leavesAll plans, Reachable leaf) → AdmitsAll rows plans →
      (contribution (leavesAll plans)).length ≤ Limits.maxChunks →
        (∀ shared ∈ contribution (leavesAll plans), shared.chunk.positionCount ≤ rows) →
          ∃ sources, buildAll plans = .ok sources
  | [], _, _, _, _ => ⟨[], by rw [buildAll]⟩
  | plan :: rest, hs, hadmits, hcount, hrows => by
    rw [leavesAll] at hs hcount hrows
    rw [contribution_append] at hcount hrows
    rw [List.length_append] at hcount
    rw [AdmitsAll] at hadmits
    obtain ⟨hplan, hrest⟩ := List.forall_mem_append.1 hs
    obtain ⟨hfirst, hothers⟩ := List.forall_mem_append.1 hrows
    obtain ⟨y, hy⟩ := exists_build hplan hadmits.1 (by omega) hfirst
    obtain ⟨ys, hys⟩ := exists_buildAll hrest hadmits.2 (by omega) hothers
    exact ⟨y :: ys, buildAll_cons_eq_ok_iff.2 ⟨y, ys, hy, hys, rfl⟩⟩

end

end MergePlan

namespace RowIndex

/-! ### The main result -/

/-- **Merging does not depend on the grouping.**

Sources may first be merged into an index without chunks, which is then merged
in their place.  What can be merged at once can be merged in two batches.  And
all that a tree of merges makes may stand for its leaves; the tree can be carried
out if the leaves can be merged at once and no group in it is stricter about the
size of chunks. -/
theorem merge_in_groups {x : RowIndex} (hx : Reachable x) :
    (∀ (m : RowIndex) (ys : List RowIndex), Reachable m → m.chunkCount = 0 →
      (∀ y ∈ ys, Reachable y) → (m.merge ys).status = .ok () →
        x.MergesAlike [(m.merge ys).state] ys) ∧
    (∀ xs ys : List RowIndex, (∀ y ∈ xs ++ ys, Reachable y) →
      (x.merge (xs ++ ys)).status = .ok () →
        (x.merge xs).status = .ok () ∧
        ((x.merge xs).state.merge ys).status = .ok () ∧
        ((x.merge xs).state.merge ys).state.chunks.items =
          (x.merge (xs ++ ys)).state.chunks.items ∧
        ((x.merge xs).state.merge ys).state.offsets.items =
          (x.merge (xs ++ ys)).state.offsets.items) ∧
    (∀ plans : List MergePlan, (∀ leaf ∈ MergePlan.leavesAll plans, Reachable leaf) →
      (∀ sources, MergePlan.buildAll plans = .ok sources →
        x.MergesAlike sources (MergePlan.leavesAll plans)) ∧
      (MergePlan.AdmitsAll x.maxChunkRows plans →
        (x.merge (MergePlan.leavesAll plans)).status = .ok () →
          ∃ sources, MergePlan.buildAll plans = .ok sources)) := by
  have hx := hx.wellFormed
  refine ⟨?_, ?_, ?_⟩
  · intro m ys hm hnone hys hstatus
    have hwf : ∀ y ∈ ys, y.WellFormed := fun y hy => (hys y hy).wellFormed
    have hmerged : (m.merge ys).state.WellFormed := (hm.merge hys).wellFormed
    exact mergesAlike_of_contribution_eq hx (List.forall_mem_singleton.2 hmerged) hwf
      (contribution_merge hm.wellFormed hnone hwf hstatus)
  · intro xs ys hall hstatus
    obtain ⟨hxs, hys⟩ := List.forall_mem_append.1 hall
    exact merge_append hx (fun y hy => (hxs y hy).wellFormed) (fun y hy => (hys y hy).wellFormed)
      hstatus
  · intro plans hleaves
    have hwf : ∀ leaf ∈ MergePlan.leavesAll plans, leaf.WellFormed :=
      fun leaf hleaf => (hleaves leaf hleaf).wellFormed
    constructor
    · intro sources hsources
      obtain ⟨hreach, hsame⟩ := MergePlan.contribution_buildAll hleaves hsources
      exact mergesAlike_of_contribution_eq hx
        (fun source hsource => (hreach source hsource).wellFormed) hwf hsame
    · intro hadmits hstatus
      -- Where all leaves fit, each group of them fits into an index of its own.
      obtain ⟨hopen, -⟩ := grown_of_merge hx hwf hstatus
      have hroom := (merge_status_eq_ok_iff hx hwf hopen).1 hstatus
      have hcount := hroom.count_le
      exact MergePlan.exists_buildAll hleaves hadmits (by omega) hroom.rows_le

/-- A group of two sources, of which one has no rows and the other an empty chunk,
and a group of the first alone. -/
theorem merge_in_groups_two :
    (∀ y ∈ [ofChunks [⟨1, .ofLongs []⟩], ofChunks [⟨2, .ofLongs []⟩, ⟨3, .ofLongs [8, 9]⟩]],
      Reachable y) ∧
    (empty.merge [ofChunks [⟨1, .ofLongs []⟩],
      ofChunks [⟨2, .ofLongs []⟩, ⟨3, .ofLongs [8, 9]⟩]]).status = .ok () ∧
    (ofChunks [⟨0, .ofLongs [7]⟩]).MergesAlike
      [(empty.merge [ofChunks [⟨1, .ofLongs []⟩],
        ofChunks [⟨2, .ofLongs []⟩, ⟨3, .ofLongs [8, 9]⟩]]).state]
      [ofChunks [⟨1, .ofLongs []⟩], ofChunks [⟨2, .ofLongs []⟩, ⟨3, .ofLongs [8, 9]⟩]] ∧
    (((ofChunks [⟨0, .ofLongs [7]⟩]).merge [ofChunks [⟨1, .ofLongs []⟩]]).state.merge
      [ofChunks [⟨2, .ofLongs []⟩, ⟨3, .ofLongs [8, 9]⟩]]).state.offsets.items =
        #[0, 1, 1, 3] ∧
    ∃ sources, MergePlan.buildAll
        [.group .usual [.index (ofChunks [⟨1, .ofLongs []⟩])],
          .group .usual [.index (ofChunks [⟨2, .ofLongs []⟩, ⟨3, .ofLongs [8, 9]⟩])]] =
          .ok sources ∧
      (ofChunks [⟨0, .ofLongs [7]⟩]).MergesAlike sources
        [ofChunks [⟨1, .ofLongs []⟩], ofChunks [⟨2, .ofLongs []⟩, ⟨3, .ofLongs [8, 9]⟩]] := by
  have hs : ∀ y ∈ [ofChunks [⟨1, .ofLongs []⟩],
      ofChunks [⟨2, .ofLongs []⟩, ⟨3, .ofLongs [8, 9]⟩]], Reachable y := by
    intro y h
    rw [List.mem_cons, List.mem_singleton] at h
    rcases h with rfl | rfl <;> exact reachable_ofChunks _
  obtain ⟨hgroup, hbatches, hplans⟩ := merge_in_groups (reachable_ofChunks [⟨0, .ofLongs [7]⟩])
  obtain ⟨halike, hbuilds⟩ := hplans
    [.group .usual [.index (ofChunks [⟨1, .ofLongs []⟩])],
      .group .usual [.index (ofChunks [⟨2, .ofLongs []⟩, ⟨3, .ofLongs [8, 9]⟩])]] hs
  have hadmits : MergePlan.AdmitsAll Limits.maxChunkRows
      [.group .usual [.index (ofChunks [⟨1, .ofLongs []⟩])],
        .group .usual [.index (ofChunks [⟨2, .ofLongs []⟩, ⟨3, .ofLongs [8, 9]⟩])]] :=
    ⟨⟨⟨_, rfl⟩, Nat.le_refl _, trivial, trivial⟩, ⟨⟨_, rfl⟩, Nat.le_refl _, trivial, trivial⟩,
      trivial⟩
  obtain ⟨sources, hsources⟩ := hbuilds hadmits rfl
  refine ⟨hs, rfl, hgroup empty _ reachable_empty rfl hs rfl, ?_, sources, hsources,
    halike sources hsources⟩
  rw [(hbatches [ofChunks [⟨1, .ofLongs []⟩]] [ofChunks [⟨2, .ofLongs []⟩, ⟨3, .ofLongs [8, 9]⟩]]
    hs rfl).2.2.2]
  rfl

end RowIndex

end Columnar
