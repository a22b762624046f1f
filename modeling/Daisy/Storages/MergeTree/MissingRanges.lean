import Daisy.Storages.MergeTree.SequenceInfo

/-!
# Missing sequence ranges

`missingSequenceRanges` (`SequenceInfo.cpp`), which `populateCommittedSNFromParts`
runs at start-up over the ranges of every part beyond the committed sequence
number. It sorts the ranges and walks them group by group, a group being the
ranges of one `start_sn`, that is the committed parts of one block. For each
finished group, `collectMissingSequenceRanges` records the gap in front of the
first group, the part indexes the group lacks and the gap up to the next group,
and moves the next expected sequence number past the group when the group is
complete and starts where the previous one ended.

## The model

The loop keeps, as the source does, the index `prev_index` of the group's first
range and the count `parts` of its ranges; the group `sequence_ranges[prev_index,
cur_index)` itself is kept as its first range `prev` and the list `others` of the
rest, and the ranges from `cur_index` on as the list still to walk. The out
parameter `missing_ranges` is threaded through and returned.

The inner loop `for (j = next_expecting_part_index; j != part_index; ++j)` of
`collectMissingPartsSequenceRange` ends only when `part_index` is not below `j`;
the model pushes the copies for `j, …, part_index - 1`, which is what the loop
does whenever it ends. On sorted input with distinct part indexes it always does.
-/

namespace Daisy.MergeTree

open SequenceRange

/-- `collectMissingSequenceRangeBefore`: in front of the first group only, the
gap from the next expected sequence number to the group. -/
def collectMissingSequenceRangeBefore (prev : SequenceRange) (prevIndex : Nat) (nextExpectingSn : Int)
    (missingRanges : List SequenceRange) : List SequenceRange :=
  if prevIndex ≠ 0 then missingRanges
  else if prev.startSn ≠ nextExpectingSn then missingRanges ++ [ofSn nextExpectingSn (prev.startSn - 1)]
  else missingRanges

/-- `collectMissingSequenceRangeBetween`: the gap between two groups. -/
def collectMissingSequenceRangeBetween (prev cur : SequenceRange) (missingRanges : List SequenceRange) :
    List SequenceRange :=
  if prev.startSn ≠ cur.startSn ∧ prev.endSn + 1 ≠ cur.startSn then
    missingRanges ++ [ofSn (prev.endSn + 1) (cur.startSn - 1)]
  else missingRanges

/-- The copies of `base` with part indexes `j, j + 1, …, p - 1`. -/
def partCopies (base : SequenceRange) (j p : Int) : List SequenceRange :=
  (List.range (p - j).toNat).map fun k : Nat => { base with partIndex := j + (k : Int) }

/-- The first loop of `collectMissingPartsSequenceRange`, over the ranges of the
group with `next_expecting_part_index = j`: it pushes a copy of the group's first
range `base` for each part index it skips. Returns `missing_ranges` and the final
`next_expecting_part_index`. -/
def collectMissingPartsLoop (base : SequenceRange) :
    Int → List SequenceRange → List SequenceRange → List SequenceRange × Int
  | j, missingRanges, [] => (missingRanges, j)
  | j, missingRanges, r :: rs =>
    if r.partIndex ≠ j then
      collectMissingPartsLoop base (r.partIndex + 1) (missingRanges ++ partCopies base j r.partIndex) rs
    else collectMissingPartsLoop base (j + 1) missingRanges rs

/-- `collectMissingPartsSequenceRange` for the group `prev :: others`: the part
indexes skipped inside the group, then those after its last range, up to
`parts`. -/
def collectMissingPartsSequenceRange (prev : SequenceRange) (others : List SequenceRange)
    (missingRanges : List SequenceRange) : List SequenceRange :=
  let (missing, j) := collectMissingPartsLoop prev 0 missingRanges (prev :: others)
  missing ++ partCopies prev j prev.parts

/-- `collectMissingSequenceRanges`: settle the group `prev :: others` of `parts`
ranges, `cur` being the range after it (the last range of all after the last
group). Returns `next_expecting_sn` and `missing_ranges`. -/
def collectMissingSequenceRanges (prev : SequenceRange) (others : List SequenceRange) (prevIndex : Nat)
    (cur : SequenceRange) (parts : Int) (nextExpectingSn : Int) (missingRanges : List SequenceRange) :
    Int × List SequenceRange :=
  if prev.parts = parts then
    -- all parts of the group are committed
    if prev.startSn = nextExpectingSn then
      (prev.endSn + 1, collectMissingSequenceRangeBetween prev cur missingRanges)
    else
      (nextExpectingSn, collectMissingSequenceRangeBetween prev cur
        (collectMissingSequenceRangeBefore prev prevIndex nextExpectingSn missingRanges))
  else
    (nextExpectingSn, collectMissingSequenceRangeBetween prev cur
      (collectMissingPartsSequenceRange prev others
        (collectMissingSequenceRangeBefore prev prevIndex nextExpectingSn missingRanges)))

/-- The `for` loop of `missingSequenceRanges` over `cur_index`, and the call for
the last group after it. The group `sequence_ranges[prev_index, cur_index)` is
`prev :: others` and `parts` counts it; the list is `sequence_ranges[cur_index,
size)`. -/
def missingSequenceRangesLoop (prev : SequenceRange) (others : List SequenceRange)
    (prevIndex curIndex : Nat) (parts : Int) (nextExpectingSn : Int) (missingRanges : List SequenceRange) :
    List SequenceRange → Int × List SequenceRange
  | [] =>
    -- `cur_index == size`: `cur_range` is the last range
    collectMissingSequenceRanges prev others prevIndex ((prev :: others).getLast (List.cons_ne_nil _ _))
      parts nextExpectingSn missingRanges
  | cur :: rest =>
    if prev.startSn = cur.startSn then
      missingSequenceRangesLoop prev (others ++ [cur]) prevIndex (curIndex + 1) (parts + 1)
        nextExpectingSn missingRanges rest
    else
      let (next, missing) :=
        collectMissingSequenceRanges prev others prevIndex cur parts nextExpectingSn missingRanges
      missingSequenceRangesLoop cur [] curIndex (curIndex + 1) 1 next missing rest

/-- `missingSequenceRanges(sequence_ranges, committed)`: the missing ranges, the
next expected sequence number and one past the largest committed one. -/
def missingSequenceRanges (sequenceRanges : List SequenceRange) (committed : Int) :
    List SequenceRange × Int × Int :=
  match sortRanges sequenceRanges with
  | [] => ([], committed + 1, committed + 1)
  | first :: rest =>
    let (next, missing) := missingSequenceRangesLoop first [] 0 1 1 (committed + 1) [] rest
    (missing, next, ((first :: rest).getLast (List.cons_ne_nil _ _)).endSn + 1)

/-! ### What each helper pushes -/

theorem collectMissingSequenceRangeBefore_eq (prev : SequenceRange) (prevIndex : Nat) (next : Int)
    (missing : List SequenceRange) :
    collectMissingSequenceRangeBefore prev prevIndex next missing =
      missing ++ collectMissingSequenceRangeBefore prev prevIndex next [] := by
  unfold collectMissingSequenceRangeBefore
  split_ifs <;> simp

theorem collectMissingSequenceRangeBetween_eq (prev cur : SequenceRange) (missing : List SequenceRange) :
    collectMissingSequenceRangeBetween prev cur missing =
      missing ++ collectMissingSequenceRangeBetween prev cur [] := by
  unfold collectMissingSequenceRangeBetween
  split_ifs <;> simp

/-- Only the first group has a gap recorded in front of it. -/
theorem collectMissingSequenceRangeBefore_of_ne_zero (prev : SequenceRange) (prevIndex : Nat) (next : Int)
    (h : prevIndex ≠ 0) : collectMissingSequenceRangeBefore prev prevIndex next [] = [] := by
  simp [collectMissingSequenceRangeBefore, h]

/-- No gap is recorded between two ranges of one group. -/
theorem collectMissingSequenceRangeBetween_of_startSn_eq {prev cur : SequenceRange}
    (h : prev.startSn = cur.startSn) : collectMissingSequenceRangeBetween prev cur [] = [] := by
  simp [collectMissingSequenceRangeBetween, h]

theorem collectMissingPartsLoop_eq (base : SequenceRange) (j : Int) (missing rs : List SequenceRange) :
    collectMissingPartsLoop base j missing rs =
      (missing ++ (collectMissingPartsLoop base j [] rs).1, (collectMissingPartsLoop base j [] rs).2) := by
  induction rs generalizing j missing with
  | nil => simp [collectMissingPartsLoop]
  | cons r rs ih =>
    simp only [collectMissingPartsLoop]
    split_ifs
    · rw [ih, ih _ ([] ++ _)]
      simp
    · exact ih _ _

theorem collectMissingPartsSequenceRange_nil (prev : SequenceRange) (others : List SequenceRange) :
    collectMissingPartsSequenceRange prev others [] =
      (collectMissingPartsLoop prev 0 [] (prev :: others)).1 ++
        partCopies prev (collectMissingPartsLoop prev 0 [] (prev :: others)).2 prev.parts := rfl

theorem collectMissingPartsSequenceRange_eq (prev : SequenceRange) (others missing : List SequenceRange) :
    collectMissingPartsSequenceRange prev others missing =
      missing ++ collectMissingPartsSequenceRange prev others [] := by
  simp only [collectMissingPartsSequenceRange]
  rw [collectMissingPartsLoop_eq]
  simp

/-- **One group settled.** What `collectMissingSequenceRanges` does, whichever
branch it takes: the gap in front (first group only), the missing parts of an
incomplete group, the gap to the next group; and the next expected sequence
number moves past a complete group that starts at it. -/
theorem collectMissingSequenceRanges_eq (prev : SequenceRange) (others : List SequenceRange)
    (prevIndex : Nat) (cur : SequenceRange) (parts next : Int) (missing : List SequenceRange) :
    collectMissingSequenceRanges prev others prevIndex cur parts next missing =
      (if prev.parts = parts ∧ prev.startSn = next then prev.endSn + 1 else next,
        missing ++ collectMissingSequenceRangeBefore prev prevIndex next [] ++
          (if prev.parts = parts then [] else collectMissingPartsSequenceRange prev others []) ++
          collectMissingSequenceRangeBetween prev cur []) := by
  unfold collectMissingSequenceRanges
  rw [collectMissingSequenceRangeBetween_eq _ _ (collectMissingSequenceRangeBefore _ _ _ _),
    collectMissingSequenceRangeBefore_eq, collectMissingSequenceRangeBetween_eq,
    collectMissingSequenceRangeBetween_eq _ _ (collectMissingPartsSequenceRange _ _ _),
    collectMissingPartsSequenceRange_eq, collectMissingSequenceRangeBefore_eq]
  by_cases hp : prev.parts = parts
  · by_cases hs : prev.startSn = next
    · simp [hp, hs, collectMissingSequenceRangeBefore]
    · simp [hp, hs]
  · simp [hp]

/-! ### The part indexes a group lacks -/

theorem mem_partCopies {base x : SequenceRange} {j p : Int} :
    x ∈ partCopies base j p ↔ ∃ i, j ≤ i ∧ i < p ∧ x = { base with partIndex := i } := by
  unfold partCopies
  rw [List.mem_map]
  constructor
  · rintro ⟨k, hk, rfl⟩
    rw [List.mem_range] at hk
    exact ⟨j + k, by omega, by omega, rfl⟩
  · rintro ⟨i, hji, hip, rfl⟩
    refine ⟨(i - j).toNat, List.mem_range.mpr (by omega), ?_⟩
    congr 1
    omega

theorem pairwise_partCopies (base : SequenceRange) (j p : Int) :
    (partCopies base j p).Pairwise fun a b => a.partIndex < b.partIndex := by
  unfold partCopies
  rw [List.pairwise_map]
  exact List.pairwise_lt_range.imp fun {a b} h => by
    show j + (a : Int) < j + b
    omega

/-- The part indexes in `[j, j')` that no range of `rs` has: what the first
loop of `collectMissingPartsSequenceRange` pushes copies for. -/
def Skipped (rs : List SequenceRange) (j j' i : Int) : Prop :=
  j ≤ i ∧ i < j' ∧ ∀ r ∈ rs, r.partIndex ≠ i

/-- The first loop, on ranges with increasing part indexes from `j` on: it ends
past every part index it met, and pushes, in increasing order, a copy for each
index it skipped. -/
theorem collectMissingPartsLoop_spec (base : SequenceRange) :
    ∀ (rs : List SequenceRange) (j : Int), (rs.Pairwise fun a b => a.partIndex < b.partIndex) →
      (∀ r ∈ rs, j ≤ r.partIndex) →
      j ≤ (collectMissingPartsLoop base j [] rs).2 ∧
        (∀ r ∈ rs, r.partIndex < (collectMissingPartsLoop base j [] rs).2) ∧
        (∀ x, x ∈ (collectMissingPartsLoop base j [] rs).1 ↔
          ∃ i, Skipped rs j (collectMissingPartsLoop base j [] rs).2 i ∧ x = { base with partIndex := i }) ∧
        ((collectMissingPartsLoop base j [] rs).1.Pairwise fun a b => a.partIndex < b.partIndex) ∧
        (∀ x ∈ (collectMissingPartsLoop base j [] rs).1, j ≤ x.partIndex) ∧
        (∀ b, j ≤ b → (∀ r ∈ rs, r.partIndex < b) → (collectMissingPartsLoop base j [] rs).2 ≤ b)
  | [], j, _, _ => by simp [collectMissingPartsLoop, Skipped]
  | r :: rs, j, hsorted, hge => by
    rw [List.pairwise_cons] at hsorted
    have hj : j ≤ r.partIndex := hge r List.mem_cons_self
    by_cases hr : r.partIndex = j
    · -- the index is there: move on
      have ih := collectMissingPartsLoop_spec base rs (j + 1) hsorted.2
        fun r' hr' => by have := hsorted.1 r' hr'; omega
      simp only [collectMissingPartsLoop, hr, ne_eq, not_true_eq_false, if_false]
      obtain ⟨h1, h2, h3, h4, h5, h6⟩ := ih
      refine ⟨by omega, ?_, fun x => ?_, h4, fun x hx => by have := h5 x hx; omega,
        fun b hjb hb => h6 b (by have := hb r List.mem_cons_self; omega)
          fun r' hr' => hb r' (List.mem_cons_of_mem _ hr')⟩
      · intro r' hr'
        rcases List.mem_cons.mp hr' with rfl | hr'
        · omega
        · exact h2 r' hr'
      · rw [h3]
        constructor
        · rintro ⟨i, ⟨hi1, hi2, hi3⟩, rfl⟩
          refine ⟨i, ⟨by omega, hi2, fun r' hr' => ?_⟩, rfl⟩
          rcases List.mem_cons.mp hr' with rfl | hr'
          · omega
          · exact hi3 r' hr'
        · rintro ⟨i, ⟨hi1, hi2, hi3⟩, rfl⟩
          have : i ≠ j := by have := hi3 r List.mem_cons_self; omega
          exact ⟨i, ⟨by omega, hi2, fun r' hr' => hi3 r' (List.mem_cons_of_mem _ hr')⟩, rfl⟩
    · -- indexes `j … part_index - 1` are skipped
      have ih := collectMissingPartsLoop_spec base rs (r.partIndex + 1) hsorted.2
        fun r' hr' => by have := hsorted.1 r' hr'; omega
      simp only [collectMissingPartsLoop, ne_eq, hr, not_false_eq_true, if_true, List.nil_append]
      rw [collectMissingPartsLoop_eq]
      obtain ⟨h1, h2, h3, h4, h5, h6⟩ := ih
      refine ⟨by omega, ?_, fun x => ?_, ?_, ?_,
        fun b hjb hb => h6 b (by have := hb r List.mem_cons_self; omega)
          fun r' hr' => hb r' (List.mem_cons_of_mem _ hr')⟩
      · intro r' hr'
        rcases List.mem_cons.mp hr' with rfl | hr'
        · omega
        · exact h2 r' hr'
      · simp only [List.mem_append, h3, mem_partCopies]
        constructor
        · rintro (⟨i, hi1, hi2, rfl⟩ | ⟨i, ⟨hi1, hi2, hi3⟩, rfl⟩)
          · refine ⟨i, ⟨hi1, by omega, fun r' hr' => ?_⟩, rfl⟩
            rcases List.mem_cons.mp hr' with rfl | hr'
            · omega
            · have := hsorted.1 r' hr'; omega
          · refine ⟨i, ⟨by omega, hi2, fun r' hr' => ?_⟩, rfl⟩
            rcases List.mem_cons.mp hr' with rfl | hr'
            · omega
            · exact hi3 r' hr'
        · rintro ⟨i, ⟨hi1, hi2, hi3⟩, rfl⟩
          have hir : i ≠ r.partIndex := (hi3 r List.mem_cons_self).symm
          by_cases hlt : i < r.partIndex
          · exact Or.inl ⟨i, hi1, hlt, rfl⟩
          · exact Or.inr ⟨i, ⟨by omega, hi2, fun r' hr' => hi3 r' (List.mem_cons_of_mem _ hr')⟩, rfl⟩
      · refine List.pairwise_append.mpr ⟨pairwise_partCopies _ _ _, h4, fun a ha b hb => ?_⟩
        obtain ⟨i, -, hi, rfl⟩ := mem_partCopies.mp ha
        have := h5 b hb
        simp only
        omega
      · intro x hx
        rcases List.mem_append.mp hx with hx | hx
        · obtain ⟨i, hi, -, rfl⟩ := mem_partCopies.mp hx
          exact hi
        · have := h5 x hx; omega

/-- The unordered case of `TEST(SequenceInfo, MissingSequenceRanges)`. -/
example :
    missingSequenceRanges [⟨8, 8, 3, 5⟩, ⟨8, 8, 1, 5⟩, ⟨2, 2, 0, 3⟩, ⟨3, 3, 0, 1⟩, ⟨4, 5, 0, 3⟩] 1 =
      ([⟨2, 2, 1, 3⟩, ⟨2, 2, 2, 3⟩, ⟨4, 5, 1, 3⟩, ⟨4, 5, 2, 3⟩, ofSn 6 7, ⟨8, 8, 0, 5⟩, ⟨8, 8, 2, 5⟩,
        ⟨8, 8, 4, 5⟩], 2, 9) := by
  decide

end Daisy.MergeTree
