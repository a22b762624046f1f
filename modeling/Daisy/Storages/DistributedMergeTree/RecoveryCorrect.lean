import Daisy.Storages.DistributedMergeTree.Recovery
import Daisy.Library.Faults
import Daisy.Library.Grouping

/-!
# `categorizeRecordsAccordingToSequenceRanges` puts each record in its bucket

For missing ranges `M` as `missingSequenceRanges` produces them (sorted by
`start_sn`, each a valid interval, any two disjoint or over one interval, as
the parts of one block are), the buckets are `expectedBuckets`: for each range
of `M` in order, and last for the records beyond `max_committed_sn`, the
records whose bucket it is (`bucketIndex`), in input order, with the ranges of
`M` that share its `start_sn`, each once (`bucketRanges`); buckets with no
record are dropped.

The loop fills the `M.length + 1` buckets one record at a time. After the
records `rs` each bucket holds the records of `rs` it gets and, once it has
one, its ranges (`bucketsAfter`); `categorizeRecord_bucketsAfter` is one step
of that, and `foldlM_categorizeRecord` the whole loop. The early cut-off at
`sequence_ranges.back().end_sn` loses nothing, since the last range ends last
(`endSn_le_of_getLast?`), and the scan for the sibling ranges from the first
range holding a record finds all of them, since none comes before it
(`filter_drop_of_first`).
-/

namespace Daisy.DistributedMergeTree

open Daisy.MergeTree Daisy.Library

/-- Missing ranges as `missingSequenceRanges` produces them: sorted by
`start_sn`, each a valid interval, any two over one interval or disjoint. -/
structure SortedRanges (M : List SequenceRange) : Prop where
  sorted : M.Pairwise fun a b => a.startSn ≤ b.startSn
  valid : ∀ r ∈ M, r.startSn ≤ r.endSn
  disjoint : M.Pairwise fun a b => (a.startSn = b.startSn ∧ a.endSn = b.endSn) ∨ ∀ x, ¬(a.Covers x ∧ b.Covers x)

/-- The bucket of a record: the last for a record beyond `max_committed_sn`,
else that of the first range of `M` holding it, if one does. -/
def bucketIndex (M : List SequenceRange) (maxCommittedSn sn : Int) : Option Nat :=
  if maxCommittedSn < sn then some M.length else M.findIdx? fun r => decide (r.startSn ≤ sn ∧ sn ≤ r.endSn)

/-- The ranges of the bucket of range `i`: those of `M` with its `start_sn`,
each once, in the order they first come; none for the last bucket. -/
def bucketRanges (M : List SequenceRange) (i : Nat) : List SequenceRange :=
  match M[i]? with
  | some r => (M.filter fun r' => r'.startSn = r.startSn).eraseDups
  | none => []

/-- What `categorizeRecordsAccordingToSequenceRanges` is to return: each
bucket with the records it gets, in input order, and its ranges, the buckets
that get no record left out. -/
def expectedBuckets (records : List Int) (M : List SequenceRange) (maxCommittedSn : Int) :
    List RecordsSequenceRangesPair :=
  ((List.range (M.length + 1)).map fun i =>
    (records.filter fun sn => bucketIndex M maxCommittedSn sn = some i, bucketRanges M i)).filter
      fun b => !b.1.isEmpty

/-- The buckets after the records `rs`: each with the records of `rs` it gets,
and its ranges once it has a record. -/
def bucketsAfter (M : List SequenceRange) (maxCommittedSn : Int) (rs : List Int) : List RecordsSequenceRangesPair :=
  (List.range (M.length + 1)).map fun i =>
    (rs.filter fun sn => bucketIndex M maxCommittedSn sn = some i,
      if rs.any fun sn => bucketIndex M maxCommittedSn sn = some i then bucketRanges M i else [])

variable {M : List SequenceRange} {maxCommittedSn : Int}

/-! ### The ranges -/

section Ranges

/-- `findMissingRange` is the first range holding the record, with its index. -/
theorem findMissingRange_map_snd (sn : Int) :
    (findMissingRange M sn).map Prod.snd = M.findIdx? fun r => decide (r.startSn ≤ sn ∧ sn ≤ r.endSn) := by
  rw [List.findIdx?_eq_fst_find?_zipIdx]
  rfl

theorem getElem?_of_findMissingRange {sn : Int} {r : SequenceRange} {i : Nat}
    (h : findMissingRange M sn = some (r, i)) : M[i]? = some r :=
  List.mem_zipIdx_iff_getElem?.mp (List.mem_of_find?_eq_some h)

@[simp] theorem bucketRanges_length : bucketRanges M M.length = [] := by
  simp [bucketRanges]

variable (hM : SortedRanges M)
include hM

/-- **The last range ends last.** Sorted by `start_sn`, a range ending after
the last would hold the last one's `start_sn`. -/
theorem endSn_le_of_getLast? {back : SequenceRange} (hback : M.getLast? = some back) :
    ∀ r ∈ M, r.endSn ≤ back.endSn := by
  obtain ⟨init, rfl⟩ := List.getLast?_eq_some_iff.mp hback
  intro r hr
  rcases List.mem_append.mp hr with hr | hr
  · have hsorted := (List.pairwise_append.mp hM.sorted).2.2 r hr back (List.mem_singleton_self _)
    have hvalid := hM.valid back (List.mem_append_right _ (List.mem_singleton_self _))
    rcases (List.pairwise_append.mp hM.disjoint).2.2 r hr back (List.mem_singleton_self _) with ⟨-, hend⟩ | hdisj
    · exact hend.le
    · -- otherwise `back.startSn` lies in both
      by_contra hlt
      exact hdisj back.startSn ⟨⟨hsorted, by omega⟩, le_rfl, hvalid⟩
  · rw [List.mem_singleton.mp hr]

/-- A range of the same `start_sn` before the first range holding a record
would hold it too. -/
theorem startSn_ne_of_lt_first {sn : Int} {i : Nat}
    (hi : (M.findIdx? fun r => decide (r.startSn ≤ sn ∧ sn ≤ r.endSn)) = some i)
    {j : Nat} (hj : j < i) (hjM : j < M.length) (hiM : i < M.length) : M[j].startSn ≠ M[i].startSn := by
  obtain ⟨_, hcovers, hfirst⟩ := List.findIdx?_eq_some_iff_getElem.mp hi
  have hnot := hfirst j hj
  simp only [decide_eq_true_eq] at hcovers hnot
  intro hstart
  rcases List.pairwise_iff_getElem.mp hM.disjoint j i hjM hiM hj with ⟨-, hend⟩ | hdisj
  · exact hnot ⟨by omega, by omega⟩
  · -- both hold the `start_sn` they share
    have hvalidj := hM.valid M[j] (List.getElem_mem hjM)
    have hvalidi := hM.valid M[i] (List.getElem_mem hiM)
    exact hdisj M[i].startSn ⟨⟨by omega, by omega⟩, le_rfl, hvalidi⟩

/-- The sibling ranges of the first range holding a record all come from it on. -/
theorem filter_drop_of_first {sn : Int} {i : Nat}
    (hi : (M.findIdx? fun r => decide (r.startSn ≤ sn ∧ sn ≤ r.endSn)) = some i) (hiM : i < M.length) :
    ((M.drop i).filter fun r => r.startSn = M[i].startSn) = M.filter fun r => r.startSn = M[i].startSn := by
  have hbefore : ∀ r ∈ M.take i, r.startSn ≠ M[i].startSn := by
    intro r hr
    obtain ⟨j, hj, rfl⟩ := List.getElem_of_mem hr
    rw [List.length_take] at hj
    simpa using startSn_ne_of_lt_first hM hi (by omega) (by omega) hiM
  generalize M[i].startSn = s at hbefore ⊢
  have htake : ((M.take i).filter fun r => r.startSn = s) = [] := List.filter_eq_nil_iff.mpr (by simpa using hbefore)
  conv_rhs => rw [← List.take_append_drop i M]
  rw [List.filter_append, htake, List.nil_append]

/-- **The scan for sibling ranges.** From the first range holding a record,
`collectMissingRangeParts` gives the bucket its ranges, whether it had none
yet or had them already. -/
theorem collectMissingRangeParts_of_first {sn : Int} {r : SequenceRange} {i : Nat}
    (hi : (M.findIdx? fun r => decide (r.startSn ≤ sn ∧ sn ≤ r.endSn)) = some i) (hr : M[i]? = some r)
    {acc : List SequenceRange} (hacc : acc = [] ∨ acc = bucketRanges M i) :
    collectMissingRangeParts M i r.startSn acc = bucketRanges M i := by
  obtain ⟨hiM, rfl⟩ := List.getElem?_eq_some_iff.mp hr
  have hranges : bucketRanges M i = (M.filter fun r' => r'.startSn = M[i].startSn).eraseDups := by
    simp [bucketRanges, hiM]
  -- the loop is `pushMissingRange` over the siblings from `i` on
  have hloop : collectMissingRangeParts M i M[i].startSn acc =
      acc ++ (((M.filter fun r' => r'.startSn = M[i].startSn).filter fun r' => r' ∉ acc)).eraseDups := by
    rw [collectMissingRangeParts, ← filter_drop_of_first hM hi hiM]
    exact (foldl_pushNew_if (fun r' => r'.startSn = M[i].startSn) _ acc).trans (foldl_pushNew _ acc)
  rcases hacc with rfl | rfl
  · rw [hloop, hranges]
    simp
  · -- every sibling is there already
    have hnil : ((M.filter fun r' => r'.startSn = M[i].startSn).filter fun r' => r' ∉ bucketRanges M i) = [] := by
      rw [List.filter_eq_nil_iff]
      intro r' hr'
      simp [hranges, List.mem_eraseDups, hr']
    rw [hloop, hnil]
    simp

end Ranges

/-! ### The loop -/

section Loop

@[simp] theorem length_bucketsAfter (rs : List Int) :
    (bucketsAfter M maxCommittedSn rs).length = M.length + 1 := by
  simp [bucketsAfter]

theorem bucketsAfter_nil : bucketsAfter M maxCommittedSn [] = List.replicate (M.length + 1) ([], []) := by
  simp [bucketsAfter, List.map_const']

/-- A record of no bucket changes none. -/
theorem bucketsAfter_append_of_none {sn : Int} (h : bucketIndex M maxCommittedSn sn = none) (rs : List Int) :
    bucketsAfter M maxCommittedSn (rs ++ [sn]) = bucketsAfter M maxCommittedSn rs := by
  simp [bucketsAfter, List.filter_append, h]

/-- A record of bucket `i` goes at the end of it, and the bucket gets its
ranges, by any update `g` that gives them from none or from themselves. -/
theorem bucketsAfter_append_of_some {sn : Int} {i : Nat} (h : bucketIndex M maxCommittedSn sn = some i)
    (g : List SequenceRange → List SequenceRange) (hg : ∀ acc, acc = [] ∨ acc = bucketRanges M i → g acc = bucketRanges M i)
    (rs : List Int) :
    (bucketsAfter M maxCommittedSn rs).modify i (fun b => (b.1 ++ [sn], g b.2)) =
      bucketsAfter M maxCommittedSn (rs ++ [sn]) := by
  apply List.ext_getElem (by simp)
  intro j hj _
  rw [List.getElem_modify]
  by_cases hij : i = j
  · subst hij
    have hranges : ∀ (c : Prop) [Decidable c], g (if c then bucketRanges M i else []) = bucketRanges M i := by
      intro c _
      apply hg
      split <;> simp
    simp [bucketsAfter, List.filter_append, h, hranges]
  · have hne : some i ≠ some j := by simpa using hij
    simp [bucketsAfter, List.filter_append, h, hij, hne]

variable (hM : SortedRanges M) (hne : M ≠ [])
include hM hne

/-- **One record.** `categorizeRecord` takes the buckets after `rs` to the
buckets after `rs ++ [sn]`. -/
theorem categorizeRecord_bucketsAfter (rs : List Int) (sn : Int) :
    categorizeRecord M maxCommittedSn (bucketsAfter M maxCommittedSn rs) sn =
      .ok (bucketsAfter M maxCommittedSn (rs ++ [sn])) := by
  obtain ⟨back, hback⟩ : ∃ back, M.getLast? = some back := ⟨_, List.getLast?_eq_some_getLast hne⟩
  by_cases hmax : maxCommittedSn < sn
  · -- beyond `max_committed_sn`: the last bucket, which has no range
    have hi : bucketIndex M maxCommittedSn sn = some M.length := if_pos hmax
    rw [categorizeRecord, if_pos hmax, ← bucketsAfter_append_of_some hi id (by simp)]
    rfl
  have hindex : bucketIndex M maxCommittedSn sn = M.findIdx? fun r => decide (r.startSn ≤ sn ∧ sn ≤ r.endSn) :=
    if_neg hmax
  rw [categorizeRecord, if_neg hmax, hback]
  by_cases hend : back.endSn < sn
  · -- past the end of the last range, so of every range
    have hnone : bucketIndex M maxCommittedSn sn = none := by
      rw [hindex, List.findIdx?_eq_none_iff]
      intro r hr
      have := endSn_le_of_getLast? hM hback r hr
      simp only [decide_eq_false_iff_not, not_and, not_le]
      omega
    simp only [if_pos hend]
    rw [bucketsAfter_append_of_none hnone]
    rfl
  simp only [if_neg hend]
  have hfind := findMissingRange_map_snd (M := M) sn
  cases hr : findMissingRange M sn with
  | none =>
    rw [hr] at hfind
    rw [bucketsAfter_append_of_none (hindex.trans hfind.symm)]
    rfl
  | some p =>
    obtain ⟨r, i⟩ := p
    rw [hr] at hfind
    have hi : (M.findIdx? fun r => decide (r.startSn ≤ sn ∧ sn ≤ r.endSn)) = some i := hfind.symm
    rw [← bucketsAfter_append_of_some (hindex.trans hi) _
      fun _ hacc => collectMissingRangeParts_of_first hM hi (getElem?_of_findMissingRange hr) hacc]
    rfl

/-- **The loop.** Over the records `rs`, from the buckets after `pre`. -/
theorem foldlM_categorizeRecord (rs pre : List Int) :
    rs.foldlM (categorizeRecord M maxCommittedSn) (bucketsAfter M maxCommittedSn pre) =
      .ok (bucketsAfter M maxCommittedSn (pre ++ rs)) := by
  induction rs generalizing pre with
  | nil => simp; rfl
  | cons sn rs ih =>
    rw [List.foldlM_cons, categorizeRecord_bucketsAfter hM hne, ok_bind, ih]
    simp

end Loop

/-- The buckets of the records that get one are the expected ones. -/
theorem filter_bucketsAfter (records : List Int) :
    (bucketsAfter M maxCommittedSn records).filter (fun b => !b.1.isEmpty) =
      expectedBuckets records M maxCommittedSn := by
  simp only [bucketsAfter, expectedBuckets, List.filter_map]
  apply List.map_congr_left
  intro i hi
  -- a bucket that is kept has a record, and so its ranges
  have hany : records.any (fun sn => bucketIndex M maxCommittedSn sn = some i) = true := by
    have := (List.mem_filter.mp hi).2
    simp only [Function.comp_apply, Bool.not_eq_true', List.isEmpty_eq_false_iff, ne_eq,
      List.filter_eq_nil_iff, not_forall, not_not] at this
    obtain ⟨sn, hsn, h⟩ := this
    exact List.any_eq_true.mpr ⟨sn, hsn, h⟩
  simp [hany]

/-- **`categorizeRecordsAccordingToSequenceRanges` is `expectedBuckets`.** For
every list of records, every `max_committed_sn` and every non-empty list of
missing ranges as `missingSequenceRanges` produces them, the buckets are
those of `expectedBuckets`: each record beyond `max_committed_sn` in the last
one, which has no range; each other record in the bucket of the first range
holding it, with the ranges of its `start_sn` once each in the order of `M`;
the other records in none; every bucket in input order, and none empty. -/
theorem categorizeRecords_eq_expectedBuckets (records : List Int) (M : List SequenceRange) (maxCommittedSn : Int)
    (hne : M ≠ []) (hM : SortedRanges M) :
    categorizeRecordsAccordingToSequenceRanges records M maxCommittedSn =
      .ok (expectedBuckets records M maxCommittedSn) := by
  rw [categorizeRecordsAccordingToSequenceRanges, ← (bucketsAfter_nil : bucketsAfter M maxCommittedSn [] = _),
    foldlM_categorizeRecord hM hne, List.nil_append, ok_bind, filter_bucketsAfter]
  rfl

/-- A whole missing block `[1, 2]` and the two missing parts of the block
`[4, 5]`, with the records `1, 3, 4, 6` and `max_committed_sn = 5`. -/
theorem categorizeRecords_eq_expectedBuckets_parts :
    [SequenceRange.ofSn 1 2, ⟨4, 5, 0, 2⟩, ⟨4, 5, 1, 2⟩] ≠ [] ∧
      SortedRanges [SequenceRange.ofSn 1 2, ⟨4, 5, 0, 2⟩, ⟨4, 5, 1, 2⟩] ∧
      categorizeRecordsAccordingToSequenceRanges [1, 3, 4, 6] [SequenceRange.ofSn 1 2, ⟨4, 5, 0, 2⟩, ⟨4, 5, 1, 2⟩] 5 =
        .ok (expectedBuckets [1, 3, 4, 6] [SequenceRange.ofSn 1 2, ⟨4, 5, 0, 2⟩, ⟨4, 5, 1, 2⟩] 5) := by
  have hM : SortedRanges [SequenceRange.ofSn 1 2, ⟨4, 5, 0, 2⟩, ⟨4, 5, 1, 2⟩] := by
    refine ⟨by decide, by decide, ?_⟩
    simp only [List.pairwise_cons, List.mem_cons, List.not_mem_nil, or_false, forall_eq_or_imp, forall_eq,
      List.Pairwise.nil, and_true, SequenceRange.Covers, SequenceRange.ofSn_startSn, SequenceRange.ofSn_endSn]
    -- the whole block lies before the parts, which share their interval
    refine ⟨⟨.inr ?_, .inr ?_⟩, .inl trivial, fun _ h => h.elim⟩ <;> omega
  exact ⟨by simp, hM, categorizeRecords_eq_expectedBuckets _ _ _ (by simp) hM⟩

end Daisy.DistributedMergeTree
