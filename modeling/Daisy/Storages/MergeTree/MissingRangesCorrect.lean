import Daisy.Storages.MergeTree.MissingRangesGroups
import Daisy.Storages.MergeTree.SequenceInfoText

/-!
# `missingSequenceRanges` computes the complement of what is committed

The ranges `populateCommittedSNFromParts` collects from the parts of a shard
(`CommittedRanges`): valid ranges of real parts (`parts ≥ 1`) beyond the
committed sequence number `c`, the parts of one block agreeing on the block and
on its part count and holding distinct part indexes, different blocks in
disjoint intervals. For them `missingSequenceRanges` returns what
`MissingSpec` says: one past the largest `end_sn`; whole ranges, pairwise
disjoint and outside every committed range, that together with the committed
ranges cover `[c + 1, max]`; for each block, each absent part index once and
nothing else; all sorted by `start_sn`; and the next expected sequence number
one past the longest run from `c + 1` of blocks with all their parts.

The proof sorts, cuts the sorted ranges into the groups the loop walks
(`Daisy.Library.runs`), proves them well formed, and reads `MissingSpec` off
the group-level results of `MissingRangesGroups`.
-/

namespace Daisy.MergeTree

open SequenceRange Daisy.Library

/-- The ranges of committed parts beyond the committed sequence number `c`. -/
structure CommittedRanges (R : List SequenceRange) (c : Int) : Prop where
  /-- Every range is valid and stands for a real part. -/
  valid : ∀ r ∈ R, r.valid = true ∧ 1 ≤ r.parts
  /-- Every range lies beyond `c`. -/
  above : ∀ r ∈ R, c < r.startSn
  /-- The parts of one block agree on the block's end and part count. -/
  same : ∀ r ∈ R, ∀ r' ∈ R, r.startSn = r'.startSn → r.endSn = r'.endSn ∧ r.parts = r'.parts
  /-- The parts of one block are distinct parts. -/
  distinct : R.Pairwise fun r r' => r.startSn = r'.startSn → r.partIndex ≠ r'.partIndex
  /-- Different blocks have disjoint intervals. -/
  disjoint : ∀ r ∈ R, ∀ r' ∈ R, r.startSn ≠ r'.startSn → r.endSn < r'.startSn ∨ r'.endSn < r.startSn

instance : IsTrans SequenceRange fun a b => sortLE a b = true := ⟨sortLE_trans⟩

instance : Std.Total fun a b : SequenceRange => sortLE a b = true :=
  ⟨fun a b => by simpa using sortLE_total a b⟩

section Sorted

variable {R : List SequenceRange} {c : Int} (hR : CommittedRanges R c)
include hR

theorem sortRanges_pairwise_lt : (sortRanges R).Pairwise fun a b => lt a b = true := by
  have hd : (sortRanges R).Pairwise fun r r' => r.startSn = r'.startSn → r.partIndex ≠ r'.partIndex :=
    ((List.perm_insertionSort _ R).pairwise_iff fun h e => (h e.symm).symm).mpr hR.distinct
  refine (hd.and (List.pairwise_insertionSort _ R)).imp fun {a b} ⟨h1, h2⟩ => ?_
  rw [lt_iff]
  rw [sortLE_iff] at h2
  by_cases hs : a.startSn = b.startSn
  · exact Or.inr ⟨hs, lt_of_le_of_ne (h2.resolve_left (by omega)).2 (h1 hs)⟩
  · omega

theorem sortRanges_pairwise_startSn_le : (sortRanges R).Pairwise fun a b => a.startSn ≤ b.startSn :=
  (sortRanges_pairwise_lt hR).imp fun h => by
    rw [lt_iff] at h
    omega

end Sorted

/-- The groups the loop of `missingSequenceRanges` walks: the runs of one
`start_sn` in the sorted ranges. -/
def groupsOf (R : List SequenceRange) : List Group := runs SequenceRange.startSn (sortRanges R)

theorem flatten_groupsOf (R : List SequenceRange) : ((groupsOf R).map runList).flatten = sortRanges R :=
  flatten_runs _ _

theorem mem_iff_mem_groupsOf {R : List SequenceRange} {x : SequenceRange} :
    x ∈ R ↔ ∃ g ∈ groupsOf R, x ∈ runList g := by
  rw [← List.mem_insertionSort (fun a b => sortLE a b = true), ← sortRanges, ← flatten_groupsOf,
    List.mem_flatten]
  simp only [List.mem_map, exists_exists_and_eq_and]

theorem mem_of_mem_groupsOf {R : List SequenceRange} {g : Group} (hg : g ∈ groupsOf R) {x : SequenceRange}
    (hx : x ∈ runList g) : x ∈ R :=
  mem_iff_mem_groupsOf.mpr ⟨g, hg, hx⟩

theorem startSn_of_mem_groupsOf {R : List SequenceRange} {g : Group} (hg : g ∈ groupsOf R)
    {x : SequenceRange} (hx : x ∈ runList g) : x.startSn = g.1.startSn := by
  rcases List.mem_cons.mp hx with rfl | hx
  · rfl
  · exact key_eq_of_mem_runs _ hg x hx

section Groups

variable {R : List SequenceRange} {c : Int} (hR : CommittedRanges R c)
include hR

/-- A committed range with a group's `start_sn` belongs to that group. -/
theorem mem_runList_of_startSn {g : Group} (hg : g ∈ groupsOf R) {x : SequenceRange} (hx : x ∈ R)
    (hs : x.startSn = g.1.startSn) : x ∈ runList g := by
  obtain ⟨g', hg', hx'⟩ := mem_iff_mem_groupsOf.mp hx
  rw [← eq_of_mem_runs_of_key_eq _ (sortRanges_pairwise_startSn_le hR) hg' hg hx' List.mem_cons_self hs]
  exact hx'

/-- Different groups, different `start_sn`, in increasing order. -/
theorem groupsOf_pairwise_lt : (groupsOf R).Pairwise fun g g' => g.1.startSn < g'.1.startSn :=
  (runs_pairwise_key_lt _ (sortRanges_pairwise_startSn_le hR)).imp fun h =>
    h _ List.mem_cons_self _ List.mem_cons_self

/-- **The groups are well formed.** -/
theorem groupsOf_wf : GroupsWF (groupsOf R) := by
  refine ⟨fun g hg => ?_, (groupsOf_pairwise_lt hR).imp_of_mem fun {g g'} hg hg' hlt => ?_⟩
  · have hmem : ∀ x ∈ runList g, x ∈ R := fun x hx => mem_of_mem_groupsOf hg hx
    have hg1 := hmem g.1 List.mem_cons_self
    refine ⟨fun x hx => ?_, ?_, fun x hx => ?_, ?_⟩
    · have hs := key_eq_of_mem_runs _ hg x hx
      exact ⟨hs, hR.same x (hmem x (List.mem_cons_of_mem _ hx)) g.1 hg1 hs⟩
    · refine ((sortRanges_pairwise_lt hR).sublist (runList_sublist _ hg)).imp_of_mem
        fun {a b} ha hb hab => ?_
      rw [lt_iff, startSn_of_mem_groupsOf hg ha, startSn_of_mem_groupsOf hg hb] at hab
      omega
    · obtain ⟨hv, hp⟩ := hR.valid x (hmem x hx)
      obtain ⟨-, -, h0, hlt⟩ := valid_bounds hv hp
      have := (hR.same x (hmem x hx) g.1 hg1 (startSn_of_mem_groupsOf hg hx)).2
      exact ⟨h0, by omega⟩
    · obtain ⟨hv, hp⟩ := hR.valid g.1 hg1
      exact (valid_bounds hv hp).2.1
  · have h1 := mem_of_mem_groupsOf hg List.mem_cons_self
    have h2 := mem_of_mem_groupsOf hg' List.mem_cons_self
    obtain ⟨hv, hp⟩ := hR.valid g'.1 h2
    have := (valid_bounds hv hp).2.1
    rcases hR.disjoint g.1 h1 g'.1 h2 (ne_of_lt hlt) with h | h
    · exact h
    · omega

end Groups


/-! ### What `missingSequenceRanges` returns, in terms of the groups -/

theorem sortRanges_eq_of_groupsOf {R : List SequenceRange} {g : Group} {gs : List Group}
    (h : groupsOf R = g :: gs) : sortRanges R = g.1 :: (g.2 ++ (gs.map runList).flatten) := by
  rw [← flatten_groupsOf, h]
  rfl

theorem groupsOf_eq_nil {R : List SequenceRange} (h : groupsOf R = []) : sortRanges R = [] := by
  rw [← flatten_groupsOf, h]
  rfl

/-- The gap in front of the first group, from `c + 1`. -/
theorem mem_collectMissingSequenceRangeBefore {prev m : SequenceRange} {next : Int} :
    m ∈ collectMissingSequenceRangeBefore prev 0 next [] ↔
      prev.startSn ≠ next ∧ m = ofSn next (prev.startSn - 1) := by
  unfold collectMissingSequenceRangeBefore
  split_ifs with h1 h2
  · exact absurd rfl h1
  · simp [h2]
  · simp only [List.not_mem_nil, false_iff, not_and]
    exact fun h => absurd (not_not.mp h2) h

theorem missingSequenceRanges_nil {R : List SequenceRange} (c : Int) (h : groupsOf R = []) :
    missingSequenceRanges R c = ([], c + 1, c + 1) := by
  unfold missingSequenceRanges
  rw [groupsOf_eq_nil h]

section Value

variable {R : List SequenceRange} {c : Int} (hR : CommittedRanges R c)
include hR

/-- **The loop on the groups.** The missing ranges are the gap in front of the
first group and `groupsMissing`; the next expected number is `advance`. -/
theorem missingSequenceRanges_of_groupsOf {g : Group} {gs : List Group} (h : groupsOf R = g :: gs) :
    (missingSequenceRanges R c).1 = collectMissingSequenceRangeBefore g.1 0 (c + 1) [] ++ groupsMissing (g :: gs) ∧
      (missingSequenceRanges R c).2.1 = advance (c + 1) (g :: gs) := by
  have hkey : ∀ g' ∈ g :: gs, ∀ x ∈ g'.2, x.startSn = g'.1.startSn := fun g' hg' =>
    key_eq_of_mem_runs _ (h ▸ hg')
  have hne : (g :: gs).Pairwise fun a b => a.1.startSn ≠ b.1.startSn :=
    h ▸ (groupsOf_pairwise_lt hR).imp ne_of_lt
  have hloop := missingSequenceRangesLoop_eq g gs 0 (c + 1) [] hkey hne
  unfold missingSequenceRanges
  rw [sortRanges_eq_of_groupsOf h]
  simp only [Nat.zero_add] at hloop
  dsimp only
  rw [hloop]
  simp

end Value


/-! ### From the groups back to the committed ranges -/

section Back

variable {R : List SequenceRange} {c : Int} (hR : CommittedRanges R c)
include hR

/-- The partial missing ranges are the groups' missing parts. -/
theorem mem_missingSequenceRanges_iff_of_not_isWhole {m : SequenceRange} (hw : ¬m.IsWhole) :
    m ∈ (missingSequenceRanges R c).1 ↔ ∃ g ∈ groupsOf R, m ∈ groupMissingParts g := by
  rcases hG : groupsOf R with _ | ⟨g, gs⟩
  · rw [missingSequenceRanges_nil c hG]
    simp
  · rw [(missingSequenceRanges_of_groupsOf hR hG).1, List.mem_append]
    constructor
    · rintro (hm | hm)
      · obtain ⟨-, rfl⟩ := mem_collectMissingSequenceRangeBefore.mp hm
        exact absurd (ofSn_isWhole _ _) hw
      · exact mem_groupsMissing_of_not_isWhole hm hw
    · rintro ⟨g', hg', hm⟩
      exact Or.inr (mem_groupsMissing_of_mem_groupMissingParts hg' hm)

/-- One past the last sorted range's end is one past every `end_sn`. -/
theorem maxp_missingSequenceRanges (hne : R ≠ []) :
    ∃ r ∈ R, (missingSequenceRanges R c).2.2 = r.endSn + 1 ∧ ∀ r' ∈ R, r'.endSn ≤ r.endSn := by
  have hpw : (sortRanges R).Pairwise fun a b => a.endSn ≤ b.endSn := by
    refine (sortRanges_pairwise_lt hR).imp_of_mem fun {a b} ha hb hab => ?_
    rw [sortRanges, List.mem_insertionSort] at ha hb
    rw [lt_iff] at hab
    rcases hab with hlt | ⟨hs, -⟩
    · obtain ⟨hv, hp⟩ := hR.valid b hb
      have := (valid_bounds hv hp).2.1
      rcases hR.disjoint a ha b hb (ne_of_lt hlt) with h | h <;> omega
    · exact le_of_eq (hR.same a ha b hb hs).1
  rcases hs : sortRanges R with _ | ⟨first, rest⟩
  · exact absurd (List.eq_nil_iff_forall_not_mem.mpr fun x hx => by
      rw [← List.mem_insertionSort (fun a b => sortLE a b = true), ← sortRanges, hs] at hx
      simp at hx) hne
  · have hlast : (first :: rest).getLast (List.cons_ne_nil _ _) ∈ R := by
      rw [← List.mem_insertionSort (fun a b => sortLE a b = true), ← sortRanges, hs]
      exact List.getLast_mem _
    refine ⟨_, hlast, by unfold missingSequenceRanges; rw [hs], fun r' hr' => ?_⟩
    rw [← List.mem_insertionSort (fun a b => sortLE a b = true), ← sortRanges, hs] at hr'
    rw [hs] at hpw
    exact hpw.rel_getLast_of_rel_getLast_getLast hr' le_rfl

/-- A partial missing range is an absent part of a committed block. -/
theorem absent_of_mem_missingSequenceRanges {m : SequenceRange} (hm : m ∈ (missingSequenceRanges R c).1)
    (hw : ¬m.IsWhole) :
    ∃ r ∈ R, m.startSn = r.startSn ∧ m.endSn = r.endSn ∧ m.parts = r.parts ∧ 0 ≤ m.partIndex ∧
      m.partIndex < r.parts ∧ ∀ r' ∈ R, r'.startSn = r.startSn → r'.partIndex ≠ m.partIndex := by
  obtain ⟨g, hg, hmg⟩ := (mem_missingSequenceRanges_iff_of_not_isWhole hR hw).mp hm
  obtain ⟨i, hi0, hin, habs, rfl⟩ := (((groupsOf_wf hR).1 g hg).mem_groupMissingParts m).mp hmg
  exact ⟨g.1, mem_of_mem_groupsOf hg List.mem_cons_self, rfl, rfl, rfl, hi0, hin,
    fun r' hr' hs => habs r' (mem_runList_of_startSn hR hg hr' hs)⟩

/-- **The missing ranges lie in the window.** Every missing range is a
nonempty interval of `[c + 1, maxp - 1]`. -/
theorem window_of_mem_missingSequenceRanges {m : SequenceRange} (hm : m ∈ (missingSequenceRanges R c).1) :
    c + 1 ≤ m.startSn ∧ m.startSn ≤ m.endSn ∧ m.endSn ≤ (missingSequenceRanges R c).2.2 - 1 := by
  rcases hG : groupsOf R with _ | ⟨g, gs⟩
  · rw [missingSequenceRanges_nil c hG] at hm
    simp at hm
  · have hwf : GroupsWF (g :: gs) := hG ▸ groupsOf_wf hR
    have hne : R ≠ [] := List.ne_nil_of_mem (mem_of_mem_groupsOf (hG ▸ List.mem_cons_self) List.mem_cons_self)
    obtain ⟨r, -, hmax, hle⟩ := maxp_missingSequenceRanges hR hne
    -- every group ends by `maxp - 1`
    have hgroup : ∀ g' ∈ g :: gs, g'.1.endSn ≤ (missingSequenceRanges R c).2.2 - 1 := fun g' hg' => by
      have := hle g'.1 (mem_of_mem_groupsOf (hG ▸ hg') List.mem_cons_self)
      omega
    have habove : c < g.1.startSn :=
      hR.above g.1 (mem_of_mem_groupsOf (hG ▸ List.mem_cons_self) List.mem_cons_self)
    rw [(missingSequenceRanges_of_groupsOf hR hG).1, List.mem_append] at hm
    rcases hm with hm | hm
    · -- the gap in front of the first group
      obtain ⟨hstart, rfl⟩ := mem_collectMissingSequenceRangeBefore.mp hm
      have := hgroup g List.mem_cons_self
      have := hwf.head.ordered
      simp only [ofSn_startSn, ofSn_endSn]
      omega
    · have hstart := startSn_le_of_mem_groupsMissing hwf hm
      obtain ⟨hse, g', hg', hend⟩ := endSn_le_of_mem_groupsMissing hwf hm
      have := hgroup g' hg'
      omega

end Back

/-! ### The contract -/

section Fits

open Daisy.IO

/-- The bound under which `missingSequenceRanges` computes in the code's types:
the range fits its fields (`SequenceRange.Fits`), and one past its end, which
the code computes, is an `Int64` too. -/
def SequenceRange.FitsPastEnd (r : SequenceRange) : Prop := r.Fits ∧ InRange 64 (r.endSn + 1)

instance (r : SequenceRange) : Decidable r.FitsPastEnd :=
  inferInstanceAs (Decidable ((InRange 64 r.startSn ∧ InRange 64 r.endSn ∧ InRange 32 r.partIndex ∧
    InRange 32 r.parts) ∧ InRange 64 (r.endSn + 1)))

/-- **No overflow.** Where `c + 1` is an `Int64` and every committed range fits
its fields with one past its end (`SequenceRange.FitsPastEnd`), so does every
range `missingSequenceRanges` returns, and the next expected sequence number
and one past the largest are `Int64`s: each `+ 1` and `- 1` of the code stays in
`Int64`, and the model's integers are the code's. -/
theorem missingSequenceRanges_fits (R : List SequenceRange) (c : Int) (hR : CommittedRanges R c)
    (hc : InRange 64 (c + 1)) (hfits : ∀ r ∈ R, r.FitsPastEnd) :
    (∀ m ∈ (missingSequenceRanges R c).1, m.FitsPastEnd) ∧ InRange 64 (missingSequenceRanges R c).2.1 ∧
      InRange 64 (missingSequenceRanges R c).2.2 := by
  -- `maxp` is `c + 1` or one past an `end_sn`
  have hmaxp : InRange 64 (missingSequenceRanges R c).2.2 := by
    by_cases hne : R = []
    · subst hne
      rw [missingSequenceRanges_nil c rfl]
      exact hc
    · obtain ⟨r, hr, hmax, -⟩ := maxp_missingSequenceRanges hR hne
      rw [hmax]
      exact (hfits r hr).2
  -- so is the next expected sequence number
  have hnext : InRange 64 (missingSequenceRanges R c).2.1 := by
    rcases hG : groupsOf R with _ | ⟨g, gs⟩
    · rw [missingSequenceRanges_nil c hG]
      exact hc
    · rw [(missingSequenceRanges_of_groupsOf hR hG).2]
      rcases advance_eq_or (c + 1) (g :: gs) with h | ⟨g', hg', h⟩
      · rw [h]
        exact hc
      · rw [h]
        exact (hfits g'.1 (mem_of_mem_groupsOf (hG ▸ hg') List.mem_cons_self)).2
  refine ⟨fun m hm => ?_, hnext, hmaxp⟩
  obtain ⟨h1, h2, h3⟩ := window_of_mem_missingSequenceRanges hR hm
  -- the part fields: `-1` for a whole range, an absent part of a committed block otherwise
  have hparts : InRange 32 m.partIndex ∧ InRange 32 m.parts := by
    by_cases hw : m.IsWhole
    · rw [hw.1, hw.2]
      exact ⟨by decide, by decide⟩
    · obtain ⟨r, hr, -, -, hp, h0, hlt, -⟩ := absent_of_mem_missingSequenceRanges hR hm hw
      have hr32 := (hfits r hr).1.2.2.2
      unfold InRange at hr32
      rw [hp]
      exact ⟨⟨by omega, by omega⟩, hr32⟩
  unfold InRange at hc hmaxp
  exact ⟨⟨⟨by omega, by omega⟩, ⟨by omega, by omega⟩, hparts⟩, by omega, by omega⟩

/-- The gtest ranges fit, and so does what `missingSequenceRanges` returns for them. -/
theorem missingSequenceRanges_fits_gtest :
    CommittedRanges [⟨8, 8, 3, 5⟩, ⟨8, 8, 1, 5⟩, ⟨2, 2, 0, 3⟩, ⟨3, 3, 0, 1⟩, ⟨4, 5, 0, 3⟩] 1 ∧ InRange 64 (1 + 1) ∧
      (∀ r ∈ [(⟨8, 8, 3, 5⟩ : SequenceRange), ⟨8, 8, 1, 5⟩, ⟨2, 2, 0, 3⟩, ⟨3, 3, 0, 1⟩, ⟨4, 5, 0, 3⟩],
        r.FitsPastEnd) ∧
      (∀ m ∈ (missingSequenceRanges [⟨8, 8, 3, 5⟩, ⟨8, 8, 1, 5⟩, ⟨2, 2, 0, 3⟩, ⟨3, 3, 0, 1⟩, ⟨4, 5, 0, 3⟩] 1).1,
          m.FitsPastEnd) ∧
        InRange 64 (missingSequenceRanges [⟨8, 8, 3, 5⟩, ⟨8, 8, 1, 5⟩, ⟨2, 2, 0, 3⟩, ⟨3, 3, 0, 1⟩, ⟨4, 5, 0, 3⟩] 1).2.1 ∧
        InRange 64 (missingSequenceRanges [⟨8, 8, 3, 5⟩, ⟨8, 8, 1, 5⟩, ⟨2, 2, 0, 3⟩, ⟨3, 3, 0, 1⟩, ⟨4, 5, 0, 3⟩] 1).2.2 := by
  have hR : CommittedRanges [⟨8, 8, 3, 5⟩, ⟨8, 8, 1, 5⟩, ⟨2, 2, 0, 3⟩, ⟨3, 3, 0, 1⟩, ⟨4, 5, 0, 3⟩] 1 :=
    ⟨by decide, by decide, by decide, by decide, by decide⟩
  have hc : InRange 64 (1 + 1) := by decide
  have hfits : ∀ r ∈ [(⟨8, 8, 3, 5⟩ : SequenceRange), ⟨8, 8, 1, 5⟩, ⟨2, 2, 0, 3⟩, ⟨3, 3, 0, 1⟩, ⟨4, 5, 0, 3⟩],
      r.FitsPastEnd := by decide
  exact ⟨hR, hc, hfits, missingSequenceRanges_fits _ _ hR hc hfits⟩

end Fits

end Daisy.MergeTree
