import Daisy.Storages.MergeTree.MissingRanges
import Daisy.Library.Runs
import Daisy.Library.Indexes

/-!
# Missing sequence ranges, group by group

The loop of `missingSequenceRanges` settles one group of ranges, one `start_sn`,
each time the `start_sn` changes. This module states what the loop computes in
terms of the groups: the missing ranges are the gap in front of the first group
followed, for each group, by the part indexes it lacks and the gap up to the
next group (`groupsMissing`); the next expected sequence number moves past each
complete group that starts where it stands (`advance`). `missingSequenceRangesLoop_eq`
proves the loop computes exactly this.

Over groups that are well formed (`GroupsWF`: the ranges of a group share
`end_sn` and `parts` and have increasing part indexes below `parts`; the groups
come in increasing, disjoint intervals) the module then proves what
`missingSequenceRanges_spec` rests on: the entries come in increasing order, the
whole-range entries cover exactly the sequence numbers no group covers, the
partial entries of a group are its absent part indexes, and `advance` stops at
the first sequence number that no complete group covers.
-/

namespace Daisy.MergeTree

open SequenceRange Daisy.Library

/-- A group: its first range and the others. -/
abbrev Group := SequenceRange × List SequenceRange

/-- The group holds all its parts: it has `parts` ranges. -/
abbrev Group.Complete (g : Group) : Prop := g.1.parts = 1 + (g.2.length : Int)

/-- `next_expecting_sn` after the groups: it moves past a complete group that
starts at it. -/
def advance (next : Int) : List Group → Int
  | [] => next
  | g :: gs => advance (if g.Complete ∧ g.1.startSn = next then g.1.endSn + 1 else next) gs

/-- The part ranges `collectMissingSequenceRanges` pushes for one group. -/
def groupMissingParts (g : Group) : List SequenceRange :=
  if g.Complete then [] else collectMissingPartsSequenceRange g.1 g.2 []

/-- The gap pushed after a group, up to the next group. -/
def gapAfter (g : Group) : List Group → List SequenceRange
  | [] => []
  | g' :: _ => collectMissingSequenceRangeBetween g.1 g'.1 []

/-- Everything pushed for the groups, except the gap in front of the first. -/
def groupsMissing : List Group → List SequenceRange
  | [] => []
  | g :: gs => groupMissingParts g ++ gapAfter g gs ++ groupsMissing gs

/-! ### The loop computes the groups' settlement -/

/-- Ranges with the group's `start_sn` join the group. -/
theorem missingSequenceRangesLoop_append_run (prev : SequenceRange) (others run rest : List SequenceRange)
    (prevIndex curIndex : Nat) (parts next : Int) (missing : List SequenceRange)
    (hrun : ∀ x ∈ run, x.startSn = prev.startSn) :
    missingSequenceRangesLoop prev others prevIndex curIndex parts next missing (run ++ rest) =
      missingSequenceRangesLoop prev (others ++ run) prevIndex (curIndex + run.length)
        (parts + run.length) next missing rest := by
  induction run generalizing others curIndex parts with
  | nil => simp
  | cons x run ih =>
    have hx : prev.startSn = x.startSn := (hrun x List.mem_cons_self).symm
    have hi : curIndex + 1 + run.length = curIndex + (x :: run).length := by
      rw [List.length_cons]
      omega
    have hp : parts + 1 + (run.length : Int) = parts + ((x :: run).length : Int) := by
      rw [List.length_cons]
      push_cast
      omega
    rw [List.cons_append, missingSequenceRangesLoop, if_pos hx,
      ih _ _ _ fun y hy => hrun y (List.mem_cons_of_mem _ hy), hi, hp, List.append_assoc,
      List.singleton_append]

/-- **The loop settles the groups.** Started on the first range of a group, with
the rest of the group and the later groups to walk, the loop returns `advance`
and pushes the gap in front (first group only) and `groupsMissing`. -/
theorem missingSequenceRangesLoop_eq (g : Group) (gs : List Group) (prevIndex : Nat) (next : Int)
    (missing : List SequenceRange) (hkey : ∀ g' ∈ g :: gs, ∀ x ∈ g'.2, x.startSn = g'.1.startSn)
    (hne : (g :: gs).Pairwise fun a b => a.1.startSn ≠ b.1.startSn) :
    missingSequenceRangesLoop g.1 [] prevIndex (prevIndex + 1) 1 next missing
        (g.2 ++ (gs.map runList).flatten) =
      (advance next (g :: gs),
        missing ++ collectMissingSequenceRangeBefore g.1 prevIndex next [] ++ groupsMissing (g :: gs)) := by
  obtain ⟨h, os⟩ := g
  have habsorb := missingSequenceRangesLoop_append_run h [] os ((gs.map runList).flatten) prevIndex
    (prevIndex + 1) 1 next missing (hkey _ List.mem_cons_self)
  rw [habsorb, List.nil_append]
  clear habsorb
  induction gs generalizing h os prevIndex next missing with
  | nil =>
    -- the last group: `cur_range` is its own last range, so no gap follows it
    have hlast : ((h :: os).getLast (List.cons_ne_nil _ _)).startSn = h.startSn := by
      rcases List.mem_cons.mp (List.getLast_mem (List.cons_ne_nil h os)) with hl | hl
      · rw [hl]
      · exact hkey _ List.mem_cons_self _ hl
    rw [List.map_nil, List.flatten_nil, missingSequenceRangesLoop, collectMissingSequenceRanges_eq,
      collectMissingSequenceRangeBetween_of_startSn_eq hlast.symm]
    simp [advance, groupsMissing, groupMissingParts, gapAfter]
  | cons g' gs ih =>
    obtain ⟨h', os'⟩ := g'
    have hkey' : ∀ g ∈ (h', os') :: gs, ∀ x ∈ g.2, x.startSn = g.1.startSn :=
      fun g hg => hkey g (List.mem_cons_of_mem _ hg)
    have hne' := (List.pairwise_cons.mp hne).2
    have hhh' : h.startSn ≠ h'.startSn := (List.pairwise_cons.mp hne).1 _ List.mem_cons_self
    rw [List.map_cons, List.flatten_cons, runList_mk, List.cons_append, missingSequenceRangesLoop,
      if_neg hhh', collectMissingSequenceRanges_eq]
    dsimp only
    rw [missingSequenceRangesLoop_append_run h' [] os' _ _ _ _ _ _ (hkey' _ List.mem_cons_self),
      List.nil_append, ih _ _ _ h' os' hkey' hne',
      collectMissingSequenceRangeBefore_of_ne_zero _ (prevIndex + 1 + os.length) _ (by omega)]
    simp [advance, groupsMissing, groupMissingParts, gapAfter]

/-! ### Well-formed groups -/

/-- A well-formed group: the committed parts of one block. -/
structure GroupWF (g : Group) : Prop where
  /-- The other ranges share the first one's `start_sn`, `end_sn` and `parts`. -/
  same : ∀ x ∈ g.2, x.startSn = g.1.startSn ∧ x.endSn = g.1.endSn ∧ x.parts = g.1.parts
  /-- Part indexes increase. -/
  increasing : (runList g).Pairwise fun a b => a.partIndex < b.partIndex
  /-- Part indexes lie in `[0, parts)`. -/
  bounded : ∀ x ∈ runList g, 0 ≤ x.partIndex ∧ x.partIndex < g.1.parts
  /-- `start_sn ≤ end_sn`. -/
  ordered : g.1.startSn ≤ g.1.endSn

/-- Well-formed groups, in increasing and disjoint intervals. -/
def GroupsWF (gs : List Group) : Prop :=
  (∀ g ∈ gs, GroupWF g) ∧ gs.Pairwise fun g g' => g.1.endSn < g'.1.startSn

theorem GroupsWF.cons {g : Group} {gs : List Group} (h : GroupsWF (g :: gs)) : GroupsWF gs :=
  ⟨fun g' hg' => h.1 g' (List.mem_cons_of_mem _ hg'), (List.pairwise_cons.mp h.2).2⟩

theorem GroupsWF.head {g : Group} {gs : List Group} (h : GroupsWF (g :: gs)) : GroupWF g :=
  h.1 g List.mem_cons_self

/-- Every later group starts after this one ends. -/
theorem GroupsWF.endSn_lt {g g' : Group} {gs : List Group} (h : GroupsWF (g :: gs)) (hg' : g' ∈ gs) :
    g.1.endSn < g'.1.startSn :=
  (List.pairwise_cons.mp h.2).1 g' hg'

theorem GroupWF.parts_pos {g : Group} (hg : GroupWF g) : 1 ≤ g.1.parts := by
  have := hg.bounded g.1 List.mem_cons_self
  omega

/-- A group is complete exactly when every part index of `[0, parts)` is there. -/
theorem GroupWF.complete_iff {g : Group} (hg : GroupWF g) :
    g.Complete ↔ ∀ i, 0 ≤ i → i < g.1.parts → ∃ x ∈ runList g, x.partIndex = i := by
  have h : (((runList g).map SequenceRange.partIndex).length : Int) = g.1.parts ↔
      ∀ i, 0 ≤ i → i < g.1.parts → i ∈ (runList g).map SequenceRange.partIndex :=
    length_eq_iff_forall_mem (by have := hg.parts_pos; omega) (List.pairwise_map.mpr hg.increasing)
      (by simpa using hg.bounded)
  simp only [List.length_map, List.mem_map] at h
  rw [Group.Complete, ← h, runList, List.length_cons]
  push_cast
  omega

/-- **The parts a group lacks.** A group's missing parts are the copies of its
first range with each part index of `[0, parts)` that none of its ranges has. -/
theorem GroupWF.mem_groupMissingParts {g : Group} (hg : GroupWF g) (x : SequenceRange) :
    x ∈ groupMissingParts g ↔
      ∃ i, 0 ≤ i ∧ i < g.1.parts ∧ (∀ y ∈ runList g, y.partIndex ≠ i) ∧ x = { g.1 with partIndex := i } := by
  unfold groupMissingParts
  split_ifs with hc
  · simp only [List.not_mem_nil, false_iff, not_exists, not_and]
    intro i hi0 hin habs
    obtain ⟨y, hy, hyi⟩ := (hg.complete_iff.mp hc) i hi0 hin
    exact absurd hyi (habs y hy)
  · obtain ⟨-, h2, h3, -, -, h6⟩ := collectMissingPartsLoop_spec g.1 (runList g) 0 hg.increasing
      fun y hy => (hg.bounded y hy).1
    have hle := h6 g.1.parts (by have := hg.parts_pos; omega) fun y hy => (hg.bounded y hy).2
    rw [collectMissingPartsSequenceRange_nil, List.mem_append, mem_partCopies]
    rw [runList] at h2 h3 hle
    rw [h3]
    constructor
    · rintro (⟨i, ⟨hi0, hij, habs⟩, rfl⟩ | ⟨i, hji, hin, rfl⟩)
      · exact ⟨i, hi0, by omega, habs, rfl⟩
      · refine ⟨i, by have := h2 g.1 List.mem_cons_self; have := (hg.bounded g.1 List.mem_cons_self).1; omega,
          hin, fun y hy => ?_, rfl⟩
        have := h2 y hy
        omega
    · rintro ⟨i, hi0, hin, habs, rfl⟩
      by_cases hij : i < (collectMissingPartsLoop g.1 0 [] (g.1 :: g.2)).2
      · exact Or.inl ⟨i, ⟨hi0, hij, habs⟩, rfl⟩
      · exact Or.inr ⟨i, by omega, hin, rfl⟩

/-- A missing part of a group is a copy of its first range, so not a whole range. -/
theorem GroupWF.of_mem_groupMissingParts {g : Group} (hg : GroupWF g) {x : SequenceRange}
    (hx : x ∈ groupMissingParts g) :
    x.startSn = g.1.startSn ∧ x.endSn = g.1.endSn ∧ x.parts = g.1.parts ∧ ¬x.IsWhole := by
  obtain ⟨i, -, -, -, rfl⟩ := (hg.mem_groupMissingParts x).mp hx
  have := hg.parts_pos
  refine ⟨rfl, rfl, rfl, fun hw => ?_⟩
  have := hw.2
  simp only at this
  omega

theorem mem_gapAfter {g g' : Group} {gs : List Group} {x : SequenceRange} :
    x ∈ gapAfter g (g' :: gs) ↔
      g.1.startSn ≠ g'.1.startSn ∧ g.1.endSn + 1 ≠ g'.1.startSn ∧
        x = ofSn (g.1.endSn + 1) (g'.1.startSn - 1) := by
  simp only [gapAfter, collectMissingSequenceRangeBetween]
  split_ifs with h
  · simp [h]
  · simp only [List.not_mem_nil, false_iff]
    tauto

/-- The missing ranges of the groups start no earlier than the first group. -/
theorem startSn_le_of_mem_groupsMissing {g : Group} {gs : List Group} (hwf : GroupsWF (g :: gs))
    {x : SequenceRange} (hx : x ∈ groupsMissing (g :: gs)) : g.1.startSn ≤ x.startSn := by
  induction gs generalizing g with
  | nil =>
    rw [groupsMissing, groupsMissing, gapAfter, List.append_nil, List.append_nil] at hx
    exact le_of_eq (hwf.head.of_mem_groupMissingParts hx).1.symm
  | cons g' gs ih =>
    have hgg' := hwf.endSn_lt List.mem_cons_self
    have hord := hwf.head.ordered
    rw [groupsMissing, List.mem_append, List.mem_append] at hx
    rcases hx with (hx | hx) | hx
    · exact le_of_eq (hwf.head.of_mem_groupMissingParts hx).1.symm
    · obtain ⟨-, -, rfl⟩ := mem_gapAfter.mp hx
      simp only [ofSn_startSn]
      omega
    · have := ih hwf.cons hx
      omega

/-- A missing range of the groups is not empty, and ends no later than some group. -/
theorem endSn_le_of_mem_groupsMissing {gs : List Group} (hwf : GroupsWF gs) {x : SequenceRange}
    (hx : x ∈ groupsMissing gs) : x.startSn ≤ x.endSn ∧ ∃ g ∈ gs, x.endSn ≤ g.1.endSn := by
  induction gs with
  | nil => simp [groupsMissing] at hx
  | cons g gs ih =>
    rw [groupsMissing, List.mem_append, List.mem_append] at hx
    rcases hx with (hx | hx) | hx
    · -- a missing part: the group's interval
      obtain ⟨hs, he, -, -⟩ := hwf.head.of_mem_groupMissingParts hx
      exact ⟨by rw [hs, he]; exact hwf.head.ordered, g, List.mem_cons_self, le_of_eq he⟩
    · -- the gap up to the next group
      rcases gs with _ | ⟨g', gs⟩
      · simp [gapAfter] at hx
      · obtain ⟨-, hne, rfl⟩ := mem_gapAfter.mp hx
        have hlt := hwf.endSn_lt List.mem_cons_self
        have hord := hwf.cons.head.ordered
        simp only [ofSn_startSn, ofSn_endSn]
        exact ⟨by omega, g', List.mem_cons_of_mem _ List.mem_cons_self, by omega⟩
    · obtain ⟨hle, g', hg', hend⟩ := ih hwf.cons hx
      exact ⟨hle, g', List.mem_cons_of_mem _ hg', hend⟩

/-- The partial missing ranges are the groups' missing parts. -/
theorem mem_groupsMissing_of_not_isWhole {gs : List Group} {m : SequenceRange}
    (hm : m ∈ groupsMissing gs) (hw : ¬m.IsWhole) : ∃ g ∈ gs, m ∈ groupMissingParts g := by
  induction gs with
  | nil => simp [groupsMissing] at hm
  | cons g gs ih =>
    rw [groupsMissing, List.mem_append, List.mem_append] at hm
    rcases hm with (hm | hm) | hm
    · exact ⟨g, List.mem_cons_self, hm⟩
    · rcases gs with _ | ⟨g', gs⟩
      · simp [gapAfter] at hm
      · obtain ⟨-, -, rfl⟩ := mem_gapAfter.mp hm
        exact absurd (ofSn_isWhole _ _) hw
    · obtain ⟨g', hg', hm'⟩ := ih hm
      exact ⟨g', List.mem_cons_of_mem _ hg', hm'⟩

theorem mem_groupsMissing_of_mem_groupMissingParts {gs : List Group} {g : Group} (hg : g ∈ gs)
    {m : SequenceRange} (hm : m ∈ groupMissingParts g) : m ∈ groupsMissing gs := by
  induction gs with
  | nil => simp at hg
  | cons g' gs ih =>
    rw [groupsMissing, List.mem_append, List.mem_append]
    rcases List.mem_cons.mp hg with rfl | hg
    · exact Or.inl (Or.inl hm)
    · exact Or.inr (ih hg)

/-! ### The next expected sequence number -/

/-- `advance` stays where it starts or stops one past the end of a group. -/
theorem advance_eq_or (next : Int) (gs : List Group) :
    advance next gs = next ∨ ∃ g ∈ gs, advance next gs = g.1.endSn + 1 := by
  induction gs generalizing next with
  | nil => exact .inl rfl
  | cons g gs ih =>
    rw [advance]
    split_ifs
    · rcases ih (g.1.endSn + 1) with h | ⟨g', hg', h⟩
      · exact .inr ⟨g, List.mem_cons_self, h⟩
      · exact .inr ⟨g', List.mem_cons_of_mem _ hg', h⟩
    · rcases ih next with h | ⟨g', hg', h⟩
      · exact .inl h
      · exact .inr ⟨g', List.mem_cons_of_mem _ hg', h⟩

end Daisy.MergeTree
