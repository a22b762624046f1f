import Daisy.Storages.MergeTree.ActiveDataPartSet

/-!
# `MergeTreeData::getActivePartsToReplace`

`Storages/MergeTree/MergeTreeData.cpp`: before `renameTempPartAndReplace`
adds a new part, `getActivePartsToReplace` finds the committed parts it
replaces, or the committed part that covers it, by walking the index by state
and info from the `lower_bound` of the new part: to the left and then to the
right over the parts the new part contains, stopping at the first it does not
contain, which it reports as covering where that part contains the new one,
and over which it throws where the two meet. `ActiveDataPartSet::add` does
the same work on its own map, with the covering test made first at the two
neighbours of `lower_bound` and the duplicate test only among the parts the
new part contains.

## The model

The committed parts of the index are the entries of `ActiveDataPartSet`, in
order; the walks are functions of the entries on either side of
`lower_bound`, nearest first. A walk stops with the covering part (`inl`) or
with the parts it passed (`inr`). The result is `out_covering_part` and the
parts returned.

## What is proved

`getActivePartsToReplace_agrees`: over committed parts in order, each with
`min_block <= max_block`, pairwise disjoint and none `==` to the new part,
`getActivePartsToReplace` reports as covering the part `getContainingPartImpl`
finds, and otherwise throws exactly when `ActiveDataPartSet::add` throws and
returns exactly the parts the new part contains, in order, which are those
`add` replaces. The argument is that of `ActiveDataPartSet`: a part that
contains the new one, or one the new one contains, can only be the first of a
walk or be reached by it.
-/

namespace Daisy.MergeTree

namespace MergeTreeData

open ActiveDataPartSet

/-- `getNameWithState()` of a committed part. -/
def getNameWithState (name : List Char) : List Char := name ++ " (state Committed)".toList

/-- The loop of `getActivePartsToReplace` to the left, over the committed parts
below the new one, nearest first. -/
def goLeft (newPartInfo : MergeTreePartInfo) (newPartName : List Char) :
    List PartEntry → Except PartSetError (PartEntry ⊕ List PartEntry)
  | [] => pure (.inr [])
  | prev :: es =>
    if !newPartInfo.contains prev.1 then
      if prev.1.contains newPartInfo then pure (.inl prev)
      else if !newPartInfo.isDisjoint prev.1 then
        throw (.intersectsPrevious newPartName (getNameWithState prev.2))
      else pure (.inr [])
    else do
      match ← goLeft newPartInfo newPartName es with
      | .inl covering => pure (.inl covering)
      | .inr parts => pure (.inr (prev :: parts))

/-- The loop of `getActivePartsToReplace` to the right, over the committed parts
from `lower_bound`. -/
def goRight (newPartInfo : MergeTreePartInfo) (newPartName : List Char) :
    List PartEntry → Except PartSetError (PartEntry ⊕ List PartEntry)
  | [] => pure (.inr [])
  | e :: es =>
    if e.1.equiv newPartInfo then throw (.unexpectedDuplicate (getNameWithState e.2))
    else if !newPartInfo.contains e.1 then
      if e.1.contains newPartInfo then pure (.inl e)
      else if !newPartInfo.isDisjoint e.1 then
        throw (.intersectsNext newPartName (getNameWithState e.2))
      else pure (.inr [])
    else do
      match ← goRight newPartInfo newPartName es with
      | .inl covering => pure (.inl covering)
      | .inr parts => pure (.inr (e :: parts))

/-- `getActivePartsToReplace(new_part_info, new_part_name, out_covering_part)`:
`out_covering_part` and the parts returned, from `begin` to `end`. -/
def getActivePartsToReplace (committed : List PartEntry) (newPartInfo : MergeTreePartInfo)
    (newPartName : List Char) : Except PartSetError (Option PartEntry × List PartEntry) := do
  let i := lowerBound committed newPartInfo
  match ← goLeft newPartInfo newPartName (committed.take i).reverse with
  | .inl covering => pure (some covering, [])
  | .inr left =>
    match ← goRight newPartInfo newPartName (committed.drop i) with
    | .inl covering => pure (some covering, [])
    | .inr right => pure (none, left.reverse ++ right)

section Walks

variable {p : MergeTreePartInfo} (name : List Char)

/-- Where no part of the walk contains the new one and the first it does not
contain is disjoint from it, the walk to the left passes the parts it
contains. -/
theorem goLeft_of_not_meets {l : List PartEntry} (hnone : ∀ e ∈ l, e.1.contains p = false)
    (hmeets : meetsFirstOutside p l = false) : goLeft p name l = .ok (.inr (l.takeWhile fun e => p.contains e.1)) := by
  induction l with
  | nil => rfl
  | cons e es ih =>
    by_cases hc : p.contains e.1
    · rw [meetsFirstOutside_cons_of_contains _ hc] at hmeets
      rw [goLeft, if_neg (by simp [hc]), ih (fun f hf => hnone f (.tail _ hf)) hmeets]
      simp [hc]
      rfl
    · have hdisjoint : p.isDisjoint e.1 = true := isDisjoint_eq_of_meetsFirstOutside_cons hc hmeets
      simp [goLeft, hc, hnone e (.head _), hdisjoint]
      rfl

/-- Where no part of the walk contains the new one and the first it does not
contain meets it, the walk to the left throws. -/
theorem goLeft_of_meets {l : List PartEntry} (hnone : ∀ e ∈ l, e.1.contains p = false)
    (hmeets : meetsFirstOutside p l = true) : ∃ err, goLeft p name l = .error err := by
  induction l with
  | nil => simp [meetsFirstOutside] at hmeets
  | cons e es ih =>
    by_cases hc : p.contains e.1
    · rw [meetsFirstOutside_cons_of_contains _ hc] at hmeets
      obtain ⟨err, herr⟩ := ih (fun f hf => hnone f (.tail _ hf)) hmeets
      rw [goLeft, if_neg (by simp [hc]), herr]
      exact ⟨err, rfl⟩
    · have hmeet : p.isDisjoint e.1 = false := isDisjoint_eq_of_meetsFirstOutside_cons hc hmeets
      simp [goLeft, hc, hnone e (.head _), hmeet]
      exact ⟨_, rfl⟩

/-- Where no part of the walk contains the new one or is `==` to it, and the
first it does not contain is disjoint from it, the walk to the right passes
the parts it contains. -/
theorem goRight_of_not_meets {l : List PartEntry} (hnone : ∀ e ∈ l, e.1.contains p = false)
    (hequiv : ∀ e ∈ l, e.1.equiv p = false) (hmeets : meetsFirstOutside p l = false) :
    goRight p name l = .ok (.inr (l.takeWhile fun e => p.contains e.1)) := by
  induction l with
  | nil => rfl
  | cons e es ih =>
    by_cases hc : p.contains e.1
    · rw [meetsFirstOutside_cons_of_contains _ hc] at hmeets
      rw [goRight, if_neg (by simp [hequiv e (.head _)]), if_neg (by simp [hc]),
        ih (fun f hf => hnone f (.tail _ hf)) (fun f hf => hequiv f (.tail _ hf)) hmeets]
      simp [hc]
      rfl
    · have hdisjoint : p.isDisjoint e.1 = true := isDisjoint_eq_of_meetsFirstOutside_cons hc hmeets
      simp [goRight, hc, hnone e (.head _), hequiv e (.head _), hdisjoint]
      rfl

/-- Where no part of the walk contains the new one and the first it does not
contain meets it, the walk to the right throws. -/
theorem goRight_of_meets {l : List PartEntry} (hnone : ∀ e ∈ l, e.1.contains p = false)
    (hmeets : meetsFirstOutside p l = true) : ∃ err, goRight p name l = .error err := by
  induction l with
  | nil => simp [meetsFirstOutside] at hmeets
  | cons e es ih =>
    by_cases hdup : e.1.equiv p
    · simp [goRight, hdup]
      exact ⟨_, rfl⟩
    by_cases hc : p.contains e.1
    · rw [meetsFirstOutside_cons_of_contains _ hc] at hmeets
      obtain ⟨err, herr⟩ := ih (fun f hf => hnone f (.tail _ hf)) hmeets
      rw [goRight, if_neg hdup, if_neg (by simp [hc]), herr]
      exact ⟨err, rfl⟩
    · have hmeet : p.isDisjoint e.1 = false := isDisjoint_eq_of_meetsFirstOutside_cons hc hmeets
      simp [goRight, hdup, hc, hnone e (.head _), hmeet]
      exact ⟨_, rfl⟩

/-- The walk to the left at a part it does not contain: the covering part,
a throw, or the end of the walk. -/
theorem goLeft_cons_of_not_contains {e : PartEntry} (l : List PartEntry) (hc : p.contains e.1 = false) :
    goLeft p name (e :: l) =
      if e.1.contains p then .ok (.inl e)
      else if !p.isDisjoint e.1 then .error (.intersectsPrevious name (getNameWithState e.2))
      else .ok (.inr []) := by
  simp [goLeft, hc]
  rfl

/-- The walk to the right at a part it does not contain and that is not `==`
to the new one. -/
theorem goRight_cons_of_not_contains {e : PartEntry} (l : List PartEntry) (hequiv : e.1.equiv p = false)
    (hc : p.contains e.1 = false) :
    goRight p name (e :: l) =
      if e.1.contains p then .ok (.inl e)
      else if !p.isDisjoint e.1 then .error (.intersectsNext name (getNameWithState e.2))
      else .ok (.inr []) := by
  simp [goRight, hequiv, hc]
  rfl

/-- A throw of the walk to the left is the throw of `getActivePartsToReplace`. -/
theorem getActivePartsToReplace_of_goLeft_error {committed : List PartEntry} {err : PartSetError}
    (hleft : goLeft p name (committed.take (lowerBound committed p)).reverse = .error err) :
    getActivePartsToReplace committed p name = .error err := by
  unfold getActivePartsToReplace
  dsimp only
  rw [hleft]
  rfl

/-- After the walk to the left passes, a throw of the walk to the right is the
throw of `getActivePartsToReplace`. -/
theorem getActivePartsToReplace_of_goRight_error {committed left : List PartEntry} {err : PartSetError}
    (hleft : goLeft p name (committed.take (lowerBound committed p)).reverse = .ok (.inr left))
    (hright : goRight p name (committed.drop (lowerBound committed p)) = .error err) :
    getActivePartsToReplace committed p name = .error err := by
  unfold getActivePartsToReplace
  dsimp only
  rw [hleft]
  simp only [hright]
  rfl

/-- Where both walks pass, `getActivePartsToReplace` returns the parts the
left walk passed, back in order, then those the right walk passed. -/
theorem getActivePartsToReplace_of_passed {committed left right : List PartEntry}
    (hleft : goLeft p name (committed.take (lowerBound committed p)).reverse = .ok (.inr left))
    (hright : goRight p name (committed.drop (lowerBound committed p)) = .ok (.inr right)) :
    getActivePartsToReplace committed p name = .ok (none, left.reverse ++ right) := by
  unfold getActivePartsToReplace
  dsimp only
  rw [hleft]
  simp only [hright]
  rfl

end Walks

section Agrees

variable {p : MergeTreePartInfo}

/-- With a covering part in the set, the new part contains none of the set,
and meets none but the covering one. -/
theorem of_covering {entries : List PartEntry} (hs : Invariant entries)
    (hnew : ∀ e ∈ entries, e.1.equiv p = false) {c : PartEntry} (hc : c ∈ entries) (hcp : c.1.contains p) :
    (∀ e ∈ entries, p.contains e.1 = false) ∧ ∀ e ∈ entries, e ≠ c → p.isDisjoint e.1 := by
  have hother : ∀ e ∈ entries, e ≠ c → p.isDisjoint e.1 := fun e he hne =>
    MergeTreePartInfo.isDisjoint_of_contains hcp (hs.isDisjoint_of_mem hc he hne.symm)
  refine ⟨fun e he => ?_, hother⟩
  by_contra hpe
  have hpe : p.contains e.1 := by simpa using hpe
  by_cases hec : e = c
  · subst hec
    have := MergeTreePartInfo.equiv_of_contains hcp hpe
    simp [hnew e he] at this
  · have := MergeTreePartInfo.not_isDisjoint_of_contains hpe (hs.valid e he)
    simp [hother e he hec] at this

/-- **`getActivePartsToReplace` agrees with `ActiveDataPartSet`.** Over
committed parts in order, each with `min_block <= max_block` and pairwise
disjoint, and a new part with `min_block <= max_block` that is `==` to none of
them: where `getContainingPartImpl` finds a part containing the new one,
`getActivePartsToReplace` reports that part as covering and `add` returns
`false`; where it finds none, `getActivePartsToReplace` throws exactly when
`add` throws, and otherwise returns the parts the new part contains, in
order, whose names `add` reports as replaced. -/
theorem getActivePartsToReplace_agrees (s : ActiveDataPartSet) (p : MergeTreePartInfo) (name : List Char)
    (hs : Invariant s.partInfoToName) (hp : p.Valid) (hnew : ∀ e ∈ s.partInfoToName, e.1.equiv p = false) :
    (∀ c, getContainingPartImpl s.partInfoToName p = some c →
      c ∈ s.partInfoToName ∧ c.1.contains p ∧
        getActivePartsToReplace s.partInfoToName p name = .ok (some c, []) ∧ (s.addInfo p name).1 = .ok (false, [])) ∧
    (getContainingPartImpl s.partInfoToName p = none →
      ((∃ err, getActivePartsToReplace s.partInfoToName p name = .error err) ↔
          ∃ err, (s.addInfo p name).1 = .error err) ∧
        ∀ r, getActivePartsToReplace s.partInfoToName p name = .ok r →
          r = (none, s.partInfoToName.filter fun e => p.contains e.1) ∧
            (s.addInfo p name).1 = .ok (true, (s.partInfoToName.filter fun e => p.contains e.1).map (·.2))) := by
  obtain ⟨formatVersion, entries⟩ := s
  dsimp only at hs hnew ⊢
  -- the two walks from `lower_bound`, and what they keep of the invariant
  have hawayL := awayFrom_before (p := p) hs.sorted
  have hawayR := awayFrom_after (p := p) hs.sorted
  have hsplit := List.take_append_drop (lowerBound entries p) entries
  have hmemL : ∀ e ∈ (entries.take (lowerBound entries p)).reverse, e ∈ entries :=
    fun e he => List.mem_of_mem_take (List.mem_reverse.mp he)
  have hmemR : ∀ e ∈ entries.drop (lowerBound entries p), e ∈ entries := fun e he => List.mem_of_mem_drop he
  refine ⟨fun c hc => ?_, fun hnone => ?_⟩
  · -- a covering part: the first part of one of the walks, the only one to meet `p`
    obtain ⟨hcmem, hcp⟩ := mem_of_getContainingPartImpl hc
    obtain ⟨hnc, hother⟩ := of_covering hs hnew hcmem hcp
    have hadd : (addInfo ⟨formatVersion, entries⟩ p name).1 = .ok (false, []) := by simp [addInfo, hc]
    refine ⟨hcmem, hcp, ?_, hadd⟩
    have hright : ∀ R, c :: R = entries.drop (lowerBound entries p) →
        goRight p name (c :: R) = .ok (.inl c) := fun R hR => by
      rw [goRight_cons_of_not_contains name R (hnew c hcmem) (hnc c hcmem), if_pos hcp]
    rw [getContainingPartImpl_eq, Option.or_eq_some_iff] at hc
    unfold getActivePartsToReplace
    dsimp only
    generalize entries.drop (lowerBound entries p) = R at hc hright
    generalize (entries.take (lowerBound entries p)).reverse = L at hc hmemL
    rcases L with _ | ⟨e, L⟩
    · -- nothing to the left: `c` is the first part to the right
      obtain ⟨R, rfl⟩ : ∃ R', R = c :: R' := by
        simp [Option.filter_eq_some_iff, List.head?_eq_some_iff] at hc
        exact hc.1
      simp only [goLeft, hright R rfl]
      rfl
    by_cases hec : e = c
    · subst hec
      rw [goLeft_cons_of_not_contains name L (hnc e hcmem), if_pos hcp]
      rfl
    · -- the first part to the left is disjoint from `p`, and `c` is the first to the right
      have hep : e.1.contains p = false := by
        by_contra hep
        have := MergeTreePartInfo.not_isDisjoint_of_contains (by simpa using hep) hp
        rw [MergeTreePartInfo.isDisjoint_comm, hother e (hmemL e (.head _)) hec] at this
        cases this
      have hleft : goLeft p name (e :: L) = .ok (.inr []) := by
        rw [goLeft_cons_of_not_contains name L (hnc e (hmemL e (.head _))), if_neg (by simp [hep]),
          if_neg (by simp [hother e (hmemL e (.head _)) hec])]
      obtain ⟨R, rfl⟩ : ∃ R', R = c :: R' := by
        simp [Option.filter_eq_some_iff, List.head?_eq_some_iff] at hc
        rcases hc with ⟨hR, -⟩ | ⟨-, hec', -⟩
        · exact hR
        · exact absurd hec' hec
      simp only [hleft, hright R rfl]
      rfl
  · -- no covering part: no part of either walk contains `p`
    have hheads := hnone
    rw [getContainingPartImpl_eq, Option.or_eq_none_iff] at hheads
    have hncL := contains_eq_false_of_head hp hawayL (fun e he => hs.valid e (hmemL e he))
      (List.pairwise_reverse.mpr ((hs.disjoint.sublist (List.take_sublist _ _)).imp fun h => by
        rwa [MergeTreePartInfo.isDisjoint_comm])) hheads.2
    have hncR := contains_eq_false_of_head hp hawayR (fun e he => hs.valid e (hmemR e he))
      (hs.disjoint.sublist (List.drop_sublist _ _)) hheads.1
    have hequivR : ∀ e ∈ entries.drop (lowerBound entries p), e.1.equiv p = false := fun e he => hnew e (hmemR e he)
    by_cases hmL : meetsFirstOutside p (entries.take (lowerBound entries p)).reverse
    · -- both throw at the first part to the left
      obtain ⟨err, herr⟩ := goLeft_of_meets name hncL hmL
      have hgap := getActivePartsToReplace_of_goLeft_error name herr
      refine ⟨⟨fun _ => addInfo_of_meets_left _ name hnone hmL, fun _ => ⟨err, hgap⟩⟩, fun r hr => ?_⟩
      rw [hgap] at hr
      cases hr
    have hmL : meetsFirstOutside p (entries.take (lowerBound entries p)).reverse = false := by simpa using hmL
    have hleft := goLeft_of_not_meets name hncL hmL
    have hadd := addInfo_of_not_meets_left ⟨formatVersion, entries⟩ name hnone hmL
    dsimp only at hadd
    by_cases hmR : meetsFirstOutside p (entries.drop (lowerBound entries p))
    · -- both throw at the first part to the right
      obtain ⟨err, herr⟩ := goRight_of_meets name hncR hmR
      have hgap := getActivePartsToReplace_of_goRight_error name hleft herr
      refine ⟨⟨fun _ => ?_, fun _ => ⟨err, hgap⟩⟩, fun r hr => ?_⟩
      · rw [hadd]
        exact addRight_of_meets name _ _ hmR
      · rw [hgap] at hr
        cases hr
    -- neither throws: both take the parts `p` contains, which are those the walks pass
    have hmR : meetsFirstOutside p (entries.drop (lowerBound entries p)) = false := by simpa using hmR
    have hright := goRight_of_not_meets name hncR hequivR hmR
    have haddRight := addRight_of_not_meets name
      (((entries.take (lowerBound entries p)).reverse.dropWhile fun e => p.contains e.1).reverse)
      (((entries.take (lowerBound entries p)).reverse.takeWhile fun e => p.contains e.1).reverse.map (·.2))
      (fun e he => by rw [MergeTreePartInfo.equiv_comm]; exact hequivR e he) hmR
    have hfilter : entries.filter (fun e => p.contains e.1) =
        ((entries.take (lowerBound entries p)).reverse.takeWhile fun e => p.contains e.1).reverse ++
          (entries.drop (lowerBound entries p)).takeWhile fun e => p.contains e.1 := by
      conv_lhs => rw [← hsplit, ← List.reverse_reverse (entries.take (lowerBound entries p))]
      rw [List.filter_append, List.filter_reverse,
        filter_contains_eq_takeWhile hp hawayL (fun e he => hs.valid e (hmemL e he)) hmL,
        filter_contains_eq_takeWhile hp hawayR (fun e he => hs.valid e (hmemR e he)) hmR]
    have hgap : getActivePartsToReplace entries p name = .ok (none, entries.filter fun e => p.contains e.1) := by
      rw [getActivePartsToReplace_of_passed name hleft hright, hfilter]
    refine ⟨⟨fun hthrow => ?_, fun hthrow => ?_⟩, fun r hr => ?_⟩
    · obtain ⟨err, herr⟩ := hthrow
      rw [hgap] at herr
      cases herr
    · obtain ⟨err, herr⟩ := hthrow
      rw [hadd, haddRight] at herr
      cases herr
    · rw [hgap] at hr
      cases hr
      refine ⟨rfl, ?_⟩
      rw [hadd, haddRight, hfilter, List.map_append, List.map_reverse]

/-- The committed parts `all_0_1_0` and `all_6_7_0` and the new part
`all_0_10_1`, which contains both: `getActivePartsToReplace` replaces both,
and `add` reports both. -/
theorem getActivePartsToReplace_agrees_all_0_10_1 :
    let committed : List PartEntry :=
      [(⟨"all".toList, ⟨0, by decide, by decide⟩, ⟨1, by decide, by decide⟩, ⟨0, by decide, by decide⟩,
          ⟨0, by decide, by decide⟩, false⟩, "all_0_1_0".toList),
        (⟨"all".toList, ⟨6, by decide, by decide⟩, ⟨7, by decide, by decide⟩, ⟨0, by decide, by decide⟩,
          ⟨0, by decide, by decide⟩, false⟩, "all_6_7_0".toList)]
    let newPart : MergeTreePartInfo := ⟨"all".toList, ⟨0, by decide, by decide⟩, ⟨10, by decide, by decide⟩,
      ⟨1, by decide, by decide⟩, ⟨0, by decide, by decide⟩, false⟩
    Invariant committed ∧ newPart.Valid ∧ (∀ e ∈ committed, e.1.equiv newPart = false) ∧
      getActivePartsToReplace committed newPart "all_0_10_1".toList = .ok (none, committed) ∧
      (ActiveDataPartSet.addInfo ⟨1, committed⟩ newPart "all_0_10_1".toList).1 = .ok (true, committed.map (·.2)) := by
  intro committed newPart
  have hs : Invariant committed := ⟨by decide, by decide, by decide⟩
  have hp : newPart.Valid := by decide
  have hnew : ∀ e ∈ committed, e.1.equiv newPart = false := by decide
  have hagrees := (getActivePartsToReplace_agrees ⟨1, committed⟩ newPart "all_0_10_1".toList hs hp hnew).2 (by decide)
  have hfilter : (committed.filter fun e => newPart.contains e.1) = committed := by decide
  have hgap : getActivePartsToReplace committed newPart "all_0_10_1".toList = .ok (none, committed) := by decide
  obtain ⟨-, hadd⟩ := hagrees.2 _ hgap
  exact ⟨hs, hp, hnew, hgap, hfilter ▸ hadd⟩

end Agrees

end MergeTreeData

end Daisy.MergeTree
