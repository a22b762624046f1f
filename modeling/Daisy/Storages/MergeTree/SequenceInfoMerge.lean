import Daisy.Storages.MergeTree.MissingRangesCorrect
import Daisy.Storages.DistributedMergeTree.Sequences
import Daisy.Library.Faults

/-!
# Merging the sequence info of parts

A merge of the parts of a partition gives the new part the `seq_info` that
`mergeSequenceInfo` makes of theirs: the ranges of all of them that end after
the committed sequence number, sorted (`mergeSequenceRanges`), and the last
`max_idempotent_keys` of the set of all their idempotent keys
(`mergeIdempotentKeys`). At start-up `populateCommittedSNFromParts` takes the
ranges of all parts that end after the committed sequence number and hands
them to `missingSequenceRanges`.

## The model

`std::set<IdempotentKey>` is the list of its elements in increasing order of
`std::pair`'s `operator<`, the keys compared as lists of characters, which
orders them as the bytes of their UTF-8 text do. The asserts of
`mergeSequenceRanges` abort a debug build (`Build`); its log lines are left
out. `populateCommittedSNFromParts` is modelled by the missing ranges, the
next expected sequence number and the largest one it derives, from the
`seq_info` of the parts that have one.

## What is proved

* `mergeSequenceRanges_eq`: the merged ranges are the sorted ranges that end
  after the committed sequence number, in a release build and in a debug build
  whose asserts hold.
* `largestKeys_mergeIdempotentKeys`: the keys are the `max_idempotent_keys`
  largest of the distinct keys, in increasing order.
* `populate_mergeSequenceInfo`: `populateCommittedSNFromParts` derives the same
  from the parts as from their merged part, in any context, when no two
  ranges tie under `operator<` without being equal.
-/

namespace Daisy.MergeTree

open SequenceRange
open Daisy.DistributedMergeTree (Build Failure assert assert_ok)

/-! ### The model -/

/-- One range of the loop of `mergeSequenceRanges`, with the last range and the
merged ones. -/
def mergeSequenceRangesStep (b : Build) (committedSn : Int) (st : SequenceRange × List SequenceRange)
    (next : SequenceRange) : Except Failure (SequenceRange × List SequenceRange) := do
  assert b next.valid "next_seq_range.valid()"
  -- `last_seq_range` starts invalid; once it is valid the next range must start after it ends
  if st.1.valid then assert b (decide (st.1.endSn < next.startSn)) "last_seq_range.end_sn < next_seq_range.start_sn"
  pure (next, if committedSn < next.endSn then st.2 ++ [next] else st.2)

/-- `mergeSequenceRanges(sequence_ranges, committed_sn)`. -/
def mergeSequenceRanges (b : Build) (sequenceRanges : List SequenceRange) (committedSn : Int) :
    Except Failure (List SequenceRange) := do
  let (_, merged) ← (sortRanges sequenceRanges).foldlM (mergeSequenceRangesStep b committedSn) ({}, [])
  pure merged

/-- `operator<=` of `std::pair<Int64, String>`: by the sequence number, then
by the key. -/
def keyLE (a b : IdempotentKey) : Prop := toLex a ≤ toLex b

instance : DecidableRel keyLE := fun a b => inferInstanceAs (Decidable (toLex a ≤ toLex b))

/-- `std::set::insert`: nothing for a key that is there already. -/
def keySetInsert (s : List IdempotentKey) (k : IdempotentKey) : List IdempotentKey :=
  if k ∈ s then s else s.orderedInsert keyLE k

/-- The `std::set` of the idempotent keys of all inputs. -/
def idempotentKeySet (sequences : List SequenceInfo) : List IdempotentKey :=
  sequences.foldl (fun s si => (si.idempotentKeys.getD []).foldl keySetInsert s) []

/-- `mergeIdempotentKeys(idempotent_keys, max_idempotent_keys)`: the last keys
of the set, none for an empty set. -/
def mergeIdempotentKeys (idempotentKeys : List IdempotentKey) (maxIdempotentKeys : Nat) :
    Option (List IdempotentKey) :=
  if idempotentKeys.isEmpty then none
  else
    some (if maxIdempotentKeys < idempotentKeys.length then
      idempotentKeys.drop (idempotentKeys.length - maxIdempotentKeys) else idempotentKeys)

/-- `mergeSequenceInfo(sequences, committed_sn, max_idempotent_keys)`. -/
def mergeSequenceInfo (b : Build) (sequences : List SequenceInfo) (committedSn : Int) (maxIdempotentKeys : Nat) :
    Except Failure (Option SequenceInfo) :=
  if sequences.isEmpty then pure none
  else do
    let merged ← mergeSequenceRanges b (sequences.flatMap (·.sequenceRanges)) committedSn
    pure (some ⟨merged, mergeIdempotentKeys (idempotentKeySet sequences) maxIdempotentKeys⟩)

/-- What `populateCommittedSNFromParts` derives from the `seq_info` of the
parts: the missing ranges, the next expected sequence number and one past the
largest. -/
def populateCommittedSNFromParts (seqInfos : List SequenceInfo) (committed : Int) : List SequenceRange × Int × Int :=
  missingSequenceRanges (seqInfos.flatMap fun si => si.sequenceRanges.filter fun r => committed < r.endSn) committed

/-! ### What the merge is to give -/

/-- What the asserts of a debug build ask of the ranges: each valid, and each
ending before the next starts once sorted. -/
def MergeAsserts (l : List SequenceRange) : Prop :=
  (∀ r ∈ l, r.valid = true) ∧ (sortRanges l).IsChain fun a b => a.endSn < b.startSn

/-- Two ranges that `operator<` orders neither way are equal. -/
def NoTies (l : List SequenceRange) : Prop :=
  ∀ a ∈ l, ∀ b ∈ l, a.startSn = b.startSn → a.partIndex = b.partIndex → a = b

/-- `ks` is the `k` largest of the distinct keys of `keys`, in increasing order. -/
structure LargestKeys (k : Nat) (keys ks : List IdempotentKey) : Prop where
  sorted : ks.Pairwise fun a b => toLex a < toLex b
  mem : ∀ x ∈ ks, x ∈ keys
  length : ks.length = min k keys.toFinset.card
  largest : ∀ x ∈ keys, x ∉ ks → ∀ y ∈ ks, toLex x < toLex y

/-! ### The ranges -/

section Ranges

/-- What the asserts ask of the rest of the loop, from the last range on. -/
def StepAsserts (b : Build) (last : SequenceRange) (l : List SequenceRange) : Prop :=
  b = .release ∨ (∀ r ∈ l, r.valid = true) ∧ (if last.valid then last :: l else l).IsChain fun a b => a.endSn < b.startSn

/-- **The loop of `mergeSequenceRanges`.** While the asserts hold, it ends at
the last range and keeps, in order, the ranges that end after `committed_sn`. -/
theorem foldlM_mergeSequenceRangesStep (b : Build) (committedSn : Int) :
    ∀ (l : List SequenceRange) (last : SequenceRange) (merged : List SequenceRange), StepAsserts b last l →
      l.foldlM (mergeSequenceRangesStep b committedSn) (last, merged) =
        .ok (l.getLastD last, merged ++ l.filter fun r => committedSn < r.endSn)
  | [], last, merged, _ => by simp; rfl
  | next :: l, last, merged, h => by
    -- the two asserts of this range hold, and so do those of the rest
    have hvalid : b = .release ∨ next.valid = true := h.imp_right fun h => h.1 next (List.mem_cons_self ..)
    have hlast : last.valid = true → b = .release ∨ decide (last.endSn < next.startSn) = true := fun hl =>
      h.imp_right fun h => by
        have hchain := h.2
        rw [if_pos hl, List.isChain_cons_cons] at hchain
        exact decide_eq_true hchain.1
    have hrest : StepAsserts b next l := h.imp_right fun h => by
      refine ⟨fun r hr => h.1 r (List.mem_cons_of_mem _ hr), ?_⟩
      rw [if_pos (h.1 next (List.mem_cons_self ..))]
      split at h
      · exact (List.isChain_cons_cons.mp h.2).2
      · exact h.2
    have hstep : mergeSequenceRangesStep b committedSn (last, merged) next =
        .ok (next, if committedSn < next.endSn then merged ++ [next] else merged) := by
      simp only [mergeSequenceRangesStep, assert_ok hvalid]
      split
      · rename_i hl
        rw [assert_ok (hlast hl)]
        rfl
      · rfl
    rw [List.foldlM_cons, hstep, Daisy.Library.ok_bind, foldlM_mergeSequenceRangesStep b committedSn l next _ hrest]
    split <;> simp [*, List.getLast?_cons]

/-- **The merged ranges.** In a release build, or in a debug build whose
asserts hold, the sorted ranges that end after `committed_sn`. -/
theorem mergeSequenceRanges_eq {b : Build} {sequenceRanges : List SequenceRange} (committedSn : Int)
    (h : b = .release ∨ MergeAsserts sequenceRanges) :
    mergeSequenceRanges b sequenceRanges committedSn =
      .ok ((sortRanges sequenceRanges).filter fun r => committedSn < r.endSn) := by
  have hasserts : StepAsserts b {} (sortRanges sequenceRanges) := h.imp_right fun h =>
    ⟨fun r hr => h.1 r ((List.perm_insertionSort _ _).mem_iff.mp hr), by simpa [SequenceRange.valid] using h.2⟩
  rw [mergeSequenceRanges, foldlM_mergeSequenceRangesStep b committedSn _ _ [] hasserts]
  rfl

/-- Ranges that tie only when equal have one sorted order. -/
theorem sortRanges_eq_of_perm {l₁ l₂ : List SequenceRange} (hperm : l₁.Perm l₂) (hties : NoTies l₁) :
    sortRanges l₁ = sortRanges l₂ := by
  apply List.Perm.eq_of_pairwise _ (List.pairwise_insertionSort _ l₁) (List.pairwise_insertionSort _ l₂)
  · exact (List.perm_insertionSort _ l₁).trans (hperm.trans (List.perm_insertionSort _ l₂).symm)
  · intro a b ha hb hab hba
    rw [sortLE_iff] at hab hba
    have ha' := (List.perm_insertionSort _ l₁).mem_iff.mp ha
    have hb' := hperm.mem_iff.mpr ((List.perm_insertionSort _ l₂).mem_iff.mp hb)
    exact hties a ha' b hb' (by omega) (by omega)

/-- `missingSequenceRanges` sees its input only sorted. -/
theorem missingSequenceRanges_of_sortRanges_eq {l₁ l₂ : List SequenceRange} (h : sortRanges l₁ = sortRanges l₂)
    (committed : Int) : missingSequenceRanges l₁ committed = missingSequenceRanges l₂ committed := by
  unfold missingSequenceRanges
  rw [h]

end Ranges

/-! ### The keys -/

section Keys

instance : Std.Total keyLE := ⟨fun a b => le_total (toLex a) (toLex b)⟩

instance : IsTrans IdempotentKey keyLE := ⟨fun _ _ _ => le_trans⟩

/-- The set as `mergeSequenceInfo` keeps it: increasing, with the keys it was
given. -/
structure KeySet (keys s : List IdempotentKey) : Prop where
  sorted : s.Pairwise fun a b => toLex a < toLex b
  mem : ∀ x, x ∈ s ↔ x ∈ keys

/-- Inserting a key keeps the set increasing and adds the key. -/
theorem keySet_keySetInsert {keys s : List IdempotentKey} (hs : KeySet keys s) (k : IdempotentKey) :
    KeySet (keys ++ [k]) (keySetInsert s k) := by
  unfold keySetInsert
  split
  · rename_i hk
    exact ⟨hs.sorted, fun x => by simp only [List.mem_append, List.mem_singleton, ← hs.mem]; grind⟩
  · rename_i hk
    have hperm := List.perm_orderedInsert keyLE k s
    -- sorted by `≤` and without duplicates is sorted by `<`
    have hle : (s.orderedInsert keyLE k).Pairwise keyLE :=
      (hs.sorted.imp fun h => le_of_lt h).orderedInsert k s
    have hnodup : (s.orderedInsert keyLE k).Nodup :=
      hperm.nodup_iff.mpr (List.nodup_cons.mpr ⟨hk, hs.sorted.imp ne_of_lt⟩)
    refine ⟨(hle.and hnodup).imp fun ⟨h₁, h₂⟩ => lt_of_le_of_ne h₁ fun e => h₂ (toLex.injective e), ?_⟩
    intro x
    rw [hperm.mem_iff, List.mem_cons, hs.mem, List.mem_append, List.mem_singleton]
    tauto

theorem keySet_foldl (ks : List IdempotentKey) : ∀ {keys s : List IdempotentKey}, KeySet keys s →
    KeySet (keys ++ ks) (ks.foldl keySetInsert s) := by
  induction ks with
  | nil => intro keys s hs; simpa using hs
  | cons k ks ih =>
    intro keys s hs
    simpa using ih (keySet_keySetInsert hs k)

/-- The keys of all inputs, as `mergeSequenceInfo` inserts them. -/
def allKeys (sequences : List SequenceInfo) : List IdempotentKey :=
  sequences.flatMap fun si => si.idempotentKeys.getD []

theorem keySet_idempotentKeySet (sequences : List SequenceInfo) :
    KeySet (allKeys sequences) (idempotentKeySet sequences) := by
  suffices ∀ (l : List SequenceInfo) (keys s), KeySet keys s →
      KeySet (keys ++ allKeys l) (l.foldl (fun s si => (si.idempotentKeys.getD []).foldl keySetInsert s) s) by
    have hset := this sequences [] [] ⟨.nil, by simp⟩
    rwa [List.nil_append] at hset
  intro l
  induction l with
  | nil => intro keys s hs; simpa [allKeys] using hs
  | cons si l ih =>
    intro keys s hs
    simpa [allKeys, List.append_assoc] using ih _ _ (keySet_foldl _ hs)

/-- The set has as many elements as there are distinct keys. -/
theorem length_of_keySet {keys s : List IdempotentKey} (hs : KeySet keys s) : s.length = keys.toFinset.card := by
  have hnodup : s.Nodup := hs.sorted.imp ne_of_lt |>.imp fun h e => h (congrArg toLex e)
  rw [← List.toFinset_card_of_nodup hnodup]
  congr 1
  ext x
  simp [hs.mem]

/-- **The last keys of the set.** `mergeIdempotentKeys` of a set of distinct
keys gives the `k` largest, in increasing order, and nothing for no keys. -/
theorem largestKeys_mergeIdempotentKeys {keys s : List IdempotentKey} (hs : KeySet keys s) (k : Nat) :
    (keys = [] → mergeIdempotentKeys s k = none) ∧
      (keys ≠ [] → ∃ ks, mergeIdempotentKeys s k = some ks ∧ LargestKeys k keys ks) := by
  have hlength := length_of_keySet hs
  -- both branches keep the last `min k s.length` keys
  have hdrop : (if k < s.length then s.drop (s.length - k) else s) = s.drop (s.length - k) := by
    split
    · rfl
    · rw [Nat.sub_eq_zero_of_le (by omega), List.drop_zero]
  constructor
  · rintro rfl
    have : s = [] := List.eq_nil_iff_forall_not_mem.mpr fun x hx => by simpa using (hs.mem x).mp hx
    simp [mergeIdempotentKeys, this]
  · intro hne
    have hsne : s ≠ [] := by
      obtain ⟨x, hx⟩ := List.exists_mem_of_ne_nil keys hne
      exact List.ne_nil_of_mem ((hs.mem x).mpr hx)
    refine ⟨s.drop (s.length - k), by simp [mergeIdempotentKeys, hsne, hdrop], ?_⟩
    have hsplit := List.take_append_drop (s.length - k) s
    have hpair := hs.sorted
    rw [← hsplit, List.pairwise_append] at hpair
    refine ⟨hpair.2.1, fun x hx => (hs.mem x).mp (List.mem_of_mem_drop hx), ?_, ?_⟩
    · rw [List.length_drop, ← hlength]
      omega
    · intro x hx hnot y hy
      have hxs := (hs.mem x).mpr hx
      rw [← hsplit, List.mem_append] at hxs
      exact hpair.2.2 x (hxs.resolve_right hnot) y hy

end Keys

/-! ### The merged part -/

/-- The ranges of the parts. -/
def allRanges (sequences : List SequenceInfo) : List SequenceRange := sequences.flatMap (·.sequenceRanges)

theorem filter_filter_endSn {c c' : Int} (hc : c ≤ c') (l : List SequenceRange) :
    ((l.filter fun r => c < r.endSn).filter fun r => c' < r.endSn) = l.filter fun r => c' < r.endSn := by
  rw [List.filter_filter]
  apply List.filter_congr
  intro r _
  by_cases h : c' < r.endSn
  · simp [h, show c < r.endSn by omega]
  · simp [h]

/-- **The merged part stands for its parts.** For a part whose ranges are the
sorted ranges of `sequences` that end after `c`, `populateCommittedSNFromParts`
with a committed sequence number `c' ≥ c` derives from `before ++ [merged] ++
after` what it derives from `before ++ sequences ++ after`, when no two ranges
of them tie without being equal. -/
theorem populate_mergeSequenceInfo {sequences before after : List SequenceInfo} {c c' : Int} (hc : c ≤ c')
    (merged : SequenceInfo) (hmerged : merged.sequenceRanges = (sortRanges (allRanges sequences)).filter fun r => c < r.endSn)
    (hties : NoTies (allRanges (before ++ sequences ++ after))) :
    populateCommittedSNFromParts (before ++ [merged] ++ after) c' =
      populateCommittedSNFromParts (before ++ sequences ++ after) c' := by
  apply missingSequenceRanges_of_sortRanges_eq
  symm
  apply sortRanges_eq_of_perm _ _
  · -- the merged part holds the same ranges beyond `c'`, in another order
    have hpart : (merged.sequenceRanges.filter fun r => c' < r.endSn).Perm
        (sequences.flatMap fun si => si.sequenceRanges.filter fun r => c' < r.endSn) := by
      rw [hmerged, filter_filter_endSn hc, ← List.filter_flatMap]
      exact (List.perm_insertionSort _ _).filter _
    simp only [List.flatMap_append, List.flatMap_cons, List.flatMap_nil, List.append_nil]
    exact (hpart.symm.append_left _).append_right _
  · intro a ha b hb
    simp only [List.mem_flatMap, List.mem_filter] at ha hb
    obtain ⟨si, hsi, ha, -⟩ := ha
    obtain ⟨sj, hsj, hb, -⟩ := hb
    exact hties a (List.mem_flatMap.mpr ⟨si, hsi, ha⟩) b (List.mem_flatMap.mpr ⟨sj, hsj, hb⟩)

/-- **`mergeSequenceInfo`.** For every non-empty list of inputs, in a release
build or a debug build whose asserts hold, the merged `seq_info` has as ranges
those of the inputs that end after `committed_sn`, sorted by `(start_sn,
part_index)`, and as keys the `max_idempotent_keys` largest of the distinct
keys of the inputs in increasing order (none when there are none); and a part
with it stands for the inputs in `populateCommittedSNFromParts` at every
committed sequence number from `committed_sn` on, when no two ranges tie
without being equal. -/
theorem mergeSequenceInfo_spec (b : Build) (sequences : List SequenceInfo) (committedSn : Int)
    (maxIdempotentKeys : Nat) (hne : sequences ≠ []) (hasserts : b = .release ∨ MergeAsserts (allRanges sequences)) :
    ∃ si, mergeSequenceInfo b sequences committedSn maxIdempotentKeys = .ok (some si) ∧
      (si.sequenceRanges.Pairwise (fun x y => sortLE x y = true) ∧
        si.sequenceRanges.Perm ((allRanges sequences).filter fun r => committedSn < r.endSn)) ∧
      (allKeys sequences = [] → si.idempotentKeys = none) ∧
      (allKeys sequences ≠ [] → ∃ ks, si.idempotentKeys = some ks ∧
        LargestKeys maxIdempotentKeys (allKeys sequences) ks) ∧
      ∀ before after c', committedSn ≤ c' → NoTies (allRanges (before ++ sequences ++ after)) →
        populateCommittedSNFromParts (before ++ [si] ++ after) c' =
          populateCommittedSNFromParts (before ++ sequences ++ after) c' := by
  have hranges := mergeSequenceRanges_eq committedSn hasserts
  obtain ⟨hnone, hsome⟩ := largestKeys_mergeIdempotentKeys (keySet_idempotentKeySet sequences) maxIdempotentKeys
  refine ⟨⟨(sortRanges (allRanges sequences)).filter fun r => committedSn < r.endSn,
    mergeIdempotentKeys (idempotentKeySet sequences) maxIdempotentKeys⟩, ?_, ⟨?_, ?_⟩, hnone, hsome, ?_⟩
  · simp only [mergeSequenceInfo, List.isEmpty_eq_false_iff.mpr hne]
    rw [show sequences.flatMap (·.sequenceRanges) = allRanges sequences from rfl, hranges]
    rfl
  · exact (List.pairwise_insertionSort _ _).filter _
  · exact (List.perm_insertionSort _ _).filter _
  · intro before after c' hc hties
    exact populate_mergeSequenceInfo hc _ rfl hties

/-- Two parts of the blocks `[1, 2]` and `[3, 5]`, with a key each, merged in a
debug build at `committed_sn = 2`: the range `[3, 5]` is kept. -/
theorem mergeSequenceInfo_spec_two_parts :
    [(⟨[⟨1, 2, 0, 1⟩], some [(2, ['a'])]⟩ : SequenceInfo), ⟨[⟨3, 5, 0, 1⟩], some [(5, ['b'])]⟩] ≠ [] ∧
      MergeAsserts [⟨1, 2, 0, 1⟩, ⟨3, 5, 0, 1⟩] ∧
      ∃ si, mergeSequenceInfo .debug [⟨[⟨1, 2, 0, 1⟩], some [(2, ['a'])]⟩, ⟨[⟨3, 5, 0, 1⟩], some [(5, ['b'])]⟩] 2 1 =
          .ok (some si) ∧ si.sequenceRanges.Perm [⟨3, 5, 0, 1⟩] := by
  have hasserts : MergeAsserts [⟨1, 2, 0, 1⟩, ⟨3, 5, 0, 1⟩] := ⟨by decide, by decide⟩
  obtain ⟨si, hmerge, ⟨-, hperm⟩, -⟩ := mergeSequenceInfo_spec .debug
    [⟨[⟨1, 2, 0, 1⟩], some [(2, ['a'])]⟩, ⟨[⟨3, 5, 0, 1⟩], some [(5, ['b'])]⟩] 2 1 (by simp) (.inr hasserts)
  exact ⟨by simp, hasserts, si, hmerge, by simpa [allRanges] using hperm⟩

end Daisy.MergeTree
