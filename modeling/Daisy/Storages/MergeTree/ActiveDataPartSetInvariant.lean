import Daisy.Storages.MergeTree.ActiveDataPartSet
import Daisy.Library.InOrder
import Daisy.Library.Faults

/-!
# `ActiveDataPartSet` keeps its parts disjoint

Whatever calls change the set (`add`, `remove` of a part or of a name,
`removePartAndCoveredParts`, `removePartsCoveredBy`, `clear`), and whether
`add` returns `true`, returns `false` or throws, the set's parts stay in the
order of `operator<`, each with `min_block <= max_block`, and pairwise
disjoint: the `Invariant` the walks from `lower_bound` rest on holds of every
set the calls reach from an empty one (`run_keeps_parts_disjoint`), and so of
every set the constructor builds from names (`make_eq_run`).

`add` checks two parts only, the nearest on each side that it does not erase.
That is enough: in the order, a part disjoint from the next ends before it
starts, so before every part after it (`isDisjoint_of_between`). The new
part is then disjoint from every part left of the nearest, which the nearest
is disjoint from, and from every part right of its right neighbour. A
rejected `add` and a removal leave a part of the entries, in order. Every
part a name is read as is valid (`valid_of_tryParsePartName`): `mvcgen` walks
the join points of `tryParsePartName`, each path that returns having passed
the check `min_block_num > max_block_num`.

With the invariant, `getContainingPartImpl`, which looks at two parts only,
finds a containing part wherever there is one; so on every set the calls
reach, `add` returns `false` and changes nothing exactly when a part of the
set contains the new one (`add_returns_false_iff_contained`).
-/

namespace Daisy.MergeTree

open Daisy.Library

namespace MergeTreePartInfo

/-- A part disjoint from the next in the order ends before it starts, so
before every part after it. -/
theorem isDisjoint_of_between {a b c : MergeTreePartInfo} (h : Between a b c) (hab : a.isDisjoint b) (hb : b.Valid) :
    a.isDisjoint c := by
  by_cases hac : a.partitionId = c.partitionId
  · have hba := partitionId_eq_of_between h hac
    have hmin₁ := minBlock_le_of_not_lt h.1 hba.symm
    have hmin₂ := minBlock_le_of_not_lt h.2 (hba.trans hac)
    simp only [Valid, isDisjoint, Bool.or_eq_true, bne_iff_ne, ne_eq, decide_eq_true_eq] at *
    rcases hab with (hne | hlt) | hlt
    · exact absurd hba.symm hne
    · omega
    · exact .inr (by omega)
  · simp [isDisjoint, hac]

/-- A part that is not below one it is disjoint from is above it. -/
theorem lt_of_isDisjoint {a b : MergeTreePartInfo} (h : ¬ b.lt a) (hab : a.isDisjoint b) (ha : a.Valid)
    (hb : b.Valid) : a.lt b := by
  by_cases hpid : a.partitionId = b.partitionId
  · have hmin := minBlock_le_of_not_lt h hpid
    simp only [Valid, isDisjoint, Bool.or_eq_true, bne_iff_ne, ne_eq, decide_eq_true_eq] at *
    rcases hab with (hne | hlt) | hlt
    · exact absurd hpid hne
    · omega
    · exact .inr ⟨hpid, .inl (by omega)⟩
  · rcases Std.lt_trichotomy a.partitionId b.partitionId with hlt | heq | hgt
    · exact .inl hlt
    · exact absurd heq hpid
    · exact absurd (.inl hgt) h

/-! ### The parts a name is read as -/

section Parse

open Std.Do Daisy.IO Daisy.Interpreters

set_option mvcgen.warning false

@[spec] theorem tryReadIntText_triple (T : IntType) (buf : List Char) :
    ⦃⌜True⌝⦄ tryReadIntText T buf ⦃⇓? _ => ⌜True⌝⦄ :=
  option_triple_iff.mpr fun _ _ => trivial

@[spec] theorem ofInt?_triple (T : IntType) (x : Int) :
    ⦃⌜True⌝⦄ Value.ofInt? T x ⦃⇓? v => ⌜v.val = x⌝⦄ :=
  option_triple_iff.mpr fun _ => Value.val_of_ofInt?

/-- Every part `tryParsePartName` reads has `min_block <= max_block`: each
path of the `do` block that returns has passed the check
`min_block_num > max_block_num`, and the blocks are the values read. -/
theorem tryParsePartName_triple (partName : List Char) (formatVersion : Nat) :
    ⦃⌜True⌝⦄ tryParsePartName partName formatVersion ⦃⇓? p => ⌜p.Valid⌝⦄ := by
  mvcgen [tryParsePartName]
  all_goals
    simp only [Valid]
    omega

theorem valid_of_tryParsePartName {partName : List Char} {formatVersion : Nat} {p : MergeTreePartInfo}
    (h : tryParsePartName partName formatVersion = some p) : p.Valid :=
  option_triple_iff.mp (tryParsePartName_triple partName formatVersion) p h

end Parse

end MergeTreePartInfo

namespace ActiveDataPartSet

variable {p : MergeTreePartInfo}

/-- What is left of the entries, in order, keeps the invariant. -/
theorem Invariant.sublist {l l' : List PartEntry} (h : Invariant l) (hsub : l'.Sublist l) : Invariant l' :=
  ⟨h.sorted.sublist hsub, fun e he => h.valid e (hsub.subset he), h.disjoint.sublist hsub⟩

/-- **The insertion of `add`.** A valid part put between the entries below it
and those not below it keeps the invariant, where it is disjoint from its
two neighbours. -/
theorem Invariant.insert {entries before after : List PartEntry} (h : Invariant entries) (name : List Char)
    (hsub : (before ++ after).Sublist entries) (hbefore : ∀ e ∈ before, e.1.lt p) (hafter : ∀ e ∈ after, ¬ e.1.lt p)
    (hp : p.Valid) (hprev : ∀ prev ∈ before.getLast?, prev.1.isDisjoint p)
    (hnext : ∀ next ∈ after.head?, p.isDisjoint next.1) : Invariant (before ++ (p, name) :: after) := by
  have hrest := h.sublist hsub
  have hleft : ∀ e ∈ before, e.1.isDisjoint p := by
    -- the nearest is checked; the others are disjoint from it, which lies between them and the new part
    obtain hnil | ⟨rest, prev, rfl⟩ := List.eq_nil_or_concat' before
    · simp [hnil]
    · have hprevp := hprev prev (by simp)
      have hsorted := List.pairwise_append.mp (List.pairwise_append.mp hrest.sorted).1
      have hdisjoint := List.pairwise_append.mp (List.pairwise_append.mp hrest.disjoint).1
      intro e he
      rcases List.mem_append.mp he with he | he
      · have hep := hsorted.2.2 e he prev (by simp)
        have hprevLt := hbefore prev (by simp)
        exact MergeTreePartInfo.isDisjoint_of_between ⟨MergeTreePartInfo.lt_asymm hep, MergeTreePartInfo.lt_asymm hprevLt⟩
          (hdisjoint.2.2 e he prev (by simp)) (hrest.valid prev (by simp))
      · rw [List.mem_singleton.mp he]
        exact hprevp
  have hright : ∀ e ∈ after, p.lt e.1 ∧ p.isDisjoint e.1 := by
    -- the next is checked and above the new part; the others are above the next
    cases after with
    | nil => simp
    | cons next rest =>
      have hnextp := hnext next (by simp)
      have hnextLt : p.lt next.1 :=
        MergeTreePartInfo.lt_of_isDisjoint (hafter next (by simp)) hnextp hp (hrest.valid next (by simp))
      have hsorted := (List.pairwise_append.mp hrest.sorted).2.1
      intro e he
      rcases List.mem_cons.mp he with rfl | he
      · exact ⟨hnextLt, hnextp⟩
      · have hne := (List.pairwise_cons.mp hsorted).1 e he
        exact ⟨MergeTreePartInfo.lt_trans hnextLt hne,
          MergeTreePartInfo.isDisjoint_of_between ⟨MergeTreePartInfo.lt_asymm hnextLt, MergeTreePartInfo.lt_asymm hne⟩
            hnextp (hrest.valid next (by simp))⟩
  refine ⟨pairwise_insert_middle hrest.sorted hbefore fun e he => (hright e he).1, fun e he => ?_,
    pairwise_insert_middle hrest.disjoint hleft fun e he => (hright e he).2⟩
  rcases List.mem_append.mp he with he | he
  · exact hrest.valid e (List.mem_append_left _ he)
  · rcases List.mem_cons.mp he with rfl | he
    · exact hp
    · exact hrest.valid e (List.mem_append_right _ he)

/-- What the loop of `add` to the right leaves: the entries as they were but
for a run it erased at the front of those to the right, with the new part
inserted, disjoint from the next, where it does not throw. -/
theorem addRight_snd (name : List Char) (kept : List PartEntry) :
    ∀ (replaced : List (List Char)) (after : List PartEntry), ∃ m,
      (addRight p name kept replaced after).2 = kept ++ after.drop m ∨
        ((addRight p name kept replaced after).2 = kept ++ (p, name) :: after.drop m ∧
          ∀ next ∈ (after.drop m).head?, p.isDisjoint next.1)
  | _, [] => ⟨0, .inr ⟨rfl, by simp⟩⟩
  | replaced, e :: es => by
    by_cases hc : p.contains e.1 = true
    · by_cases hq : p.equiv e.1 = true
      · exact ⟨0, .inl (by simp [addRight, hc, hq])⟩
      · -- `e` is erased and the loop goes on
        obtain ⟨m, hm⟩ := addRight_snd name kept (replaced ++ [e.2]) es
        refine ⟨m + 1, ?_⟩
        simpa [addRight, hc, hq] using hm
    · by_cases hd : p.isDisjoint e.1 = true
      · exact ⟨0, .inr ⟨by simp [addRight, hc, hd], by simp [hd]⟩⟩
      · exact ⟨0, .inl (by simp [addRight, hc, hd])⟩

/-- **`add` of a valid part keeps the invariant**, whether it finds a part
that contains it, throws, or inserts it. -/
theorem Invariant.addInfo {s : ActiveDataPartSet} (h : Invariant s.partInfoToName) (name : List Char) (hp : p.Valid) :
    Invariant (s.addInfo p name).2.partInfoToName := by
  unfold ActiveDataPartSet.addInfo
  split_ifs
  · exact h
  · dsimp only
    -- the entries below `lower_bound`, of which the left loop keeps a part, and those from it
    have hsplit := List.take_append_drop (lowerBound s.partInfoToName p) s.partInfoToName
    have hkeptSub : ((s.partInfoToName.take (lowerBound s.partInfoToName p)).reverse.dropWhile
        fun e => p.contains e.1).reverse.Sublist (s.partInfoToName.take (lowerBound s.partInfoToName p)) := by
      simpa using (List.dropWhile_sublist (fun e : PartEntry => p.contains e.1)
        (l := (s.partInfoToName.take (lowerBound s.partInfoToName p)).reverse)).reverse
    have hbelow : ∀ e ∈ s.partInfoToName.take (lowerBound s.partInfoToName p), e.1.lt p := fun e he => by
      rw [take_lowerBound] at he
      simpa using List.mem_takeWhile_imp he
    have habove : ∀ e ∈ s.partInfoToName.drop (lowerBound s.partInfoToName p), ¬ e.1.lt p := fun e he => by
      rw [drop_lowerBound] at he
      exact not_lt_of_mem_dropWhile h.sorted he
    generalize s.partInfoToName.drop (lowerBound s.partInfoToName p) = after at hsplit habove ⊢
    generalize ((s.partInfoToName.take (lowerBound s.partInfoToName p)).reverse.dropWhile
      fun e => p.contains e.1) = kept at hkeptSub ⊢
    have hsub : ∀ m, (kept.reverse ++ after.drop m).Sublist s.partInfoToName := fun m => by
      conv_rhs => rw [← hsplit]
      exact hkeptSub.append (List.drop_sublist _ _)
    -- the loop to the right, from a left neighbour the new part is disjoint from
    have hright : ∀ replaced, (∀ prev ∈ kept.head?, p.isDisjoint prev.1) →
        Invariant (addRight p name kept.reverse replaced after).2 := by
      intro replaced hprev
      obtain ⟨m, hm | ⟨hm, hnext⟩⟩ := addRight_snd name kept.reverse replaced after
      · rw [hm]
        exact h.sublist (hsub m)
      · rw [hm]
        refine h.insert name (hsub m) (fun e he => hbelow e (hkeptSub.subset he))
          (fun e he => habove e (List.mem_of_mem_drop he)) hp (fun prev hlast => ?_) hnext
        rw [List.getLast?_reverse] at hlast
        rw [MergeTreePartInfo.isDisjoint_comm]
        exact hprev prev hlast
    cases kept with
    | nil => exact hright _ (by simp)
    | cons prev tail =>
      dsimp only
      split_ifs with hmeet
      · -- "intersects previous part": the entries less those the left loop erased
        exact h.sublist (by simpa using hsub 0)
      · exact hright _ (by simpa using hmeet)

/-- **`add` keeps the invariant**: a name that is not read leaves the set as
it was, and a name that is read is of a valid part. -/
theorem Invariant.add {s : ActiveDataPartSet} (h : Invariant s.partInfoToName) (name : List Char) :
    Invariant (s.add name).2.partInfoToName := by
  unfold ActiveDataPartSet.add
  cases hp : MergeTreePartInfo.tryParsePartName name s.formatVersion with
  | none => exact h
  | some p => exact h.addInfo name (MergeTreePartInfo.valid_of_tryParsePartName hp)

/-! ### The removals -/

theorem Invariant.remove {s : ActiveDataPartSet} (h : Invariant s.partInfoToName) (partInfo : MergeTreePartInfo) :
    Invariant (s.remove partInfo).2.partInfoToName :=
  h.sublist List.filter_sublist

theorem Invariant.removeName {s : ActiveDataPartSet} (h : Invariant s.partInfoToName) (partName : List Char) :
    Invariant (s.removeName partName).2.partInfoToName := by
  unfold ActiveDataPartSet.removeName
  split
  · exact h.remove _
  · exact h

/-- The loop over names removes them in turn, and stops where a name is
not read. -/
theorem Invariant.removeNames {s : ActiveDataPartSet} (h : Invariant s.partInfoToName) (result : Bool)
    (parts : List (List Char)) : Invariant (s.removeNames result parts).2.partInfoToName := by
  induction parts generalizing s result with
  | nil => exact h
  | cons part parts ih =>
    have hpart := h.removeName part
    unfold ActiveDataPartSet.removeNames
    split
    · rename_i heq
      rw [heq] at hpart
      exact ih hpart _
    · rename_i heq
      rw [heq] at hpart
      exact hpart

theorem Invariant.removePartAndCoveredParts {s : ActiveDataPartSet} (h : Invariant s.partInfoToName)
    (partName : List Char) : Invariant (s.removePartAndCoveredParts partName).2.partInfoToName := by
  unfold ActiveDataPartSet.removePartAndCoveredParts
  split
  · exact h.removeNames _ _
  · exact h

theorem Invariant.removePartsCoveredBy {s : ActiveDataPartSet} (h : Invariant s.partInfoToName)
    (partName : List Char) : Invariant (s.removePartsCoveredBy partName).2.partInfoToName := by
  unfold ActiveDataPartSet.removePartsCoveredBy
  split
  · exact h.removeNames _ _
  · exact h

theorem invariant_nil : Invariant [] := ⟨.nil, by simp, .nil⟩

/-! ### Runs of calls -/

/-- A call that changes the set. -/
inductive Call where
  | add (name : List Char)
  | remove (partInfo : MergeTreePartInfo)
  | removeName (partName : List Char)
  | removePartAndCoveredParts (partName : List Char)
  | removePartsCoveredBy (partName : List Char)
  | clear

/-- The set a call leaves, whether it returns or throws. -/
def step (s : ActiveDataPartSet) : Call → ActiveDataPartSet
  | .add name => (s.add name).2
  | .remove partInfo => (s.remove partInfo).2
  | .removeName partName => (s.removeName partName).2
  | .removePartAndCoveredParts partName => (s.removePartAndCoveredParts partName).2
  | .removePartsCoveredBy partName => (s.removePartsCoveredBy partName).2
  | .clear => s.clear

/-- The calls in turn. -/
def run (s : ActiveDataPartSet) (calls : List Call) : ActiveDataPartSet := calls.foldl step s

theorem Invariant.step {s : ActiveDataPartSet} (h : Invariant s.partInfoToName) :
    ∀ call, Invariant (s.step call).partInfoToName
  | .add name => h.add name
  | .remove partInfo => h.remove partInfo
  | .removeName partName => h.removeName partName
  | .removePartAndCoveredParts partName => h.removePartAndCoveredParts partName
  | .removePartsCoveredBy partName => h.removePartsCoveredBy partName
  | .clear => invariant_nil

theorem Invariant.run {s : ActiveDataPartSet} (h : Invariant s.partInfoToName) (calls : List Call) :
    Invariant (s.run calls).partInfoToName := by
  induction calls generalizing s with
  | nil => exact h
  | cons call calls ih => exact ih (h.step call)

/-- **Every set the calls reach from an empty one keeps the invariant**,
also where an `add` throws after erasing parts. -/
theorem run_keeps_parts_disjoint (formatVersion : Nat) (calls : List Call) :
    Invariant (ActiveDataPartSet.run ⟨formatVersion, []⟩ calls).partInfoToName :=
  invariant_nil.run calls

/-- The set the constructor builds from names is the run of their `add`s. -/
theorem make_eq_run {formatVersion : Nat} {names : List (List Char)} {s : ActiveDataPartSet}
    (h : make formatVersion names = .ok s) : s = ActiveDataPartSet.run ⟨formatVersion, []⟩ (names.map .add) := by
  unfold make at h
  generalize (⟨formatVersion, []⟩ : ActiveDataPartSet) = s₀ at h ⊢
  induction names generalizing s₀ with
  | nil => exact (Except.ok.inj h).symm
  | cons name names ih =>
    rw [List.foldlM_cons] at h
    obtain ⟨s₁, hadd, hrest⟩ := bind_eq_ok h
    -- the `add` returned, and the constructor goes on from the set it left
    have hs₁ : s₁ = s₀.step (.add name) := by
      cases hr : (s₀.add name).1 with
      | error e => simp [hr, Except.map] at hadd
      | ok r =>
        simp only [hr, Except.map] at hadd
        exact (Except.ok.inj hadd).symm
    rw [ih s₁ hrest, hs₁]
    rfl

/-! ### The format version -/

theorem formatVersion_add (s : ActiveDataPartSet) (name : List Char) : (s.add name).2.formatVersion = s.formatVersion := by
  unfold ActiveDataPartSet.add
  split
  · rfl
  · unfold ActiveDataPartSet.addInfo
    split_ifs
    · rfl
    · dsimp only

theorem formatVersion_removeName (s : ActiveDataPartSet) (partName : List Char) :
    (s.removeName partName).2.formatVersion = s.formatVersion := by
  unfold ActiveDataPartSet.removeName
  split <;> rfl

theorem formatVersion_removeNames (s : ActiveDataPartSet) (result : Bool) (parts : List (List Char)) :
    (s.removeNames result parts).2.formatVersion = s.formatVersion := by
  induction parts generalizing s result with
  | nil => rfl
  | cons part parts ih =>
    have hpart := formatVersion_removeName s part
    unfold ActiveDataPartSet.removeNames
    split
    · rename_i heq
      rw [heq] at hpart
      exact (ih _ _).trans hpart
    · rename_i heq
      rw [heq] at hpart
      exact hpart

theorem formatVersion_step (s : ActiveDataPartSet) : ∀ call, (s.step call).formatVersion = s.formatVersion
  | .add name => formatVersion_add s name
  | .remove _ => rfl
  | .removeName partName => formatVersion_removeName s partName
  | .removePartAndCoveredParts partName => by
    show (s.removePartAndCoveredParts partName).2.formatVersion = _
    unfold ActiveDataPartSet.removePartAndCoveredParts
    split
    · exact formatVersion_removeNames s _ _
    · rfl
  | .removePartsCoveredBy partName => by
    show (s.removePartsCoveredBy partName).2.formatVersion = _
    unfold ActiveDataPartSet.removePartsCoveredBy
    split
    · exact formatVersion_removeNames s _ _
    · rfl
  | .clear => rfl

theorem formatVersion_run (s : ActiveDataPartSet) (calls : List Call) : (s.run calls).formatVersion = s.formatVersion := by
  induction calls generalizing s with
  | nil => rfl
  | cons call calls ih => exact (ih _).trans (formatVersion_step s call)

/-! ### When `add` returns `false` -/

/-- Where `getContainingPartImpl` finds nothing, no entry contains the part:
only the first entry of each walk could. -/
theorem contains_eq_false_of_getContainingPartImpl {entries : List PartEntry} (h : Invariant entries)
    (hp : p.Valid) (hnone : getContainingPartImpl entries p = none) : ∀ e ∈ entries, e.1.contains p = false := by
  rw [getContainingPartImpl_eq, Option.or_eq_none_iff] at hnone
  have hleft := contains_eq_false_of_head hp (awayFrom_before h.sorted)
    (fun e he => h.valid e (List.mem_of_mem_take (List.mem_reverse.mp he)))
    (List.pairwise_reverse.mpr ((h.disjoint.sublist (List.take_sublist _ _)).imp fun hd => by
      rwa [MergeTreePartInfo.isDisjoint_comm])) hnone.2
  have hright := contains_eq_false_of_head hp (awayFrom_after h.sorted)
    (fun e he => h.valid e (List.mem_of_mem_drop he)) (h.disjoint.sublist (List.drop_sublist _ _)) hnone.1
  intro e he
  rw [← List.take_append_drop (lowerBound entries p) entries, List.mem_append] at he
  rcases he with he | he
  · exact hleft e (List.mem_reverse.mpr he)
  · exact hright e he

/-- The loop to the right returns `true` where it does not throw. -/
theorem addRight_fst_ne_false (name : List Char) (kept : List PartEntry) (r : List (List Char)) :
    ∀ (replaced : List (List Char)) (after : List PartEntry), (addRight p name kept replaced after).1 ≠ .ok (false, r)
  | _, [] => by simp [addRight]
  | replaced, e :: es => by
    by_cases hc : p.contains e.1 = true
    · by_cases hq : p.equiv e.1 = true
      · simp [addRight, hc, hq]
      · rw [addRight, if_pos hc, if_neg hq]
        exact addRight_fst_ne_false name kept r _ es
    · by_cases hd : p.isDisjoint e.1 = true
      · simp [addRight, hc, hd]
      · simp [addRight, hc, hd]

/-- `add` of a part returns `false` only from the check of
`getContainingPartImpl`, and then leaves the set as it was. -/
theorem addInfo_eq_false_iff (s : ActiveDataPartSet) (name : List Char) :
    s.addInfo p name = (.ok (false, []), s) ↔ (getContainingPartImpl s.partInfoToName p).isSome := by
  unfold ActiveDataPartSet.addInfo
  split_ifs with hsome
  · simpa using hsome
  · refine ⟨fun hadd => absurd (congrArg Prod.fst hadd) ?_, fun h => absurd h hsome⟩
    dsimp only
    split
    · split_ifs
      · simp
      · exact addRight_fst_ne_false name _ [] _ _
    · exact addRight_fst_ne_false name _ [] _ _

/-- **On every set the calls reach, `add` returns `false` and changes
nothing exactly when a part of the set contains the new one**: the two
parts `getContainingPartImpl` looks at stand for all. -/
theorem add_returns_false_iff_contained (formatVersion : Nat) (calls : List Call) {name : List Char}
    {p : MergeTreePartInfo} (hp : MergeTreePartInfo.tryParsePartName name formatVersion = some p) :
    (ActiveDataPartSet.run ⟨formatVersion, []⟩ calls).add name = (.ok (false, []), ActiveDataPartSet.run ⟨formatVersion, []⟩ calls) ↔
      ∃ e ∈ (ActiveDataPartSet.run ⟨formatVersion, []⟩ calls).partInfoToName, e.1.contains p := by
  have h : Invariant (ActiveDataPartSet.run ⟨formatVersion, []⟩ calls).partInfoToName := invariant_nil.run calls
  have hvalid := MergeTreePartInfo.valid_of_tryParsePartName hp
  rw [ActiveDataPartSet.add, formatVersion_run, hp]
  dsimp only
  rw [addInfo_eq_false_iff]
  constructor
  · intro hsome
    obtain ⟨c, hc⟩ := Option.isSome_iff_exists.mp hsome
    exact ⟨c, mem_of_getContainingPartImpl hc⟩
  · rintro ⟨e, he, hc⟩
    rw [Option.isSome_iff_ne_none]
    intro hnone
    simp [contains_eq_false_of_getContainingPartImpl h hvalid hnone e he] at hc

/-- The part `all_1_3_1` is added to an empty set; `all_2_2_0` lies inside
it, and its `add` returns `false`. -/
theorem add_returns_false_all_2_2_0 :
    ∃ p, MergeTreePartInfo.tryParsePartName "all_2_2_0".toList 1 = some p ∧
      ((ActiveDataPartSet.run ⟨1, []⟩ [.add "all_1_3_1".toList]).add "all_2_2_0".toList =
          (.ok (false, []), ActiveDataPartSet.run ⟨1, []⟩ [.add "all_1_3_1".toList]) ↔
        ∃ e ∈ (ActiveDataPartSet.run ⟨1, []⟩ [.add "all_1_3_1".toList]).partInfoToName, e.1.contains p) :=
  ⟨_, rfl, add_returns_false_iff_contained 1 [.add "all_1_3_1".toList] rfl⟩

end ActiveDataPartSet

end Daisy.MergeTree
