import Daisy.Storages.MergeTree.MergeTreePartInfo

/-!
# `ActiveDataPartSet`

`Storages/MergeTree/ActiveDataPartSet.{h,cpp}`: the active parts of a table,
as a `std::map` from part info to name in the order of
`MergeTreePartInfo::operator<`. Every operation starts at the `lower_bound` of
the part it is given and looks only at the neighbours there: `add` erases the
parts the new part contains going left and then right, throws where it meets
a part it intersects, and inserts it; `getContainingPartImpl` looks at the part
at `lower_bound` and the one before; `getPartsCoveredBy` walks left and right
over the parts the given part contains, and gives nothing where a part it
meets contains the given one.

## The model

The map is the list of its entries in order. `lower_bound` is the number of
entries below the part (`lowerBound`). A walk from `lower_bound` is a function
of the entries on that side, nearest first. `add` returns what it returns or
throws together with the map it leaves, also when it throws: the entries it
erased before throwing stay erased. `out_replaced_parts` is the list of names
`add` returns. The format version is the set's, as `fromPartName` uses it.

## What is proved

* `not_isDisjoint_of_between`: a part that lies in the order between a part
  and one it contains shares a block with the larger one. With the parts
  pairwise disjoint, this is what the walks from `lower_bound` rest on.
* `getContainingPartImpl_eq`, `contains_eq_false_of_head`: the containing
  part is the first part of one of the two walks, or there is none.
* `filter_contains_eq_takeWhile`: where the first part of a walk that the new
  part does not contain is disjoint from it, the walk has passed every part
  the new part contains.
* `addRight_of_not_meets`, `addRight_of_meets`, `addInfo_of_meets_left`,
  `addInfo_of_not_meets_left`: what `add` returns or throws, by the first part
  outside the new one on either side.
* `addInfo_error_entries`: an `add` that throws leaves the entries there
  were less some that the new part contains, in their order.
* `add_rejected_erases_part`: two parts are added to an empty set, and the
  `add` of a part that contains the first and meets the second throws after
  erasing the first.
* `getPartsCoveredBy_not_exact`: three parts are added to an empty set, and a
  part is given that contains the first and the third and meets the second,
  of a higher level. `getPartsCoveredBy` gives the first only, since its walk
  to the right stops at the second.
-/

namespace Daisy.MergeTree

/-- An entry of `part_info_to_name`. -/
abbrev PartEntry := MergeTreePartInfo × List Char

/-- `ActiveDataPartSet`. -/
structure ActiveDataPartSet where
  /-- `format_version`. -/
  formatVersion : Nat
  /-- `part_info_to_name`, its entries in order. -/
  partInfoToName : List PartEntry

/-- What the set throws. -/
inductive PartSetError where
  /-- `fromPartName`: "Unexpected part name: `name`" (`BAD_DATA_PART_NAME`). -/
  | unexpectedPartName (name : List Char)
  /-- "Part `name` intersects previous part `previous`. It is a bug."
  (`LOGICAL_ERROR`). -/
  | intersectsPrevious (name previous : List Char)
  /-- "Unexpected duplicate part `name`. It is a bug." (`LOGICAL_ERROR`). -/
  | unexpectedDuplicate (name : List Char)
  /-- "Part `name` intersects next part `next`. It is a bug." (`LOGICAL_ERROR`). -/
  | intersectsNext (name next : List Char)
  deriving DecidableEq

namespace MergeTreePartInfo

/-- `operator==`: neither part is below the other. -/
def equiv (a b : MergeTreePartInfo) : Bool := !decide (a.lt b) && !decide (b.lt a)

/-- `fromPartName(part_name, format_version)`: the part the name is read as,
or it throws. -/
def fromPartName (partName : List Char) (formatVersion : Nat) : Except PartSetError MergeTreePartInfo :=
  match tryParsePartName partName formatVersion with
  | some partInfo => .ok partInfo
  | none => .error (.unexpectedPartName partName)

/-! ### The order and the blocks

Where parts are pairwise disjoint, a part that lies in the order between a
part and one that contains it, or one it contains, shares a block with the
larger of the two: this is why the walks from `lower_bound` see every part
they have to. -/

/-- `min_block <= max_block`, which `tryParsePartName` checks. -/
def Valid (p : MergeTreePartInfo) : Prop := p.minBlock.val ≤ p.maxBlock.val

instance (p : MergeTreePartInfo) : Decidable p.Valid := by unfold Valid; exact inferInstance

/-- `b` lies between `a` and `c` in the order. -/
def Between (a b c : MergeTreePartInfo) : Prop := ¬ b.lt a ∧ ¬ c.lt b

theorem lt_asymm {a b : MergeTreePartInfo} (h : a.lt b) : ¬ b.lt a := by
  unfold lt at *
  rintro (h' | ⟨hpid', h'⟩)
  · rcases h with h | ⟨hpid, -⟩
    · exact List.lt_asymm h h'
    · exact List.lt_irrefl _ (hpid ▸ h')
  · rcases h with h | ⟨-, h⟩
    · exact List.lt_irrefl _ (hpid' ▸ h)
    · omega

theorem lt_trans {a b c : MergeTreePartInfo} (hab : a.lt b) (hbc : b.lt c) : a.lt c := by
  unfold lt at *
  rcases hab with hab | ⟨hpid, hab⟩
  · rcases hbc with hbc | ⟨hpid', -⟩
    · exact .inl (List.lt_trans hab hbc)
    · exact .inl (hpid' ▸ hab)
  · rcases hbc with hbc | ⟨hpid', hbc⟩
    · exact .inl (hpid ▸ hbc)
    · exact .inr ⟨hpid.trans hpid', by omega⟩

theorem partitionId_eq_of_between {a b c : MergeTreePartInfo} (h : Between a b c)
    (hac : a.partitionId = c.partitionId) : b.partitionId = a.partitionId := by
  obtain ⟨hba, hcb⟩ := h
  have hle : ¬ b.partitionId < a.partitionId := fun hlt => hba (.inl hlt)
  have hge : ¬ a.partitionId < b.partitionId := fun hlt => hcb (.inl (hac ▸ hlt))
  rcases Std.lt_trichotomy b.partitionId a.partitionId with hlt | heq | hgt
  · exact absurd hlt hle
  · exact heq
  · exact absurd hgt hge

theorem minBlock_le_of_not_lt {a b : MergeTreePartInfo} (h : ¬ b.lt a) (hpid : a.partitionId = b.partitionId) :
    a.minBlock.val ≤ b.minBlock.val := by
  by_contra hlt
  exact h (.inr ⟨hpid.symm, .inl (by omega)⟩)

theorem isDisjoint_comm (a b : MergeTreePartInfo) : a.isDisjoint b = b.isDisjoint a := by
  simp only [isDisjoint, bne_comm, Bool.or_assoc]
  grind

/-- A part disjoint from a part is disjoint from every part that one contains. -/
theorem isDisjoint_of_contains {a b c : MergeTreePartInfo} (hab : a.contains b) (hac : a.isDisjoint c) :
    b.isDisjoint c := by
  simp only [contains, isDisjoint, Bool.and_eq_true, Bool.or_eq_true, beq_iff_eq, bne_iff_ne, ne_eq,
    decide_eq_true_eq] at *
  obtain ⟨⟨⟨⟨hpid, _⟩, _⟩, _⟩, _⟩ := hab
  rcases hac with (hne | hlt) | hlt
  · exact .inl (.inl (hpid ▸ hne))
  · exact .inl (.inr (by omega))
  · exact .inr (by omega)

/-- A part is not disjoint from a part it contains. -/
theorem not_isDisjoint_of_contains {a b : MergeTreePartInfo} (hab : a.contains b) (hb : b.Valid) :
    a.isDisjoint b = false := by
  simp only [Valid, contains, isDisjoint, Bool.and_eq_true, beq_iff_eq, decide_eq_true_eq,
    Bool.or_eq_false_iff, bne_eq_false_iff_eq, decide_eq_false_iff_not] at *
  exact ⟨⟨hab.1.1.1.1, by omega⟩, by omega⟩

theorem equiv_comm (a b : MergeTreePartInfo) : a.equiv b = b.equiv a := by
  simp only [equiv, Bool.and_comm]

/-- Two parts that contain each other are `operator==`. -/
theorem equiv_of_contains {a b : MergeTreePartInfo} (hab : a.contains b) (hba : b.contains a) : a.equiv b := by
  simp only [contains, Bool.and_eq_true, beq_iff_eq, decide_eq_true_eq] at hab hba
  have hpid := hab.1.1.1.1
  simp only [equiv, lt, hpid, List.lt_irrefl, false_or, true_and, Bool.and_eq_true, Bool.not_eq_true',
    decide_eq_false_iff_not]
  omega

/-- A part that lies in the order between a part and a part it contains,
on either side, shares a block with the larger one. -/
theorem not_isDisjoint_of_between {a b c : MergeTreePartInfo} (hab : a.contains b)
    (hbetween : Between a c b ∨ Between b c a) (ha : a.Valid) (hb : b.Valid) (hc : c.Valid) :
    a.isDisjoint c = false := by
  have hpid : a.partitionId = b.partitionId := by simp_all [contains]
  simp only [Valid, contains, isDisjoint, Bool.and_eq_true, beq_iff_eq, decide_eq_true_eq,
    Bool.or_eq_false_iff, bne_eq_false_iff_eq, decide_eq_false_iff_not] at *
  rcases hbetween with hbetween | hbetween
  · -- `a ≤ c ≤ b`: `c` starts inside `a`, before `b` does
    have hca := partitionId_eq_of_between hbetween hpid
    have h1 := minBlock_le_of_not_lt hbetween.1 hca.symm
    have h2 := minBlock_le_of_not_lt hbetween.2 (hca.trans hpid)
    exact ⟨⟨hca.symm, by omega⟩, by omega⟩
  · -- `b ≤ c ≤ a`: `c` starts where `a` and `b` do
    have hcb := partitionId_eq_of_between hbetween hpid.symm
    have h1 := minBlock_le_of_not_lt hbetween.1 hcb.symm
    have h2 := minBlock_le_of_not_lt hbetween.2 (hcb.trans hpid.symm)
    exact ⟨⟨(hcb.trans hpid.symm).symm, by omega⟩, by omega⟩

end MergeTreePartInfo

namespace ActiveDataPartSet

/-- `part_info_to_name.lower_bound(part_info)`: the number of entries below the
part. -/
def lowerBound (entries : List PartEntry) (partInfo : MergeTreePartInfo) : Nat :=
  (entries.takeWhile fun e => decide (e.1.lt partInfo)).length

/-- `getContainingPartImpl(part_info)`: the part at `lower_bound` if it contains
the given one, else the one before it if that does. -/
def getContainingPartImpl (entries : List PartEntry) (partInfo : MergeTreePartInfo) : Option PartEntry :=
  let i := lowerBound entries partInfo
  match entries[i]? with
  | some e => if e.1.contains partInfo then some e else previous i
  | none => previous i
where
  /-- The entry before `lower_bound`, if it contains the given part. -/
  previous (i : Nat) : Option PartEntry :=
    match i with
    | 0 => none
    | i + 1 => match entries[i]? with
      | some e => if e.1.contains partInfo then some e else none
      | none => none

/-- `getContainingPart(part_info)`: the name of the containing part, or the
empty string. -/
def getContainingPart (s : ActiveDataPartSet) (partInfo : MergeTreePartInfo) : List Char :=
  match getContainingPartImpl s.partInfoToName partInfo with
  | some e => e.2
  | none => []

/-- A walk of `getPartsCoveredBy` from `lower_bound`, over the entries on one
side, nearest first: the entries the part contains up to the first it does
not, or `none` (`return {}`) where that one contains the part. -/
def coveredRun (partInfo : MergeTreePartInfo) : List PartEntry → Option (List PartEntry)
  | [] => some []
  | e :: es =>
    if partInfo.contains e.1 then (coveredRun partInfo es).map (e :: ·)
    else if e.1.contains partInfo then none
    else some []

/-- `getPartsCoveredBy(part_info)`: the names of the entries from `begin` to
`end`. -/
def getPartsCoveredBy (s : ActiveDataPartSet) (partInfo : MergeTreePartInfo) : List (List Char) :=
  let i := lowerBound s.partInfoToName partInfo
  match coveredRun partInfo (s.partInfoToName.take i).reverse, coveredRun partInfo (s.partInfoToName.drop i) with
  | some left, some right => (left.reverse ++ right).map (·.2)
  | _, _ => []

/-- The loop of `add` to the right, from `lower_bound`, and the insertion after
it: the entries left of the new part are `kept`, the names erased so far
`replaced`. It returns what `add` returns, or throws, with the entries of the
map. -/
def addRight (partInfo : MergeTreePartInfo) (name : List Char) (kept : List PartEntry) (replaced : List (List Char)) :
    List PartEntry → Except PartSetError (Bool × List (List Char)) × List PartEntry
  | [] => (.ok (true, replaced), kept ++ [(partInfo, name)])
  | e :: es =>
    if partInfo.contains e.1 then
      if partInfo.equiv e.1 then (.error (.unexpectedDuplicate name), kept ++ e :: es)
      else addRight partInfo name kept (replaced ++ [e.2]) es
    else if !partInfo.isDisjoint e.1 then (.error (.intersectsNext name e.1.getPartName), kept ++ e :: es)
    else (.ok (true, replaced), kept ++ (partInfo, name) :: e :: es)

/-- `add` of a parsed part: nothing where a part contains it; else the parts it
contains erased, to the left and then to the right, and the part inserted. -/
def addInfo (s : ActiveDataPartSet) (partInfo : MergeTreePartInfo) (name : List Char) :
    Except PartSetError (Bool × List (List Char)) × ActiveDataPartSet :=
  if (getContainingPartImpl s.partInfoToName partInfo).isSome then (.ok (false, []), s)
  else
    let i := lowerBound s.partInfoToName partInfo
    -- the left loop erases the contained entries nearest first, and `std::reverse` puts their names in order
    let before := (s.partInfoToName.take i).reverse
    let erased := before.takeWhile fun e => partInfo.contains e.1
    let kept := before.dropWhile fun e => partInfo.contains e.1
    let replaced := erased.reverse.map (·.2)
    let after := s.partInfoToName.drop i
    let (r, entries) := match kept with
      | prev :: _ =>
        if !partInfo.isDisjoint prev.1 then (.error (.intersectsPrevious name prev.1.getPartName), kept.reverse ++ after)
        else addRight partInfo name kept.reverse replaced after
      | [] => addRight partInfo name kept.reverse replaced after
    (r, { s with partInfoToName := entries })

/-- `add(name, out_replaced_parts)`: whether the part was added and the names
it replaced, or what it throws, with the set it leaves. -/
def add (s : ActiveDataPartSet) (name : List Char) : Except PartSetError (Bool × List (List Char)) × ActiveDataPartSet :=
  match MergeTreePartInfo.tryParsePartName name s.formatVersion with
  | none => (.error (.unexpectedPartName name), s)
  | some partInfo => addInfo s partInfo name

/-- `remove(part_info)`: whether an entry was erased, and the set after it. -/
def remove (s : ActiveDataPartSet) (partInfo : MergeTreePartInfo) : Bool × ActiveDataPartSet :=
  let entries := s.partInfoToName.filter fun e => !partInfo.equiv e.1
  (entries.length < s.partInfoToName.length, { s with partInfoToName := entries })

/-- `ActiveDataPartSet(format_version, names)`: each name added in turn. -/
def make (formatVersion : Nat) (names : List (List Char)) : Except PartSetError ActiveDataPartSet :=
  names.foldlM (fun s name => (s.add name).1.map fun _ => (s.add name).2) ⟨formatVersion, []⟩

/-- `remove(part_name)`: `remove` of the part the name is read as; where the
name is not read it throws, and the set is as it was. -/
def removeName (s : ActiveDataPartSet) (partName : List Char) : Except PartSetError Bool × ActiveDataPartSet :=
  match MergeTreePartInfo.fromPartName partName s.formatVersion with
  | .ok partInfo =>
    let (removed, s) := s.remove partInfo
    (.ok removed, s)
  | .error e => (.error e, s)

/-- The loop `result &= remove(part)` over names: each name removed in turn,
`result` the `&&` of what the calls return; a call that throws stops the
loop, the names before it removed. -/
def removeNames (s : ActiveDataPartSet) (result : Bool) : List (List Char) → Except PartSetError Bool × ActiveDataPartSet
  | [] => (.ok result, s)
  | part :: parts =>
    match s.removeName part with
    | (.ok removed, s) => removeNames s (result && removed) parts
    | (.error e, s) => (.error e, s)

/-- `removePartAndCoveredParts(part_name)`: the part and the parts
`getPartsCoveredBy` gives for it, each removed by name. -/
def removePartAndCoveredParts (s : ActiveDataPartSet) (partName : List Char) : Except PartSetError Bool × ActiveDataPartSet :=
  match MergeTreePartInfo.fromPartName partName s.formatVersion with
  | .ok partInfo => s.removeNames true (partName :: s.getPartsCoveredBy partInfo)
  | .error e => (.error e, s)

/-- `removePartsCoveredBy(part_name)`: the parts `getPartsCoveredBy` gives for
the part, each removed by name, but for one of the same name. -/
def removePartsCoveredBy (s : ActiveDataPartSet) (partName : List Char) : Except PartSetError Bool × ActiveDataPartSet :=
  match MergeTreePartInfo.fromPartName partName s.formatVersion with
  | .ok partInfo => s.removeNames true ((s.getPartsCoveredBy partInfo).filter fun part => part != partName)
  | .error e => (.error e, s)

/-- `clear()`. -/
def clear (s : ActiveDataPartSet) : ActiveDataPartSet := { s with partInfoToName := [] }

/-! ### The walks from `lower_bound` -/

/-- What the set keeps of its entries: in order, each with
`min_block <= max_block`, and pairwise disjoint. -/
structure Invariant (entries : List PartEntry) : Prop where
  sorted : entries.Pairwise fun a b => a.1.lt b.1
  valid : ∀ e ∈ entries, e.1.Valid
  disjoint : entries.Pairwise fun a b => a.1.isDisjoint b.1

theorem Invariant.isDisjoint_of_mem {entries : List PartEntry} (h : Invariant entries) {a b : PartEntry}
    (ha : a ∈ entries) (hb : b ∈ entries) (hne : a ≠ b) : a.1.isDisjoint b.1 := by
  have : Std.Symm fun a b : PartEntry => a.1.isDisjoint b.1 = true :=
    ⟨fun a b h => by rwa [MergeTreePartInfo.isDisjoint_comm]⟩
  exact h.disjoint.forall ha hb hne

/-- The entries of a walk from `lower_bound` run away from the part: each lies
between the part and every entry after it. -/
def AwayFrom (p : MergeTreePartInfo) (l : List PartEntry) : Prop :=
  l.Pairwise fun e f => f.1.Between e.1 p ∨ p.Between e.1 f.1

/-- Whether the first entry of a walk that the part does not contain meets it. -/
def meetsFirstOutside (p : MergeTreePartInfo) (l : List PartEntry) : Bool :=
  match l.dropWhile fun e => p.contains e.1 with
  | e :: _ => !p.isDisjoint e.1
  | [] => false

section Walks

variable {p : MergeTreePartInfo} {entries : List PartEntry}

theorem take_lowerBound (entries : List PartEntry) (p : MergeTreePartInfo) :
    entries.take (lowerBound entries p) = entries.takeWhile fun e => decide (e.1.lt p) := by
  unfold lowerBound
  conv_lhs => arg 2; rw [← List.takeWhile_append_dropWhile (p := fun e => decide (e.1.lt p)) (l := entries)]
  exact List.take_left' rfl

theorem drop_lowerBound (entries : List PartEntry) (p : MergeTreePartInfo) :
    entries.drop (lowerBound entries p) = entries.dropWhile fun e => decide (e.1.lt p) := by
  unfold lowerBound
  conv_lhs => arg 2; rw [← List.takeWhile_append_dropWhile (p := fun e => decide (e.1.lt p)) (l := entries)]
  exact List.drop_left' rfl

theorem not_lt_of_mem_dropWhile (hsorted : entries.Pairwise fun a b => a.1.lt b.1) {f : PartEntry}
    (hf : f ∈ entries.dropWhile fun e => decide (e.1.lt p)) : ¬ f.1.lt p := by
  induction entries with
  | nil => simp at hf
  | cons e es ih =>
    obtain ⟨hfirst, hrest⟩ := List.pairwise_cons.mp hsorted
    by_cases he : e.1.lt p
    · rw [List.dropWhile_cons_of_pos (by simpa using he)] at hf
      exact ih hrest hf
    · rw [List.dropWhile_cons_of_neg (by simpa using he)] at hf
      rcases List.mem_cons.mp hf with rfl | hf
      · exact he
      · exact fun hfp => he (MergeTreePartInfo.lt_trans (hfirst f hf) hfp)

/-- The walk to the left, nearest first, runs away from the part. -/
theorem awayFrom_before (hsorted : entries.Pairwise fun a b => a.1.lt b.1) :
    AwayFrom p (entries.take (lowerBound entries p)).reverse := by
  rw [take_lowerBound, AwayFrom, List.pairwise_reverse]
  refine ((hsorted.sublist (List.takeWhile_sublist _))).imp_of_mem fun {f e} _ he hfe => ?_
  have hep : e.1.lt p := by simpa using List.mem_takeWhile_imp he
  exact .inl ⟨MergeTreePartInfo.lt_asymm hfe, MergeTreePartInfo.lt_asymm hep⟩

/-- The walk to the right runs away from the part. -/
theorem awayFrom_after (hsorted : entries.Pairwise fun a b => a.1.lt b.1) :
    AwayFrom p (entries.drop (lowerBound entries p)) := by
  rw [drop_lowerBound, AwayFrom]
  refine ((hsorted.sublist (List.dropWhile_sublist _))).imp_of_mem fun {e f} he _ hef => ?_
  exact .inr ⟨not_lt_of_mem_dropWhile hsorted he, MergeTreePartInfo.lt_asymm hef⟩

@[simp] theorem meetsFirstOutside_cons_of_contains {e : PartEntry} (l : List PartEntry) (h : p.contains e.1) :
    meetsFirstOutside p (e :: l) = meetsFirstOutside p l := by
  simp [meetsFirstOutside, h]

@[simp] theorem meetsFirstOutside_cons_of_not_contains {e : PartEntry} (l : List PartEntry)
    (h : p.contains e.1 = false) : meetsFirstOutside p (e :: l) = !p.isDisjoint e.1 := by
  simp [meetsFirstOutside, h]

/-- Where the first entry of a walk is outside the part, it alone decides
`meetsFirstOutside`. -/
theorem isDisjoint_eq_of_meetsFirstOutside_cons {e : PartEntry} {l : List PartEntry} (hc : ¬ p.contains e.1 = true)
    {b : Bool} (h : meetsFirstOutside p (e :: l) = b) : p.isDisjoint e.1 = !b := by
  rw [meetsFirstOutside_cons_of_not_contains l (by simpa using hc)] at h
  rw [← h, Bool.not_not]

/-- Only the first entry of a walk can contain the part: one further away
would meet the first. -/
theorem contains_eq_false_of_mem_tail (hp : p.Valid) {e : PartEntry} {l : List PartEntry}
    (haway : AwayFrom p (e :: l)) (hvalid : ∀ f ∈ e :: l, f.1.Valid)
    (hdisjoint : (e :: l).Pairwise fun a b => a.1.isDisjoint b.1) : ∀ f ∈ l, f.1.contains p = false := by
  intro f hf
  by_contra hcontains
  have hmeets := MergeTreePartInfo.not_isDisjoint_of_between (by simpa using hcontains)
    ((List.pairwise_cons.mp haway).1 f hf) (hvalid f (.tail _ hf)) hp (hvalid e (.head _))
  have hdisjoint := (List.pairwise_cons.mp hdisjoint).1 f hf
  rw [MergeTreePartInfo.isDisjoint_comm] at hdisjoint
  simp [hdisjoint] at hmeets

/-- Where the first entry of a walk that the part does not contain is
disjoint from it, the walk has met every entry the part contains. -/
theorem filter_contains_eq_takeWhile (hp : p.Valid) {l : List PartEntry} (haway : AwayFrom p l)
    (hvalid : ∀ e ∈ l, e.1.Valid) (hmeets : meetsFirstOutside p l = false) :
    l.filter (fun e => p.contains e.1) = l.takeWhile fun e => p.contains e.1 := by
  induction l with
  | nil => rfl
  | cons e es ih =>
    obtain ⟨hfirst, hrest⟩ := List.pairwise_cons.mp haway
    by_cases hc : p.contains e.1
    · rw [meetsFirstOutside_cons_of_contains _ hc] at hmeets
      rw [List.filter_cons_of_pos (p := fun e : PartEntry => p.contains e.1) hc,
        List.takeWhile_cons_of_pos (p := fun e : PartEntry => p.contains e.1) hc, ih hrest (fun f hf => hvalid f (.tail _ hf)) hmeets]
    · -- the walk stops at `e`, disjoint from the part, and no entry beyond it is contained
      have hdisjoint : p.isDisjoint e.1 = true := isDisjoint_eq_of_meetsFirstOutside_cons hc hmeets
      have hnone : ∀ f ∈ es, ¬ p.contains f.1 = true := by
        intro f hf hcf
        have hmeet := MergeTreePartInfo.not_isDisjoint_of_between hcf (hfirst f hf).symm hp
          (hvalid f (.tail _ hf)) (hvalid e (.head _))
        simp [hdisjoint] at hmeet
      rw [List.filter_cons_of_neg (p := fun e : PartEntry => p.contains e.1) hc,
        List.takeWhile_cons_of_neg (p := fun e : PartEntry => p.contains e.1) hc, List.filter_eq_nil_iff.mpr hnone]

/-- `getContainingPartImpl` looks at the first entry of each walk, to the
right first. -/
theorem getContainingPartImpl_eq (entries : List PartEntry) (p : MergeTreePartInfo) :
    getContainingPartImpl entries p =
      ((entries.drop (lowerBound entries p)).head?.filter fun e => e.1.contains p).or
        ((entries.take (lowerBound entries p)).reverse.head?.filter fun e => e.1.contains p) := by
  have hi : lowerBound entries p ≤ entries.length := (List.takeWhile_sublist _).length_le
  unfold getContainingPartImpl
  generalize lowerBound entries p = i at hi
  have hprevious : getContainingPartImpl.previous entries p i =
      (entries.take i).reverse.head?.filter fun e => e.1.contains p := by
    cases i with
    | zero => rfl
    | succ i =>
      -- the entry before `lower_bound` exists, being below it
      obtain ⟨e, he⟩ : ∃ e, entries[i]? = some e := ⟨_, List.getElem?_eq_getElem (by omega)⟩
      rw [List.head?_reverse, List.getLast?_take, if_neg (by omega), Nat.add_sub_cancel, he]
      simp only [getContainingPartImpl.previous, he, Option.some_or, Option.filter_some]
  dsimp only
  rw [← List.head?_drop]
  cases (entries.drop i).head? with
  | none => exact hprevious
  | some e =>
    dsimp only
    rw [Option.filter_some]
    by_cases he : e.1.contains p
    · rw [if_pos he, if_pos he]
      rfl
    · rw [if_neg he, if_neg he, hprevious]
      rfl

/-- What `getContainingPartImpl` finds is an entry that contains the part. -/
theorem mem_of_getContainingPartImpl {c : PartEntry} (h : getContainingPartImpl entries p = some c) :
    c ∈ entries ∧ c.1.contains p := by
  rw [getContainingPartImpl_eq, Option.or_eq_some_iff] at h
  rcases h with h | ⟨-, h⟩
  · obtain ⟨hhead, hcp⟩ := Option.filter_eq_some_iff.mp h
    exact ⟨List.mem_of_mem_drop (List.mem_of_mem_head? hhead), hcp⟩
  · obtain ⟨hhead, hcp⟩ := Option.filter_eq_some_iff.mp h
    exact ⟨List.mem_of_mem_take (List.mem_reverse.mp (List.mem_of_mem_head? hhead)), hcp⟩

/-- Where the first entry to the right that the new part does not contain
is disjoint from it and none it contains is `==` to it, the loop to the right
of `add` erases the entries it contains and the part is inserted. -/
theorem addRight_of_not_meets (name : List Char) (kept : List PartEntry) {after : List PartEntry}
    (replaced : List (List Char)) (hequiv : ∀ e ∈ after, p.equiv e.1 = false)
    (hmeets : meetsFirstOutside p after = false) :
    (addRight p name kept replaced after).1 =
      .ok (true, replaced ++ (after.takeWhile fun e => p.contains e.1).map (·.2)) := by
  induction after generalizing replaced with
  | nil => simp [addRight]
  | cons e es ih =>
    by_cases hc : p.contains e.1
    · rw [meetsFirstOutside_cons_of_contains _ hc] at hmeets
      rw [addRight, if_pos hc, if_neg (by simp [hequiv e (.head _)]),
        ih _ (fun f hf => hequiv f (.tail _ hf)) hmeets]
      simp [hc]
    · have hdisjoint : p.isDisjoint e.1 = true := isDisjoint_eq_of_meetsFirstOutside_cons hc hmeets
      simp [addRight, hc, hdisjoint]

/-- Where the first entry to the right that the new part does not contain
meets it, the loop to the right of `add` throws. -/
theorem addRight_of_meets (name : List Char) (kept : List PartEntry) {after : List PartEntry}
    (replaced : List (List Char)) (hmeets : meetsFirstOutside p after = true) :
    ∃ err, (addRight p name kept replaced after).1 = .error err := by
  induction after generalizing replaced with
  | nil => simp [meetsFirstOutside] at hmeets
  | cons e es ih =>
    by_cases hc : p.contains e.1
    · rw [meetsFirstOutside_cons_of_contains _ hc] at hmeets
      rw [addRight, if_pos hc]
      split
      · exact ⟨_, rfl⟩
      · exact ih _ hmeets
    · have hmeet : p.isDisjoint e.1 = false := isDisjoint_eq_of_meetsFirstOutside_cons hc hmeets
      simp [addRight, hc, hmeet]

/-- No part of a walk contains the new one where its first does not. -/
theorem contains_eq_false_of_head (hp : p.Valid) {l : List PartEntry} (haway : AwayFrom p l)
    (hvalid : ∀ f ∈ l, f.1.Valid) (hdisjoint : l.Pairwise fun a b => a.1.isDisjoint b.1)
    (hhead : l.head?.filter (fun e => e.1.contains p) = none) : ∀ f ∈ l, f.1.contains p = false := by
  cases l with
  | nil => simp
  | cons e es =>
    have he : e.1.contains p = false := by simpa [Option.filter_some] using hhead
    intro f hf
    rcases List.mem_cons.mp hf with rfl | hf
    · exact he
    · exact contains_eq_false_of_mem_tail hp haway hvalid hdisjoint f hf

/-- Where no part contains the new one and the first part to its left that it
does not contain meets it, `add` throws. -/
theorem addInfo_of_meets_left (s : ActiveDataPartSet) (name : List Char)
    (hnone : getContainingPartImpl s.partInfoToName p = none)
    (hmeets : meetsFirstOutside p (s.partInfoToName.take (lowerBound s.partInfoToName p)).reverse = true) :
    ∃ err, (s.addInfo p name).1 = .error err := by
  unfold meetsFirstOutside at hmeets
  simp only [addInfo, hnone, Option.isSome_none, Bool.false_eq_true, if_false]
  split at hmeets
  · rename_i prev rest hkept
    rw [hkept]
    simp [hmeets]
  · simp at hmeets

/-- Where no part contains the new one and the first part to its left that it
does not contain is disjoint from it, `add` goes on to the right with the
parts it erased to the left. -/
theorem addInfo_of_not_meets_left (s : ActiveDataPartSet) (name : List Char)
    (hnone : getContainingPartImpl s.partInfoToName p = none)
    (hmeets : meetsFirstOutside p (s.partInfoToName.take (lowerBound s.partInfoToName p)).reverse = false) :
    (s.addInfo p name).1 =
      (addRight p name (((s.partInfoToName.take (lowerBound s.partInfoToName p)).reverse.dropWhile
          fun e => p.contains e.1).reverse)
        (((s.partInfoToName.take (lowerBound s.partInfoToName p)).reverse.takeWhile
          fun e => p.contains e.1).reverse.map (·.2))
        (s.partInfoToName.drop (lowerBound s.partInfoToName p))).1 := by
  unfold meetsFirstOutside at hmeets
  simp only [addInfo, hnone, Option.isSome_none, Bool.false_eq_true, if_false]
  split at hmeets
  · rename_i prev rest hkept
    rw [hkept]
    simp [hmeets]
  · rename_i hkept
    rw [hkept]

/-- A loop to the right of `add` that throws leaves the entries to the left
and those to the right less a run at their front, each of which the new part
contains. -/
theorem addRight_snd_of_error {name : List Char} {kept : List PartEntry} {replaced : List (List Char)}
    {after : List PartEntry} {err : PartSetError} (h : (addRight p name kept replaced after).1 = .error err) :
    ∃ m, (∀ e ∈ after.take m, p.contains e.1 = true) ∧
      (addRight p name kept replaced after).2 = kept ++ after.drop m := by
  induction after generalizing replaced with
  | nil => simp [addRight] at h
  | cons e es ih =>
    by_cases hc : p.contains e.1 = true
    · by_cases hq : p.equiv e.1 = true
      · exact ⟨0, by simp, by simp [addRight, hc, hq]⟩
      · rw [addRight, if_pos hc, if_neg hq] at h ⊢
        obtain ⟨m, hm, heq⟩ := ih h
        refine ⟨m + 1, fun f hf => ?_, heq⟩
        rcases List.mem_cons.mp (List.take_succ_cons ▸ hf) with rfl | hf
        · exact hc
        · exact hm f hf
    · by_cases hd : p.isDisjoint e.1 = true
      · simp [addRight, hc, hd] at h
      · exact ⟨0, by simp, by simp [addRight, hc, hd]⟩

/-- Entries cut into those kept, a run the new part contains, and the rest,
of which a run at the front the new part also contains: what is left of them
holds, in order, every entry the new part does not contain. -/
theorem sublist_of_erased {entries kept erased after : List PartEntry} {m : Nat}
    (hsplit : entries = kept ++ erased ++ after) (herased : ∀ e ∈ erased, p.contains e.1 = true)
    (hm : ∀ e ∈ after.take m, p.contains e.1 = true) :
    (entries.filter fun e => !p.contains e.1).Sublist (kept ++ after.drop m) ∧
      (kept ++ after.drop m).Sublist entries := by
  have hnone : erased.filter (fun e => !p.contains e.1) = [] :=
    List.filter_eq_nil_iff.mpr fun e he => by simp [herased e he]
  have hfront : (after.take m).filter (fun e => !p.contains e.1) = [] :=
    List.filter_eq_nil_iff.mpr fun e he => by simp [hm e he]
  rw [hsplit]
  constructor
  · conv_lhs => rw [← List.take_append_drop m after]
    rw [List.filter_append, List.filter_append, List.filter_append, hnone, hfront, List.append_nil,
      List.nil_append]
    exact List.filter_sublist.append List.filter_sublist
  · exact (List.sublist_append_left _ _).append (List.drop_sublist _ _)

/-- **A rejected `add` erases only parts the new part contains.** The entries
it leaves were there, in their order, and among them is every entry the new
part does not contain. -/
theorem addInfo_error_entries (s : ActiveDataPartSet) (name : List Char) {err : PartSetError}
    (h : (s.addInfo p name).1 = .error err) :
    (s.partInfoToName.filter fun e => !p.contains e.1).Sublist (s.addInfo p name).2.partInfoToName ∧
      (s.addInfo p name).2.partInfoToName.Sublist s.partInfoToName := by
  unfold addInfo at h ⊢
  -- a part that contains the new one answers without throwing
  split_ifs at h ⊢
  dsimp only at h ⊢
  generalize hbefore : (s.partInfoToName.take (lowerBound s.partInfoToName p)).reverse = before at h ⊢
  -- the entries left of `lower_bound` are those the left loop keeps, then those it erases
  have hsplit : s.partInfoToName = (before.dropWhile fun e => p.contains e.1).reverse ++
      (before.takeWhile fun e => p.contains e.1).reverse ++ s.partInfoToName.drop (lowerBound s.partInfoToName p) := by
    rw [← List.reverse_append, List.takeWhile_append_dropWhile, ← hbefore, List.reverse_reverse,
      List.take_append_drop]
  have herased : ∀ e ∈ (before.takeWhile fun e => p.contains e.1).reverse, p.contains e.1 = true :=
    fun e he => List.mem_takeWhile_imp (p := fun e : PartEntry => p.contains e.1) (List.mem_reverse.mp he)
  generalize (before.dropWhile fun e => p.contains e.1) = kept at h hsplit ⊢
  cases kept with
  | nil =>
    obtain ⟨m, hm, hentries⟩ := addRight_snd_of_error h
    rw [hentries]
    exact sublist_of_erased hsplit herased hm
  | cons prev rest =>
    dsimp only at h ⊢
    split_ifs at h ⊢
    · exact sublist_of_erased (m := 0) hsplit herased (by simp)
    · obtain ⟨m, hm, hentries⟩ := addRight_snd_of_error h
      rw [hentries]
      exact sublist_of_erased hsplit herased hm

end Walks

end ActiveDataPartSet

open ActiveDataPartSet

/-- **`getPartsCoveredBy` is not exact.** The parts `all_0_1_0`,
`all_2_5_5` and `all_6_7_0` are added to an empty set; the part
`all_0_10_1` contains the first and the third, and meets the second, whose
level is higher. `getPartsCoveredBy` stops its walk to the right at the
second part and gives only the first. -/
theorem getPartsCoveredBy_not_exact :
    ∃ s q, make 1 ["all_0_1_0".toList, "all_2_5_5".toList, "all_6_7_0".toList] = .ok s ∧
      MergeTreePartInfo.tryParsePartName "all_0_10_1".toList 1 = some q ∧
      s.getPartsCoveredBy q = ["all_0_1_0".toList] ∧
      (s.partInfoToName.filter fun e => q.contains e.1).map (·.2) = ["all_0_1_0".toList, "all_6_7_0".toList] := by
  refine ⟨_, _, rfl, rfl, ?_, ?_⟩ <;> rfl

/-- **A rejected `add` changes the set.** The parts `all_1_1_0` and
`all_2_3_1` are added to an empty set; the part `all_1_2_1` contains the
first and meets the second. `add` erases the first on its walk to the left
and throws at the second, and the set keeps the second only. -/
theorem add_rejected_erases_part :
    ∃ s, make 1 ["all_1_1_0".toList, "all_2_3_1".toList] = .ok s ∧
      s.partInfoToName.map (·.2) = ["all_1_1_0".toList, "all_2_3_1".toList] ∧
      (s.add "all_1_2_1".toList).1 = .error (.intersectsNext "all_1_2_1".toList "all_2_3_1".toList) ∧
      (s.add "all_1_2_1".toList).2.partInfoToName.map (·.2) = ["all_2_3_1".toList] := by
  refine ⟨_, rfl, ?_, ?_, ?_⟩ <;> rfl

end Daisy.MergeTree
