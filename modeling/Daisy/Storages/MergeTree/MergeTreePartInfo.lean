import Daisy.IO.ReadIntText

/-!
# `MergeTreePartInfo`

`Storages/MergeTree/MergeTreePartInfo.{h,cpp}`: what the name of a data part
says. A part holds the blocks `[min_block, max_block]` of a partition, made
by `level` merges and brought to mutation version `mutation`; its name is
`partition_id_min_block_max_block_level`, with `_mutation` after it when the
mutation is not `0` (`getPartName`), and `tryParsePartName` reads a name back
with `tryReadIntText`. The part sets keep parts in the order `operator<`
gives and decide covering by `contains` and `isDisjoint`.

## The model

The fields are values of their types (`Value`): `Int64` block numbers and
mutation, a `UInt32` level. A name is a `List Char`, and the format version a
`Nat`. From version `1` the partition id is the text before the first `_`;
below it a name starts with two dates `YYYYMMDD`, and the partition is the
month of the first. `tryParsePartName` fills a default part info, as
`fromPartName` passes it, and returns it where it returns `true`.
`operator<` is the `std::tuple` comparison of five fields; it does not look
at `use_leagcy_max_level`.

## What is proved

`tryParsePartName_getPartName`: of the name of a part whose partition id is
not empty and has no `_`, `tryParsePartName` gives back the part, its level
read as `MAX_LEVEL` with the legacy flag where it is the legacy one, exactly
when its block numbers read back, `min_block ≤ max_block` and the mutation is
a `UInt32`; else nothing. So a mutation past `UInt32` makes a name that is
not read back, and a name that spells a mutation `0` is read and named
otherwise (`partName_not_faithful`).
-/

namespace Daisy.MergeTree

open Daisy.IO Daisy.Interpreters

/-- `MERGE_TREE_DATA_MIN_FORMAT_VERSION_WITH_CUSTOM_PARTITIONING`. -/
def minFormatVersionWithCustomPartitioning : Nat := 1

/-- `MergeTreePartInfo`. -/
structure MergeTreePartInfo where
  /-- `partition_id`. -/
  partitionId : List Char
  /-- `min_block`. -/
  minBlock : Value .int64
  /-- `max_block`. -/
  maxBlock : Value .int64
  /-- `level`. -/
  level : Value .uInt32
  /-- `mutation`. -/
  mutation : Value .int64
  /-- `use_leagcy_max_level`. -/
  useLeagcyMaxLevel : Bool
  deriving DecidableEq

namespace MergeTreePartInfo

/-- `MAX_LEVEL`. -/
def maxLevel : Value .uInt32 := ⟨999999999, by decide, by decide⟩

/-- `LEGACY_MAX_LEVEL`: the greatest `UInt32`. -/
def legacyMaxLevel : Value .uInt32 := ⟨2 ^ 32 - 1, by decide, by decide⟩

/-- `operator<`: the `std::tuple` comparison of `(partition_id, min_block,
max_block, level, mutation)`. -/
def lt (a b : MergeTreePartInfo) : Prop :=
  a.partitionId < b.partitionId ∨ a.partitionId = b.partitionId ∧
    (a.minBlock.val < b.minBlock.val ∨ a.minBlock.val = b.minBlock.val ∧
      (a.maxBlock.val < b.maxBlock.val ∨ a.maxBlock.val = b.maxBlock.val ∧
        (a.level.val < b.level.val ∨ a.level.val = b.level.val ∧ a.mutation.val < b.mutation.val)))

instance (a b : MergeTreePartInfo) : Decidable (a.lt b) := by unfold lt; exact inferInstance

/-- `contains(rhs)`: this part was obtained by merging `rhs` with others or
mutating it. -/
def contains (a b : MergeTreePartInfo) : Bool :=
  a.partitionId == b.partitionId && decide (a.minBlock.val ≤ b.minBlock.val) &&
    decide (a.maxBlock.val ≥ b.maxBlock.val) && decide (a.level.val ≥ b.level.val) &&
      decide (a.mutation.val ≥ b.mutation.val)

/-- `isDisjoint(rhs)`: the parts hold no block in common. -/
def isDisjoint (a b : MergeTreePartInfo) : Bool :=
  a.partitionId != b.partitionId || decide (a.minBlock.val > b.maxBlock.val) ||
    decide (a.maxBlock.val < b.minBlock.val)

/-- The text `getPartName` writes for the level. -/
def levelText (p : MergeTreePartInfo) : List Char :=
  if p.useLeagcyMaxLevel then writeIntText legacyMaxLevel.val else writeIntText p.level.val

/-- The text `getPartName` writes for the mutation, `_` first; nothing for `0`. -/
def mutationText (p : MergeTreePartInfo) : List Char :=
  if p.mutation.val ≠ 0 then '_' :: writeIntText p.mutation.val else []

/-- `getPartName()`. -/
def getPartName (p : MergeTreePartInfo) : List Char :=
  p.partitionId ++ '_' :: writeIntText p.minBlock.val ++ '_' :: writeIntText p.maxBlock.val ++ '_' :: p.levelText ++
    p.mutationText

/-- The loop of `tryParsePartName` that reads `partition_id`: up to the first
`_`, which it consumes, or the end. -/
def readPartitionId : List Char → List Char × List Char
  | [] => ([], [])
  | c :: buf =>
    if c = '_' then ([], buf)
    else
      let (partitionId, rest) := readPartitionId buf
      (c :: partitionId, rest)

/-- `tryParsePartName(part_name, part_info, format_version)`: the part info,
where it returns `true`. -/
def tryParsePartName (partName : List Char) (formatVersion : Nat) : Option MergeTreePartInfo := do
  let (partitionId, buf) ←
    if formatVersion < minFormatVersionWithCustomPartitioning then do
      let (minYyyymmdd, buf) ← tryReadIntText .uInt32 partName
      let (true, buf) := checkChar '_' buf | none
      let (_, buf) ← tryReadIntText .uInt32 buf
      let (true, buf) := checkChar '_' buf | none
      pure (Nat.toDigits 10 (minYyyymmdd.toNat / 100), buf)
    else pure (readPartitionId partName)
  -- "Sanity check"
  if partitionId = [] then none
  let (minBlockNum, buf) ← tryReadIntText .int64 buf
  let (true, buf) := checkChar '_' buf | none
  let (maxBlockNum, buf) ← tryReadIntText .int64 buf
  let (true, buf) := checkChar '_' buf | none
  let (level, buf) ← tryReadIntText .uInt32 buf
  if minBlockNum > maxBlockNum then none
  let mutation ←
    if buf = [] then pure 0
    else do
      let (true, buf) := checkChar '_' buf | none
      let (mutation, buf) ← tryReadIntText .uInt32 buf
      if buf ≠ [] then none
      pure mutation
  -- what `tryReadIntText` reads is a value of its type (`tryReadIntText_mem`)
  let minBlock ← Value.ofInt? .int64 minBlockNum
  let maxBlock ← Value.ofInt? .int64 maxBlockNum
  let level ← Value.ofInt? .uInt32 level
  let mutation ← Value.ofInt? .int64 mutation
  -- the legacy level is read as `MAX_LEVEL`, with the flag set
  if level = legacyMaxLevel then
    pure ⟨partitionId, minBlock, maxBlock, maxLevel, mutation, true⟩
  else pure ⟨partitionId, minBlock, maxBlock, level, mutation, false⟩

/-- The part `tryParsePartName` reads from the name of `p`, when it reads one:
a legacy level comes back as `MAX_LEVEL` with the flag. -/
def readBack (p : MergeTreePartInfo) : MergeTreePartInfo :=
  if p.useLeagcyMaxLevel ∨ p.level = legacyMaxLevel then { p with level := maxLevel, useLeagcyMaxLevel := true }
  else { p with useLeagcyMaxLevel := false }

/-! ### Reading a name back -/

theorem readPartitionId_append {partitionId : List Char} (h : '_' ∉ partitionId) (rest : List Char) :
    readPartitionId (partitionId ++ '_' :: rest) = (partitionId, rest) := by
  induction partitionId with
  | nil => simp [readPartitionId]
  | cons c partitionId ih =>
    have hc : c ≠ '_' := fun hc => h (hc ▸ List.mem_cons_self)
    simp [readPartitionId, hc, ih (fun hm => h (List.mem_cons_of_mem _ hm))]

theorem getPartName_eq (p : MergeTreePartInfo) :
    p.getPartName = p.partitionId ++ '_' :: (writeIntText p.minBlock.val ++ '_' ::
      (writeIntText p.maxBlock.val ++ '_' :: (p.levelText ++ p.mutationText))) := by
  simp [getPartName, List.append_assoc]

theorem stopsInt_underscore (rest : List Char) : StopsInt ('_' :: rest) := by
  rintro c buf h
  rw [List.cons.injEq] at h
  rw [← h.1]
  decide

theorem stopsInt_mutationText (p : MergeTreePartInfo) : StopsInt p.mutationText := by
  unfold mutationText
  split
  · exact stopsInt_underscore _
  · exact fun _ _ h => nomatch h

/-- A value of `T` is read back from its text, unless it is the least of a
signed type. -/
theorem tryReadIntText_value {T : IntType} (v : Value T) {rest : List Char} (hrest : StopsInt rest) :
    tryReadIntText T (writeIntText v.val ++ rest) = if -T.max ≤ v.val then some (v.val, rest) else none := by
  rw [tryReadIntText_writeIntText_eq _ hrest]
  simp [v.min_le, v.le_max]

theorem ofInt?_of_eq {T : IntType} {x : Int} {v : Value T} (h : x = v.val) : Value.ofInt? T x = some v := by
  subst h
  exact Value.ofInt?_val v

/-- An unsigned type has no least value to lose. -/
theorem neg_max_le_of_not_signed {T : IntType} (hT : T.isSigned = false) (v : Value T) : -T.max ≤ v.val := by
  have := v.nonneg_of_not_signed hT
  have := T.zero_le_max
  omega

/-- The end of `tryParsePartName` on the fields of `p`, the level as the name
has it. -/
theorem readBack_eq (p : MergeTreePartInfo) :
    (if (if p.useLeagcyMaxLevel then legacyMaxLevel else p.level) = legacyMaxLevel then
        some ⟨p.partitionId, p.minBlock, p.maxBlock, maxLevel, p.mutation, true⟩
      else some ⟨p.partitionId, p.minBlock, p.maxBlock, if p.useLeagcyMaxLevel then legacyMaxLevel else p.level,
        p.mutation, false⟩) = some p.readBack := by
  rcases p with ⟨partitionId, minBlock, maxBlock, level, mutation, _ | _⟩
  · by_cases h : level = legacyMaxLevel <;> simp [readBack, h]
  · simp [readBack]

/-- **`tryParsePartName` reads back `getPartName`.** Of the name of a part
whose partition id is not empty and has no `_`, it gives back the part (a
legacy level as `MAX_LEVEL` with the flag) exactly when both block numbers
are above `Int64`'s least, `min_block ≤ max_block` and the mutation is a
`UInt32`. -/
theorem tryParsePartName_getPartName (p : MergeTreePartInfo) (hid : p.partitionId ≠ []) (hsep : '_' ∉ p.partitionId)
    {formatVersion : Nat} (hversion : minFormatVersionWithCustomPartitioning ≤ formatVersion) :
    tryParsePartName p.getPartName formatVersion =
      if -IntType.int64.max ≤ p.minBlock.val ∧ -IntType.int64.max ≤ p.maxBlock.val ∧ p.minBlock.val ≤ p.maxBlock.val ∧
          0 ≤ p.mutation.val ∧ p.mutation.val ≤ IntType.uInt32.max then some p.readBack
      else none := by
  rw [getPartName_eq]
  unfold tryParsePartName
  rw [if_neg (by omega)]
  simp only [readPartitionId_append hsep, pure_bind, hid, if_false, tryReadIntText_value _ (stopsInt_underscore _)]
  -- the fields are read one by one; a read that fails ends the parse with `none`
  by_cases hmin : -IntType.int64.max ≤ p.minBlock.val
  swap
  · rw [if_neg hmin, if_neg fun h => hmin h.1]
    rfl
  rw [if_pos hmin, Option.bind_eq_bind, Option.bind_some, checkChar_cons_self]
  dsimp only
  rw [tryReadIntText_value p.maxBlock (stopsInt_underscore _)]
  by_cases hmax : -IntType.int64.max ≤ p.maxBlock.val
  swap
  · rw [if_neg hmax, if_neg fun h => hmax h.2.1]
    rfl
  rw [if_pos hmax, Option.bind_some, checkChar_cons_self]
  dsimp only
  -- every level is read back: a `UInt32` has no least to lose
  have hlevel : tryReadIntText IntType.uInt32 (p.levelText ++ p.mutationText) =
      some ((if p.useLeagcyMaxLevel then legacyMaxLevel else p.level).val, p.mutationText) := by
    unfold levelText
    split <;> rw [tryReadIntText_value _ (stopsInt_mutationText p), if_pos (neg_max_le_of_not_signed rfl _)]
  rw [hlevel, Option.bind_some]
  by_cases hle : p.minBlock.val ≤ p.maxBlock.val
  swap
  · simp [hle]
  simp only [gt_iff_lt, not_lt.mpr hle, if_false, Value.ofInt?_val, Option.bind_eq_bind, Option.bind_some,
    Option.pure_def]
  by_cases hzero : p.mutation.val = 0
  · -- no mutation is written, and `0` is read
    have htext : p.mutationText = [] := by simp [mutationText, hzero]
    rw [if_pos htext, ofInt?_of_eq hzero.symm, Option.bind_some, readBack_eq,
      if_pos ⟨hmin, hmax, hle, by omega, by rw [hzero]; exact IntType.zero_le_max _⟩]
  · have htext : p.mutationText = '_' :: writeIntText p.mutation.val := by simp [mutationText, hzero]
    have hrest : StopsInt ([] : List Char) := fun _ _ h => nomatch h
    have hread := tryReadIntText_writeIntText_eq (T := IntType.uInt32) p.mutation.val hrest
    rw [List.append_nil] at hread
    rw [if_neg (by simp [htext]), htext, checkChar_cons_self]
    simp only [hread]
    by_cases hmut : 0 ≤ p.mutation.val ∧ p.mutation.val ≤ IntType.uInt32.max
    · rw [if_pos ⟨by simpa [IntType.min, IntType.isSigned] using hmut.1, by have := IntType.zero_le_max .uInt32; omega,
        hmut.2⟩]
      simp only [Option.bind_some, ne_eq, not_true_eq_false, if_false, ofInt?_of_eq rfl, readBack_eq]
      rw [if_pos ⟨hmin, hmax, hle, hmut⟩]
    · rw [if_neg (by simp [IntType.min, IntType.isSigned] at hmut ⊢; omega), Option.bind_none,
        if_neg (by rintro ⟨-, -, -, h⟩; exact hmut h)]

/-- **Part names are not a faithful encoding.** A part whose mutation version
is past `UInt32` gets a name that `tryParsePartName` rejects: the mutation is
written as the `Int64` it is, and read back into a `UInt32`. The other way,
the name `all_1_1_0_0` is accepted, but the part read from it is named
`all_1_1_0`: a mutation `0` is read and never written. -/
theorem partName_not_faithful :
    (∀ p : MergeTreePartInfo, p.partitionId ≠ [] → '_' ∉ p.partitionId → 2 ^ 32 ≤ p.mutation.val →
      tryParsePartName p.getPartName minFormatVersionWithCustomPartitioning = none) ∧
    ∃ q, tryParsePartName "all_1_1_0_0".toList minFormatVersionWithCustomPartitioning = some q ∧
      q.getPartName = "all_1_1_0".toList := by
  constructor
  · intro p hid hsep hmutation
    rw [tryParsePartName_getPartName p hid hsep le_rfl, if_neg]
    rintro ⟨-, -, -, -, hmax⟩
    simp only [IntType.max, IntType.isSigned, IntType.width] at hmax
    omega
  · exact ⟨⟨"all".toList, ⟨1, by decide, by decide⟩, ⟨1, by decide, by decide⟩, ⟨0, by decide, by decide⟩,
      ⟨0, by decide, by decide⟩, false⟩, by decide, by decide⟩

end MergeTreePartInfo

end Daisy.MergeTree
