import Daisy.Storages.MergeTree.MissingRanges
import Daisy.Storages.DistributedMergeTree.Sequences

/-!
# Crash recovery of a `DistributedMergeTree` shard

At start-up `populateCommittedSNFromParts` computes the missing ranges `M` of
the shard and `max_committed_sn`, one below the `maxp` of
`missingSequenceRanges`. The consumer then collects records until it holds
one with `sn ≥ max_committed_sn` and cuts them into buckets
(`categorizeRecordsAccordingToSequenceRanges`):

* the records beyond `max_committed_sn`, in the last bucket, with no range;
* the records of a missing range, in the bucket of the first range holding
  them, with every missing range of that block;
* the others, committed already, dropped.

Each bucket goes through `StorageDistributedMergeTree::commit` as one block
with its ranges; `MergeTreeBlockOutputStream::write` splits the block into its
partition parts and `ignorePartBlock` skips the parts a committed part
already holds.

## The model

A record is its sequence number; what a block holds beyond that only decides
how many part blocks `splitBlockIntoParts` makes, which is a parameter. The
buckets are the list `range_buckets`, updated at an index as the source does.
`write` is modelled by the part indexes it persists. Asserts and undefined
behaviour are those of `Sequences`.
-/

namespace Daisy.DistributedMergeTree

open Daisy.MergeTree

/-- `RecordsSequenceRangesPair`: the sequence numbers of a bucket's records and
the missing ranges they fill. -/
abbrev RecordsSequenceRangesPair := List Int × List SequenceRange

/-- `std::find` and `push_back`: a missing range is collected once. -/
def pushMissingRange (r : SequenceRange) (rs : List SequenceRange) : List SequenceRange :=
  if r ∈ rs then rs else rs ++ [r]

/-- The loop over `j` from `i` on: the missing ranges with the start of range `i`. -/
def collectMissingRangeParts (ranges : List SequenceRange) (i : Nat) (startSn : Int)
    (acc : List SequenceRange) : List SequenceRange :=
  (ranges.drop i).foldl (fun acc r => if r.startSn = startSn then pushMissingRange r acc else acc) acc

/-- The first missing range holding `sn`, with its index. -/
def findMissingRange (ranges : List SequenceRange) (sn : Int) : Option (SequenceRange × Nat) :=
  ranges.zipIdx.find? fun p => decide (p.1.startSn ≤ sn ∧ sn ≤ p.1.endSn)

/-- One record of the loop of `categorizeRecordsAccordingToSequenceRanges`. -/
def categorizeRecord (ranges : List SequenceRange) (maxCommittedSn : Int)
    (buckets : List RecordsSequenceRangesPair) (sn : Int) : Except Failure (List RecordsSequenceRangesPair) :=
  if maxCommittedSn < sn then pure (buckets.modify ranges.length fun b => (b.1 ++ [sn], b.2))
  else
    match ranges.getLast? with
    | none => throw .backOfEmptyVector
    | some back =>
      -- records in `[sequence_ranges.back().end_sn, max_committed_sn]` are committed
      if back.endSn < sn then pure buckets
      else
        match findMissingRange ranges sn with
        -- in no missing range: committed already
        | none => pure buckets
        | some (r, i) => pure (buckets.modify i fun b => (b.1 ++ [sn], collectMissingRangeParts ranges i r.startSn b.2))

/-- `categorizeRecordsAccordingToSequenceRanges`: the buckets that got records, in order. -/
def categorizeRecordsAccordingToSequenceRanges (records : List Int) (ranges : List SequenceRange)
    (maxCommittedSn : Int) : Except Failure (List RecordsSequenceRangesPair) := do
  let buckets ← records.foldlM (categorizeRecord ranges maxCommittedSn) (List.replicate (ranges.length + 1) ([], []))
  pure (buckets.filter fun b => !b.1.isEmpty)

/-- `ignorePartBlock(parts, part_index)` with the missing ranges of the block. -/
def ignorePartBlock (b : Build) (missing : List SequenceRange) (parts partIndex : Int) : Except Failure Bool :=
  match missing.getLast? with
  | none => pure false
  | some last => do
    assert b (parts == last.parts) "parts == last_seq_range.parts"
    -- the partition algorithm changed: persist, in favour of no data loss
    if parts ≠ last.parts then pure false
    else pure !(missing.any fun r => r.partIndex == partIndex)

/-- One part block of the loop of `MergeTreeBlockOutputStream::write`: it is
written unless `ignorePartBlock` skips it. -/
def persistPart (b : Build) (missing : List SequenceRange) (parts : Nat) (persisted : List Nat) (j : Nat) :
    Except Failure (List Nat) := do
  let ignore ← ignorePartBlock b missing parts j
  pure (if ignore then persisted else persisted ++ [j])

/-- `MergeTreeBlockOutputStream::write` of a block split into `parts` part
blocks: the loop over `part_index`, with the part indexes it persists. -/
def writeParts (b : Build) (missing : List SequenceRange) (parts : Nat) : Except Failure (List Nat) :=
  (List.range parts).foldlM (persistPart b missing parts) []

/-- The recovery path of `DistributedMergeTreeCallbackData::commit` once the
records reach `max_committed_sn`: each bucket with the part indexes `write`
persists of it, its block split into `split records` parts. -/
def recover (b : Build) (split : List Int → Nat) (records : List Int) (missing : List SequenceRange)
    (maxCommittedSn : Int) : Except Failure (List (List Int × List Nat)) := do
  let buckets ← categorizeRecordsAccordingToSequenceRanges records missing maxCommittedSn
  buckets.mapM fun bucket => do
    let persisted ← writeParts b bucket.2 (split bucket.1)
    pure (bucket.1, persisted)

/-! ### What `write` persists -/

section Write

variable {b : Build} {missing : List SequenceRange} {last : SequenceRange} {parts : Nat}

end Write

/-! ### A whole gap in a debug build -/

/-- One committed part `[3, 3]` of one part beyond the committed sequence number
`0`: the records `1, 2` are a whole gap, and in a debug build writing their
bucket trips `ignorePartBlock`'s assert, since a whole range has `parts = -1`.
The buckets are not contiguous either (`3` was committed), so when the second
block commits first, the catch-up loop trips `p.first == last_sn + 1`. -/
theorem recovery_whole_gap_asserts :
    missingSequenceRanges [⟨3, 3, 0, 1⟩] 0 = ([SequenceRange.ofSn 1 2], 1, 4) ∧
      categorizeRecordsAccordingToSequenceRanges [1, 2, 3, 4] [SequenceRange.ofSn 1 2] 3 =
        .ok [([1, 2], [SequenceRange.ofSn 1 2]), ([4], [])] ∧
      recover .debug (fun _ => 1) [1, 2, 3, 4] [SequenceRange.ofSn 1 2] 3 =
        .error (.assertionFailed "parts == last_seq_range.parts") ∧
      run .debug (SnState.initial 0) [.doCommit (1, 2) false, .doCommit (4, 4) false, .progressSequences (4, 4),
        .progressSequences (1, 2)] = .error (.assertionFailed "p.first == last_sn + 1") :=
  ⟨by decide, rfl, rfl, rfl⟩

end Daisy.DistributedMergeTree
