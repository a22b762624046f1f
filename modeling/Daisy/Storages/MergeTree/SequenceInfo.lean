import Mathlib.Data.List.Sort

/-!
# Sequence ranges

`SequenceInfo.h`: a data part of a `DistributedMergeTree` shard records in
`sn.txt` the sequence numbers of the Distributed Write Ahead Log records it
holds. A block of records `[start_sn, end_sn]` is split by the partition
expression into `parts` part blocks, and the part block `part_index` of it is
committed as one data part, so a `SequenceRange` names both the records and
the part. On restart the ranges of all parts are compared with the committed
sequence number to find what is missing (`MissingRanges`), and the parts of a
merge carry the merged ranges.

## The model

`Int64` and `Int32` fields are integers. The code adds one to a sequence
number, and subtracts one, without a check; the model does not wrap, and
`SequenceRange.Fits` (the values fit the fields' types) and
`SequenceRange.FitsPastEnd` (one past `end_sn` too) name the bound under which
its integers are the code's. Sequence numbers are Kafka offsets, far from that
bound, and `missingSequenceRanges_fits` shows that the start-up computation
keeps to it. `std::sort` is an insertion sort by the order
`operator<` induces; on the inputs the proofs consider no two ranges compare
equal, so every sort gives the same list.
-/

namespace Daisy.MergeTree

/-- `SequenceRange`: records `[start_sn, end_sn]`, part block `part_index` of
`parts`. The fields default to `-1`, as in the source. -/
structure SequenceRange where
  /-- `start_sn`. -/
  startSn : Int := -1
  /-- `end_sn`. -/
  endSn : Int := -1
  /-- `part_index`. -/
  partIndex : Int := -1
  /-- `parts`. -/
  parts : Int := -1
  deriving DecidableEq, Repr

namespace SequenceRange

/-- `SequenceRange(start_sn, end_sn)`: a range standing for a whole block,
with `part_index` and `parts` left at `-1`. -/
def ofSn (startSn endSn : Int) : SequenceRange := { startSn := startSn, endSn := endSn }

/-- `SequenceRange::valid`. -/
def valid (r : SequenceRange) : Bool :=
  decide (0 ≤ r.startSn) && decide (0 ≤ r.endSn) && decide (r.startSn ≤ r.endSn) &&
    ((decide (0 ≤ r.partIndex) && decide (1 ≤ r.parts) && decide (r.partIndex < r.parts)) ||
      (r.partIndex == 0 && r.parts == 0))

/-- `operator<`: by `start_sn`, then by `part_index`. -/
def lt (l r : SequenceRange) : Bool :=
  if l.startSn < r.startSn then true
  else if l.startSn = r.startSn then decide (l.partIndex < r.partIndex)
  else false

/-- The order `std::sort` puts ranges in: `l` may stand before `r` unless `r < l`. -/
def sortLE (l r : SequenceRange) : Bool := !lt r l

/-- A range of the two-argument constructor: it stands for a whole block. -/
def IsWhole (r : SequenceRange) : Prop := r.partIndex = -1 ∧ r.parts = -1

instance (r : SequenceRange) : Decidable r.IsWhole := inferInstanceAs (Decidable (_ ∧ _))

/-- The sequence number `x` lies in `[start_sn, end_sn]`. -/
def Covers (r : SequenceRange) (x : Int) : Prop := r.startSn ≤ x ∧ x ≤ r.endSn

@[simp] theorem ofSn_startSn (a b : Int) : (ofSn a b).startSn = a := rfl
@[simp] theorem ofSn_endSn (a b : Int) : (ofSn a b).endSn = b := rfl
@[simp] theorem ofSn_partIndex (a b : Int) : (ofSn a b).partIndex = -1 := rfl
@[simp] theorem ofSn_parts (a b : Int) : (ofSn a b).parts = -1 := rfl

theorem ofSn_isWhole (a b : Int) : (ofSn a b).IsWhole := ⟨rfl, rfl⟩

/-- A valid range with `parts ≥ 1` is a real part: `0 ≤ part_index < parts`. -/
theorem valid_bounds {r : SequenceRange} (h : r.valid = true) (hp : 1 ≤ r.parts) :
    0 ≤ r.startSn ∧ r.startSn ≤ r.endSn ∧ 0 ≤ r.partIndex ∧ r.partIndex < r.parts := by
  simp only [valid, Bool.and_eq_true, Bool.or_eq_true, decide_eq_true_eq, beq_iff_eq] at h
  obtain ⟨⟨⟨h0, -⟩, hse⟩, ⟨⟨hi, -⟩, hlt⟩ | ⟨-, hz⟩⟩ := h
  · exact ⟨h0, hse, hi, hlt⟩
  · omega

theorem lt_iff (l r : SequenceRange) :
    lt l r = true ↔ l.startSn < r.startSn ∨ (l.startSn = r.startSn ∧ l.partIndex < r.partIndex) := by
  unfold lt
  split_ifs with h1 h2 <;> simp [*]

theorem sortLE_iff (l r : SequenceRange) :
    sortLE l r = true ↔ l.startSn < r.startSn ∨ (l.startSn = r.startSn ∧ l.partIndex ≤ r.partIndex) := by
  rw [sortLE, Bool.not_eq_true', Bool.eq_false_iff, ne_eq, lt_iff]
  omega

theorem sortLE_trans (a b c : SequenceRange) (hab : sortLE a b = true) (hbc : sortLE b c = true) :
    sortLE a c = true := by
  rw [sortLE_iff] at *
  omega

theorem sortLE_total (a b : SequenceRange) : (sortLE a b || sortLE b a) = true := by
  rw [Bool.or_eq_true, sortLE_iff, sortLE_iff]
  omega

end SequenceRange

/-- `std::sort(sequence_ranges.begin(), sequence_ranges.end())`. -/
def sortRanges (sequenceRanges : List SequenceRange) : List SequenceRange :=
  sequenceRanges.insertionSort fun a b => SequenceRange.sortLE a b = true

/-- `IdempotentKey`: a sequence number and the key the client sent with it. -/
abbrev IdempotentKey := Int × List Char

/-- `SequenceInfo`: the ranges of a part and its idempotent keys; a null
`idempotent_keys` pointer is `none`. -/
structure SequenceInfo where
  /-- `sequence_ranges`. -/
  sequenceRanges : List SequenceRange
  /-- `idempotent_keys`. -/
  idempotentKeys : Option (List IdempotentKey)
  deriving DecidableEq, Repr

/-- `SequenceInfo::valid`: something to record, and every range valid. -/
def SequenceInfo.valid (si : SequenceInfo) : Bool :=
  if si.sequenceRanges.isEmpty && (si.idempotentKeys.map List.isEmpty).getD true then false
  else si.sequenceRanges.all SequenceRange.valid

end Daisy.MergeTree
