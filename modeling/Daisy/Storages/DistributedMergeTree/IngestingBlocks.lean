import Mathlib.Data.List.AList

/-!
# `IngestingBlocks`

`Storages/DistributedMergeTree/IngestingBlocks.cpp`: the progress of the
asynchronous ingests. For each poll id it keeps a `BlockIdInfo`: how many
blocks were added (`total`), the blocks still waiting for their append to
the write-ahead log (`ids`), and the error code of a failed append (`err`).
`writeCallbackData` adds a block before the append; its callback
`writeCallback` removes the block when the append succeeded and records the
error with `fail` when it failed. A poll id whose first block is older than
`timeout_sec` is dropped at the next `add`. `status` and `getStatuses`
report the progress of a poll id: the share of its blocks that are done.

## The model

`blockIds` is an `AList` from the poll id, and `timedBlockIds` a list of
readings of the steady clock (in nanoseconds) with their poll ids, oldest
first. A block id and `total` are `UInt16` as in `BlockIdInfo`, so `total++`
wraps; the progress is computed in `size_t` and narrowed to `Int32` as the
source does. A division by a `total` of `0` and the erasure of `end()` are
undefined and stop the model (`none`). The locks only order the calls,
which the model takes one at a time; each reading of the clock is an
argument.

## What is proved

* `getStatuses_of_err`: for a poll id with a recorded error, `getStatuses`
  reports two entries, `Failed` and then `Processing` or `Succeeded`;
* at the end, one block added and its append failed: the poll of its id
  gets the two entries, where `status` gives one.
-/

namespace Daisy.DistributedMergeTree

/-- `IngestingBlocks::BlockIdInfo`. -/
structure BlockIdInfo where
  /-- `total`: the blocks added. -/
  total : UInt16
  /-- `err`: the error code of a failed append, `0` while none failed. -/
  err : UInt16
  /-- `ids`: the blocks whose append is not done. -/
  ids : List UInt16
  deriving DecidableEq, Repr

/-- A `BlockIdInfo` as `blockIds[id]` default-constructs it. -/
def BlockIdInfo.empty : BlockIdInfo := ⟨0, 0, []⟩

/-- `IngestingBlocks::IngestStatus`. -/
structure IngestStatus where
  pollId : String
  status : String
  progress : Int32
  deriving DecidableEq, Repr

/-- The state of `IngestingBlocks`. -/
structure IngestingBlocks where
  /-- `blockIds`. -/
  blockIds : AList fun _ : String => BlockIdInfo
  /-- `timedBlockIds`: the reading of the steady clock when the first block
  of a poll id was added, oldest first. -/
  timedBlockIds : List (Nat × String)
  /-- `timeout_sec`. -/
  timeoutSec : Int

namespace IngestingBlocks

/-- `IngestingBlocks(timeout_sec)`. -/
def make (timeoutSec : Int) : IngestingBlocks := ⟨∅, [], timeoutSec⟩

/-- The loop of `removeExpiredBlockIds` at the reading `now`: the oldest
stamps whose age in whole seconds reaches the timeout go, with their poll
ids. -/
def removeExpiredLoop (now : Nat) (timeoutSec : Int) (blockIds : AList fun _ : String => BlockIdInfo) :
    List (Nat × String) → Option ((AList fun _ : String => BlockIdInfo) × List (Nat × String))
  | [] => some (blockIds, [])
  | (stamp, id) :: rest =>
    if Int.tdiv ((now : Int) - stamp) 1000000000 ≥ timeoutSec then
      -- `blockIds.erase(iter)`, with only an `assert` that the id is there
      match blockIds.lookup id with
      | none => none
      | some _ => removeExpiredLoop now timeoutSec (blockIds.erase id) rest
    else some (blockIds, (stamp, id) :: rest)

/-- `removeExpiredBlockIds()` at the reading `now`. -/
def removeExpiredBlockIds (s : IngestingBlocks) (now : Nat) : Option IngestingBlocks := do
  let (blockIds, timed) ← removeExpiredLoop now s.timeoutSec s.blockIds s.timedBlockIds
  pure { s with blockIds, timedBlockIds := timed }

/-- `add(id, block_id)`, stamping a new poll id at the reading `stamp` and
dropping the expired ones at the reading `now`: whether the block is new. -/
def add (s : IngestingBlocks) (id : String) (blockId : UInt16) (stamp now : Nat) :
    Option (Bool × IngestingBlocks) := do
  let hasId := (s.blockIds.lookup id).isSome
  let info := (s.blockIds.lookup id).getD .empty
  let (added, info) :=
    if blockId ∈ info.ids then (false, info) else (true, { info with ids := info.ids ++ [blockId], total := info.total + 1 })
  let s := { s with blockIds := s.blockIds.insert id info }
  -- only the first block of a poll id is stamped
  let s := if hasId then s else { s with timedBlockIds := s.timedBlockIds ++ [(stamp, id)] }
  pure (added, ← s.removeExpiredBlockIds now)

/-- `remove(id, block_id)`: whether the block was waiting. -/
def remove (s : IngestingBlocks) (id : String) (blockId : UInt16) : Bool × IngestingBlocks :=
  match s.blockIds.lookup id with
  | some info =>
    if blockId ∈ info.ids then (true, { s with blockIds := s.blockIds.insert id { info with ids := info.ids.erase blockId } })
    else (false, s)
  | none => (false, s)

/-- `fail(id, err)`. -/
def fail (s : IngestingBlocks) (id : String) (err : UInt16) : IngestingBlocks :=
  match s.blockIds.lookup id with
  | some info => { s with blockIds := s.blockIds.insert id { info with err } }
  | none => s

/-- `(total - ids.size()) * 100 / total`, computed in `size_t` and narrowed to
`Int32`; undefined for a `total` of `0`. -/
def progress (info : BlockIdInfo) : Option Int32 :=
  if info.total = 0 then none
  else some (((info.total.toUInt64 - info.ids.length.toUInt64) * 100 / info.total.toUInt64).toUInt32.toInt32)

/-- `status(id)`. -/
def status (s : IngestingBlocks) (id : String) : Option (String × Int32) :=
  match s.blockIds.lookup id with
  | some info => do
    let p ← progress info
    if info.err ≠ 0 then pure ("Failed", p)
    else if p < 100 then pure ("Processing", p) else pure ("Succeeded", p)
  | none => pure ("Unknown", -1)

/-- The body of the loop of `getStatuses` for one poll id. -/
def getStatusesStep (s : IngestingBlocks) (statuses : List IngestStatus) (id : String) : Option (List IngestStatus) :=
  match s.blockIds.lookup id with
  | some info => do
    let p ← progress info
    -- a failed poll id is reported, and the loop goes on to the progress test
    let statuses := if info.err ≠ 0 then statuses ++ [⟨id, "Failed", p⟩] else statuses
    if p < 100 then pure (statuses ++ [⟨id, "Processing", p⟩]) else pure (statuses ++ [⟨id, "Succeeded", p⟩])
  | none => pure (statuses ++ [⟨id, "Unknown", -1⟩])

/-- `getStatuses(poll_ids, statuses)`: the entries pushed onto `statuses`. -/
def getStatuses (s : IngestingBlocks) (pollIds : List String) (statuses : List IngestStatus) :
    Option (List IngestStatus) :=
  pollIds.foldlM s.getStatusesStep statuses

/-! ### A failed poll id -/

/-- **A failed poll id is reported twice.** Where its append failed,
`getStatuses` pushes `Failed` and then the entry of its progress. -/
theorem getStatuses_of_err {s : IngestingBlocks} {id : String} {info : BlockIdInfo} {p : Int32}
    (hinfo : s.blockIds.lookup id = some info) (herr : info.err ≠ 0) (hp : progress info = some p)
    (statuses : List IngestStatus) :
    s.getStatuses [id] statuses =
      some (statuses ++ [⟨id, "Failed", p⟩, ⟨id, if p < 100 then "Processing" else "Succeeded", p⟩]) := by
  simp only [getStatuses, List.foldlM_cons, List.foldlM_nil, getStatusesStep, hinfo, hp, if_pos herr]
  by_cases hlt : p < 100 <;> simp [hlt]

/-- One block of poll id `q` added, its append failed with error `1`:
`status` reports it once, `Failed` at progress `0`, and `getStatuses`
twice. -/
theorem failed_poll_id_reported_twice :
    ∃ s, (make 120).add "q" 0 0 0 = some (true, s) ∧
      (s.fail "q" 1).status "q" = some ("Failed", 0) ∧
      (s.fail "q" 1).getStatuses ["q"] [] = some [⟨"q", "Failed", 0⟩, ⟨"q", "Processing", 0⟩] := by
  refine ⟨_, rfl, ?_⟩
  decide

end IngestingBlocks

end Daisy.DistributedMergeTree
