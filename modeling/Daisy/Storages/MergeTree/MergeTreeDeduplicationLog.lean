import Daisy.Storages.MergeTree.ActiveDataPartSet

/-!
# `MergeTreeDeduplicationLog`

`Storages/MergeTree/MergeTreeDeduplicationLog.{h,cpp}`: the deduplication of
inserts into a non-replicated `MergeTree`. The block ids of the last
`deduplication_window` inserted parts are kept in memory, in a hash map that
forgets its oldest entry when full (`LimitedOrderedHashMap`), and each change
to it is appended to a log on disk: an `ADD` record for an inserted part, a
`DROP` record for a part a dropped part covers. A log is closed once it holds
`rotate_interval = 2 * deduplication_window` records, and the oldest logs are
deleted once the newer ones hold more than `deduplication_window` records of
either kind. `load` rebuilds the map by replaying the logs left on disk, in
order.

## The model

A log file is the list of its records, by its number (`getLogPath` makes the
path from the number, and `getLogNumber` reads it back); the directory is the
list of its files in order. `existing_logs` is the list of numbers and
`entries_count`. The object and the directory are threaded through every
operation together. The map is its queue of entries, oldest first; the index
by key is the position in it.

## What is proved

`restart_loses_block_id`: with a window of two, three parts added and the
third dropped, then two parts each added and dropped, the second block id
is still in the map; the deletion of the first log has taken its `ADD`
record with it, and the map `load` rebuilds after a restart no longer has it.

## Scope

Records are kept as values: the text `writeRecord` writes and `readRecord`
reads back is not modelled, nor are the exceptions of `readRecord` on a broken
file. `setDeduplicationWindowSize` is not modelled.
-/

namespace Daisy.MergeTree

/-- `LimitedOrderedHashMap<V>`: its entries in the order of insertion. -/
structure LimitedOrderedHashMap (V : Type) where
  /-- `queue`, oldest first. -/
  queue : List (List Char × V)
  /-- `max_size`. -/
  maxSize : Nat

namespace LimitedOrderedHashMap

variable {V : Type}

/-- `contains(key)`. -/
def contains (m : LimitedOrderedHashMap V) (key : List Char) : Bool := m.queue.any (·.1 == key)

/-- `get(key)`, where the key is there. -/
def get? (m : LimitedOrderedHashMap V) (key : List Char) : Option V := (m.queue.find? (·.1 == key)).map (·.2)

/-- `erase(key)`: whether the key was there, and the map without it. -/
def erase (m : LimitedOrderedHashMap V) (key : List Char) : Bool × LimitedOrderedHashMap V :=
  if m.contains key then (true, { m with queue := m.queue.eraseP (·.1 == key) }) else (false, m)

/-- `insert(key, value)`: nothing where the key is there; else the oldest entry
goes where the map is full, and the entry is put last. -/
def insert (m : LimitedOrderedHashMap V) (key : List Char) (value : V) : Bool × LimitedOrderedHashMap V :=
  if m.contains key then (false, m)
  else
    let queue := if m.queue.length = m.maxSize then m.queue.tail else m.queue
    (true, { m with queue := queue ++ [(key, value)] })

end LimitedOrderedHashMap

/-- `MergeTreeDeduplicationOp`. -/
inductive MergeTreeDeduplicationOp where
  /-- `ADD = 1`. -/
  | add
  /-- `DROP = 2`. -/
  | drop
  deriving DecidableEq

/-- `MergeTreeDeduplicationLogRecord`. -/
structure MergeTreeDeduplicationLogRecord where
  /-- `operation`. -/
  operation : MergeTreeDeduplicationOp
  /-- `part_name`. -/
  partName : List Char
  /-- `block_id`. -/
  blockId : List Char

/-- The files of the logs directory, by number, in order. -/
abbrev LogFiles := List (Nat × List MergeTreeDeduplicationLogRecord)

/-- `MergeTreeDeduplicationLog`. -/
structure MergeTreeDeduplicationLog where
  /-- `deduplication_window`. -/
  deduplicationWindow : Nat
  /-- `rotate_interval`. -/
  rotateInterval : Nat
  /-- `format_version`. -/
  formatVersion : Nat
  /-- `current_log_number`. -/
  currentLogNumber : Nat
  /-- `existing_logs`: the number of each log and its `entries_count`, in order. -/
  existingLogs : List (Nat × Nat)
  /-- `deduplication_map`. -/
  deduplicationMap : LimitedOrderedHashMap MergeTreePartInfo

namespace MergeTreeDeduplicationLog

/-- The object and the directory it writes. -/
abbrev State := MergeTreeDeduplicationLog × LogFiles

/-- The constructor: nothing loaded yet. -/
def make (deduplicationWindow formatVersion : Nat) : MergeTreeDeduplicationLog :=
  ⟨deduplicationWindow, deduplicationWindow * 2, formatVersion, 0, [], ⟨[], deduplicationWindow⟩⟩

/-- `existing_logs[number].entries_count`. -/
def entriesCount (logs : List (Nat × Nat)) (number : Nat) : Nat :=
  ((logs.find? (·.1 == number)).map (·.2)).getD 0

/-- `existing_logs[current_log_number].entries_count++`: the entry of the
current log is there wherever this is reached. -/
def bumpEntriesCount (logs : List (Nat × Nat)) (number : Nat) : List (Nat × Nat) :=
  logs.map fun (n, c) => if n = number then (n, c + 1) else (n, c)

/-- `writeRecord(record, *current_writer)`: the record appended to the file of
the log. -/
def writeRecord (files : LogFiles) (number : Nat) (record : MergeTreeDeduplicationLogRecord) : LogFiles :=
  files.map fun (n, records) => if n = number then (n, records ++ [record]) else (n, records)

/-- `rotate()`: a new log, its file created empty. -/
def rotate (s : State) : State :=
  if s.1.deduplicationWindow = 0 then s
  else
    let number := s.1.currentLogNumber + 1
    let logs := if s.1.existingLogs.any (·.1 == number) then s.1.existingLogs else s.1.existingLogs ++ [(number, 0)]
    let files := if s.2.any (·.1 == number) then s.2 else s.2 ++ [(number, [])]
    ({ s.1 with currentLogNumber := number, existingLogs := logs }, files)

/-- The loop of `dropOutdatedLogs` from the newest log: the first log whose
newer logs hold more than the window, or `0`. -/
def removeFromValue (deduplicationWindow : Nat) : Nat → List (Nat × Nat) → Nat
  | _, [] => 0
  | currentSum, (number, entries) :: logs =>
    if currentSum > deduplicationWindow then number
    else removeFromValue deduplicationWindow (currentSum + entries) logs

/-- The loop of `dropOutdatedLogs` from the oldest log: the logs up to the
given one erased. It returns the logs kept and the numbers of those erased. -/
def eraseThrough (removeFrom : Nat) : List (Nat × Nat) → List (Nat × Nat) × List Nat
  | [] => ([], [])
  | (number, _) :: logs =>
    if removeFrom = number then (logs, [number])
    else
      let (kept, erased) := eraseThrough removeFrom logs
      (kept, number :: erased)

/-- `dropOutdatedLogs()`: the old logs erased, and their files removed. -/
def dropOutdatedLogs (s : State) : State :=
  let removeFrom := removeFromValue s.1.deduplicationWindow 0 s.1.existingLogs.reverse
  if removeFrom ≠ 0 then
    let (kept, erased) := eraseThrough removeFrom s.1.existingLogs
    ({ s.1 with existingLogs := kept }, s.2.filter fun f => f.1 ∉ erased)
  else s

/-- `rotateAndDropIfNeeded()`. -/
def rotateAndDropIfNeeded (s : State) : State :=
  if s.1.existingLogs.isEmpty || decide (s.1.rotateInterval ≤ entriesCount s.1.existingLogs s.1.currentLogNumber) then
    dropOutdatedLogs (rotate s)
  else s

/-- A record written to the current log and counted. -/
def writeCurrent (s : State) (record : MergeTreeDeduplicationLogRecord) : State :=
  ({ s.1 with existingLogs := bumpEntriesCount s.1.existingLogs s.1.currentLogNumber },
    writeRecord s.2 s.1.currentLogNumber record)

/-- `addPart(block_id, part_info)`: the part of the block, and whether it is
new. -/
def addPart (s : State) (blockId : List Char) (partInfo : MergeTreePartInfo) : (MergeTreePartInfo × Bool) × State :=
  if s.1.deduplicationWindow = 0 then ((partInfo, true), s)
  else
    match s.1.deduplicationMap.get? blockId with
    | some info => ((info, false), s)
    | none =>
      let s := writeCurrent s ⟨.add, partInfo.getPartName, blockId⟩
      let s := ({ s.1 with deduplicationMap := (s.1.deduplicationMap.insert blockId partInfo).2 }, s.2)
      ((partInfo, true), rotateAndDropIfNeeded s)

/-- One step of the loop of `dropPart`: an entry the dropped part covers is
logged as dropped and erased. -/
def dropEntry (dropPartInfo : MergeTreePartInfo) (s : State) (entry : List Char × MergeTreePartInfo) : State :=
  if dropPartInfo.contains entry.2 then
    let s := writeCurrent s ⟨.drop, entry.2.getPartName, entry.1⟩
    rotateAndDropIfNeeded ({ s.1 with deduplicationMap := (s.1.deduplicationMap.erase entry.1).2 }, s.2)
  else s

/-- `dropPart(drop_part_info)`: the loop over the map, in order; it erases
only the entry it is at. -/
def dropPart (s : State) (dropPartInfo : MergeTreePartInfo) : State :=
  if s.1.deduplicationWindow = 0 then s
  else s.1.deduplicationMap.queue.foldl (dropEntry dropPartInfo) s

/-- `loadSingleLog(path)`: the map after the records, and their number, or
`none` where `fromPartName` throws, with the map as the records before left
it. -/
def loadSingleLog (formatVersion : Nat) :
    LimitedOrderedHashMap MergeTreePartInfo → List MergeTreeDeduplicationLogRecord →
      LimitedOrderedHashMap MergeTreePartInfo × Option Nat
  | m, [] => (m, some 0)
  | m, record :: records =>
    match record.operation with
    | .drop =>
      let (m, total) := loadSingleLog formatVersion (m.erase record.blockId).2 records
      (m, total.map (· + 1))
    | .add =>
      match MergeTreePartInfo.tryParsePartName record.partName formatVersion with
      | none => (m, none)
      | some partInfo =>
        let (m, total) := loadSingleLog formatVersion (m.insert record.blockId partInfo).2 records
        (m, total.map (· + 1))

/-- The loop of `load` over the logs, in order: each log counts its records,
or none where loading it throws. -/
def loadLogs (formatVersion : Nat) (files : LogFiles) :
    LimitedOrderedHashMap MergeTreePartInfo → List (Nat × Nat) → LimitedOrderedHashMap MergeTreePartInfo × List (Nat × Nat)
  | m, [] => (m, [])
  | m, (number, entries) :: logs =>
    let (m, total) := loadSingleLog formatVersion m (((files.find? (·.1 == number)).map (·.2)).getD [])
    let (m, logs) := loadLogs formatVersion files m logs
    (m, (number, total.getD entries) :: logs)

/-- `load()`: every file of the directory is a log; the logs are replayed
in order into the map, and a new log is started where needed. -/
def load (s : State) : State :=
  let logs := s.2.map fun f => (f.1, 0)
  let current := (logs.getLast?.map (·.1)).getD s.1.currentLogNumber
  let log := { s.1 with existingLogs := logs, currentLogNumber := current }
  if log.deduplicationWindow ≠ 0 then
    let (m, logs) := loadLogs log.formatVersion s.2 log.deduplicationMap log.existingLogs
    rotateAndDropIfNeeded ({ log with deduplicationMap := m, existingLogs := logs }, s.2)
  else (log, s.2)

/-- **A restart loses a block id.** With a window of two (so a log is closed
at four records), the parts of blocks `1`, `2` and `3` are added, then the
third is dropped, which closes the first log. The parts of blocks `4` and `5`
are each added and dropped; the second log closes at four records, and the
first log is deleted, as the newer hold more than two. The block id `b` of
the second part is still in the map, and `addPart` reports it as a
duplicate; the `ADD` record of `b` went with the first log, so the map that
`load` rebuilds after a restart over the same directory is empty, and
`addPart` takes `b` as new. -/
theorem restart_loses_block_id :
    let part (n : Interpreters.Value .int64) : MergeTreePartInfo :=
      ⟨"all".toList, n, n, ⟨0, by decide, by decide⟩, ⟨0, by decide, by decide⟩, false⟩
    let a := part ⟨1, by decide, by decide⟩
    let b := part ⟨2, by decide, by decide⟩
    let c := part ⟨3, by decide, by decide⟩
    let d := part ⟨4, by decide, by decide⟩
    let e := part ⟨5, by decide, by decide⟩
    let s₀ := load (make 2 1, [])
    let s₁ := (addPart (addPart (addPart s₀ "a".toList a).2 "b".toList b).2 "c".toList c).2
    let s₂ := dropPart s₁ c
    let s₃ := dropPart (addPart s₂ "d".toList d).2 d
    let s₄ := dropPart (addPart s₃ "e".toList e).2 e
    let restarted := load (make 2 1, s₄.2)
    s₄.1.deduplicationMap.queue = [("b".toList, b)] ∧ restarted.1.deduplicationMap.queue = [] ∧
      (addPart s₄ "b".toList b).1 = (b, false) ∧ (addPart restarted "b".toList b).1 = (b, true) := by
  decide

end MergeTreeDeduplicationLog

end Daisy.MergeTree
