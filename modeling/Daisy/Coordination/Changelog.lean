import Mathlib.Data.List.AList
import Daisy.IO.Binary
import Daisy.Common.SipHash
import Daisy.Library.Faults

/-!
# Keeper's log on disk: `Changelog`

`Changelog` (`Coordination/Changelog.cpp`) keeps the Raft log of Keeper in
memory (`logs`, from `start_index` on) and in files of the changelog
directory, each named `changelog_<from>_<to>.bin` for the indexes it is meant
to hold, `rotate_interval` of them. One writer appends records to the last
file and counts them (`entries_written`); when the count reaches
`rotate_interval` the next record starts a new file. `writeAt` cuts the log
at an index, in the file the index lies in, `compact` removes the files
wholly below an index, and `readChangelogAndInitWriter` reads the files
back at start.

## The model

The directory is `Disk`: each file by its description (the name gives
`from` and `to`), its bytes, in the order `directory_iterator` lists them.
A record is its header and blob, written by `writeRecord` as `appendRecord`
writes them, after its checksum: `SipHash` of the header's fields, each in
its bytes in memory, and of the blob. `nuraft`'s `log_val_type` is an
`int`-sized enum, written in four bytes.

A writer is the file it writes, `plain_buf.count()` (the bytes written
through it, which a truncation does not change), `entries_written` and
`start_index`. Its bytes reach the file at once: the buffer is flushed
before anything cuts, reads or replaces the file (`truncateToLength` and
`rotate` flush, a writer replaced flushes to its own file). A file removed
while its writer is open keeps what is written after, but no name shows
it.

The maps keyed by index are `AList`s; `existing_changelogs` is the list of
descriptions in the order of `from_log_index`. The `uint64_t` indexes and
counters are `UInt64`, so that `entries_written` wraps as it does in the
source. A `LOGICAL_ERROR`, a file that cannot be opened, and going through
`end()` of a map are `ChangelogError`s.

## What is proved

* `eraseFrom_entriesWritten`: `writeAt` takes one from `entries_written`
  for every entry it drops from memory, in whichever file it was.
* From an empty directory, a `writeAt` into an earlier file after which the
  file holds an index past its name, and a compaction that removes that
  file with an entry the log still holds, which recovery then loses.
-/

namespace Daisy.Coordination

open Daisy.IO Daisy.Common

/-- `nuraft::log_entry`: what the changelog keeps of an entry. -/
structure LogEntry where
  term : UInt64
  blob : List UInt8
  valType : UInt32
  deriving DecidableEq, Repr

/-- `ChangelogRecord`: its header and its blob. -/
structure ChangelogRecord where
  version : UInt8
  index : UInt64
  term : UInt64
  valueType : UInt32
  blobSize : UInt64
  blob : List UInt8
  deriving DecidableEq, Repr

/-- `ChangelogFileDescription`: the first and the last index of a file's
name. -/
structure ChangelogFileDescription where
  fromLogIndex : UInt64
  toLogIndex : UInt64
  deriving DecidableEq, Repr

/-- The changelog directory: each file by its name. -/
abbrev Disk := AList fun _ : ChangelogFileDescription => List UInt8

/-- What the changelog throws, or where it is undefined. -/
inductive ChangelogError where
  /-- "Changelog must be initialized before appending records". -/
  | notInitialized
  /-- "Record with index `index` already exists". -/
  | recordExists (index : UInt64)
  /-- "Cannot write at index `index` because changelog doesn't contain it". -/
  | cannotWriteAt (index : UInt64)
  /-- "Unsupported changelog version": rethrown by the reader. -/
  | unknownFormatVersion
  /-- A file of the map that the directory does not have. -/
  | cannotOpenFile
  /-- "Don't have log entry `index`", of `serializeEntriesToBuffer`. -/
  | dontHaveLogEntry (index : UInt64)
  /-- Reading past the end of a `nuraft::buffer`, or a negative size. -/
  | readPastBuffer
  /-- Going through `end()` of a map, or a writer that is not there. -/
  | undefined
  /-- The model's loops ran out of fuel. -/
  | outOfFuel
  deriving DecidableEq, Repr

namespace Disk

/-- Bytes written to an open file go to its end; after the file is removed
the directory shows them nowhere. -/
def write (disk : Disk) (file : ChangelogFileDescription) (bytes : List UInt8) : Disk :=
  match disk.lookup file with
  | some content => disk.replace file (content ++ bytes)
  | none => disk

/-- `ftruncate(fd, length)`: the file cut, or padded with zero bytes. -/
def truncate (disk : Disk) (file : ChangelogFileDescription) (length : Nat) : Disk :=
  match disk.lookup file with
  | some content =>
    disk.replace file
      (if length ≤ content.length then content.take length else content ++ List.replicate (length - content.length) 0)
  | none => disk

/-- `open` with `O_CREAT`, and `O_TRUNC` to rewrite. -/
def openFile (disk : Disk) (file : ChangelogFileDescription) (rewrite : Bool) : Disk :=
  match disk.lookup file with
  | some _ => if rewrite then disk.replace file [] else disk
  | none => disk.insert file []

end Disk

section Records

/-- `Changelog::buildRecord(index, log_entry)`. -/
def buildRecord (index : UInt64) (entry : LogEntry) : ChangelogRecord :=
  ⟨0, index, entry.term, entry.valType, entry.blob.length.toUInt64, entry.blob⟩

/-- `computeRecordChecksum(record)`: each field of the header in its bytes
in memory, then the blob. -/
def computeRecordChecksum (record : ChangelogRecord) : UInt64 :=
  let hash := SipHash.make 0 0
  let hash := hash.update (writeLE 1 record.version.toNat)
  let hash := hash.update (writeLE 8 record.index.toNat)
  let hash := hash.update (writeLE 8 record.term.toNat)
  let hash := hash.update (writeLE 4 record.valueType.toNat)
  let hash := hash.update (writeLE 8 record.blobSize.toNat)
  let hash := if record.blobSize ≠ 0 then hash.update record.blob else hash
  hash.get64

/-- The bytes `appendRecord` writes: the checksum, the header, the blob. -/
def writeRecord (record : ChangelogRecord) : List UInt8 :=
  writeLE 8 (computeRecordChecksum record).toNat ++ writeLE 1 record.version.toNat ++ writeLE 8 record.index.toNat ++
    writeLE 8 record.term.toNat ++ writeLE 4 record.valueType.toNat ++ writeLE 8 record.blobSize.toNat ++
    if record.blobSize ≠ 0 then record.blob else []

/-- `readIntBinary` of a `k`-byte integer. -/
def readIntLE (k : Nat) : BinaryReader Nat := fun input => do
  let (bytes, rest) ← readStrict k input
  pure (readLE bytes, rest)

/-- How reading a record stops `readChangelog`: an unknown version is thrown
on, any other exception is caught. -/
inductive ReadStop where
  | unknownFormatVersion
  | caught
  deriving DecidableEq, Repr

/-- The body of `readChangelog`'s loop, up to the record it reads: the
header, the version test, the blob, and the tests of the index that follows
`previousIndex`, of the checksum, and of an index already read. -/
def readRecord (previousIndex : UInt64) (logs : AList fun _ : UInt64 => LogEntry) (input : List UInt8) :
    Except ReadStop (ChangelogRecord × List UInt8) := do
  let caught := fun (_ : BinaryError) => ReadStop.caught
  let (recordChecksum, input) ← (readIntLE 8 input).mapError caught
  let (version, input) ← (readIntLE 1 input).mapError caught
  let (index, input) ← (readIntLE 8 input).mapError caught
  let (term, input) ← (readIntLE 8 input).mapError caught
  let (valueType, input) ← (readIntLE 4 input).mapError caught
  let (blobSize, input) ← (readIntLE 8 input).mapError caught
  if version > 0 then throw .unknownFormatVersion
  let (blob, input) ← if blobSize ≠ 0 then (readStrict blobSize input).mapError caught else pure ([], input)
  let record : ChangelogRecord :=
    ⟨version.toUInt8, index.toUInt64, term.toUInt64, valueType.toUInt32, blobSize.toUInt64, blob⟩
  if previousIndex ≠ 0 ∧ previousIndex + 1 ≠ record.index then throw .caught
  if computeRecordChecksum record ≠ recordChecksum.toUInt64 then throw .caught
  if (logs.lookup record.index).isSome then throw .caught
  pure (record, input)

/-- `ChangelogReadResult`. -/
structure ChangelogReadResult where
  entriesRead : UInt64
  firstReadIndex : UInt64
  lastPosition : Nat
  error : Bool
  deriving DecidableEq, Repr

/-- `ChangelogReadResult result{}`. -/
def ChangelogReadResult.zero : ChangelogReadResult := ⟨0, 0, 0, false⟩

/-- The state of `readChangelog`'s loop, and the maps it fills. -/
structure ReadState where
  result : ChangelogReadResult
  previousIndex : UInt64
  logs : AList fun _ : UInt64 => LogEntry
  indexToOffset : AList fun _ : UInt64 => Nat

/-- The loop of `ChangelogReader::readChangelog` over a file of `size` bytes,
the input what is left of it. A record takes at least one byte, so
`input.length + 1` turns are enough. -/
def readChangelogLoop (startLogIndex : UInt64) (size : Nat) : Nat → ReadState → List UInt8 → Except ChangelogError ReadState
  | 0, _, _ => throw .outOfFuel
  | _ + 1, s, [] => pure s
  | fuel + 1, s, input@(_ :: _) =>
    -- `last_position` is where the record starts: a broken one is cut from there
    let s := { s with result := { s.result with lastPosition := size - input.length } }
    match readRecord s.previousIndex s.logs input with
    | .error .unknownFormatVersion => throw .unknownFormatVersion
    | .error .caught => pure { s with result := { s.result with error := true } }
    | .ok (record, rest) =>
      let s := { s with
        previousIndex := record.index
        result := { s.result with entriesRead := s.result.entriesRead + 1 } }
      if record.index < startLogIndex then readChangelogLoop startLogIndex size fuel s rest
      else
        readChangelogLoop startLogIndex size fuel { s with
          result := { s.result with
            firstReadIndex := if s.result.firstReadIndex = 0 then record.index else s.result.firstReadIndex }
          logs := s.logs.insert record.index ⟨record.term, record.blob, record.valueType⟩
          indexToOffset := s.indexToOffset.insert record.index s.result.lastPosition } rest

/-- `ChangelogReader::readChangelog(logs, start_log_index, index_to_offset)`. -/
def readChangelog (file : List UInt8) (logs : AList fun _ : UInt64 => LogEntry) (startLogIndex : UInt64)
    (indexToOffset : AList fun _ : UInt64 => Nat) :
    Except ChangelogError (ChangelogReadResult × AList (fun _ : UInt64 => LogEntry) × AList fun _ : UInt64 => Nat) := do
  let s ← readChangelogLoop startLogIndex file.length (file.length + 1)
    ⟨ChangelogReadResult.zero, 0, logs, indexToOffset⟩ file
  pure (s.result, s.logs, s.indexToOffset)

end Records

/-- `ChangelogWriter`. -/
structure ChangelogWriter where
  file : ChangelogFileDescription
  count : Nat
  entriesWritten : UInt64
  startIndex : UInt64
  deriving DecidableEq, Repr

namespace ChangelogWriter

/-- `ChangelogWriter(filepath, mode, start_index)`: `WriteMode::Rewrite`
truncates the file, `WriteMode::Append` keeps it. -/
def make (disk : Disk) (file : ChangelogFileDescription) (rewrite : Bool) (startIndex : UInt64) :
    ChangelogWriter × Disk :=
  (⟨file, 0, 0, startIndex⟩, disk.openFile file rewrite)

/-- `appendRecord(record)`: the offset it returns is `count()` before the
write. -/
def appendRecord (w : ChangelogWriter) (disk : Disk)
    (record : ChangelogRecord) : Nat × ChangelogWriter × Disk :=
  let bytes := writeRecord record
  (w.count, { w with count := w.count + bytes.length, entriesWritten := w.entriesWritten + 1 },
    disk.write w.file bytes)

end ChangelogWriter

/-- The state of `Changelog`. -/
structure Changelog where
  rotateInterval : UInt64
  existingChangelogs : List ChangelogFileDescription
  currentWriter : Option ChangelogWriter
  indexToStartPos : AList fun _ : UInt64 => Nat
  logs : AList fun _ : UInt64 => LogEntry
  startIndex : UInt64

/-- `existing_changelogs[description.from_log_index] = description`. -/
def setChangelog (d : ChangelogFileDescription) : List ChangelogFileDescription → List ChangelogFileDescription
  | [] => [d]
  | e :: l =>
    if d.fromLogIndex < e.fromLogIndex then d :: e :: l
    else if d.fromLogIndex = e.fromLogIndex then d :: l
    else e :: setChangelog d l

/-- `std::erase_if(map, pred)` on a map keyed by index. -/
def eraseIf {β : UInt64 → Type} (p : UInt64 → Bool) (m : AList β) : AList β :=
  (m.keys.filter p).foldl (fun m k => m.erase k) m

namespace Changelog

section Operations

/-- `Changelog(changelogs_dir, rotate_interval)`: the files of the
directory, each under its first index. -/
def make (disk : Disk) (rotateInterval : UInt64) : Changelog :=
  ⟨rotateInterval, disk.keys.foldl (fun l d => setChangelog d l) [], none, ∅, ∅, 0⟩

/-- `getNextEntryIndex()`. -/
def getNextEntryIndex (c : Changelog) : UInt64 := c.startIndex + c.logs.entries.length.toUInt64

/-- `rotate(new_start_log_index)`: a new file, rewritten, for the next
`rotate_interval` indexes. -/
def rotate (c : Changelog) (disk : Disk) (newStartLogIndex : UInt64) : ChangelogWriter × Changelog × Disk :=
  let description : ChangelogFileDescription := ⟨newStartLogIndex, newStartLogIndex + c.rotateInterval - 1⟩
  let (w, disk) := ChangelogWriter.make disk description true newStartLogIndex
  (w, { c with existingChangelogs := setChangelog description c.existingChangelogs, currentWriter := some w }, disk)

/-- `appendEntry(index, log_entry)`. -/
def appendEntry (c : Changelog) (disk : Disk) (index : UInt64) (entry : LogEntry) :
    Except ChangelogError (Changelog × Disk) := do
  let some w := c.currentWriter | throw .notInitialized
  let c := if c.logs.entries = [] then { c with startIndex := index } else c
  let (w, c, disk) := if w.entriesWritten = c.rotateInterval then c.rotate disk index else (w, c, disk)
  let (offset, w, disk) := w.appendRecord disk (buildRecord index entry)
  if (c.indexToStartPos.lookup index).isSome then throw (.recordExists index)
  pure ({ c with
    currentWriter := some w
    indexToStartPos := c.indexToStartPos.insert index offset
    logs := c.logs.insert index entry }, disk)

/-- The loop of `writeAt` that drops the entries from `i` on while they
follow each other, one off `entries_written` for each. -/
def eraseFrom : Nat → UInt64 → AList (fun _ : UInt64 => LogEntry) → AList (fun _ : UInt64 => Nat) → UInt64 →
    AList (fun _ : UInt64 => LogEntry) × AList (fun _ : UInt64 => Nat) × UInt64
  | 0, _, logs, pos, entriesWritten => (logs, pos, entriesWritten)
  | fuel + 1, i, logs, pos, entriesWritten =>
    if (logs.lookup i).isSome then eraseFrom fuel (i + 1) (logs.erase i) (pos.erase i) (entriesWritten - 1)
    else (logs, pos, entriesWritten)

/-- The file `writeAt` goes back to, and the start index its writer gets:
the key of `lower_bound(index)`, whichever file it takes. -/
def previousFile (c : Changelog) (index : UInt64) : Except ChangelogError (ChangelogFileDescription × UInt64) := do
  let some next := c.existingChangelogs.find? (fun d => d.fromLogIndex ≥ index) | throw .undefined
  if next.fromLogIndex = index then return (next, next.fromLogIndex)
  let some description := (c.existingChangelogs.filter fun d => d.fromLogIndex < index).getLast?
    | throw .undefined
  pure (description, next.fromLogIndex)

/-- `writeAt(index, log_entry)`. -/
def writeAt (c : Changelog) (disk : Disk) (index : UInt64) (entry : LogEntry) :
    Except ChangelogError (Changelog × Disk) := do
  let some offset := c.indexToStartPos.lookup index | throw (.cannotWriteAt index)
  let some w := c.currentWriter | throw .undefined
  let goToPreviousFile := index < w.startIndex
  let (w, disk) ← if goToPreviousFile then do
      let (description, startIndex) ← c.previousFile index
      let (w, disk) := ChangelogWriter.make disk description false startIndex
      -- the count of a full file
      pure ({ w with entriesWritten := description.toLogIndex - description.fromLogIndex + 1 }, disk)
    else pure (w, disk)
  let disk := disk.truncate w.file offset
  -- the files after the one written to go
  let (kept, removed) := if goToPreviousFile then c.existingChangelogs.partition (·.fromLogIndex ≤ index)
    else (c.existingChangelogs, [])
  let disk := removed.foldl (fun disk d => disk.erase d) disk
  let (logs, indexToStartPos, entriesWritten) :=
    eraseFrom (c.logs.entries.length + 1) index c.logs c.indexToStartPos w.entriesWritten
  appendEntry { c with
    existingChangelogs := kept
    currentWriter := some { w with entriesWritten }
    logs, indexToStartPos } disk index entry

/-- `compact(up_to_log_index)`: the files up to the first one that reaches
past the index go, with the offsets of their indexes. -/
def compact (c : Changelog) (disk : Disk) (upToLogIndex : UInt64) : Changelog × Disk :=
  let removed := c.existingChangelogs.takeWhile (·.toLogIndex ≤ upToLogIndex)
  let indexToStartPos := removed.foldl (fun pos d => eraseIf (· ≤ d.toLogIndex) pos) c.indexToStartPos
  let disk := removed.foldl (fun disk d => disk.erase d) disk
  ({ c with
    existingChangelogs := c.existingChangelogs.dropWhile (·.toLogIndex ≤ upToLogIndex)
    indexToStartPos
    startIndex := upToLogIndex + 1
    logs := eraseIf (· ≤ upToLogIndex) c.logs }, disk)

/-- The state of the loop of `readChangelogAndInitWriter` over the files. -/
structure InitState where
  totalRead : UInt64
  entriesInLast : UInt64
  incompleteLogIndex : UInt64
  result : ChangelogReadResult
  firstReadIndex : UInt64
  started : Bool
  logs : AList fun _ : UInt64 => LogEntry
  indexToStartPos : AList fun _ : UInt64 => Nat

/-- The loop of `readChangelogAndInitWriter` over `existing_changelogs`: it
reads the files from the one that reaches `startToReadFrom`, and stops at
a gap before the first, or after a file with fewer records than its name
gives. -/
def readFiles (disk : Disk) (lastCommitedLogIndex startToReadFrom : UInt64) :
    List ChangelogFileDescription → InitState → Except ChangelogError InitState
  | [], s => pure s
  | d :: files, s => do
    let s := { s with entriesInLast := d.toLogIndex - d.fromLogIndex + 1 }
    if d.toLogIndex ≥ startToReadFrom then
      if !s.started ∧ d.fromLogIndex > lastCommitedLogIndex ∧ d.fromLogIndex - lastCommitedLogIndex > 1 then
        return { s with incompleteLogIndex := d.fromLogIndex }
      let some file := disk.lookup d | throw .cannotOpenFile
      let (result, logs, indexToStartPos) ← readChangelog file s.logs startToReadFrom s.indexToStartPos
      let s := { s with
        started := true
        result, logs, indexToStartPos
        firstReadIndex := if s.firstReadIndex = 0 then result.firstReadIndex else s.firstReadIndex
        totalRead := s.totalRead + result.entriesRead }
      if result.entriesRead < s.entriesInLast then return { s with incompleteLogIndex := d.fromLogIndex }
      readFiles disk lastCommitedLogIndex startToReadFrom files s
    else readFiles disk lastCommitedLogIndex startToReadFrom files s

/-- `readChangelogAndInitWriter(last_commited_log_index, logs_to_keep)`. -/
def readChangelogAndInitWriter (c : Changelog) (disk : Disk) (lastCommitedLogIndex logsToKeep : UInt64) :
    Except ChangelogError (Changelog × Disk) := do
  let startToReadFrom := if lastCommitedLogIndex > logsToKeep then lastCommitedLogIndex - logsToKeep else 1
  let s ← readFiles disk lastCommitedLogIndex startToReadFrom c.existingChangelogs
    ⟨0, 0, 0, ChangelogReadResult.zero, 0, false, c.logs, c.indexToStartPos⟩
  let c := { c with
    logs := s.logs
    indexToStartPos := s.indexToStartPos
    startIndex := if s.firstReadIndex ≠ 0 then s.firstReadIndex else lastCommitedLogIndex }
  let (c, disk) :=
    if s.incompleteLogIndex ≠ 0 then
      -- the files after the broken one go; all of them when none was read
      let (kept, removed) := if s.started then c.existingChangelogs.partition (·.fromLogIndex ≤ s.incompleteLogIndex)
        else ([], c.existingChangelogs)
      let disk := removed.foldl (fun disk d => disk.erase d) disk
      let c := { c with existingChangelogs := kept }
      match kept.getLast? with
      | some d =>
        -- continue to write into the last file, cut at a broken record
        let (w, disk) := ChangelogWriter.make disk d false d.fromLogIndex
        let w := { w with entriesWritten := s.result.entriesRead }
        let disk := if s.result.error then disk.truncate w.file s.result.lastPosition else disk
        ({ c with currentWriter := some w }, disk)
      | none => (c, disk)
    else (c, disk)
  match c.currentWriter with
  | some _ => pure (c, disk)
  | none =>
    let (_, c, disk) := c.rotate disk (c.startIndex + s.totalRead)
    pure (c, disk)

/-- A changelog over the directory, read and ready to write, as
`KeeperLogStore::init` makes it. -/
def load (disk : Disk) (rotateInterval lastCommitedLogIndex logsToKeep : UInt64) :
    Except ChangelogError (Changelog × Disk) :=
  (make disk rotateInterval).readChangelogAndInitWriter disk lastCommitedLogIndex logsToKeep

end Operations

/-- What `KeeperLogStore` asks of the changelog. -/
inductive Op where
  /-- `append`: `appendEntry(getNextEntryIndex(), entry)`. -/
  | append (entry : LogEntry)
  | writeAt (index : UInt64) (entry : LogEntry)
  | compact (upToLogIndex : UInt64)
  | flush
  deriving DecidableEq, Repr

section Runs

/-- One operation. -/
def step (c : Changelog) (disk : Disk) : Op → Except ChangelogError (Changelog × Disk)
  | .append entry => c.appendEntry disk c.getNextEntryIndex entry
  | .writeAt index entry => c.writeAt disk index entry
  | .compact upToLogIndex => pure (c.compact disk upToLogIndex)
  | .flush => pure (c, disk)

/-- The operations in turn. -/
def run (c : Changelog) (disk : Disk) : List Op → Except ChangelogError (Changelog × Disk)
  | [] => pure (c, disk)
  | op :: ops => do
    let (c, disk) ← c.step disk op
    run c disk ops

end Runs

/-! ### `writeAt` counts off what it drops from memory -/

theorem add_succ_ne_self (i : UInt64) {j : Nat} (hj : j + 1 < 2 ^ 64) : i + (j + 1).toUInt64 ≠ i := by
  intro h
  have hzero : (j + 1).toUInt64 = 0 := by simpa [add_comm] using congrArg (· - i) h
  have hmod := congrArg UInt64.toNat hzero
  simp at hmod
  omega

/-- **`writeAt` takes one off `entries_written` for each entry it drops.**
From `i`, `k` entries follow each other in memory: the loop drops them all,
whichever files they were written to, and takes `k` off the count it was
given. -/
theorem eraseFrom_entriesWritten {logs : AList fun _ : UInt64 => LogEntry} {pos : AList fun _ : UInt64 => Nat}
    {i entriesWritten : UInt64} {k fuel : Nat} (hfuel : k < fuel) (hk : k < 2 ^ 64)
    (hin : ∀ j < k, (logs.lookup (i + j.toUInt64)).isSome) (hout : logs.lookup (i + k.toUInt64) = none) :
    (eraseFrom fuel i logs pos entriesWritten).2.2 = entriesWritten - k.toUInt64 := by
  have hzero : (0 : Nat).toUInt64 = 0 := rfl
  induction k generalizing i logs pos entriesWritten fuel with
  | zero =>
    obtain ⟨f, rfl⟩ : ∃ f, fuel = f + 1 := ⟨fuel - 1, by omega⟩
    have hnone : logs.lookup i = none := by rwa [hzero, add_zero] at hout
    simp [eraseFrom, hnone, hzero]
  | succ k ih =>
    obtain ⟨f, rfl⟩ : ∃ f, fuel = f + 1 := ⟨fuel - 1, by omega⟩
    -- the entry at `i` goes; the rest follow from `i + 1`, apart from `i`
    have hi : (logs.lookup i).isSome := by
      have h0 := hin 0 (by omega)
      rwa [hzero, add_zero] at h0
    have hshift : ∀ j : Nat, i + 1 + j.toUInt64 = i + (j + 1).toUInt64 := fun j => by simp [add_assoc, add_comm]
    have hne : ∀ j : Nat, j < k + 1 → i + 1 + j.toUInt64 ≠ i := fun j hj => by
      rw [hshift]
      exact add_succ_ne_self i (by omega)
    rw [eraseFrom, if_pos hi]
    have hrest : (eraseFrom f (i + 1) (logs.erase i) (pos.erase i) (entriesWritten - 1)).2.2 =
        entriesWritten - 1 - k.toUInt64 := ih (by omega) (by omega)
      (fun j hj => by rw [AList.lookup_erase_ne (hne j (by omega)), hshift]; exact hin (j + 1) (by omega))
      (by rw [AList.lookup_erase_ne (hne k (by omega)), hshift]; exact hout)
    rw [hrest]
    simp [sub_sub, add_comm]

/-! ### From an empty directory -/

/-- **A `writeAt` into an earlier file overfills it.** Two indexes a file,
four entries written: `changelog_1_2.bin` and `changelog_3_4.bin`. Writing
at `2` goes back to the first file with the count of a full one, `2`, and
takes off the three entries it drops, `2`, `3` and `4`, so the count wraps
to `0`. The next entry, `3`, goes on into `changelog_1_2.bin`, which then
holds the records of `1`, `2` and `3` while the writer counts one. -/
theorem writeAt_previous_file_overfills :
    ∃ c disk, ((load ∅ 2 1 0).bind fun (c, disk) => c.run disk
        [.append ⟨1, [1], 1⟩, .append ⟨1, [2], 1⟩, .append ⟨1, [3], 1⟩, .append ⟨1, [4], 1⟩,
          .writeAt 2 ⟨2, [5], 1⟩, .append ⟨2, [6], 1⟩]) = .ok (c, disk) ∧
      c.existingChangelogs = [⟨1, 2⟩] ∧ c.currentWriter.map (·.entriesWritten) = some 1 ∧
      disk.lookup ⟨1, 2⟩ = some (writeRecord (buildRecord 1 ⟨1, [1], 1⟩) ++
        writeRecord (buildRecord 2 ⟨2, [5], 1⟩) ++ writeRecord (buildRecord 3 ⟨2, [6], 1⟩)) := by
  apply Daisy.Library.exists_ok_of_map_eq
    (fun (p : Changelog × Disk) => (p.1.existingChangelogs, p.1.currentWriter.map (·.entriesWritten), p.2.lookup ⟨1, 2⟩))
    ([⟨1, 2⟩], some 1, some (writeRecord (buildRecord 1 ⟨1, [1], 1⟩) ++
        writeRecord (buildRecord 2 ⟨2, [5], 1⟩) ++ writeRecord (buildRecord 3 ⟨2, [6], 1⟩)))
  · intro c disk hseen
    simpa only [Prod.mk.injEq] using hseen
  · decide +kernel

set_option synthInstance.maxSize 512 in
/-- **Recovery after a compaction loses an entry the log holds.** The run
above, then `compact(2)` and a flush: the log starts at `3` and holds the
entry `3`, but the compaction removed `changelog_1_2.bin`, where that entry
was written. Read back with `last_commited_log_index = 3`, the directory has
no file, and the log holds nothing and would take `3` next. -/
theorem compact_then_recover_loses_entry :
    ∃ c disk, ((load ∅ 2 1 0).bind fun (c, disk) => c.run disk
        [.append ⟨1, [1], 1⟩, .append ⟨1, [2], 1⟩, .append ⟨1, [3], 1⟩, .append ⟨1, [4], 1⟩,
          .writeAt 2 ⟨2, [5], 1⟩, .append ⟨2, [6], 1⟩, .compact 2, .flush]) = .ok (c, disk) ∧
      c.startIndex = 3 ∧ c.getNextEntryIndex = 4 ∧ c.logs.lookup 3 = some ⟨2, [6], 1⟩ ∧
      ∃ recovered disk', load disk 2 3 0 = .ok (recovered, disk') ∧
        recovered.getNextEntryIndex = 3 ∧ recovered.logs.lookup 3 = none := by
  apply Daisy.Library.exists_ok_of_map_eq
    (fun (p : Changelog × Disk) => (p.1.startIndex, p.1.getNextEntryIndex, p.1.logs.lookup 3,
      (load p.2 2 3 0).map fun (q : Changelog × Disk) => (q.1.getNextEntryIndex, q.1.logs.lookup 3)))
    (3, 4, some ⟨2, [6], 1⟩, .ok (3, none))
  · intro c disk hseen
    simp only [Prod.mk.injEq] at hseen
    obtain ⟨hstart, hnext, hlog, hrecovered⟩ := hseen
    -- the recovery, read off the same way
    refine ⟨hstart, hnext, hlog, Daisy.Library.exists_ok_of_map_eq _ _ (fun recovered disk' hseen => ?_) hrecovered⟩
    simpa only [Prod.mk.injEq] using hseen
  · decide +kernel

end Changelog

end Daisy.Coordination
