import Daisy.Coordination.Changelog

/-!
# Log packs: `serializeEntriesToBuffer` and `applyEntriesFromBuffer`

`KeeperLogStore::pack` and `apply_pack` (`Coordination/KeeperLogStore.cpp`)
move entries between changelogs. `serializeEntriesToBuffer(index, count)`
writes the count, then for each index in turn the bytes of its entry after
their size, each an `int32_t`; an index the log does not hold is a
`LOGICAL_ERROR`. `applyEntriesFromBuffer(index, buffer)` reads them back in
the same order: the first entry goes in by `writeAt` when the log holds its
index, every other by `appendEntry`.

## The model

`nuraft` is not in the sources, so `log_entry::serialize` and `deserialize`
are parameters. A `nuraft::buffer` is its bytes from its position on, and its
`int32_t`s are four bytes, lowest first; reading past its end, or a negative
size, is `readPastBuffer`. Indexes are `UInt64`: the packs of these theorems
reach no wrap.

## What is proved

* `applyEntriesFromBuffer_serializeEntriesToBuffer`: a pack of `A`'s entries,
  applied to a changelog with a writer and without the first entry and the
  offsets of the indexes, puts `A`'s entries at their indexes and leaves every
  other index as it was.
* `apply_pack_after_compact_rejects`: compaction keeps the offsets of the file
  it keeps, also of indexes it drops from the log, so a changelog whose log is
  empty rejects a pack of an index it dropped.
-/

namespace Daisy.Coordination.Changelog

open Daisy.IO Daisy.Library

/-- `buffer.get_int()`: an `int` in four bytes, lowest first. -/
def readInt32 (buffer : List UInt8) : Except ChangelogError (Int × List UInt8) :=
  if buffer.length < 4 then throw .readPastBuffer
  else
    let n := readLE (buffer.take 4)
    pure (if n < 2 ^ 31 then n else n - 2 ^ 32, buffer.drop 4)

/-- The loop of `serializeEntriesToBuffer` from the index `i`, `n` entries
left: `returned_logs`. -/
def returnedLogs (serialize : LogEntry → List UInt8) (logs : AList fun _ : UInt64 => LogEntry) :
    UInt64 → Nat → Except ChangelogError (List (List UInt8))
  | _, 0 => pure []
  | i, n + 1 =>
    match logs.lookup i with
    | some entry => do
      let rest ← returnedLogs serialize logs (i + 1) n
      pure (serialize entry :: rest)
    | none => throw (.dontHaveLogEntry i)

/-- `serializeEntriesToBuffer(index, count)`: the count, then each entry's
bytes after their size, each an `int32_t`. -/
def serializeEntriesToBuffer (serialize : LogEntry → List UInt8) (c : Changelog) (index : UInt64) (count : Nat) :
    Except ChangelogError (List UInt8) := do
  let returned ← returnedLogs serialize c.logs index count
  pure (writeLE 4 count ++ returned.flatMap fun bb => writeLE 4 bb.length ++ bb)

/-- One turn of `applyEntriesFromBuffer`'s loop: the first entry is written
at its index when the log has it, every other appended. -/
def applyEntry (c : Changelog) (disk : Disk) (index : UInt64) (i : Nat) (entry : LogEntry) :
    Except ChangelogError (Changelog × Disk) :=
  if i = 0 ∧ (c.logs.lookup (index + i.toUInt64)).isSome then c.writeAt disk (index + i.toUInt64) entry
  else c.appendEntry disk (index + i.toUInt64) entry

/-- The loop of `applyEntriesFromBuffer`, `numLeft` entries left from the
`i`-th, the buffer from its position on. -/
def applyEntriesLoop (deserialize : List UInt8 → LogEntry) (index : UInt64) :
    Nat → Nat → List UInt8 → Changelog → Disk → Except ChangelogError (Changelog × Disk)
  | 0, _, _, c, disk => pure (c, disk)
  | numLeft + 1, i, buffer, c, disk => do
    let (bufSize, buffer) ← readInt32 buffer
    if bufSize < 0 ∨ buffer.length < bufSize.toNat then throw .readPastBuffer
    let (c, disk) ← c.applyEntry disk index i (deserialize (buffer.take bufSize.toNat))
    applyEntriesLoop deserialize index numLeft (i + 1) (buffer.drop bufSize.toNat) c disk

/-- `applyEntriesFromBuffer(index, buffer)`: a negative count applies
nothing. -/
def applyEntriesFromBuffer (deserialize : List UInt8 → LogEntry) (c : Changelog) (disk : Disk) (index : UInt64)
    (buffer : List UInt8) : Except ChangelogError (Changelog × Disk) := do
  let (numLogs, buffer) ← readInt32 buffer
  applyEntriesLoop deserialize index numLogs.toNat 0 buffer c disk

/-- An `int32_t` written and read back. -/
theorem readInt32_writeLE {n : Nat} (hn : n < 2 ^ 31) (rest : List UInt8) :
    readInt32 (writeLE 4 n ++ rest) = .ok (n, rest) := by
  have hlt : n < 256 ^ 4 := by omega
  simp only [readInt32, List.length_append, length_writeLE, List.take_left' (length_writeLE 4 n),
    List.drop_left' (length_writeLE 4 n), readLE_writeLE, Nat.mod_eq_of_lt hlt]
  rw [if_neg (by omega), if_pos hn]
  rfl

/-- A buffer that starts with a count below `2 ^ 31` has the loop apply that
many entries. -/
theorem applyEntriesFromBuffer_count (deserialize : List UInt8 → LogEntry) (c : Changelog) (disk : Disk)
    (index : UInt64) {count : Nat} (hcount : count < 2 ^ 31) (rest : List UInt8) :
    c.applyEntriesFromBuffer deserialize disk index (writeLE 4 count ++ rest) =
      applyEntriesLoop deserialize index count 0 rest c disk := by
  rw [applyEntriesFromBuffer, readInt32_writeLE hcount, ok_bind]
  show applyEntriesLoop deserialize index (count : Int).toNat 0 rest c disk = _
  rw [Int.toNat_natCast]

/-- One turn of the loop reads one entry's frame and applies the entry. -/
theorem applyEntriesLoop_frame (deserialize : List UInt8 → LogEntry) (index : UInt64) (numLeft i : Nat)
    {bytes : List UInt8} (hbytes : bytes.length < 2 ^ 31) (rest : List UInt8) (c : Changelog) (disk : Disk) :
    applyEntriesLoop deserialize index (numLeft + 1) i (writeLE 4 bytes.length ++ bytes ++ rest) c disk =
      (c.applyEntry disk index i (deserialize bytes)) >>= fun (c, disk) =>
        applyEntriesLoop deserialize index numLeft (i + 1) rest c disk := by
  rw [applyEntriesLoop, List.append_assoc, readInt32_writeLE hbytes, ok_bind]
  simp only [Int.toNat_natCast, List.length_append]
  rw [if_neg (by omega), List.take_left' rfl, List.drop_left' rfl]

@[simp] theorem rotate_logs (c : Changelog) (disk : Disk) (i : UInt64) : (c.rotate disk i).2.1.logs = c.logs := rfl

@[simp] theorem rotate_indexToStartPos (c : Changelog) (disk : Disk) (i : UInt64) :
    (c.rotate disk i).2.1.indexToStartPos = c.indexToStartPos := rfl

/-- `appendEntry` at an index without an offset adds the entry and its offset,
and keeps a writer. -/
theorem appendEntry_of_fresh {c : Changelog} (disk : Disk) {index : UInt64} (entry : LogEntry)
    (hw : c.currentWriter.isSome) (hpos : c.indexToStartPos.lookup index = none) :
    ∃ c' disk' offset, c.appendEntry disk index entry = .ok (c', disk') ∧ c'.logs = c.logs.insert index entry ∧
      c'.indexToStartPos = c.indexToStartPos.insert index offset ∧ c'.currentWriter.isSome := by
  obtain ⟨w, hw⟩ := Option.isSome_iff_exists.mp hw
  unfold appendEntry
  simp only [hw]
  -- whether the log was empty and whether the writer rotates, the offset is where the record went
  split_ifs <;> simp_all [pure, Except.pure] <;> exact ⟨_, rfl⟩


/-- Indexes a distance apart below `2 ^ 64` differ. -/
theorem add_toUInt64_ne (index : UInt64) {a b : Nat} (ha : a < 2 ^ 64) (hb : b < 2 ^ 64) (hne : a ≠ b) :
    index + a.toUInt64 ≠ index + b.toUInt64 := by
  intro h
  have hcast := congrArg UInt64.toNat (add_left_cancel h)
  simp at hcast
  omega

/-- An entry that is not the first, or a first the log does not hold, is
appended. -/
theorem applyEntry_of_absent {c : Changelog} {disk : Disk} {index : UInt64} {i : Nat} {entry : LogEntry}
    (hfirst : i = 0 → c.logs.lookup index = none) :
    c.applyEntry disk index i entry = c.appendEntry disk (index + i.toUInt64) entry := by
  rw [applyEntry, if_neg]
  rintro ⟨rfl, hsome⟩
  rw [show index + Nat.toUInt64 0 = index from add_zero index, hfirst rfl] at hsome
  cases hsome

/-- **The loop appends the entries of the frames.** For a changelog with a
writer, no offset at the indexes of the frames, and no entry at the first:
the loop returns, the log holds each frame's entry at its index, and every
other index as before. Induction on the frames, the offsets of the later
indexes untouched by each append. -/
theorem applyEntriesLoop_appends (deserialize : List UInt8 → LogEntry) (index : UInt64) (rest : List UInt8) :
    ∀ (frames : List (List UInt8)) (i : Nat) (c : Changelog) (disk : Disk),
    (∀ bytes ∈ frames, bytes.length < 2 ^ 31) → i + frames.length < 2 ^ 64 → c.currentWriter.isSome →
    (∀ k < frames.length, c.indexToStartPos.lookup (index + (i + k).toUInt64) = none) →
    (i = 0 → c.logs.lookup index = none) →
    ∃ c' disk', applyEntriesLoop deserialize index frames.length i
        (frames.flatMap (fun bb => writeLE 4 bb.length ++ bb) ++ rest) c disk = .ok (c', disk') ∧
      (∀ k (hk : k < frames.length), c'.logs.lookup (index + (i + k).toUInt64) = some (deserialize frames[k])) ∧
      ∀ j, (∀ k < frames.length, j ≠ index + (i + k).toUInt64) → c'.logs.lookup j = c.logs.lookup j
  | [], _, c, disk, _, _, _, _, _ => ⟨c, disk, rfl, fun _ hk => absurd hk (Nat.not_lt_zero _), fun _ _ => rfl⟩
  | bb :: frames, i, c, disk, hsmall, hbound, hw, hfresh, hfirst => by
    simp only [List.length_cons] at hbound hfresh
    obtain ⟨c₁, disk₁, offset, happend, hlogs, hpos, hw₁⟩ :=
      appendEntry_of_fresh disk (deserialize bb) hw (hfresh 0 (Nat.succ_pos _))
    -- the indexes of the later entries are not the first's
    have hne : ∀ k < frames.length, index + (i + 1 + k).toUInt64 ≠ index + (i + 0).toUInt64 :=
      fun k hk => add_toUInt64_ne index (by omega) (by omega) (by omega)
    obtain ⟨c', disk', hloop, hnew, hold⟩ := applyEntriesLoop_appends deserialize index rest frames (i + 1) c₁ disk₁
      (fun bytes hb => hsmall bytes (List.mem_cons_of_mem _ hb)) (by omega) hw₁
      (fun k hk => by
        rw [hpos, AList.lookup_insert_ne (hne k hk), show i + 1 + k = i + (k + 1) by omega]
        exact hfresh (k + 1) (by omega))
      (fun h => absurd h (Nat.succ_ne_zero i))
    refine ⟨c', disk', ?_, fun k hk => ?_, fun j hj => ?_⟩
    · rw [List.length_cons, List.flatMap_cons, List.append_assoc,
        applyEntriesLoop_frame _ _ _ _ (hsmall bb List.mem_cons_self), applyEntry_of_absent hfirst,
        ← Nat.add_zero i, happend, ok_bind]
      exact hloop
    · cases k with
      | zero =>
        rw [hold _ (fun k hk => (hne k hk).symm), hlogs, AList.lookup_insert]
        rfl
      | succ k =>
        rw [show i + (k + 1) = i + 1 + k by omega]
        exact hnew k (by simpa using hk)
    · have hlater : ∀ k < frames.length, j ≠ index + (i + 1 + k).toUInt64 := fun k hk => by
        rw [show i + 1 + k = i + (k + 1) by omega]
        exact hj (k + 1) (by simp; omega)
      rw [hold j hlater, hlogs, AList.lookup_insert_ne (hj 0 (by simp))]


/-- The frames of the pack are the serialized entries at the indexes in turn. -/
theorem returnedLogs_eq_ok {serialize : LogEntry → List UInt8} {logs : AList fun _ : UInt64 => LogEntry} :
    ∀ {i : UInt64} {n : Nat} {frames : List (List UInt8)}, returnedLogs serialize logs i n = .ok frames →
      frames.length = n ∧ ∀ k (hk : k < frames.length), ∃ e, logs.lookup (i + k.toUInt64) = some e ∧ frames[k] = serialize e
  | _, 0, frames, h => by
    cases h
    exact ⟨rfl, fun k hk => absurd hk (Nat.not_lt_zero _)⟩
  | i, n + 1, frames, h => by
    unfold returnedLogs at h
    cases hi : logs.lookup i with
    | none => rw [hi] at h; cases h
    | some e =>
      rw [hi] at h
      obtain ⟨rest, hrest, hframes⟩ := bind_eq_ok h
      cases hframes
      obtain ⟨hlength, hentries⟩ := returnedLogs_eq_ok hrest
      refine ⟨by rw [List.length_cons, hlength], fun k hk => ?_⟩
      cases k with
      | zero => exact ⟨e, by rwa [show i + Nat.toUInt64 0 = i from add_zero i], rfl⟩
      | succ k =>
        obtain ⟨e', he', hk'⟩ := hentries k (by simpa using hk)
        refine ⟨e', ?_, hk'⟩
        rwa [show i + (k + 1).toUInt64 = i + 1 + k.toUInt64 by simp [add_assoc, add_comm]]

/-- **A pack moves the entries, on a changelog that does not have them.** For
every `serialize` and `deserialize` that round-trip and write less than
`2 ^ 31` bytes an entry: when `A` packs `count` entries from `index`, a `B`
with a writer, without the entry at `index` and without an offset at any of
the indexes, applies the pack, holds `A`'s entries at those indexes, and
holds every other index as before. -/
theorem applyEntriesFromBuffer_serializeEntriesToBuffer {serialize : LogEntry → List UInt8}
    {deserialize : List UInt8 → LogEntry} (hround : ∀ e, deserialize (serialize e) = e)
    (hsmall : ∀ e, (serialize e).length < 2 ^ 31) {a b : Changelog} (disk : Disk) {index : UInt64} {count : Nat}
    (hcount : count < 2 ^ 31) {pack : List UInt8} (hpack : a.serializeEntriesToBuffer serialize index count = .ok pack)
    (hw : b.currentWriter.isSome) (hfresh : ∀ k < count, b.indexToStartPos.lookup (index + k.toUInt64) = none)
    (hfirst : b.logs.lookup index = none) :
    ∃ b' disk', b.applyEntriesFromBuffer deserialize disk index pack = .ok (b', disk') ∧
      (∀ k < count, b'.logs.lookup (index + k.toUInt64) = a.logs.lookup (index + k.toUInt64)) ∧
      ∀ j, (∀ k < count, j ≠ index + k.toUInt64) → b'.logs.lookup j = b.logs.lookup j := by
  obtain ⟨frames, hreturned, hbuffer⟩ := bind_eq_ok hpack
  cases hbuffer
  obtain ⟨hlength, hframes⟩ := returnedLogs_eq_ok hreturned
  have hframe : ∀ bytes ∈ frames, bytes.length < 2 ^ 31 := fun bytes hb => by
    obtain ⟨k, hk, rfl⟩ := List.mem_iff_getElem.mp hb
    obtain ⟨e, -, he⟩ := hframes k hk
    rw [he]
    exact hsmall e
  obtain ⟨b', disk', hloop, hnew, hold⟩ := applyEntriesLoop_appends deserialize index [] frames 0 b disk hframe
    (by omega) hw (fun k hk => by rw [Nat.zero_add]; exact hfresh k (by omega)) (fun _ => hfirst)
  refine ⟨b', disk', ?_, fun k hk => ?_, fun j hj => hold j fun k hk => by rw [Nat.zero_add]; exact hj k (by omega)⟩
  · rw [applyEntriesFromBuffer_count _ _ _ _ hcount, ← hlength, ← List.append_nil (frames.flatMap _)]
    exact hloop
  · obtain ⟨e, he, hk'⟩ := hframes k (by omega)
    have hentry := hnew k (by omega)
    rw [Nat.zero_add, hk', hround] at hentry
    rw [hentry, he]

/-- `appendEntry` at an index that has an offset throws "Record with index
... already exists". -/
theorem appendEntry_of_recorded {c : Changelog} (disk : Disk) {index : UInt64} (entry : LogEntry)
    (hw : c.currentWriter.isSome) (hpos : (c.indexToStartPos.lookup index).isSome) :
    c.appendEntry disk index entry = .error (.recordExists index) := by
  obtain ⟨w, hw⟩ := Option.isSome_iff_exists.mp hw
  unfold appendEntry
  simp only [hw]
  split_ifs <;> simp_all [throw, throwThe, MonadExceptOf.throw]

/-- **A compacted changelog rejects a pack it has room for.** With two
indexes a file, `B` appends `1`, `2`, `3` and compacts up to `3`: the file of
`1` and `2` goes with its offsets, the file of `3` stays, and so does the
offset of `3`, while the log holds nothing. `A` holds `3`; `B` applies `A`'s
pack of it by `appendEntry`, which finds the offset and throws. -/
theorem apply_pack_after_compact_rejects (serialize : LogEntry → List UInt8) (deserialize : List UInt8 → LogEntry)
    (hsmall : (serialize ⟨1, [3], 1⟩).length < 2 ^ 31) :
    ∃ a diskA b diskB, ((load ∅ 2 1 0).bind fun (c, disk) => c.run disk
        [.append ⟨1, [1], 1⟩, .append ⟨1, [2], 1⟩, .append ⟨1, [3], 1⟩]) = .ok (a, diskA) ∧
      ((load ∅ 2 1 0).bind fun (c, disk) => c.run disk
        [.append ⟨1, [1], 1⟩, .append ⟨1, [2], 1⟩, .append ⟨1, [3], 1⟩, .compact 3]) = .ok (b, diskB) ∧
      a.logs.lookup 3 = some ⟨1, [3], 1⟩ ∧ b.logs.entries = [] ∧
      ∃ pack, a.serializeEntriesToBuffer serialize 3 1 = .ok pack ∧
        b.applyEntriesFromBuffer deserialize diskB 3 pack = .error (.recordExists 3) := by
  have hrunA : (((load ∅ 2 1 0).bind fun (c, disk) => c.run disk
      [.append ⟨1, [1], 1⟩, .append ⟨1, [2], 1⟩, .append ⟨1, [3], 1⟩]).map fun (p : Changelog × Disk) =>
        p.1.logs.lookup 3) = .ok (some ⟨1, [3], 1⟩) := by decide +kernel
  have hrunB : (((load ∅ 2 1 0).bind fun (c, disk) => c.run disk
      [.append ⟨1, [1], 1⟩, .append ⟨1, [2], 1⟩, .append ⟨1, [3], 1⟩, .compact 3]).map fun (p : Changelog × Disk) =>
        (p.1.logs.entries, p.1.currentWriter.isSome, (p.1.indexToStartPos.lookup 3).isSome)) = .ok ([], true, true) := by
    decide +kernel
  obtain ⟨a, diskA, hA, hlookup⟩ := Daisy.Library.exists_ok_of_map_eq _ _ (fun _ _ h => h) hrunA
  obtain ⟨b, diskB, hB, hentries, hw, hpos⟩ := Daisy.Library.exists_ok_of_map_eq _ _
    (fun (b : Changelog) (_ : Disk) h => by simpa only [Prod.mk.injEq] using h) hrunB
  refine ⟨a, diskA, b, diskB, hA, hB, hlookup, hentries, writeLE 4 1 ++ (writeLE 4 (serialize ⟨1, [3], 1⟩).length ++
    serialize ⟨1, [3], 1⟩ ++ []), ?_, ?_⟩
  · simp only [serializeEntriesToBuffer, returnedLogs, hlookup]
    rfl
  · -- the log holds nothing at `3`, but the offsets still do: the one entry is appended and rejected
    have habsent : b.logs.lookup 3 = none := by
      rw [AList.lookup, hentries]
      rfl
    rw [applyEntriesFromBuffer_count _ _ _ _ (by decide), applyEntriesLoop_frame _ _ _ _ hsmall,
      applyEntry_of_absent (fun _ => habsent),
      show (3 : UInt64) + Nat.toUInt64 0 = 3 from add_zero 3, appendEntry_of_recorded _ _ hw hpos]
    rfl

/-- The pack of the entry `3` written as its blob. -/
theorem apply_pack_after_compact_rejects_blobs :
    ((fun e : LogEntry => e.blob) ⟨1, [3], 1⟩).length < 2 ^ 31 ∧
      ∃ a diskA b diskB, ((load ∅ 2 1 0).bind fun (c, disk) => c.run disk
          [.append ⟨1, [1], 1⟩, .append ⟨1, [2], 1⟩, .append ⟨1, [3], 1⟩]) = .ok (a, diskA) ∧
        ((load ∅ 2 1 0).bind fun (c, disk) => c.run disk
          [.append ⟨1, [1], 1⟩, .append ⟨1, [2], 1⟩, .append ⟨1, [3], 1⟩, .compact 3]) = .ok (b, diskB) ∧
        a.logs.lookup 3 = some ⟨1, [3], 1⟩ ∧ b.logs.entries = [] ∧
        ∃ pack, a.serializeEntriesToBuffer (fun e => e.blob) 3 1 = .ok pack ∧
          b.applyEntriesFromBuffer (fun bytes => ⟨1, bytes, 1⟩) diskB 3 pack = .error (.recordExists 3) :=
  ⟨by decide, apply_pack_after_compact_rejects _ _ (by decide)⟩

end Daisy.Coordination.Changelog
