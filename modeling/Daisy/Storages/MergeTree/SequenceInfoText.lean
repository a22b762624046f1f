import Daisy.IO.Text
import Daisy.Library.Split
import Daisy.Storages.MergeTree.SequenceInfo

/-!
# `sn.txt`: the text form of a `SequenceInfo`

`SequenceInfo::write` and `SequenceInfo::read`:

    1
    seqs:start_sn,end_sn,part_index,parts;...
    keys:sn,key;...

The keys line is there when the `idempotent_keys` pointer is not null. The
reader takes each line with `readText` (`readEscapedString`), cuts it at `;`
and each piece at its first `,` (`SequenceRange` at its first three).

## The model

The `find` loops of `readSequenceRanges` and `readIdempotentKeys` are
`Daisy.Library.pieces` and the `find(',')` of a piece is `breakAt`: the
source looks for the comma in the whole line and throws when it lies beyond
the piece, which is the same as a piece with no comma. The exceptions of a
piece are thrown in the order the source throws them.

## What is proved

The writer writes a key as it is and the reader treats `;` as the end of a
key and the backslash, tab and newline specially, so a key holding one of
them does not come back (`read_write_semicolon_key`, a key `";"` read back as
the empty key). For keys without them, and values in the ranges of their C++
types, reading what was written gives the `SequenceInfo` back, an empty key
list coming back as none (`read_write`).
-/

namespace Daisy.MergeTree

open Daisy.IO Daisy.Library

/-! ### Writing -/

/-- `SequenceRange::write`. -/
def SequenceRange.write (r : SequenceRange) : List Char :=
  writeIntText r.startSn ++ [','] ++ writeIntText r.endSn ++ [','] ++ writeIntText r.partIndex ++ [','] ++
    writeIntText r.parts

/-- One idempotent key as `SequenceInfo::write` writes it: the key as it is. -/
def writeIdempotentKey (k : IdempotentKey) : List Char := writeIntText k.1 ++ [','] ++ k.2

/-- `SequenceInfo::write`: nothing for an invalid `SequenceInfo`; the version,
the ranges joined by `;`, and the keys line when the pointer is not null. -/
def SequenceInfo.write (si : SequenceInfo) : List Char :=
  if !si.valid then []
  else
    "1\n".toList ++ "seqs:".toList ++ [';'].intercalate (si.sequenceRanges.map SequenceRange.write) ++
      match si.idempotentKeys with
      | none => []
      | some keys => "\n".toList ++ "keys:".toList ++ [';'].intercalate (keys.map writeIdempotentKey)

/-! ### Reading -/

/-- `parseSequenceRange(s, lpos, rpos)` on the piece `s[lpos, rpos)`: three
fields each ended by a comma, then `parts` to the end of the piece. -/
def parseSequenceRange (s piece : List Char) : Except ReadError SequenceRange := do
  let some (f0, r0) := breakAt ',' piece | .error (.invalidSequences s)
  let startSn ← parseIntStrict 64 f0
  let some (f1, r1) := breakAt ',' r0 | .error (.invalidSequences s)
  let endSn ← parseIntStrict 64 f1
  let some (f2, r2) := breakAt ',' r1 | .error (.invalidSequences s)
  let partIndex ← parseIntStrict 32 f2
  let parts ← parseIntStrict 32 r2
  return { startSn := startSn, endSn := endSn, partIndex := partIndex, parts := parts }

/-- `readSequenceRanges`. -/
def readSequenceRanges (buf : List Char) : Except ReadError (List SequenceRange × List Char) := do
  let buf ← assertString "seqs:".toList buf
  let (data, buf) ← readEscapedString buf
  if data = [] then return ([], buf)
  let ranges ← (pieces ';' data).mapM (parseSequenceRange data)
  return (ranges, buf)

/-- `parseIdempotentKey(s, lpos, rpos)` on the piece `s[lpos, rpos)`: the
sequence number up to the first comma, the key after it. -/
def parseIdempotentKey (s piece : List Char) : Except ReadError IdempotentKey := do
  let some (f, key) := breakAt ',' piece | .error (.invalidIdempotentKey s)
  let sn ← parseIntStrict 64 f
  return (sn, key)

/-- `readIdempotentKeys`: a null pointer for an empty line. -/
def readIdempotentKeys (buf : List Char) : Except ReadError (Option (List IdempotentKey) × List Char) := do
  let buf ← assertString "keys:".toList buf
  let (data, buf) ← readEscapedString buf
  if data = [] then return (none, buf)
  let keys ← (pieces ';' data).mapM (parseIdempotentKey data)
  return (some keys, buf)

/-- `SequenceInfo::read`. -/
def SequenceInfo.read (buf : List Char) : Except ReadError SequenceInfo := do
  let buf ← assertString "1\n".toList buf
  let (sequenceRanges, buf) ← readSequenceRanges buf
  if buf = [] then return ⟨sequenceRanges, none⟩
  let buf ← assertString "\n".toList buf
  let (idempotentKeys, _) ← readIdempotentKeys buf
  return ⟨sequenceRanges, idempotentKeys⟩

/-! ### A key the reader cuts -/

theorem read_write_semicolon_key :
    SequenceInfo.valid ⟨[⟨1, 3, 0, 3⟩], some [(5, [';'])]⟩ = true ∧
      SequenceInfo.read (SequenceInfo.write ⟨[⟨1, 3, 0, 3⟩], some [(5, [';'])]⟩) =
        .ok ⟨[⟨1, 3, 0, 3⟩], some [(5, [])]⟩ :=
  ⟨rfl, rfl⟩

/-! ### What does come back -/

/-- The values of a range fit the C++ types of its fields. -/
def SequenceRange.Fits (r : SequenceRange) : Prop :=
  InRange 64 r.startSn ∧ InRange 64 r.endSn ∧ InRange 32 r.partIndex ∧ InRange 32 r.parts

/-- A character the pieces of a line hold as they are: no `;`, tab, newline or
backslash. -/
def PlainChar (c : Char) : Prop := c ≠ ';' ∧ c ≠ '\t' ∧ c ≠ '\n' ∧ c ≠ '\\'

instance (c : Char) : Decidable (PlainChar c) := inferInstanceAs (Decidable (_ ∧ _ ∧ _ ∧ _))

/-- A key the reader gives back: its sequence number fits `Int64`, and its
characters are plain. -/
def PlainKey (k : IdempotentKey) : Prop := InRange 64 k.1 ∧ ∀ c ∈ k.2, PlainChar c

theorem breakAt_writeIntText (n : Int) (l : List Char) :
    breakAt ',' (writeIntText n ++ ',' :: l) = some (writeIntText n, l) :=
  breakAt_append (not_mem_writeIntText (by decide) (by decide)) l

theorem plainChar_of_mem_writeIntText {n : Int} {c : Char} (hc : c ∈ writeIntText n) : PlainChar c := by
  rcases mem_writeIntText hc with h | rfl
  · refine ⟨?_, ?_, ?_, ?_⟩ <;> rintro rfl <;> exact absurd h (by decide)
  · decide

theorem plainChar_of_mem_write {r : SequenceRange} {c : Char} (hc : c ∈ r.write) : PlainChar c := by
  simp only [SequenceRange.write, List.mem_append, List.mem_singleton] at hc
  rcases hc with ((((((h | rfl) | h) | rfl) | h) | rfl) | h)
  all_goals first
    | exact plainChar_of_mem_writeIntText h
    | decide

theorem plainChar_of_mem_writeIdempotentKey {k : IdempotentKey} (hk : PlainKey k) {c : Char}
    (hc : c ∈ writeIdempotentKey k) : PlainChar c := by
  simp only [writeIdempotentKey, List.mem_append, List.mem_singleton] at hc
  rcases hc with (h | rfl) | h
  · exact plainChar_of_mem_writeIntText h
  · decide
  · exact hk.2 c h

/-- **A written line reads back**: `readText` takes the pieces joined by `;` as
they are, and cutting them at `;` gives them back. -/
theorem read_line (ps : List (List Char)) (h : ∀ p ∈ ps, p ≠ [] ∧ ∀ c ∈ p, PlainChar c) {rest : List Char}
    (hrest : StopsText rest) :
    readEscapedString ([';'].intercalate ps ++ rest) = .ok ([';'].intercalate ps, rest) ∧
      pieces ';' ([';'].intercalate ps) = ps ∧ ([';'].intercalate ps = [] ↔ ps = []) := by
  refine ⟨readEscapedString_append (fun c hc => ?_) hrest,
    pieces_intercalate ps fun p hp => ⟨fun hc => (h p hp).2 _ hc |>.1 rfl, (h p hp).1⟩,
    intercalate_eq_nil fun p hp => (h p hp).1⟩
  rcases mem_intercalate hc with rfl | ⟨p, hp, hcp⟩
  · decide
  · exact ((h p hp).2 c hcp).2

theorem parseSequenceRange_write {r : SequenceRange} (hr : r.Fits) (s : List Char) :
    parseSequenceRange s r.write = .ok r := by
  obtain ⟨h0, h1, h2, h3⟩ := hr
  simp only [parseSequenceRange, SequenceRange.write, List.append_assoc, List.cons_append, List.nil_append,
    breakAt_writeIntText, parseIntStrict_writeIntText h0, parseIntStrict_writeIntText h1,
    parseIntStrict_writeIntText h2, parseIntStrict_writeIntText h3]
  rfl

theorem parseIdempotentKey_write {k : IdempotentKey} (hk : PlainKey k) (s : List Char) :
    parseIdempotentKey s (writeIdempotentKey k) = .ok k := by
  simp only [parseIdempotentKey, writeIdempotentKey, List.append_assoc, List.nil_append,
    List.cons_append, breakAt_writeIntText, parseIntStrict_writeIntText hk.1]
  rfl

theorem readSequenceRanges_write {rs : List SequenceRange} (hr : ∀ r ∈ rs, r.Fits) (rest : List Char)
    (hrest : StopsText rest) :
    readSequenceRanges ("seqs:".toList ++ ([';'].intercalate (rs.map SequenceRange.write) ++ rest)) =
      .ok (rs, rest) := by
  obtain ⟨hread, hpieces, hnil⟩ := read_line (rs.map SequenceRange.write) (fun p hp => by
    obtain ⟨r, -, rfl⟩ := List.mem_map.mp hp
    exact ⟨by simp [SequenceRange.write], fun c hc => plainChar_of_mem_write hc⟩) hrest
  simp only [readSequenceRanges, assertString_append, hread, bind, Except.bind, hpieces]
  by_cases hrs : rs = []
  · subst hrs
    rfl
  · rw [if_neg (by rwa [hnil, List.map_eq_nil_iff]), mapM_map_ok fun r hr' => parseSequenceRange_write (hr r hr') _]
    rfl

theorem readIdempotentKeys_write {ks : List IdempotentKey} (hk : ∀ k ∈ ks, PlainKey k) (rest : List Char)
    (hrest : StopsText rest) :
    readIdempotentKeys ("keys:".toList ++ ([';'].intercalate (ks.map writeIdempotentKey) ++ rest)) =
      .ok (if ks = [] then none else some ks, rest) := by
  obtain ⟨hread, hpieces, hnil⟩ := read_line (ks.map writeIdempotentKey) (fun p hp => by
    obtain ⟨k, hk', rfl⟩ := List.mem_map.mp hp
    exact ⟨by simp [writeIdempotentKey], fun c hc => plainChar_of_mem_writeIdempotentKey (hk k hk') hc⟩) hrest
  simp only [readIdempotentKeys, assertString_append, hread, bind, Except.bind, hpieces]
  by_cases hks : ks = []
  · subst hks
    rfl
  · rw [if_neg (by rwa [hnil, List.map_eq_nil_iff]), if_neg hks,
      mapM_map_ok fun k hk' => parseIdempotentKey_write (hk k hk') _]
    rfl

/-- **The `sn.txt` round trip.** A valid `SequenceInfo` whose values fit their
C++ types and whose keys are plain is read back as it was written, an empty
key list as none. -/
theorem read_write (si : SequenceInfo) (hv : si.valid = true) (hr : ∀ r ∈ si.sequenceRanges, r.Fits)
    (hk : ∀ ks ∈ si.idempotentKeys, ∀ k ∈ ks, PlainKey k) :
    SequenceInfo.read si.write = .ok ⟨si.sequenceRanges, si.idempotentKeys.filter fun ks => !ks.isEmpty⟩ := by
  obtain ⟨rs, keys⟩ := si
  simp only [SequenceInfo.write, hv, Bool.not_true, Bool.false_eq_true, if_false]
  cases keys with
  | none =>
    have h := readSequenceRanges_write hr [] (Or.inl rfl)
    simp only [List.append_nil] at h
    simp only [SequenceInfo.read, List.append_nil, List.append_assoc, assertString_append, bind, Except.bind, h]
    rfl
  | some ks =>
    have hks : ∀ k ∈ ks, PlainKey k := hk ks rfl
    have h := readSequenceRanges_write hr ("\n".toList ++ ("keys:".toList ++
      [';'].intercalate (ks.map writeIdempotentKey))) (Or.inr ⟨_, _, rfl, Or.inr rfl⟩)
    have hkeys := readIdempotentKeys_write hks [] (Or.inl rfl)
    simp only [List.append_nil] at hkeys
    simp only [SequenceInfo.read, List.append_assoc, assertString_append, bind, Except.bind, h, hkeys]
    by_cases hnil : ks = []
    · subst hnil
      rfl
    · have hf : (some ks).filter (fun ks => !ks.isEmpty) = some ks := by
        simp [Option.filter, hnil]
      rw [hf, if_neg hnil]
      rfl

end Daisy.MergeTree
