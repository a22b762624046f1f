import Daisy.IO.Binary

/-!
# Bit streams: `BitWriter` and `BitReader`

`IO/BitHelpers.h`: the bit streams of the `DoubleDelta` and `Gorilla`
codecs. Bits go most significant first; a `BitWriter` gathers them in a
128-bit `bits_buffer`, high bits first, and writes whole bytes of it to
memory, big-endian, at most eight at a time; a `BitReader` takes bytes from
memory into the same kind of buffer, at most eight at a time, and hands out
its high bits.

## The model

The buffer is a `Nat` kept below `2^128` (`unsigned __int128`); shifts left
drop what passes its top. `bits_count` is the source's `UInt8`, so that a
read of more bits than the reader holds wraps it as the source does. A writer
is its capacity (`dest_end - dest_begin`) and the bytes written so far; a
reader is the bytes from `source_current` to `source_end`.

`fillBitBuffer` throws only when it has no byte to read and still wants to
read one, which `min(8, available)` never asks: the model's reader never
throws. The source shifts the buffer by amounts that its callers keep below
128 (they read and write at most 64 bits at once); the model shifts `Nat`s.
-/

namespace Daisy.IO

/-- `maskLowBits<UInt64>(bits)`: the `bits` low bits set. -/
def maskLowBits (bits : UInt8) : UInt64 :=
  if bits = 0 then 0
  else if bits.toNat < 64 then ~~~(0 : UInt64) >>> (64 - bits.toUInt64)
  else ~~~0

/-- `BitWriter`'s exception: "Can not write past end of buffer. Space
available `available` bytes, required to write: `required`."
(`CANNOT_WRITE_AFTER_END_OF_BUFFER`). -/
structure WriteAfterEnd where
  available : Nat
  required : Nat
  deriving DecidableEq, Repr

/-- A `BitWriter` over `capacity` bytes: the bytes written, `bits_buffer` and
`bits_count`. -/
structure BitWriter where
  capacity : Nat
  written : List UInt8
  bitsBuffer : Nat
  bitsCount : UInt8
  deriving DecidableEq, Repr

namespace BitWriter

/-- `BitWriter(begin, size)`. -/
def make (size : Nat) : BitWriter := ⟨size, [], 0, 0⟩

/-- `doFlush()`: the whole bytes of the buffer, at most eight, written after
the others; not one if they do not all fit. -/
def doFlush (w : BitWriter) : Except WriteAfterEnd BitWriter :=
  let available := w.capacity - w.written.length
  let toWrite := min 8 (w.bitsCount.toNat / 8)
  if available < toWrite then .error ⟨available, toWrite⟩
  else
    -- `htobe64` of the high 64 bits: the first byte in memory is the highest
    .ok { w with
      written := w.written ++ ((writeLE 8 (w.bitsBuffer >>> 64)).reverse.take toWrite)
      bitsBuffer := (w.bitsBuffer <<< (toWrite * 8)) % 2 ^ 128
      bitsCount := w.bitsCount - (toWrite * 8).toUInt8 }

/-- `writeBits(bits_to_write, value)`: the `bits_to_write` low bits of
`value` under the bits in the buffer, the buffer flushed first if they do
not fit. -/
def writeBits (w : BitWriter) (bitsToWrite : UInt8) (value : UInt64) : Except WriteAfterEnd BitWriter := do
  let w ← if 128 - w.bitsCount.toNat < bitsToWrite.toNat then w.doFlush else pure w
  let capacity := 128 - w.bitsCount.toNat
  let v := (value &&& maskLowBits bitsToWrite).toNat
  pure { w with
    bitsBuffer := w.bitsBuffer ||| (v <<< (capacity - bitsToWrite.toNat)) % 2 ^ 128
    bitsCount := w.bitsCount + bitsToWrite }

/-- The loop of `flush()`: `doFlush` until the buffer is empty. Each turn
writes a byte at least, so a turn for each byte suffices. -/
def flushLoop : Nat → BitWriter → Except WriteAfterEnd BitWriter
  | 0, w => pure w
  | fuel + 1, w => if w.bitsCount = 0 then pure w else do flushLoop fuel (← w.doFlush)

/-- `flush()`: `bits_count` rounded up to whole bytes, the last completed with
zeroes, and all of them written. -/
def flush (w : BitWriter) : Except WriteAfterEnd BitWriter :=
  let w := { w with bitsCount := (w.bitsCount + 7) &&& ~~~7 }
  flushLoop (w.bitsCount.toNat / 8 + 1) w

/-- `count()`: the bits written, in memory and in the buffer. -/
def count (w : BitWriter) : Nat := w.written.length * 8 + w.bitsCount.toNat

/-- `flush` rounds `bits_count` up to a multiple of eight. -/
theorem roundUp_mod_eight : ∀ x : UInt8, ((x + 7) &&& ~~~7).toNat % 8 = 0 := by decide +kernel

/-- What `doFlush` leaves in the buffer: the bits of the bytes it wrote are
gone. -/
theorem doFlush_bitsCount {w w' : BitWriter} (h : w.doFlush = .ok w') :
    w'.bitsCount.toNat = w.bitsCount.toNat - 8 * min 8 (w.bitsCount.toNat / 8) := by
  dsimp only [doFlush] at h
  split at h
  · cases h
  · cases h
    have hlt : min 8 (w.bitsCount.toNat / 8) * 8 < 256 := by omega
    have hle : (min 8 (w.bitsCount.toNat / 8) * 8).toUInt8 ≤ w.bitsCount := by
      rw [UInt8.le_iff_toNat_le, UInt8.toNat_ofNat_of_lt' hlt]
      omega
    rw [UInt8.toNat_sub_of_le _ _ hle, UInt8.toNat_ofNat_of_lt' hlt]
    omega

/-- The loop of `flush` empties a buffer of whole bytes, a turn for each
byte sufficing: each turn writes one at least. -/
theorem flushLoop_bitsCount : ∀ (fuel : Nat) {w w' : BitWriter}, w.bitsCount.toNat % 8 = 0 →
    w.bitsCount.toNat / 8 < fuel → flushLoop fuel w = .ok w' → w'.bitsCount = 0
  | 0, _, _, _, hfuel, _ => absurd hfuel (Nat.not_lt_zero _)
  | fuel + 1, w, w', hmod, hfuel, h => by
    dsimp only [flushLoop] at h
    split at h
    · rename_i hzero
      cases h
      exact hzero
    · rename_i hne
      cases hflush : w.doFlush with
      | error e => rw [hflush] at h; cases h
      | ok w₁ =>
        rw [hflush] at h
        have hne' : w.bitsCount.toNat ≠ 0 := fun h0 => hne (UInt8.toNat_inj.mp (by simpa using h0))
        have h₁ := doFlush_bitsCount hflush
        exact flushLoop_bitsCount fuel (by omega) (by omega) h

/-- After `flush` the buffer is empty. -/
theorem flush_bitsCount {w w' : BitWriter} (h : w.flush = .ok w') : w'.bitsCount = 0 :=
  flushLoop_bitsCount _ (roundUp_mod_eight w.bitsCount) (Nat.lt_succ_self _) h

end BitWriter

/-- A `BitReader`: the bytes from `source_current` to `source_end`,
`bits_buffer` and `bits_count`. -/
structure BitReader where
  source : List UInt8
  bitsBuffer : Nat
  bitsCount : UInt8
  deriving DecidableEq, Repr

namespace BitReader

/-- `BitReader(begin, size)`. -/
def make (source : List UInt8) : BitReader := ⟨source, 0, 0⟩

/-- `fillBitBuffer()`: up to eight bytes, big-endian, under the bits in the
buffer. -/
def fillBitBuffer (r : BitReader) : BitReader :=
  let bytesToRead := min 8 r.source.length
  if r.source.length = 0 then r
  else
    -- `memcpy` into a zeroed word, then `be64toh`: the first byte is the highest
    let tmp := readLE ((r.source.take bytesToRead ++ List.replicate (8 - bytesToRead) 0).reverse)
    { source := r.source.drop bytesToRead
      bitsBuffer := r.bitsBuffer ||| (tmp <<< (64 - r.bitsCount.toNat)) % 2 ^ 128
      bitsCount := r.bitsCount + (bytesToRead * 8).toUInt8 }

/-- `getBitsFromBitBuffer<PEEK>(bits)`: the `bits` high bits of the buffer. -/
def peekBits (r : BitReader) (bits : UInt8) : UInt64 := (r.bitsBuffer >>> (128 - bits.toNat)).toUInt64

/-- `skipBufferedBits(bits)`. -/
def skipBufferedBits (r : BitReader) (bits : UInt8) : BitReader :=
  { r with bitsBuffer := (r.bitsBuffer <<< bits.toNat) % 2 ^ 128, bitsCount := r.bitsCount - bits }

/-- `readBits(bits_to_read)`: the buffer filled if it holds fewer bits, then
its high bits taken. Past the end of the source they are zeroes. -/
def readBits (r : BitReader) (bitsToRead : UInt8) : UInt64 × BitReader :=
  let r := if r.bitsCount < bitsToRead then r.fillBitBuffer else r
  (r.peekBits bitsToRead, r.skipBufferedBits bitsToRead)

/-- `readBit()`. -/
def readBit (r : BitReader) : UInt8 × BitReader :=
  let (bit, r) := r.readBits 1
  (bit.toUInt8, r)

/-- `peekByte()`: the eight high bits, the buffer filled first if it holds
fewer. -/
def peekByte (r : BitReader) : UInt8 × BitReader :=
  let r := if r.bitsCount < 8 then r.fillBitBuffer else r
  ((r.peekBits 8).toUInt8, r)

/-- `eof()`: nothing in the buffer and nothing left to read. -/
def eof (r : BitReader) : Bool := r.bitsCount = 0 && r.source.isEmpty

end BitReader

end Daisy.IO
