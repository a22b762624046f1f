import Daisy.Compression.ICompressionCodec

/-!
# `Gorilla`

`Compression/CompressionCodecGorilla.cpp` compresses values of 1, 2, 4 or 8
bytes by the `xor` of each with the one before: after the number of values
and the first value, a `BitWriter` takes `0` for a value equal to the one
before; `10` and the `xor`'s bits in the window of the last `11` block, when
they fit it; or `11`, the `xor`'s leading zeroes, its number of data bits,
and the data bits.

`getCompressedDataSize`, which sizes the reserve, keeps the bit widths of
those two numbers in function-local statics: they are set by its first call
in the process, from the width of that call, and serve every width after.
`compressDataForType` and `decompressDataForType` keep their own, one for
each type, which are always the type's.

## The model

The statics of `getCompressedDataSize` are the process state `Statics` of the
codec. The `xor` of two values of 1 or 2 bytes is an `int`, and of 4 bytes an
`unsigned`: its leading zeroes are counted in 32 bits, and in 64 for 8 bytes
(`xorBitSize`). The `11` block writes them in `LEADING_ZEROES_BIT_LENGTH`
bits, which keep them modulo a power of two that the surplus is a multiple
of. The leading and trailing zero counts of `Common/BitHelpers.h` are
`getLeadingZeroBits` and `getTrailingZeroBits`.

## What is proved

* `run_statics`: after any history of uses of the codec, the statics hold the
  bit width for the first use's width.
* After a first use with values of one byte, the reserve of 30 values of 8
  bytes falls short of the block `compress` writes.
* `compress_returns_short_gorilla`: the size `compress` returns is the block
  less the bytes before the first whole value, so the block of an unaligned
  source is cut short and loses its last bits.
-/

namespace Daisy.Compression.CompressionCodecGorilla

open Daisy.IO Daisy.Library

/-- `getBitLengthOfLength(data_bytes_size)`: the bits that hold a number of
data bits up to the width's. -/
def getBitLengthOfLength (w : DataBytesSize) : UInt8 := [0, 4, 5, 0, 6, 0, 0, 0, 7].getD w.width 0

/-- `getCompressedHeaderSize(data_bytes_size)`: the number of values and the
first value. -/
def getCompressedHeaderSize (w : DataBytesSize) : UInt32 := 4 + w.val.toUInt32

/-- The function-local statics of `getCompressedDataSize`: `DATA_BIT_LENGTH`
once the first call has set it (`LEADING_ZEROES_BIT_LENGTH` is one less). -/
structure Statics where
  dataBitLength : Option UInt8
  deriving DecidableEq, Repr

/-- `getCompressedDataSize(data_bytes_size, uncompressed_size)`: each value
the size of a `11` block, in the bit widths of the statics. -/
def getCompressedDataSize (w : DataBytesSize) (uncompressedSize : UInt32) (s : Statics) : UInt32 × Statics :=
  let itemsCount := uncompressedSize / w.val.toUInt32
  let dataBitLength := s.dataBitLength.getD (getBitLengthOfLength w)
  let maxItemSizeBits := 2 + (dataBitLength.toUInt32 - 1) + dataBitLength.toUInt32 + w.val.toUInt32 * 8
  ((itemsCount * maxItemSizeBits + 8) / 8, ⟨some dataBitLength⟩)

/-- `CompressionCodecGorilla::getMaxCompressedDataSize`. -/
def getMaxCompressedDataSize (w : DataBytesSize) (uncompressedSize : UInt32) (s : Statics) : UInt32 × Statics :=
  let (dataSize, s) := getCompressedDataSize w uncompressedSize s
  (2 + w.val.toUInt32 + getCompressedHeaderSize w + dataSize, s)

/-! ### Leading and trailing zeroes -/

/-- `getLeadingZeroBits(x)` of a value of `bitSize` bits. -/
def getLeadingZeroBits (bitSize x : Nat) : Nat := if x = 0 then bitSize else bitSize - x.log2 - 1

/-- `getTrailingZeroBits(x)` of a value of `bitSize` bits: the lowest bit set. -/
def getTrailingZeroBits (bitSize x : Nat) : Nat := ((List.range bitSize).find? x.testBit).getD bitSize

/-- `BinaryValueInfo`. -/
structure BinaryValueInfo where
  leadingZeroBits : UInt8
  dataBits : UInt8
  trailingZeroBits : UInt8
  deriving DecidableEq, Repr

/-- `getLeadingAndTrailingBits(value)` of a value of `bitSize` bits. -/
def getLeadingAndTrailingBits (bitSize value : Nat) : BinaryValueInfo :=
  let lz := getLeadingZeroBits bitSize value
  let tz := getTrailingZeroBits bitSize value
  ⟨lz.toUInt8, (if value = 0 then 0 else bitSize - lz - tz).toUInt8, tz.toUInt8⟩

section Codec

variable (w : DataBytesSize)

/-- The bits of the type of `curr_value ^ prev_value`: values narrower than
`int` are promoted to it. -/
def xorBitSize : Nat := max 32 (8 * w.width)

/-- `DATA_BIT_LENGTH` of `compressDataForType` and `decompressDataForType`. -/
def dataBitLength : UInt8 := getBitLengthOfLength w

/-- `LEADING_ZEROES_BIT_LENGTH` of `compressDataForType` and
`decompressDataForType`. -/
def leadingZeroesBitLength : UInt8 := getBitLengthOfLength w - 1

/-- The state of the loop of `compressDataForType`: `prev_value`,
`prev_xored_info` and the writer. -/
structure CompressState where
  prevValue : BitVec (8 * w.width)
  prevXoredInfo : BinaryValueInfo
  writer : BitWriter

/-- One turn of the loop of `compressDataForType`. -/
def compressStep (st : CompressState w) (currValue : BitVec (8 * w.width)) : Except CodecError (CompressState w) := do
  let xoredData := (currValue ^^^ st.prevValue).toNat
  let curr := getLeadingAndTrailingBits (xorBitSize w) xoredData
  let prev := st.prevXoredInfo
  if xoredData = 0 then
    let writer ← liftWriter (st.writer.writeBits 1 0)
    pure ⟨currValue, prev, writer⟩
  else if prev.dataBits ≠ 0 ∧ prev.leadingZeroBits ≤ curr.leadingZeroBits ∧ prev.trailingZeroBits ≤ curr.trailingZeroBits then
    let writer ← liftWriter (st.writer.writeBits 2 0b10)
    let writer ← liftWriter (writer.writeBits prev.dataBits (xoredData >>> prev.trailingZeroBits.toNat).toUInt64)
    pure ⟨currValue, prev, writer⟩
  else
    let writer ← liftWriter (st.writer.writeBits 2 0b11)
    let writer ← liftWriter (writer.writeBits (leadingZeroesBitLength w) curr.leadingZeroBits.toUInt64)
    let writer ← liftWriter (writer.writeBits (dataBitLength w) curr.dataBits.toUInt64)
    let writer ← liftWriter (writer.writeBits curr.dataBits (xoredData >>> curr.trailingZeroBits.toNat).toUInt64)
    pure ⟨currValue, curr, writer⟩

/-- What `compressDataForType` writes before its loop: the number of values
and the first value, with `prev_value` and the values left. -/
def compressHeader (itemsCount : Nat) :
    List (BitVec (8 * w.width)) → List UInt8 × BitVec (8 * w.width) × List (BitVec (8 * w.width))
  | [] => (writeLE 4 itemsCount, 0, [])
  | first :: rest => (writeLE 4 itemsCount ++ storeValue first, first, rest)

/-- `compressDataForType<T>(source, source_size, dest, dest_size)`: what it
writes and the size it returns. Its writer runs from past the header to
`dest + dest_size`. -/
def compressDataForType (source : List UInt8) (destSize : UInt32) : Except CodecError (List UInt8 × UInt32) := do
  if source.length % w.width ≠ 0 then throw (.notAligned source.length w.width)
  let itemsCount := source.length / w.width
  let (header, prevValue, rest) := compressHeader w itemsCount (loadValues w.width itemsCount source)
  let writer := BitWriter.make (destSize.toNat - header.length)
  let st ← rest.foldlM (compressStep w) ⟨prevValue, ⟨0, 0, 0⟩, writer⟩
  let writer ← liftWriter st.writer.flush
  pure (header ++ writer.written, (header.length + (writer.count + 7) / 8).toUInt32)

/-- A value that differs from the one before: a `11` block's window, or the
last one for `10`, and the data bits in it. A window of no bits at all is
"corrupted input data". -/
def readXored (reader : BitReader) (prevValue : BitVec (8 * w.width)) (prevXoredInfo : BinaryValueInfo) :
    Except CodecError (BitVec (8 * w.width) × BinaryValueInfo × BitReader) := do
  let (bit, reader) := reader.readBit
  let (info, reader) : BinaryValueInfo × BitReader :=
    if bit = 1 then
      let (lz, reader) := reader.readBits (leadingZeroesBitLength w)
      let (dataBits, reader) := reader.readBits (dataBitLength w)
      (⟨lz.toUInt8, dataBits.toUInt8, (8 * w.width).toUInt8 - lz.toUInt8 - dataBits.toUInt8⟩, reader)
    else (prevXoredInfo, reader)
  if info.leadingZeroBits = 0 ∧ info.dataBits = 0 ∧ info.trailingZeroBits = 0 then throw .corruptedGorilla
  let (xored, reader) := reader.readBits info.dataBits
  let xoredData := BitVec.ofNat (8 * w.width) xored.toNat <<< info.trailingZeroBits.toNat
  pure (prevValue ^^^ xoredData, info, reader)

/-- The loop of `decompressDataForType`: at most `k` more values, until the
reader is at its end. -/
def decompressLoop : Nat → BitReader → BitVec (8 * w.width) → BinaryValueInfo → Except CodecError (List UInt8)
  | 0, _, _, _ => pure []
  | k + 1, reader, prevValue, prevXoredInfo =>
    if reader.eof then pure []
    else do
      let (bit, reader) := reader.readBit
      let (currValue, currXoredInfo, reader) ←
        if bit = 1 then readXored w reader prevValue prevXoredInfo else pure (prevValue, prevXoredInfo, reader)
      let rest ← decompressLoop k reader currValue currXoredInfo
      pure (storeValue currValue ++ rest)

/-- `decompressDataForType<T>(source, source_size, dest)`: the bytes it
writes. -/
def decompressDataForType (source : List UInt8) : Except CodecError (List UInt8) := do
  if source.length < 4 then return []
  let itemsCount := readLE (source.take 4)
  let source := source.drop 4
  if source.length < w.width ∨ itemsCount < 1 then return []
  let prevValue := loadValue w.width source
  let rest ← decompressLoop w (itemsCount - 1) (BitReader.make (source.drop w.width)) prevValue ⟨0, 0, 0⟩
  pure (storeValue prevValue ++ rest)

/-- `CompressionCodecGorilla::doCompressData`: the frame of the delta codecs,
with the writer's end at `getMaxCompressedDataSize(source_size)` bytes from
where the values start. -/
def doCompressData (source : List UInt8) (s : Statics) : Except CodecError (List UInt8 × UInt32) × Statics :=
  let (compressedSize, s) := getMaxCompressedDataSize w source.length.toUInt32 s
  (frameDoCompressData w.val (fun source => compressDataForType w source compressedSize) source, s)

end Codec

/-- `CompressionCodecGorilla::doDecompressData`. -/
def doDecompressData (source : List UInt8) (uncompressedSize : UInt32) : Except CodecError (List UInt8) :=
  frameDoDecompressData (fun bytesSize source => match DataBytesSize.ofByte? bytesSize with
    | some w => decompressDataForType w source
    | none => pure []) source uncompressedSize

/-- `CompressionCodecGorilla(data_bytes_size)`. -/
def make (w : DataBytesSize) : Codec Statics where
  methodByte := 0x95
  getMaxCompressedDataSize := getMaxCompressedDataSize w
  doCompressData := doCompressData w
  doDecompressData := doDecompressData

/-! ### The size `doCompressData` returns -/

/-- `compressDataForType` returns the size it writes: its writer is flushed,
so that `count()` is whole bytes. -/
theorem compressDataForType_returns {w : DataBytesSize} {source data : List UInt8} {destSize size : UInt32}
    (h : compressDataForType w source destSize = .ok (data, size)) (hsmall : data.length < 2 ^ 32) :
    size.toNat = data.length := by
  unfold compressDataForType at h
  split at h
  · cases h
  · dsimp only at h
    generalize compressHeader w (source.length / w.width) (loadValues w.width (source.length / w.width) source) = start at h
    obtain ⟨header, prevValue, rest⟩ := start
    obtain ⟨st, -, h⟩ := bind_eq_ok h
    obtain ⟨writer, hflush, h⟩ := bind_eq_ok h
    cases h
    have hempty := BitWriter.flush_bitsCount (liftWriter_eq_ok.mp hflush)
    have hbytes : (writer.count + 7) / 8 = writer.written.length := by
      simp only [BitWriter.count, hempty, UInt8.toNat_zero]
      omega
    rw [List.length_append] at hsmall ⊢
    rw [hbytes, Nat.toUInt32_eq, UInt32.toNat_ofNat_of_lt' hsmall]

/-- **`compress` returns less than it writes.** For every width, statics and
source it compresses, the size `compress` returns, which is also the size
its header gives, is the block's length less the bytes before the first
whole value: `doCompressData` returns `1 + 1 + result_size` and leaves out
`bytes_to_skip`, as `DoubleDelta` does. The block of a source whose length
is not a multiple of the width ends before its last bytes. -/
theorem compress_returns_short_gorilla {w : DataBytesSize} {source block : List UInt8} {s s' : Statics}
    {size : UInt32} (h : (make w).compress source s = (.ok (block, size), s')) (hsmall : block.length < 2 ^ 32) :
    size.toNat + source.length % w.width = block.length := by
  obtain ⟨data, written, hdo, rfl, rfl⟩ := Codec.compress_eq_ok h
  have hdata : ((make w).methodByte :: writeLE 4 (written + headerSize).toNat ++ writeLE 4 source.length ++
      data).length = data.length + 9 := by
    simp only [List.cons_append, List.length_cons, List.length_append, length_writeLE]
    omega
  have hreturns : written.toNat + source.length % w.width = data.length :=
    frameDoCompressData_returns (fun _ _ _ hc hs => compressDataForType_returns hc hs)
      (congrArg Prod.fst hdo) (by omega)
  have hheader : (headerSize + written).toNat = 9 + written.toNat := toNat_headerSize_add (by omega)
  omega

/-- The byte `0xAA` and the 8-byte values `0`, `0`, `6`, at the first use of
the codec: `compress` writes 27 bytes and returns 26, and the block of 26
bytes reads `0` for the third value. -/
theorem unaligned_block_loses_last_byte_gorilla :
    (make ⟨8, by decide⟩).compress (0xAA :: writeLE 8 0 ++ writeLE 8 0 ++ writeLE 8 6) ⟨none⟩ =
        (.ok (0x95 :: writeLE 4 26 ++ writeLE 4 25 ++ [8, 1, 0xAA] ++ writeLE 4 3 ++ writeLE 8 0 ++
          [0x7E, 0x82, 0xC0], 26), ⟨some 7⟩) ∧
      (26 : UInt32).toNat + (0xAA :: writeLE 8 0 ++ writeLE 8 0 ++ writeLE 8 6 : List UInt8).length %
          (⟨8, by decide⟩ : DataBytesSize).width =
        (0x95 :: writeLE 4 26 ++ writeLE 4 25 ++ [8, 1, 0xAA] ++ writeLE 4 3 ++ writeLE 8 0 ++
          [0x7E, 0x82, 0xC0] : List UInt8).length ∧
      (make ⟨8, by decide⟩).decompress
          (0x95 :: writeLE 4 26 ++ writeLE 4 25 ++ [8, 1, 0xAA] ++ writeLE 4 3 ++ writeLE 8 0 ++ [0x7E, 0x82]) =
        .ok (25, 0xAA :: writeLE 8 0 ++ writeLE 8 0 ++ writeLE 8 0) := by
  have hcompress : (make ⟨8, by decide⟩).compress (0xAA :: writeLE 8 0 ++ writeLE 8 0 ++ writeLE 8 6) ⟨none⟩ =
      (.ok (0x95 :: writeLE 4 26 ++ writeLE 4 25 ++ [8, 1, 0xAA] ++ writeLE 4 3 ++ writeLE 8 0 ++
        [0x7E, 0x82, 0xC0], 26), ⟨some 7⟩) := by
    decide +kernel
  exact ⟨hcompress, compress_returns_short_gorilla hcompress (by decide), by decide +kernel⟩

/-! ### The statics over a run of the process -/

/-- The statics after a use of the codec: the first call's bit width stays. -/
theorem compress_statics (w : DataBytesSize) (source : List UInt8) (s : Statics) :
    ((make w).compress source s).2 = ⟨some (s.dataBitLength.getD (getBitLengthOfLength w))⟩ := rfl

/-- The process state after uses of the codec, each `compress` of a source by a
codec of a width. -/
def run (s : Statics) (uses : List (DataBytesSize × List UInt8)) : Statics :=
  uses.foldl (fun s use => ((make use.1).compress use.2 s).2) s

/-- **The statics are the first use's.** After any history of uses, however
many and of whatever widths, the statics hold the bit width for the width of
the first, and every reserve after is computed in it. -/
theorem run_statics (w : DataBytesSize) (source : List UInt8) :
    ∀ (uses : List (DataBytesSize × List UInt8)) (s : Statics),
      run s ((w, source) :: uses) = ⟨some (s.dataBitLength.getD (getBitLengthOfLength w))⟩
  | [], s => compress_statics w source s
  | (w', source') :: uses, s => by
    -- the second use finds the statics set, and so leaves them
    have hfirst : ((make w).compress source s).2 = ⟨some (s.dataBitLength.getD (getBitLengthOfLength w))⟩ :=
      compress_statics w source s
    have hrest := run_statics w' source' uses ((make w).compress source s).2
    simp only [run, List.foldl_cons] at hrest ⊢
    rw [hrest, hfirst, Option.getD_some]

/-- **A narrower first use shrinks the reserve below the block.** The first use
in the process has values of one byte, so the statics hold `4`, the bit width
for one byte. Thirty values of eight bytes whose `xor`s are `0x7FFF...FF` and
`0xFFFF...FE` in turn take a `11` block of 78 bits each after the first, while
the reserve counts 73 bits a value: it is 305 bytes, and `compress` writes 306.
The writer's end lies two bytes past the reserve, so it does not throw, and
the block decodes. -/
theorem narrow_first_use_overruns_reserve :
    ((make ⟨1, by decide⟩).compress [] ⟨none⟩).2 = ⟨some 4⟩ ∧
      ((make ⟨8, by decide⟩).getCompressedReserveSize 240 ⟨some 4⟩).1 = 305 ∧
      ((make ⟨8, by decide⟩).compress
          ((List.range 30).flatMap fun i => writeLE 8 ([0, 2 ^ 63 - 1, 2 ^ 63 + 1, 2 ^ 64 - 2].getD (i % 4) 0))
          ⟨some 4⟩).1.map (fun out => (out.1.length, (make ⟨8, by decide⟩).decompress (out.1.take out.2.toNat))) =
        .ok (306, .ok (240,
          (List.range 30).flatMap fun i => writeLE 8 ([0, 2 ^ 63 - 1, 2 ^ 63 + 1, 2 ^ 64 - 2].getD (i % 4) 0))) := by
  refine ⟨rfl, by decide +kernel, by decide +kernel⟩

end Daisy.Compression.CompressionCodecGorilla
