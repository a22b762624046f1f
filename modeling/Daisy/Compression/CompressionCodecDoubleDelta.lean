import Daisy.Compression.ICompressionCodec

/-!
# `DoubleDelta`

`Compression/CompressionCodecDoubleDelta.cpp` compresses values of 1, 2, 4 or
8 bytes: after the number of values, the first value and the first delta as
they are, it writes the difference of each delta from the one before (the
double delta) as a prefix code in a `BitWriter`. A double delta of zero is
the bit `0`; another is a prefix naming one of five classes, its sign, and its
magnitude less one in the class's data bits less one. `decompressDataForType`
reads the class off the five high bits of the next byte (`WRITE_SPEC_LUT`).

## The model

Values are `BitVec`s of the width, so that the `unsigned` deltas wrap as in
the source; `SignedDeltaType` is `BitVec.toInt`. `std::abs` of the least
`int` or `long` overflows (an `Int8` or an `Int16` is promoted to `int`
first): the model throws `undefined` there. `doCompressData` and
`doDecompressData` are the frame the delta codecs share
(`frameDoCompressData`, `frameDoDecompressData`).

## What is proved

* `doCompressData_returns`: for every source, the size `doCompressData`
  returns is the number of bytes it writes less `source_size % data_bytes_size`.
  The block then ends that many bytes before the data does.
* `writeDoubleDelta_eq_undefined_iff`: `std::abs(signed_dd)` is undefined
  exactly where the double delta is the least value of a 4- or 8-byte signed
  type; `compressDataForType_abs_overflows` meets it with three values.
* A block of 25 bytes of 8-byte values whose last byte is cut, and decodes to
  another value.
-/

namespace Daisy.Compression.CompressionCodecDoubleDelta

open Daisy.IO Daisy.Library

/-- `WriteSpec`: the prefix of a class of double deltas and the bits of its
data (`prefix` is renamed `prefixCode`). -/
structure WriteSpec where
  prefixBits : UInt8
  prefixCode : UInt8
  dataBits : UInt8
  deriving DecidableEq, Repr

/-- `WRITE_SPEC_LUT`: the class whose prefix begins the five bits `i`, the
table's rows taken by the prefix they share. -/
def writeSpecLUT (i : UInt8) : WriteSpec :=
  if i < 0b10000 then ⟨1, 0b0, 0⟩
  else if i < 0b11000 then ⟨2, 0b10, 7⟩
  else if i < 0b11100 then ⟨3, 0b110, 9⟩
  else if i < 0b11110 then ⟨4, 0b1110, 12⟩
  else if i = 0b11110 then ⟨5, 0b11110, 32⟩
  else ⟨5, 0b11111, 64⟩

/-- `getDeltaWriteSpec(value)`. -/
def getDeltaWriteSpec (value : Int) : WriteSpec :=
  if -63 < value ∧ value < 64 then ⟨2, 0b10, 7⟩
  else if -255 < value ∧ value < 256 then ⟨3, 0b110, 9⟩
  else if -2047 < value ∧ value < 2048 then ⟨4, 0b1110, 12⟩
  else if -2 ^ 31 < value ∧ value < 2 ^ 31 - 1 then ⟨5, 0b11110, 32⟩
  else ⟨5, 0b11111, 64⟩

/-- `getMaxValueForByteSize(byte_size)`: the largest signed value of the width. -/
def getMaxValueForByteSize (w : DataBytesSize) : Int := 2 ^ (8 * w.width - 1) - 1

/-- `getDeltaMaxWriteSpecByteSize(data_bytes_size)`. -/
def getDeltaMaxWriteSpecByteSize (w : DataBytesSize) : WriteSpec := getDeltaWriteSpec (getMaxValueForByteSize w)

/-- `getCompressedHeaderSize(data_bytes_size)`: the number of values, the
first value and the first delta. -/
def getCompressedHeaderSize (w : DataBytesSize) : UInt32 := 4 + w.val.toUInt32 + w.val.toUInt32

/-- `getCompressedDataSize(data_bytes_size, uncompressed_size)`: each value in
the class of the largest signed value, rounded up to bytes. -/
def getCompressedDataSize (w : DataBytesSize) (uncompressedSize : UInt32) : UInt32 :=
  let itemsCount := uncompressedSize / w.val.toUInt32
  let spec := getDeltaMaxWriteSpecByteSize w
  let maxItemSizeBits := spec.prefixBits.toUInt32 + spec.dataBits.toUInt32
  (itemsCount * maxItemSizeBits + 7) / 8

section Compress

variable (w : DataBytesSize)

/-- The state of the loop of `compressDataForType`: `prev_value`,
`prev_delta` and the writer. -/
structure CompressState where
  prevValue : BitVec (8 * w.width)
  prevDelta : BitVec (8 * w.width)
  writer : BitWriter

/-- A double delta that is not zero: the prefix of its class, its sign, and
its magnitude less one. -/
def writeDoubleDelta (doubleDelta : BitVec (8 * w.width)) (writer : BitWriter) : Except CodecError BitWriter := do
  let signedDd := doubleDelta.toInt
  if 4 ≤ w.width ∧ signedDd = -2 ^ (8 * w.width - 1) then throw .undefined
  let absValue := BitVec.ofNat (8 * w.width) (signedDd.natAbs - 1)
  let spec := getDeltaWriteSpec signedDd
  let writer ← liftWriter (writer.writeBits spec.prefixBits spec.prefixCode.toUInt64)
  let writer ← liftWriter (writer.writeBits 1 (if signedDd < 0 then 1 else 0))
  liftWriter (writer.writeBits (spec.dataBits - 1) absValue.toNat.toUInt64)

/-- A `BitWriter` throws only its own exception: a chain through one is
undefined only where what follows it is. -/
theorem liftWriter_ne_undefined {α : Type} (r : Except WriteAfterEnd α) : liftWriter r ≠ .error .undefined := by
  cases r <;> simp [liftWriter, Except.mapError]

theorem liftWriter_bind_eq_undefined {α β : Type} {r : Except WriteAfterEnd α} {f : α → Except CodecError β}
    (h : (liftWriter r >>= f) = .error .undefined) : ∃ a, r = .ok a ∧ f a = .error .undefined := by
  cases r with
  | error e => simp [liftWriter, Except.mapError, error_bind] at h
  | ok a => exact ⟨a, rfl, h⟩

/-- `std::abs(signed_dd)` is undefined exactly for the least value of a
signed type of 4 or 8 bytes; an `Int8` or an `Int16` is promoted to `int`
first. -/
theorem writeDoubleDelta_eq_undefined_iff (doubleDelta : BitVec (8 * w.width)) (writer : BitWriter) :
    writeDoubleDelta w doubleDelta writer = .error .undefined ↔
      4 ≤ w.width ∧ doubleDelta.toInt = -2 ^ (8 * w.width - 1) := by
  unfold writeDoubleDelta
  by_cases hu : 4 ≤ w.width ∧ doubleDelta.toInt = -2 ^ (8 * w.width - 1)
  · simp only [hu, and_self, if_true, iff_true]
    rfl
  · simp only [hu, if_false, iff_false]
    intro h
    -- past the check only the writer throws
    obtain ⟨_, -, h⟩ := liftWriter_bind_eq_undefined h
    obtain ⟨_, -, h⟩ := liftWriter_bind_eq_undefined h
    exact liftWriter_ne_undefined _ h

/-- One turn of the loop of `compressDataForType`. -/
def compressStep (st : CompressState w) (currValue : BitVec (8 * w.width)) : Except CodecError (CompressState w) := do
  let delta := currValue - st.prevValue
  let doubleDelta := delta - st.prevDelta
  let writer ← if doubleDelta = 0 then liftWriter (st.writer.writeBits 1 0)
    else writeDoubleDelta w doubleDelta st.writer
  pure ⟨currValue, delta, writer⟩

/-- What `compressDataForType` writes before its loop: the number of values,
the first value and the first delta, with `prev_value`, `prev_delta` and the
values left. -/
def compressHeader (itemsCount : Nat) :
    List (BitVec (8 * w.width)) → List UInt8 × BitVec (8 * w.width) × BitVec (8 * w.width) × List (BitVec (8 * w.width))
  | [] => (writeLE 4 itemsCount, 0, 0, [])
  | [first] => (writeLE 4 itemsCount ++ storeValue first, first, 0, [])
  | first :: second :: rest =>
    (writeLE 4 itemsCount ++ storeValue first ++ storeValue (second - first), second, second - first, rest)

/-- `compressDataForType<ValueType>(source, source_size, dest)`: what it writes
and the size it returns. Its writer has room for the values after the first
two; `source_size - sizeof(ValueType) * 2` wraps when there are fewer. -/
def compressDataForType (source : List UInt8) : Except CodecError (List UInt8 × UInt32) := do
  if source.length % w.width ≠ 0 then throw (.notAligned source.length w.width)
  let itemsCount := source.length / w.width
  let (header, prevValue, prevDelta, rest) := compressHeader w itemsCount (loadValues w.width itemsCount source)
  let capacity := getCompressedDataSize w (source.length.toUInt32 - (2 * w.width).toUInt32)
  let st ← rest.foldlM (compressStep w) ⟨prevValue, prevDelta, BitWriter.make capacity.toNat⟩
  let writer ← liftWriter st.writer.flush
  pure (header ++ writer.written, (header.length + (writer.count + 7) / 8).toUInt32)

/-- `compressDataForType` returns the size it writes: its writer is flushed,
so that `count()` is whole bytes. -/
theorem compressDataForType_returns {source data : List UInt8} {size : UInt32}
    (h : compressDataForType w source = .ok (data, size)) (hsmall : data.length < 2 ^ 32) :
    size.toNat = data.length := by
  unfold compressDataForType at h
  split at h
  · cases h
  · dsimp only at h
    generalize compressHeader w (source.length / w.width) (loadValues w.width (source.length / w.width) source) = start at h
    obtain ⟨header, prevValue, prevDelta, rest⟩ := start
    obtain ⟨st, -, h⟩ := bind_eq_ok h
    obtain ⟨writer, hflush, h⟩ := bind_eq_ok h
    cases h
    have hempty := BitWriter.flush_bitsCount (liftWriter_eq_ok.mp hflush)
    have hbytes : (writer.count + 7) / 8 = writer.written.length := by
      simp only [BitWriter.count, hempty, UInt8.toNat_zero]
      omega
    rw [List.length_append] at hsmall ⊢
    rw [hbytes, Nat.toUInt32_eq, UInt32.toNat_ofNat_of_lt' hsmall]

/-- **`std::abs` overflows on the least double delta.** The 4-byte values
`0`, `0` and `2^31`: the third value's double delta is `2^31`, the least
`Int32`, whose `std::abs` overflows. So do the 8-byte values `0`, `0` and
`2^63`. -/
theorem compressDataForType_abs_overflows :
    compressDataForType ⟨4, by decide⟩ (writeLE 4 0 ++ writeLE 4 0 ++ writeLE 4 (2 ^ 31)) = .error .undefined ∧
      compressDataForType ⟨8, by decide⟩ (writeLE 8 0 ++ writeLE 8 0 ++ writeLE 8 (2 ^ 63)) = .error .undefined := by
  constructor <;> decide +kernel

end Compress

section Decompress

variable (w : DataBytesSize)

/-- A double delta of the class `spec`: its sign, and its magnitude less
one. -/
def readDoubleDelta (spec : WriteSpec) (reader : BitReader) : BitVec (8 * w.width) × BitReader :=
  if spec.dataBits = 0 then (0, reader)
  else
    let (sign, reader) := reader.readBit
    let (value, reader) := reader.readBits (spec.dataBits - 1)
    let doubleDelta := BitVec.ofNat (8 * w.width) (value + 1).toNat
    (if sign ≠ 0 then -doubleDelta else doubleDelta, reader)

/-- The loop of `decompressDataForType`: at most `k` more values, until the
reader is at its end. -/
def decompressLoop : Nat → BitReader → BitVec (8 * w.width) → BitVec (8 * w.width) → List UInt8
  | 0, _, _, _ => []
  | k + 1, reader, prevValue, prevDelta =>
    if reader.eof then []
    else
      let (byte, reader) := reader.peekByte
      let spec := writeSpecLUT (byte >>> 3)
      let (doubleDelta, reader) := readDoubleDelta w spec (reader.skipBufferedBits spec.prefixBits)
      let currValue := prevValue + (doubleDelta + prevDelta)
      storeValue currValue ++ decompressLoop k reader currValue (currValue - prevValue)

/-- `decompressDataForType<ValueType>(source, source_size, dest)`: the bytes
it writes. It stops at a header that is short, and after as many values as
the header counts or at the end of the bits. -/
def decompressDataForType (source : List UInt8) : List UInt8 :=
  if source.length < 4 then []
  else
    let itemsCount := readLE (source.take 4)
    let source := source.drop 4
    if source.length < w.width ∨ itemsCount < 1 then []
    else
      let first := loadValue w.width source
      let source := source.drop w.width
      if source.length < w.width ∨ itemsCount < 2 then storeValue first
      else
        let prevDelta := loadValue w.width source
        let prevValue := first + prevDelta
        storeValue first ++ storeValue prevValue ++
          decompressLoop w (itemsCount - 2) (BitReader.make (source.drop w.width)) prevValue prevDelta

end Decompress

/-- `CompressionCodecDoubleDelta::getMaxCompressedDataSize`: the frame, the
header, and the data of as many values as the bytes make. -/
def getMaxCompressedDataSize (w : DataBytesSize) (uncompressedSize : UInt32) : UInt32 :=
  2 + w.val.toUInt32 + getCompressedHeaderSize w + getCompressedDataSize w uncompressedSize

/-- `CompressionCodecDoubleDelta::doCompressData`. -/
def doCompressData (w : DataBytesSize) (source : List UInt8) : Except CodecError (List UInt8 × UInt32) :=
  frameDoCompressData w.val (compressDataForType w) source

/-- `CompressionCodecDoubleDelta::doDecompressData`. -/
def doDecompressData (source : List UInt8) (uncompressedSize : UInt32) : Except CodecError (List UInt8) :=
  frameDoDecompressData (fun bytesSize source => pure <| match DataBytesSize.ofByte? bytesSize with
    | some w => decompressDataForType w source
    | none => []) source uncompressedSize

/-- **`doCompressData` returns less than it writes.** For every source, the
size it returns is the bytes it writes less the ones before the first whole
value, which the block then leaves out at its end. -/
theorem doCompressData_returns {w : DataBytesSize} {source written : List UInt8} {size : UInt32}
    (h : doCompressData w source = .ok (written, size)) (hsmall : written.length < 2 ^ 32) :
    size.toNat + source.length % w.width = written.length :=
  frameDoCompressData_returns (fun _ _ _ hc hs => compressDataForType_returns w hc hs) h hsmall

/-- `CompressionCodecDoubleDelta(data_bytes_size)`. -/
def make (w : DataBytesSize) : Codec Unit where
  methodByte := 0x94
  getMaxCompressedDataSize uncompressedSize _ := (getMaxCompressedDataSize w uncompressedSize, ())
  doCompressData source _ := (doCompressData w source, ())
  doDecompressData := doDecompressData

/-- **A block of values that are not aligned loses its last byte.** The byte
`0xAA` and the 8-byte values `0`, `0`, `6`: the unaligned byte is kept
apart, and the double delta `6` takes nine bits, two bytes. `compress`
writes 34 bytes and returns 33, so the block ends before the second of
them, and its reader, short of the last bit, reads `5`: the third value comes
back `5`. -/
theorem unaligned_block_loses_last_byte :
    (make ⟨8, by decide⟩).compress (0xAA :: writeLE 8 0 ++ writeLE 8 0 ++ writeLE 8 6) () =
        (.ok (0x94 :: writeLE 4 33 ++ writeLE 4 25 ++ [8, 1, 0xAA] ++ writeLE 4 3 ++ writeLE 8 0 ++ writeLE 8 0 ++
          [0x82, 0x80], 33), ()) ∧
      (make ⟨8, by decide⟩).decompress
          (0x94 :: writeLE 4 33 ++ writeLE 4 25 ++ [8, 1, 0xAA] ++ writeLE 4 3 ++ writeLE 8 0 ++ writeLE 8 0 ++ [0x82]) =
        .ok (25, 0xAA :: writeLE 8 0 ++ writeLE 8 0 ++ writeLE 8 5) := by
  constructor <;> decide +kernel

end Daisy.Compression.CompressionCodecDoubleDelta
