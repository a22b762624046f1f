import Daisy.Compression.CompressionCodecDoubleDelta
import Daisy.Compression.CompressionCodecGorilla

/-!
# `Delta`

`Compression/CompressionCodecDelta.cpp` stores each value of 1, 2, 4 or 8
bytes as its difference from the one before it, the first as its difference
from zero, and decodes by a running sum. The bytes of the source before the
first whole value from the end are copied as they are, after the width and
their number. Unlike the other delta codecs, `doCompressData` returns all it
writes, `1 + 1 + source_size`.

## The model

Values are `BitVec`s of the width, so that the `unsigned` differences and the
sum wrap as in the source. `doDecompressData` is the frame the delta codecs
share (`frameDoDecompressData`), with this codec's `decompressDataForType`,
which throws when the bytes after the frame make no whole number of values.

## What is proved

* `accumulate_deltas`: the running sum undoes the differences, from every
  first value.
* `doDecompressData_length`: the decoder writes as many bytes as the block
  carries after its frame, whatever size the header declares.
* `decoders_not_total`: a block whose width byte is zero makes the decoders of
  `Delta`, `DoubleDelta` and `Gorilla` divide by zero, for every declared
  size; and a `Delta` block that declares no bytes has its values written all
  the same.
-/

namespace Daisy.Compression.CompressionCodecDelta

open Daisy.IO

section Values

variable {n : Nat}

/-- The loop of `compressDataForType`: each value less the one before it,
from `prev_src`. -/
def deltas : BitVec n → List (BitVec n) → List (BitVec n)
  | _, [] => []
  | prev, curr :: rest => (curr - prev) :: deltas curr rest

/-- The loop of `decompressDataForType`: the running sum, from `accumulator`. -/
def accumulate : BitVec n → List (BitVec n) → List (BitVec n)
  | _, [] => []
  | acc, d :: rest => (acc + d) :: accumulate (acc + d) rest

@[simp] theorem length_accumulate (acc : BitVec n) (ds : List (BitVec n)) : (accumulate acc ds).length = ds.length := by
  induction ds generalizing acc with
  | nil => rfl
  | cons d ds ih => simp [accumulate, ih]

/-- The running sum from a value undoes the differences from the same value:
the accumulator of the decoder stays the encoder's `prev_src`. -/
theorem accumulate_deltas (prev : BitVec n) (vs : List (BitVec n)) : accumulate prev (deltas prev vs) = vs := by
  induction vs generalizing prev with
  | nil => rfl
  | cons v vs ih =>
    have hsum : prev + (v - prev) = v := by simp
    simp only [deltas, accumulate, hsum, ih]

@[simp] theorem length_deltas (prev : BitVec n) (vs : List (BitVec n)) : (deltas prev vs).length = vs.length := by
  induction vs generalizing prev with
  | nil => rfl
  | cons v vs ih => simp [deltas, ih]

end Values

/-- Values of `w` bytes, stored one after the other. -/
theorem length_flatMap_storeValue (w : Nat) (vs : List (BitVec (8 * w))) :
    (vs.flatMap storeValue).length = vs.length * w := by
  induction vs with
  | nil => simp
  | cons v vs ih =>
    simp only [List.flatMap_cons, List.length_append, ih, storeValue, length_writeLE, List.length_cons]
    ring

/-- `compressDataForType<T>(source, source_size, dest)`: the bytes it writes. -/
def compressDataForType (w : Nat) (source : List UInt8) : Except CodecError (List UInt8) := do
  if source.length % w ≠ 0 then throw (.deltaNotAligned source.length w)
  pure ((deltas 0 (loadValues w (source.length / w) source)).flatMap storeValue)

/-- `decompressDataForType<T>(source, source_size, dest)`: the bytes it writes. -/
def decompressDataForType (w : Nat) (source : List UInt8) : Except CodecError (List UInt8) := do
  if source.length % w ≠ 0 then throw (.deltaNotAlignedDecompress source.length w)
  pure ((accumulate 0 (loadValues w (source.length / w) source)).flatMap storeValue)

/-- `decompressDataForType` writes as many bytes as it reads. -/
theorem decompressDataForType_eq_ok {w : Nat} {source : List UInt8} (haligned : source.length % w = 0) :
    ∃ dest, decompressDataForType w source = .ok dest ∧ dest.length = source.length := by
  refine ⟨_, by simp [decompressDataForType, haligned]; rfl, ?_⟩
  rw [length_flatMap_storeValue, length_accumulate, length_loadValues, Nat.div_mul_cancel (Nat.dvd_of_mod_eq_zero haligned)]

/-- `decompressDataForType` undoes `compressDataForType` on whole values. -/
theorem decompressDataForType_compressDataForType {w : Nat} (hw : 0 < w) {source : List UInt8}
    (haligned : source.length % w = 0) :
    ∃ data, compressDataForType w source = .ok data ∧ data.length = source.length ∧
      decompressDataForType w data = .ok source := by
  have hsource : source.length = source.length / w * w := (Nat.div_mul_cancel (Nat.dvd_of_mod_eq_zero haligned)).symm
  -- the differences, as many values as the source has
  have hdeltas : (deltas 0 (loadValues w (source.length / w) source)).length = source.length / w := by simp
  have hlength : ((deltas 0 (loadValues w (source.length / w) source)).flatMap storeValue).length =
      source.length / w * w := by
    rw [length_flatMap_storeValue, hdeltas]
  refine ⟨(deltas 0 (loadValues w (source.length / w) source)).flatMap storeValue, ?_, ?_⟩
  · rw [compressDataForType, if_neg (not_not.mpr haligned)]
    rfl
  refine ⟨by rw [hlength, ← hsource], ?_⟩
  have hdata : ((deltas 0 (loadValues w (source.length / w) source)).flatMap storeValue).length % w = 0 := by
    rw [hlength, Nat.mul_mod_left]
  rw [decompressDataForType, if_neg (not_not.mpr hdata), hlength, Nat.mul_div_cancel _ hw]
  have hload : loadValues w (source.length / w) ((deltas 0 (loadValues w (source.length / w) source)).flatMap storeValue) =
      deltas 0 (loadValues w (source.length / w) source) := by
    have h := loadValues_flatMap_storeValue w (deltas 0 (loadValues w (source.length / w) source))
    rwa [hdeltas] at h
  rw [hload, accumulate_deltas, flatMap_storeValue_loadValues w _ source hsource]
  rfl

/-- `CompressionCodecDelta::getMaxCompressedDataSize`. -/
def getMaxCompressedDataSize (uncompressedSize : UInt32) : UInt32 := uncompressedSize + 2

/-- `CompressionCodecDelta::doCompressData`: the width, the number of bytes
before the first whole value from the end, those bytes, and the differences;
it returns `1 + 1 + source_size`. -/
def doCompressData (w : DataBytesSize) (source : List UInt8) : Except CodecError (List UInt8 × UInt32) := do
  let bytesToSkip := source.length % w.width
  let data ← compressDataForType w.width (source.drop bytesToSkip)
  pure (w.val :: bytesToSkip.toUInt8 :: source.take bytesToSkip ++ data, 1 + 1 + source.length.toUInt32)

/-- `CompressionCodecDelta::doDecompressData`: the `switch` on the width decodes
nothing for a width that is not one of the four. -/
def doDecompressData (source : List UInt8) (uncompressedSize : UInt32) : Except CodecError (List UInt8) :=
  frameDoDecompressData (fun bytesSize source => match DataBytesSize.ofByte? bytesSize with
    | some w => decompressDataForType w.width source
    | none => pure []) source uncompressedSize

/-- `CompressionCodecDelta(delta_bytes_size)`. -/
def make (w : DataBytesSize) : Codec Unit where
  methodByte := 0x92
  getMaxCompressedDataSize uncompressedSize _ := (getMaxCompressedDataSize uncompressedSize, ())
  doCompressData source _ := (doCompressData w source, ())
  doDecompressData := doDecompressData

theorem ofByte?_val (w : DataBytesSize) : DataBytesSize.ofByte? w.val = some w := by
  simp [DataBytesSize.ofByte?, w.valid]

theorem width_pos (w : DataBytesSize) : 0 < w.width := by
  rcases w.valid with h | h | h | h <;> simp [DataBytesSize.width, h]

theorem val_ne_zero (w : DataBytesSize) : w.val ≠ 0 := by
  have := width_pos w
  simp only [DataBytesSize.width] at this
  exact fun h => by simp [h] at this

/-- The frame of a block whose width byte is a valid one: the bytes it skips,
then the values `decompressDataForType` reads from the rest. -/
theorem doDecompressData_frame (w : DataBytesSize) (b : UInt8) (data : List UInt8) {uncompressedSize : UInt32}
    (hskip : uncompressedSize.toNat % w.width ≤ data.length) :
    doDecompressData (w.val :: b :: data) uncompressedSize =
      (decompressDataForType w.width (data.drop (uncompressedSize.toNat % w.width))).map
        fun values => data.take (uncompressedSize.toNat % w.width) ++ values := by
  rw [doDecompressData, frameDoDecompressData_of_ne_zero _ b data (val_ne_zero w) hskip, ofByte?_val]
  rfl

/-- **The decoder writes what the block carries.** For every declared size
that leaves whole values after the bytes it skips, `doDecompressData` writes
as many bytes as follow the frame: the declared size bounds nothing. -/
theorem doDecompressData_length (w : DataBytesSize) (b : UInt8) (data : List UInt8) (uncompressedSize : UInt32)
    (hskip : uncompressedSize.toNat % w.width ≤ data.length)
    (haligned : (data.length - uncompressedSize.toNat % w.width) % w.width = 0) :
    ∃ dest, doDecompressData (w.val :: b :: data) uncompressedSize = .ok dest ∧ dest.length = data.length := by
  have hdata : (data.drop (uncompressedSize.toNat % w.width)).length % w.width = 0 := by simpa using haligned
  obtain ⟨values, hvalues, hlength⟩ := decompressDataForType_eq_ok hdata
  refine ⟨data.take (uncompressedSize.toNat % w.width) ++ values, ?_, ?_⟩
  · rw [doDecompressData_frame w b data hskip, hvalues]
    rfl
  · simp only [List.length_append, List.length_take, hlength, List.length_drop]
    omega

/-- **`Delta` decodes what it encodes.** For every width and every source,
`compress` writes 11 bytes more than the source and returns all it writes; and
when the source's size fits the header, a `Delta` of any width decodes the
block to the source: the decoder reads the width from the block, so the codec
`CompressionCodecFactory::get` re-creates from the method byte alone decodes
it. -/
theorem decompress_compress (w w' : DataBytesSize) (source : List UInt8) :
    ∃ block, block.length = source.length + 11 ∧
      (make w).compress source () = (.ok (block, (source.length + 11).toUInt32), ()) ∧
      (source.length < 2 ^ 32 → (make w').decompress block = .ok (source.length.toUInt32, source)) := by
  have hskip : source.length % w.width ≤ source.length := Nat.mod_le _ _
  have haligned : (source.drop (source.length % w.width)).length % w.width = 0 := by
    rw [List.length_drop]
    exact Nat.sub_mod_eq_zero_of_mod_eq (Nat.mod_mod _ _).symm
  obtain ⟨data, hc, hlength, hd⟩ := decompressDataForType_compressDataForType (width_pos w) haligned
  have htake : (source.take (source.length % w.width)).length = source.length % w.width := by simp [hskip]
  have hblock : (0x92 :: writeLE 4 ((1 + 1 + source.length.toUInt32) + headerSize).toNat ++ writeLE 4 source.length ++
      w.val :: (source.length % w.width).toUInt8 :: (source.take (source.length % w.width) ++ data)).length =
      source.length + 11 := by
    simp only [List.length_cons, List.length_append, length_writeLE, htake, hlength, List.length_drop]
    omega
  refine ⟨0x92 :: writeLE 4 ((1 + 1 + source.length.toUInt32) + headerSize).toNat ++ writeLE 4 source.length ++
    w.val :: (source.length % w.width).toUInt8 :: (source.take (source.length % w.width) ++ data), hblock, ?_, ?_⟩
  · have hcompress : doCompressData w source = .ok (w.val :: (source.length % w.width).toUInt8 ::
        (source.take (source.length % w.width) ++ data), 1 + 1 + source.length.toUInt32) := by
      rw [doCompressData, hc]
      rfl
    have hreturned : headerSize + (1 + 1 + source.length.toUInt32) = (source.length + 11).toUInt32 := by
      apply UInt32.toNat_inj.mp
      simp only [headerSize, UInt32.toNat_add, Nat.toUInt32_eq, UInt32.toNat_ofNat', UInt32.reduceToNat]
      omega
    simp only [Codec.compress, make, hcompress, Except.map]
    rw [hreturned]
  · intro hsmall
    have hsize : source.length.toUInt32.toNat = source.length := by simp; omega
    have hframe : source.length.toUInt32.toNat % w.width ≤ (source.take (source.length % w.width) ++ data).length := by
      rw [hsize, List.length_append, htake]
      exact Nat.le_add_right _ _
    rw [show (0x92 : UInt8) = (make w').methodByte from rfl, Codec.decompress_header_length _ _ hsmall]
    simp only [make]
    rw [doDecompressData_frame w _ _ hframe, hsize, List.drop_left' htake, hd]
    simp only [Except.map, List.take_left' htake, List.take_append_drop]

/-- **The decoders are not total on untrusted bytes.** A block whose width
byte is zero makes the decoders of `Delta`, `DoubleDelta` and `Gorilla` take
`uncompressed_size % bytes_size` by zero, for every declared size and every
byte after it. A `Delta` block that declares no bytes at all has every value
it carries written to the buffer of that size. -/
theorem decoders_not_total (compressedSize uncompressedSize : UInt32) (b : UInt8) (rest : List UInt8) :
    (∀ w, (make w).decompress
        (0x92 :: writeLE 4 compressedSize.toNat ++ writeLE 4 uncompressedSize.toNat ++ 0 :: b :: rest) =
      .error .undefined) ∧
    (∀ w, (CompressionCodecDoubleDelta.make w).decompress
        (0x94 :: writeLE 4 compressedSize.toNat ++ writeLE 4 uncompressedSize.toNat ++ 0 :: b :: rest) =
      .error .undefined) ∧
    (∀ w, (CompressionCodecGorilla.make w).decompress
        (0x95 :: writeLE 4 compressedSize.toNat ++ writeLE 4 uncompressedSize.toNat ++ 0 :: b :: rest) =
      .error .undefined) ∧
    (∀ w data, data.length % w.width = 0 → ∃ dest, (make w).decompress
        (0x92 :: writeLE 4 compressedSize.toNat ++ writeLE 4 (0 : UInt32).toNat ++ w.val :: b :: data) =
      .ok (0, dest) ∧ dest.length = data.length) := by
  refine ⟨fun w => ?_, fun w => ?_, fun w => ?_, fun w data haligned => ?_⟩
  · rw [show (0x92 : UInt8) = (make w).methodByte from rfl, Codec.decompress_header]
    simp [make, doDecompressData, frameDoDecompressData_zero]
    rfl
  · rw [show (0x94 : UInt8) = (CompressionCodecDoubleDelta.make w).methodByte from rfl, Codec.decompress_header]
    simp [CompressionCodecDoubleDelta.make, CompressionCodecDoubleDelta.doDecompressData, frameDoDecompressData_zero]
    rfl
  · rw [show (0x95 : UInt8) = (CompressionCodecGorilla.make w).methodByte from rfl, Codec.decompress_header]
    simp [CompressionCodecGorilla.make, CompressionCodecGorilla.doDecompressData, frameDoDecompressData_zero]
    rfl
  · -- at a declared size of zero the frame skips nothing
    obtain ⟨dest, hdest, hlength⟩ := doDecompressData_length w b data 0 (by simp) (by simpa using haligned)
    refine ⟨dest, ?_, hlength⟩
    rw [show (0x92 : UInt8) = (make w).methodByte from rfl, Codec.decompress_header]
    simp [make, hdest]
    rfl

/-- A one-byte `Delta` block that declares no bytes and carries the value `7`:
the decoder writes one byte. -/
theorem decoders_not_total_one_value :
    ([7] : List UInt8).length % (⟨1, by decide⟩ : DataBytesSize).width = 0 ∧
      ∃ dest, (make ⟨1, by decide⟩).decompress
          (0x92 :: writeLE 4 (12 : UInt32).toNat ++ writeLE 4 (0 : UInt32).toNat ++ (1 : UInt8) :: 0 :: [7]) =
        .ok (0, dest) ∧ dest.length = 1 :=
  ⟨by decide, (decoders_not_total 12 0 0 []).2.2.2 ⟨1, by decide⟩ [7] (by decide)⟩

end Daisy.Compression.CompressionCodecDelta
