import Daisy.IO.BitHelpers
import Daisy.Library.Faults

/-!
# `ICompressionCodec`

`Compression/ICompressionCodec.cpp`: what every codec shares. `compress`
writes the codec's method byte, leaves room for two sizes, has the codec's
`doCompressData` write after them, and then fills them in: the size of the
block with its header, and the size of the data, each a `UInt32` in memory
order (`COMPRESSED_BLOCK_HEADER_SIZE` is 9 bytes). It returns the size of the
block, and the caller keeps that many bytes of the buffer it sized by
`getCompressedReserveSize`. `decompress` checks the header and has
`doDecompressData` decode the rest into a buffer of the size the header
gives.

## The model

A codec is its method byte and its three methods, over the state `σ` of the
process that a codec keeps in function-local statics (`Unit` for codecs
without); what a call sets there stays set if it throws after. `doCompressData`
gives the bytes it writes and the size it returns, and `doDecompressData` the
bytes it writes, from the start of the buffer.
Sizes are the source's `UInt32`s, so that they wrap as its do.

`DoubleDelta` and `Gorilla` frame their data alike: the width, the number
of bytes `source_size % data_bytes_size` that do not make a whole value, those
bytes as they are, and then the values compressed (`frameDoCompressData`,
`frameDoDecompressData`).

## What is proved

`frameDoCompressData_returns`: the framed `doCompressData` returns the size it
writes less the unaligned bytes, for every source and every compressor that
returns the size it writes.
-/

namespace Daisy.Compression

open Daisy.IO

/-- What the codecs throw. -/
inductive CodecError where
  /-- "Cannot compress, data size `size` is not aligned to `width`"
  (`CANNOT_COMPRESS`). -/
  | notAligned (size width : Nat)
  /-- `BitWriter`'s "Can not write past end of buffer"
  (`CANNOT_WRITE_AFTER_END_OF_BUFFER`). -/
  | cannotWriteAfterEndOfBuffer (available required : Nat)
  /-- "Can't decompress data: the compressed data size (`size`, this should
  include header size) is less than the header size" (`CORRUPTED_DATA`). -/
  | corruptedData (size : Nat)
  /-- "Can't decompress data with codec byte `method` using codec with byte
  `ourMethod`" (`CANNOT_DECOMPRESS`). -/
  | wrongMethod (method ourMethod : UInt8)
  /-- "Cannot decompress. File has wrong header" (`CANNOT_DECOMPRESS`). -/
  | wrongHeader
  /-- "Cannot decompress gorilla-encoded data: corrupted input data."
  (`CANNOT_DECOMPRESS`). -/
  | corruptedGorilla
  /-- "Cannot compress, data size `size` is not multiplier of `width`"
  (`CANNOT_COMPRESS`). -/
  | notMultiplier (size width : Nat)
  /-- "Cannot decompress, data size `size` is less then T64 header"
  (`CANNOT_DECOMPRESS`). -/
  | lessThanT64Header (size : Nat)
  /-- "Cannot decompress, unexpected uncompressed size `size`"
  (`CANNOT_DECOMPRESS`). -/
  | unexpectedUncompressedSize (size : Nat)
  /-- "Cannot decompress, data size `size` is not multiplier of `shift`"
  (`CANNOT_DECOMPRESS`). -/
  | notMultiplierOfShift (size shift : Nat)
  /-- "Cannot decompress with T64" (`CANNOT_DECOMPRESS`). -/
  | cannotDecompressWithT64
  /-- "Bad magic number in T64 codec: `magic`" (`LOGICAL_ERROR`). -/
  | badMagicNumber (magic : Nat)
  /-- "Cannot delta compress, data size `size` is not aligned to `width`"
  (`CANNOT_COMPRESS`). -/
  | deltaNotAligned (size width : Nat)
  /-- "Cannot delta decompress, data size `size` is not aligned to `width`"
  (`CANNOT_DECOMPRESS`). -/
  | deltaNotAlignedDecompress (size width : Nat)
  /-- "Wrong compression methods list" (`CORRUPTED_DATA`), of `Multiple`. -/
  | wrongCompressionMethodsList
  /-- "Wrong final decompressed size in codec Multiple, got `got`, expected
  `expected`" (`CORRUPTED_DATA`). -/
  | wrongFinalDecompressedSize (got expected : UInt32)
  /-- `CompressionCodecFactory::get`'s "Unknown codec family code: `code`"
  (`UNKNOWN_CODEC`). -/
  | unknownCodecFamilyCode (code : UInt8)
  /-- Behaviour the language leaves undefined. -/
  | undefined
  deriving DecidableEq, Repr

/-- The widths of the delta codecs: `getDataBytesSize` takes only types of
1, 2, 4 or 8 bytes. -/
structure DataBytesSize where
  val : UInt8
  valid : val = 1 ∨ val = 2 ∨ val = 4 ∨ val = 8
  deriving DecidableEq, Repr

namespace DataBytesSize

/-- The width in bytes. -/
def width (w : DataBytesSize) : Nat := w.val.toNat

/-- The width a block gives, if it is one of the four; the `switch` of
`doDecompressData` decodes nothing for another. -/
def ofByte? (b : UInt8) : Option DataBytesSize :=
  if h : b = 1 ∨ b = 2 ∨ b = 4 ∨ b = 8 then some ⟨b, h⟩ else none

end DataBytesSize

/-- `unalignedLoad` of a value of `w` bytes. -/
def loadValue (w : Nat) (bytes : List UInt8) : BitVec (8 * w) := BitVec.ofNat (8 * w) (readLE (bytes.take w))

/-- `unalignedStore` of a value of `w` bytes. -/
def storeValue {w : Nat} (v : BitVec (8 * w)) : List UInt8 := writeLE w v.toNat

/-- The `k` values of `w` bytes at the start of `bytes`. -/
def loadValues (w : Nat) : Nat → List UInt8 → List (BitVec (8 * w))
  | 0, _ => []
  | k + 1, bytes => loadValue w bytes :: loadValues w k (bytes.drop w)

@[simp] theorem length_loadValues (w k : Nat) (bytes : List UInt8) : (loadValues w k bytes).length = k := by
  induction k generalizing bytes with
  | zero => rfl
  | succ k ih => simp [loadValues, ih]

@[simp] theorem length_storeValue {w : Nat} (v : BitVec (8 * w)) : (storeValue v).length = w := length_writeLE w _

/-- A value stored and loaded back, whatever follows it. -/
theorem loadValue_storeValue_append (w : Nat) (v : BitVec (8 * w)) (rest : List UInt8) :
    loadValue w (storeValue v ++ rest) = v := by
  have hlt : v.toNat < 256 ^ w := by
    have := v.isLt
    rwa [Nat.pow_mul] at this
  rw [loadValue, storeValue, List.take_left' (length_writeLE w _), readLE_writeLE, Nat.mod_eq_of_lt hlt]
  simp

/-- The bytes of a value loaded and stored again. -/
theorem storeValue_loadValue (w : Nat) (bytes : List UInt8) (hlength : w ≤ bytes.length) :
    storeValue (loadValue w bytes) = bytes.take w := by
  have htake : (bytes.take w).length = w := by simp [hlength]
  have hlt : readLE (bytes.take w) < 2 ^ (8 * w) := by
    have := readLE_lt (bytes.take w)
    rwa [htake, show (256 : Nat) = 2 ^ 8 from rfl, ← Nat.pow_mul] at this
  rw [storeValue, loadValue, BitVec.toNat_ofNat, Nat.mod_eq_of_lt hlt]
  have hbytes := writeLE_readLE (bytes.take w)
  rwa [htake] at hbytes

/-- Values stored one after the other load back. -/
theorem loadValues_flatMap_storeValue (w : Nat) (vs : List (BitVec (8 * w))) :
    loadValues w vs.length (vs.flatMap storeValue) = vs := by
  induction vs with
  | nil => rfl
  | cons v vs ih =>
    rw [List.length_cons, List.flatMap_cons, loadValues, loadValue_storeValue_append,
      List.drop_left' (length_storeValue v), ih]

/-- Bytes of whole values load and store back to themselves. -/
theorem flatMap_storeValue_loadValues (w : Nat) :
    ∀ (k : Nat) (bytes : List UInt8), bytes.length = k * w → (loadValues w k bytes).flatMap storeValue = bytes
  | 0, bytes, h => by simp_all [loadValues]
  | k + 1, bytes, h => by
    have hrest : (bytes.drop w).length = k * w := by simp [h, Nat.succ_mul]
    rw [loadValues, List.flatMap_cons, storeValue_loadValue w bytes (by rw [h, Nat.succ_mul]; omega),
      flatMap_storeValue_loadValues w k _ hrest, List.take_append_drop]

/-- A `BitWriter`'s exception as the codec's. -/
def liftWriter {α : Type} (r : Except WriteAfterEnd α) : Except CodecError α :=
  r.mapError fun e => .cannotWriteAfterEndOfBuffer e.available e.required

theorem liftWriter_eq_ok {α : Type} {r : Except WriteAfterEnd α} {a : α} : liftWriter r = .ok a ↔ r = .ok a := by
  cases r <;> simp [liftWriter, Except.mapError]

/-- `COMPRESSED_BLOCK_HEADER_SIZE`. -/
def headerSize : UInt32 := 9

/-- A size that leaves room for the header adds to it without wrapping. -/
theorem toNat_headerSize_add {size : UInt32} (h : size.toNat + 9 < 2 ^ 32) :
    (headerSize + size).toNat = 9 + size.toNat := by
  rw [UInt32.toNat_add, show headerSize.toNat = 9 from rfl, Nat.mod_eq_of_lt (by omega)]

/-- `readCompressedBlockSize(source)`: the first size of the header. -/
def readCompressedBlockSize (source : List UInt8) : UInt32 := (readLE ((source.drop 1).take 4)).toUInt32

/-- `readDecompressedBlockSize(source)`: the second size of the header. -/
def readDecompressedBlockSize (source : List UInt8) : UInt32 := (readLE ((source.drop 5).take 4)).toUInt32

/-- A codec: its method byte and its methods, over the process state `σ`. -/
structure Codec (σ : Type) where
  methodByte : UInt8
  getMaxCompressedDataSize : UInt32 → σ → UInt32 × σ
  doCompressData : List UInt8 → σ → Except CodecError (List UInt8 × UInt32) × σ
  doDecompressData : List UInt8 → UInt32 → Except CodecError (List UInt8)

namespace Codec

variable {σ : Type}

/-- `getCompressedReserveSize(uncompressed_size)`. -/
def getCompressedReserveSize (codec : Codec σ) (uncompressedSize : UInt32) (s : σ) : UInt32 × σ :=
  let (size, s) := codec.getMaxCompressedDataSize uncompressedSize s
  (headerSize + size, s)

/-- `compress(source, source_size, dest)`: the bytes written to `dest` and the
size returned. -/
def compress (codec : Codec σ) (source : List UInt8) (s : σ) : Except CodecError (List UInt8 × UInt32) × σ :=
  let (r, s) := codec.doCompressData source s
  (r.map fun (data, written) =>
    (codec.methodByte :: writeLE 4 (written + headerSize).toNat ++ writeLE 4 source.length ++ data, headerSize + written), s)

/-- What `compress` writes when it returns: the header, then what
`doCompressData` writes. -/
theorem compress_eq_ok {codec : Codec σ} {source block : List UInt8} {s s' : σ} {size : UInt32}
    (h : codec.compress source s = (.ok (block, size), s')) :
    ∃ data written, codec.doCompressData source s = (.ok (data, written), s') ∧
      block = codec.methodByte :: writeLE 4 (written + headerSize).toNat ++ writeLE 4 source.length ++ data ∧
      size = headerSize + written := by
  unfold compress at h
  rcases hc : codec.doCompressData source s with ⟨r, t⟩
  rw [hc] at h
  cases r with
  | error e => cases h
  | ok p =>
    obtain ⟨data, written⟩ := p
    simp only [Except.map, Prod.mk.injEq, Except.ok.injEq] at h
    obtain ⟨⟨rfl, rfl⟩, rfl⟩ := h
    exact ⟨data, written, rfl, rfl, rfl⟩

/-- `decompress(source, source_size, dest)`: the size returned and the bytes
written to `dest`. -/
def decompress (codec : Codec σ) (source : List UInt8) : Except CodecError (UInt32 × List UInt8) := do
  if source.length < headerSize.toNat then throw (.corruptedData source.length)
  let method := source.headD 0
  if method ≠ codec.methodByte then throw (.wrongMethod method codec.methodByte)
  let decompressedSize := (readLE ((source.drop 5).take 4)).toUInt32
  let dest ← codec.doDecompressData (source.drop headerSize.toNat) decompressedSize
  pure (decompressedSize, dest)

/-- `decompress` of a block with the codec's method byte: what
`doDecompressData` makes of the data, at the size the header declares. -/
theorem decompress_header (codec : Codec σ) (compressedSize uncompressedSize : UInt32) (data : List UInt8) :
    codec.decompress (codec.methodByte :: writeLE 4 compressedSize.toNat ++ writeLE 4 uncompressedSize.toNat ++ data) =
      (codec.doDecompressData data uncompressedSize).map fun dest => (uncompressedSize, dest) := by
  have hsize : (readLE (((codec.methodByte :: writeLE 4 compressedSize.toNat ++ writeLE 4 uncompressedSize.toNat ++
      data).drop 5).take 4)).toUInt32 = uncompressedSize := by
    simp only [List.cons_append, List.append_assoc, List.drop_succ_cons]
    rw [List.drop_append_of_le_length (by simp), List.drop_eq_nil_of_le (by simp), List.nil_append,
      List.take_left' (length_writeLE 4 _), readLE_writeLE, Nat.mod_eq_of_lt (by simpa using uncompressedSize.toNat_lt)]
    simp
  have hdata : (codec.methodByte :: writeLE 4 compressedSize.toNat ++ writeLE 4 uncompressedSize.toNat ++ data).drop
      headerSize.toNat = data := by
    simp only [List.cons_append, List.append_assoc, headerSize, UInt32.reduceToNat, List.drop_succ_cons]
    rw [← List.append_assoc, List.drop_left' (by simp)]
  have hlength : ¬ (codec.methodByte :: writeLE 4 compressedSize.toNat ++ writeLE 4 uncompressedSize.toNat ++
      data).length < headerSize.toNat := by
    simp [headerSize]
    omega
  unfold decompress
  rw [if_neg hlength, hsize, hdata]
  simp only [List.cons_append, List.headD_cons, ne_eq, not_true_eq_false, if_false]
  cases codec.doDecompressData data uncompressedSize <;> rfl

/-- The same, where the header declares the size of a source that fits. -/
theorem decompress_header_length (codec : Codec σ) (compressedSize : UInt32) {source : List UInt8}
    (hsource : source.length < 2 ^ 32) (data : List UInt8) :
    codec.decompress (codec.methodByte :: writeLE 4 compressedSize.toNat ++ writeLE 4 source.length ++ data) =
      (codec.doDecompressData data source.length.toUInt32).map fun dest => (source.length.toUInt32, dest) := by
  have hsize : source.length.toUInt32.toNat = source.length := by simp; omega
  rw [← decompress_header codec compressedSize, hsize]

/-- A block that `decompress` accepts is no shorter than the header, and the
size it returns is the one the header declares. -/
theorem decompress_eq_ok {codec : Codec σ} {source dest : List UInt8} {size : UInt32}
    (h : codec.decompress source = .ok (size, dest)) :
    headerSize.toNat ≤ source.length ∧ size = readDecompressedBlockSize source := by
  unfold decompress at h
  by_cases hlength : source.length < headerSize.toNat
  · rw [if_pos hlength] at h
    cases h
  · rw [if_neg hlength] at h
    by_cases hmethod : source.headD 0 = codec.methodByte
    · rw [if_neg (not_not.mpr hmethod)] at h
      obtain ⟨_, -, hpure⟩ := Daisy.Library.bind_eq_ok h
      cases hpure
      exact ⟨Nat.le_of_not_lt hlength, rfl⟩
    · rw [if_pos hmethod] at h
      cases h

end Codec

/-! ### The frame of the delta codecs -/

/-- The `doCompressData` of `DoubleDelta` and `Gorilla`: the width, the
number of bytes before the first whole value from the end, those bytes, and
what `compressDataForType` writes of the rest; it returns `1 + 1` and what
`compressDataForType` returns. -/
def frameDoCompressData (dataBytesSize : UInt8) (compressDataForType : List UInt8 → Except CodecError (List UInt8 × UInt32))
    (source : List UInt8) : Except CodecError (List UInt8 × UInt32) := do
  let bytesToSkip := source.length % dataBytesSize.toNat
  let (data, compressedSize) ← compressDataForType (source.drop bytesToSkip)
  pure (dataBytesSize :: bytesToSkip.toUInt8 :: source.take bytesToSkip ++ data, 1 + 1 + compressedSize)

/-- The `doDecompressData` of `DoubleDelta` and `Gorilla`: the unaligned bytes
copied, and `decompressDataForType` of the width the frame gives on the rest,
as many bytes as the block has after them. A width of zero divides by zero. -/
def frameDoDecompressData (decompressDataForType : UInt8 → List UInt8 → Except CodecError (List UInt8))
    (source : List UInt8) (uncompressedSize : UInt32) : Except CodecError (List UInt8) := do
  if source.length < 2 then throw .wrongHeader
  let bytesSize := source.headD 0
  if bytesSize = 0 then throw .undefined
  let bytesToSkip := uncompressedSize.toNat % bytesSize.toNat
  if source.length < 2 + bytesToSkip then throw .wrongHeader
  let values ← decompressDataForType bytesSize (source.drop (2 + bytesToSkip))
  pure ((source.drop 2).take bytesToSkip ++ values)

/-- A frame of width `0`: `uncompressed_size % bytes_size` divides by zero. -/
theorem frameDoDecompressData_zero (decompressDataForType : UInt8 → List UInt8 → Except CodecError (List UInt8))
    (b : UInt8) (rest : List UInt8) (uncompressedSize : UInt32) :
    frameDoDecompressData decompressDataForType (0 :: b :: rest) uncompressedSize = .error .undefined := by
  simp [frameDoDecompressData]
  rfl

/-- A frame of a width that is not zero and skips no more bytes than it has:
the skipped bytes, then what `decompressDataForType` writes of the rest. -/
theorem frameDoDecompressData_of_ne_zero (decompressDataForType : UInt8 → List UInt8 → Except CodecError (List UInt8))
    {bytesSize : UInt8} (b : UInt8) (data : List UInt8) {uncompressedSize : UInt32} (hwidth : bytesSize ≠ 0)
    (hskip : uncompressedSize.toNat % bytesSize.toNat ≤ data.length) :
    frameDoDecompressData decompressDataForType (bytesSize :: b :: data) uncompressedSize =
      (decompressDataForType bytesSize (data.drop (uncompressedSize.toNat % bytesSize.toNat))).map
        fun values => data.take (uncompressedSize.toNat % bytesSize.toNat) ++ values := by
  have hdrop : (bytesSize :: b :: data).drop (2 + uncompressedSize.toNat % bytesSize.toNat) =
      data.drop (uncompressedSize.toNat % bytesSize.toNat) := by
    rw [Nat.add_comm]
    rfl
  simp only [frameDoDecompressData, List.length_cons, List.headD_cons, hwidth, if_false, hdrop]
  rw [if_neg (by omega), if_neg (by omega)]
  cases decompressDataForType bytesSize (data.drop (uncompressedSize.toNat % bytesSize.toNat)) <;> rfl

/-- The framed `doCompressData` returns the size it writes less the bytes that
make no whole value. -/
theorem frameDoCompressData_returns {dataBytesSize : UInt8}
    {compressDataForType : List UInt8 → Except CodecError (List UInt8 × UInt32)}
    (hreturns : ∀ src data size, compressDataForType src = .ok (data, size) → data.length < 2 ^ 32 →
      size.toNat = data.length)
    {source written : List UInt8} {size : UInt32}
    (h : frameDoCompressData dataBytesSize compressDataForType source = .ok (written, size))
    (hsmall : written.length < 2 ^ 32) :
    size.toNat + source.length % dataBytesSize.toNat = written.length := by
  simp only [frameDoCompressData, bind, Except.bind] at h
  split at h
  · cases h
  · rename_i data compressedSize hc
    simp only [pure, Except.pure, Except.ok.injEq, Prod.mk.injEq] at h
    obtain ⟨rfl, rfl⟩ := h
    have hskip : (source.take (source.length % dataBytesSize.toNat)).length = source.length % dataBytesSize.toNat := by
      simp only [List.length_take]
      exact Nat.min_eq_left (Nat.mod_le _ _)
    simp only [List.length_cons, List.length_append, hskip] at hsmall ⊢
    have hdata := hreturns _ _ _ hc (by omega)
    rw [UInt32.toNat_add, hdata, Nat.mod_eq_of_lt (by simp; omega)]
    simp
    omega

end Daisy.Compression
