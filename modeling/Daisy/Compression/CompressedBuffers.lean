import Daisy.Compression.CompressionFactory
import Daisy.Contrib.CityHash
import Daisy.Library.Frames
import Daisy.Storages.DistributedMergeTree.Sequences

/-!
# `CompressedWriteBuffer` and `CompressedReadBuffer`

`Compression/CompressedWriteBuffer.cpp`, `Compression/CompressedReadBufferBase.cpp`
and `Compression/CompressedReadBuffer.cpp`: a stream of compressed frames.

The write buffer collects what is written to it in a working buffer of
`buf_size` bytes; each time the buffer is full and more comes, and at the last
`next`, `nextImpl` compresses what it holds into a block of the codec, in a
buffer of `getCompressedReserveSize` bytes, and writes the block's
`CityHash128` and then the block. The read buffer reads a frame at a time: the
checksum and the block header, the codec of the first block's method byte from
the factory and the same byte on every later block, the sizes the header
declares, checked against `DBMS_MAX_COMPRESSED_SIZE` and the header size, the
rest of the block, the checksum checked, and the block decompressed into a
working buffer of the declared size; `NONE` takes the block's data as it is.

## The model

The write buffer is `CompressedWriteBuffer.write`: the data in pieces of
`buf_size` bytes (`Daisy.Library.chunks`), each one a frame, over the process
state `σ` of the codec. The read buffer is a `FrameReader` whose state is the
codec of the blocks read so far, run to the end of its input
(`CompressedReadBuffer.readAll`): the source decompresses a block when the
reader on top asks for more bytes, and the two differ only on input that goes
on past what that reader takes. The factory is `CompressionCodecFactory`. The
second look of `decompress` at the method byte (`readHeaderAndGetCodec`) and
`NONE`'s second check of the block size look again at what
`readCompressedData` checked, and pass. A codec that writes past its reserve
or returns more bytes than it writes, and a block that decompresses to another
size than its header declares, leave memory undefined (`CodecError.undefined`).

## What is proved

`read_write_lz4`: for every build and every buffer size that the `lz4`
library round-trips, what an `LZ4` write buffer writes for any data reads back
as that data.
-/

namespace Daisy.Compression

open Daisy.IO Daisy.Library Daisy.CityHash
open Daisy.DistributedMergeTree (Build Failure assert assert_ok)

/-! ### Writing -/

/-- `DBMS_DEFAULT_BUFFER_SIZE`. -/
def defaultBufferSize : Nat := 1048576

namespace CompressedWriteBuffer

variable {σ : Type}

/-- `CompressedWriteBuffer::nextImpl` of the bytes of the working buffer: the
checksum and the block it writes to `out`. -/
def nextImpl (codec : Codec σ) (working : List UInt8) (s : σ) : Except CodecError (List UInt8) × σ :=
  if working = [] then (.ok [], s)
  else
    let (compressedReserveSize, s) := codec.getCompressedReserveSize working.length.toUInt32 s
    match codec.compress working s with
    | (.error e, s) => (.error e, s)
    | (.ok (written, compressedSize), s) =>
      -- `compressed_buffer` holds `compressed_reserve_size` bytes, of which the
      -- checksum and `out` read `compressed_size`
      if compressedReserveSize.toNat < written.length ∨ written.length < compressedSize.toNat then (.error .undefined, s)
      else
        let block := written.take compressedSize.toNat
        (.ok (checksumBytes (cityHash128 block) ++ block), s)

/-- `nextImpl` on the pieces one after the other, up to the first exception. -/
def writePieces (codec : Codec σ) : List (List UInt8) → σ → Except CodecError (List UInt8) × σ
  | [], s => (.ok [], s)
  | working :: pieces, s =>
    match nextImpl codec working s with
    | (.error e, s) => (.error e, s)
    | (.ok frame, s) =>
      let (r, s) := writePieces codec pieces s
      (r.map (frame ++ ·), s)

/-- What a `CompressedWriteBuffer` of `buf_size` bytes writes to `out` for the
data written to it, up to its last `next`: `WriteBuffer::write` has
`nextImpl` take the working buffer each time it is full and more comes, and
`next` takes what is left. -/
def write (codec : Codec σ) (bufSize : Nat) (data : List UInt8) (s : σ) : Except CodecError (List UInt8) × σ :=
  writePieces codec (chunks bufSize data) s

/-- Pieces each written as a frame that `P` relates to it, with the state left
as it is: the frames one after the other. -/
theorem writePieces_eq_ok (codec : Codec σ) (s : σ) (P : List UInt8 → List UInt8 → Prop) :
    ∀ pieces : List (List UInt8), (∀ working ∈ pieces, ∃ frame, nextImpl codec working s = (.ok frame, s) ∧ P frame working) →
      ∃ frames : List (List UInt8 × List UInt8), frames.map Prod.snd = pieces ∧ (∀ p ∈ frames, P p.1 p.2) ∧
        writePieces codec pieces s = (.ok (frames.map Prod.fst).flatten, s)
  | [], _ => ⟨[], rfl, by simp, rfl⟩
  | working :: pieces, h => by
    obtain ⟨frame, hnext, hP⟩ := h working List.mem_cons_self
    obtain ⟨frames, hpieces, hframes, hrest⟩ :=
      writePieces_eq_ok codec s P pieces fun w hw => h w (List.mem_cons_of_mem working hw)
    refine ⟨(frame, working) :: frames, by rw [List.map_cons, hpieces], ?_, ?_⟩
    · rintro p (_ | ⟨_, hp⟩)
      · exact hP
      · exact hframes p hp
    · rw [writePieces, hnext]
      simp only [hrest, List.map_cons, List.flatten_cons]
      rfl

end CompressedWriteBuffer

/-! ### Reading -/

/-- What reading a `CompressedReadBuffer` throws. -/
inductive ReadError where
  /-- `readStrict` of the compressed input. -/
  | binary (e : BinaryError)
  /-- The factory or the codec threw. -/
  | codec (e : CodecError)
  /-- "Data compressed with different methods, given method byte 0x`method`,
  previous method byte 0x`previous`" (`CANNOT_DECOMPRESS`). -/
  | differentMethods (method previous : UInt8)
  /-- "Too large size_compressed_without_checksum: `size`. Most likely
  corrupted data." (`TOO_LARGE_SIZE_COMPRESSED`). -/
  | tooLargeSizeCompressed (size : UInt32)
  /-- "Can't decompress data: the compressed data size (`size`, this should
  include header size) is less than the header size (9)" (`CORRUPTED_DATA`). -/
  | corruptedData (size : UInt32)
  /-- "Checksum doesn't match: corrupted data. Reference: `expected`. Actual:
  `actual`. Size of compressed block: `size`", with what it then finds of a
  flipped bit (`CHECKSUM_DOESNT_MATCH`). -/
  | checksumDoesntMatch (expected actual : UInt64 × UInt64) (size : Nat)
  /-- An `assert` of a debug build. -/
  | failure (f : Failure)
  deriving DecidableEq, Repr

namespace CompressedReadBufferBase

/-- The codec of a block with method byte `method`: from the factory for the
first block, and the one before, of the same byte, for every later one. -/
def getCodec (factory : CompressionCodecFactory) (codec : Option (Codec Unit)) (method : UInt8) :
    Except ReadError (Codec Unit) :=
  match codec with
  | none => (factory.get method).mapError .codec
  | some codec => if method ≠ codec.methodByte then throw (.differentMethods method codec.methodByte) else pure codec

/-- The checks of the sizes a block header declares: the compressed size,
where it passes them. -/
def checkSizes (b : Build) (compressedHeader : List UInt8) : Except ReadError UInt32 := do
  let sizeCompressedWithoutChecksum := readCompressedBlockSize compressedHeader
  let sizeDecompressed := readDecompressedBlockSize compressedHeader
  (assert b (decide (0 < sizeDecompressed)) "size_decompressed > 0").mapError .failure
  if maxCompressedSize < sizeCompressedWithoutChecksum.toNat then
    throw (.tooLargeSizeCompressed sizeCompressedWithoutChecksum)
  if sizeCompressedWithoutChecksum < headerSize then throw (.corruptedData sizeCompressedWithoutChecksum)
  pure sizeCompressedWithoutChecksum

/-- `validateChecksum(data, size, expected_checksum)`. -/
def validateChecksum (data : List UInt8) (expectedChecksum : UInt64 × UInt64) : Except ReadError Unit :=
  if expectedChecksum = cityHash128 data then pure ()
  else throw (.checksumDoesntMatch expectedChecksum (cityHash128 data) data.length)

/-- `CompressedReadBufferBase::readCompressedData` at input that has not ended,
with the codec of the blocks read before: the codec, the block with its header,
and the input after it. -/
def readCompressedData (factory : CompressionCodecFactory) (b : Build) (codec : Option (Codec Unit))
    (input : List UInt8) : Except ReadError (Codec Unit × List UInt8 × List UInt8) := do
  let (ownCompressedBuffer, input) ← (readStrict (16 + headerSize.toNat) input).mapError .binary
  let compressedHeader := ownCompressedBuffer.drop 16
  let codec ← getCodec factory codec (compressedHeader.headD 0)
  let sizeCompressedWithoutChecksum ← checkSizes b compressedHeader
  let (data, input) ← (readStrict (sizeCompressedWithoutChecksum.toNat - headerSize.toNat) input).mapError .binary
  let compressedBuffer := compressedHeader ++ data
  validateChecksum compressedBuffer (readChecksum ownCompressedBuffer)
  pure (codec, compressedBuffer, input)

/-- `CompressedReadBufferBase::decompress` of a block into a working buffer of
the size its header declares: `NONE`'s `isNone` takes the block's data as it
is. -/
def decompress (codec : Codec Unit) (compressedBuffer : List UInt8) : Except ReadError (List UInt8) :=
  if codec.methodByte = 0x02 then pure (compressedBuffer.drop headerSize.toNat)
  else do
    let (sizeDecompressed, dest) ← (codec.decompress compressedBuffer).mapError .codec
    -- the working buffer holds `size_decompressed` bytes
    if dest.length ≠ sizeDecompressed.toNat then throw (.codec .undefined)
    pure dest

/-- What `readCompressedData` returns: the block that follows the checksum,
no shorter than a header, and the input after it. -/
theorem readCompressedData_eq_ok {factory : CompressionCodecFactory} {b : Build} {codec : Option (Codec Unit)}
    {input block rest : List UInt8} {c : Codec Unit}
    (h : readCompressedData factory b codec input = .ok (c, block, rest)) :
    ∃ checksum : List UInt8, checksum.length = 16 ∧ input = checksum ++ block ++ rest ∧
      headerSize.toNat ≤ block.length := by
  unfold readCompressedData at h
  obtain ⟨⟨own, input₁⟩, hown, h⟩ := bind_eq_ok h
  obtain ⟨_, -, h⟩ := bind_eq_ok h
  obtain ⟨_, -, h⟩ := bind_eq_ok h
  obtain ⟨⟨data, input₂⟩, hdata, h⟩ := bind_eq_ok h
  obtain ⟨_, -, h⟩ := bind_eq_ok h
  cases h
  obtain ⟨hownLength, rfl⟩ := readStrict_eq_ok (mapError_eq_ok hown)
  obtain ⟨-, rfl⟩ := readStrict_eq_ok (mapError_eq_ok hdata)
  refine ⟨own.take 16, by simp [hownLength], ?_, by simp [hownLength]⟩
  simp only [List.append_assoc]
  rw [← List.append_assoc (own.take 16), List.take_append_drop]

/-- The codec of the state, or the factory's for the first block, where its
method byte is the block's. -/
theorem getCodec_eq_ok {factory : CompressionCodecFactory} {codec : Option (Codec Unit)} {c : Codec Unit}
    {method : UInt8}
    (hcodec : codec = none ∧ factory.get method = .ok c ∨ codec = some c ∧ c.methodByte = method) :
    getCodec factory codec method = .ok c := by
  rcases hcodec with ⟨rfl, hget⟩ | ⟨rfl, hmethod⟩
  · simp [getCodec, hget, Except.mapError]
  · simp [getCodec, hmethod]
    rfl

/-- A header whose sizes pass the checks: no larger than
`DBMS_MAX_COMPRESSED_SIZE`, no smaller than the header, and a decompressed
size the build's `assert` lets through. -/
theorem checkSizes_eq_ok {b : Build} {compressedHeader : List UInt8}
    (hmax : (readCompressedBlockSize compressedHeader).toNat ≤ maxCompressedSize)
    (hmin : headerSize.toNat ≤ (readCompressedBlockSize compressedHeader).toNat)
    (hassert : b = .release ∨ 0 < readDecompressedBlockSize compressedHeader) :
    checkSizes b compressedHeader = .ok (readCompressedBlockSize compressedHeader) := by
  have hsize : ¬ readCompressedBlockSize compressedHeader < headerSize := by
    rw [UInt32.lt_iff_toNat_lt]
    omega
  simp only [checkSizes, assert_ok (hassert.imp id decide_eq_true), Except.mapError, if_neg (Nat.not_lt.mpr hmax),
    hsize, if_false]
  rfl

theorem validateChecksum_cityHash128 (data : List UInt8) : validateChecksum data (cityHash128 data) = .ok () := by
  simp [validateChecksum]
  rfl

/-- The sizes of a header are those of the block it starts. -/
theorem readCompressedBlockSize_take (block : List UInt8) :
    readCompressedBlockSize (block.take headerSize.toNat) = readCompressedBlockSize block := by
  simp [readCompressedBlockSize, headerSize, List.drop_take, List.take_take]

theorem readDecompressedBlockSize_take (block : List UInt8) :
    readDecompressedBlockSize (block.take headerSize.toNat) = readDecompressedBlockSize block := by
  simp [readDecompressedBlockSize, headerSize, List.drop_take, List.take_take]

/-- **A frame is read as it was written.** The checksum of a block, the block
and whatever follows: a block of the method byte of the codec the state
holds, or of the one the factory makes for the first block, whose header
declares its size, which is no larger than `DBMS_MAX_COMPRESSED_SIZE`, and a
decompressed size the build's `assert` lets through. -/
theorem readCompressedData_frame {factory : CompressionCodecFactory} {b : Build} {codec : Option (Codec Unit)}
    {c : Codec Unit} {block : List UInt8} (rest : List UInt8)
    (hcodec : codec = none ∧ factory.get (block.headD 0) = .ok c ∨ codec = some c ∧ c.methodByte = block.headD 0)
    (hsize : (readCompressedBlockSize block).toNat = block.length) (hheader : headerSize.toNat ≤ block.length)
    (hmax : block.length ≤ maxCompressedSize) (hassert : b = .release ∨ 0 < readDecompressedBlockSize block) :
    readCompressedData factory b codec (checksumBytes (cityHash128 block) ++ block ++ rest) = .ok (c, block, rest) := by
  -- the first `readStrict` takes the checksum and the header, the second the rest of the block
  have hsplit : checksumBytes (cityHash128 block) ++ block ++ rest =
      (checksumBytes (cityHash128 block) ++ block.take headerSize.toNat) ++ (block.drop headerSize.toNat ++ rest) := by
    rw [List.append_assoc, List.append_assoc, ← List.append_assoc (block.take _), List.take_append_drop]
  have hfirst : readStrict (16 + headerSize.toNat) (checksumBytes (cityHash128 block) ++ block ++ rest) =
      .ok (checksumBytes (cityHash128 block) ++ block.take headerSize.toNat, block.drop headerSize.toNat ++ rest) := by
    have hlength : (checksumBytes (cityHash128 block) ++ block.take headerSize.toNat).length = 16 + headerSize.toNat := by
      simp only [List.length_append, length_checksumBytes, List.length_take]
      omega
    rw [hsplit, ← hlength, readStrict_append]
  have hheader' : (checksumBytes (cityHash128 block) ++ block.take headerSize.toNat).drop 16 = block.take headerSize.toNat :=
    List.drop_left' (length_checksumBytes _)
  have hmethod : (block.take headerSize.toNat).headD 0 = block.headD 0 := by
    rw [List.headD_eq_head?_getD, List.headD_eq_head?_getD, List.head?_take, if_neg (by decide)]
  have hcheck : checkSizes b (block.take headerSize.toNat) = .ok (readCompressedBlockSize block) := by
    rw [← readCompressedBlockSize_take]
    refine checkSizes_eq_ok ?_ ?_ ?_
    · rw [readCompressedBlockSize_take, hsize]
      exact hmax
    · rw [readCompressedBlockSize_take, hsize]
      exact hheader
    · rw [readDecompressedBlockSize_take]
      exact hassert
  have hsecond : readStrict ((readCompressedBlockSize block).toNat - headerSize.toNat) (block.drop headerSize.toNat ++ rest) =
      .ok (block.drop headerSize.toNat, rest) := by
    rw [hsize, ← List.length_drop, readStrict_append]
  unfold readCompressedData
  simp only [hfirst, hheader', hmethod, Except.mapError, bind, Except.bind, getCodec_eq_ok hcodec, hcheck, hsecond,
    List.take_append_drop, readChecksum_checksumBytes, validateChecksum_cityHash128]
  rfl

/-- A block of a codec other than `NONE` that decodes to as many bytes as its
header declares: what it decodes to. -/
theorem decompress_of_ne_none {codec : Codec Unit} {compressedBuffer dest : List UInt8} {size : UInt32}
    (hnone : codec.methodByte ≠ 0x02) (hdecompress : codec.decompress compressedBuffer = .ok (size, dest))
    (hsize : dest.length = size.toNat) :
    decompress codec compressedBuffer = .ok dest := by
  simp only [decompress, hnone, if_false, hdecompress, Except.mapError, bind, Except.bind, hsize, ne_eq,
    not_true_eq_false]
  rfl

end CompressedReadBufferBase

namespace CompressedReadBuffer

open CompressedReadBufferBase

/-- `CompressedReadBuffer::nextImpl`: a block read and decompressed into the
working buffer. -/
def nextImpl (factory : CompressionCodecFactory) (b : Build) (codec : Option (Codec Unit)) (input : List UInt8) :
    Except ReadError (List UInt8 × Option (Codec Unit) × List UInt8) := do
  let (codec, compressedBuffer, input) ← readCompressedData factory b codec input
  let workingBuffer ← decompress codec compressedBuffer
  pure (workingBuffer, some codec, input)

/-- A block read takes its checksum and its header, at least, off the input. -/
theorem nextImpl_shorter (factory : CompressionCodecFactory) (b : Build) (codec : Option (Codec Unit))
    (input : List UInt8) (r : List UInt8 × Option (Codec Unit) × List UInt8) (h : nextImpl factory b codec input = .ok r) :
    r.2.2.length < input.length := by
  obtain ⟨⟨c, block, rest⟩, hread, h⟩ := bind_eq_ok h
  obtain ⟨_, -, h⟩ := bind_eq_ok h
  cases h
  obtain ⟨checksum, hchecksum, rfl, hheader⟩ := readCompressedData_eq_ok hread
  simp only [List.length_append, hchecksum]
  omega

/-- The frames of a `CompressedReadBuffer`, with the codec of the blocks read
so far as their state. -/
def frames (factory : CompressionCodecFactory) (b : Build) : FrameReader UInt8 UInt8 (Option (Codec Unit)) ReadError where
  next := nextImpl factory b
  next_shorter := nextImpl_shorter factory b

/-- A `CompressedReadBuffer(in)` read to its end: what its blocks decompress
to, one after the other. -/
def readAll (factory : CompressionCodecFactory) (b : Build) (input : List UInt8) : Except ReadError (List UInt8) :=
  (frames factory b).readAll none input

end CompressedReadBuffer

/-! ### `LZ4` frames read back -/

section LZ4

open CompressedReadBufferBase CompressionCodecLZ4

variable {lz4 : LZ4} {maxSize : Nat}

/-- The frame `LZ4` writes for a piece of at most `maxSize` bytes is read back
as the piece, by a read buffer over a factory of the same library, from its
start or after other `LZ4` blocks, in either build. -/
theorem frame_lz4 (hlz4 : lz4.RoundTrips maxSize) {working : List UInt8} (hpos : 0 < working.length)
    (hworking : working.length ≤ maxSize) (hsmall : working.length < 2 ^ 32) :
    ∃ frame, CompressedWriteBuffer.nextImpl (make lz4) working () = (.ok frame, ()) ∧
      ∀ factory : CompressionCodecFactory, factory.lz4 = lz4 → ∀ b t rest, (t = none ∨ t = some (make lz4)) →
        CompressedReadBuffer.nextImpl factory b t (frame ++ rest) = .ok (working, some (make lz4), rest) := by
  obtain ⟨block, hcompress, hreserve, hmax, hmethod, hsize, hdecompress⟩ := decompress_compress hlz4 hworking hsmall
  have hblock : block.length.toUInt32.toNat = block.length := by
    rw [UInt32.toNat_ofNat']
    unfold maxCompressedSize at hmax
    omega
  refine ⟨checksumBytes (cityHash128 block) ++ block, ?_, ?_⟩
  · -- the block fits its reserve, and all of it is written
    have hne : working ≠ [] := List.ne_nil_of_length_pos hpos
    simp only [CompressedWriteBuffer.nextImpl, hne, if_false, hcompress, hblock, List.take_length]
    rw [if_neg (by omega)]
  · intro factory hfactory b t rest ht
    obtain ⟨hheader, hdecompressed⟩ := Codec.decompress_eq_ok hdecompress
    have hcodec : t = none ∧ factory.get (block.headD 0) = .ok (make lz4) ∨
        t = some (make lz4) ∧ (make lz4).methodByte = block.headD 0 := by
      rcases ht with rfl | rfl
      · exact .inl ⟨rfl, by rw [hmethod, ← hfactory]; rfl⟩
      · exact .inr ⟨rfl, hmethod.symm⟩
    -- the header declares the size of a piece, which is not empty
    have hassert : b = .release ∨ 0 < readDecompressedBlockSize block := by
      refine .inr ?_
      rw [← hdecompressed, UInt32.lt_iff_toNat_lt, UInt32.toNat_ofNat']
      simp only [UInt32.reduceToNat]
      omega
    have hread := readCompressedData_frame rest hcodec hsize hheader hmax hassert
    have hworkingBuffer : decompress (make lz4) block = .ok working :=
      decompress_of_ne_none (show (0x82 : UInt8) ≠ 0x02 by decide) hdecompress (by rw [UInt32.toNat_ofNat']; omega)
    simp only [CompressedReadBuffer.nextImpl, hread, hworkingBuffer, bind, Except.bind]
    rfl

/-- **What an `LZ4` write buffer writes reads back.** For every buffer size
the `lz4` library round-trips, every build and all data: the frames a
`CompressedWriteBuffer` with `LZ4` writes, read by a `CompressedReadBuffer`
over a factory of the same library, give the data back. -/
theorem read_write_lz4 {factory : CompressionCodecFactory} {bufSize : Nat} (hlz4 : factory.lz4.RoundTrips bufSize)
    (hbuf : 0 < bufSize) (hsmall : bufSize < 2 ^ 32) (b : Build) (data : List UInt8) :
    ∃ out, CompressedWriteBuffer.write (make factory.lz4) bufSize data () = (.ok out, ()) ∧
      CompressedReadBuffer.readAll factory b out = .ok data := by
  -- the reader's state is the codec of the blocks read so far: none, then `LZ4`
  let I : Option (Codec Unit) → Prop := fun t => t = none ∨ t = some (make factory.lz4)
  have hpieces : ∀ working ∈ chunks bufSize data, ∃ frame,
      CompressedWriteBuffer.nextImpl (make factory.lz4) working () = (.ok frame, ()) ∧
      ∀ t rest, I t → ∃ t', (CompressedReadBuffer.frames factory b).next t (frame ++ rest) = .ok (working, t', rest) ∧ I t' := by
    intro working hw
    obtain ⟨hpos, hle⟩ := length_mem_chunks hbuf hw
    obtain ⟨frame, hwrite, hread⟩ := frame_lz4 hlz4 hpos hle (by omega)
    exact ⟨frame, hwrite, fun t rest ht => ⟨_, hread factory rfl b t rest ht, .inr rfl⟩⟩
  obtain ⟨frames, hsnd, hframes, hwrite⟩ := CompressedWriteBuffer.writePieces_eq_ok _ () _ _ hpieces
  refine ⟨(frames.map Prod.fst).flatten, hwrite, ?_⟩
  have hread := (CompressedReadBuffer.frames factory b).readAll_flatten I frames hframes (.inl rfl)
  rwa [hsnd, flatten_chunks] at hread

end LZ4

end Daisy.Compression
