import Daisy.Compression.ICompressionCodec

/-!
# `NONE`, `LZ4` and the codec of a method byte

`Compression/CompressionCodecNone.cpp`, `Compression/CompressionCodecLZ4.cpp`
and `CompressionCodecFactory::get(byte_code)` of
`Compression/CompressionFactory.cpp`.

`NONE` copies its source. `LZ4` has `LZ4_compress_default` write into the
`LZ4_COMPRESSBOUND` bytes it reserves, and has `LZ4::decompress`
(`LZ4_decompress_faster.cpp`) decode, without looking at how that went. The
factory makes a codec, with no arguments, from the method byte of a block: one
of the eight bytes codecs are registered under, or it throws "Unknown codec
family code".

## The model

The `lz4` library is not among the sources, and `LZ4::decompress` is a decoder
tuned by statistics of its own: together they are a parameter (`LZ4`), and
what the codec relies on of them, for sources up to a size, a predicate
(`LZ4.RoundTrips`). The codecs of the other six registered bytes are a
parameter of the factory (`CompressionCodecFactory.others`): their modules
model them with the arguments that the factory does not give.

## What is proved

`CompressionCodecLZ4.decompress_compress`: for every source the library
round-trips, `LZ4`'s `compress` writes a block within its reserve and within
what a reader takes, whose header declares its size, and `decompress` decodes
the block to the source.
-/

namespace Daisy.Compression

open Daisy.IO

/-- `DBMS_MAX_COMPRESSED_SIZE`: the largest block a reader takes. -/
def maxCompressedSize : Nat := 0x40000000

/-- The `lz4` library's `LZ4_COMPRESSBOUND` and `LZ4_compress_default`, and
`LZ4::decompress`. -/
structure LZ4 where
  /-- `LZ4_COMPRESSBOUND(isize)`. -/
  compressBound : UInt32 → UInt32
  /-- `LZ4_compress_default(source, dest, inputSize, maxOutputSize)`: the bytes
  it writes to `dest`; it returns how many, `0` where it fails. -/
  compressDefault : List UInt8 → UInt32 → List UInt8
  /-- `LZ4::decompress(source, dest, source_size, dest_size, statistics)`: the
  bytes it writes to `dest`, or `none` for a block that leaves them undefined. -/
  decompress : List UInt8 → UInt32 → Option (List UInt8)

/-- What `LZ4` relies on of the library for sources of at most `maxSize`
bytes: `LZ4_compress_default`, given `LZ4_COMPRESSBOUND` bytes, writes no more
than that, which with the header is a block a reader takes; and
`LZ4::decompress` decodes what it writes to the source. -/
structure LZ4.RoundTrips (lz4 : LZ4) (maxSize : Nat) : Prop where
  compressBound_le : ∀ n ≤ maxSize, headerSize.toNat + (lz4.compressBound n.toUInt32).toNat ≤ maxCompressedSize
  compressDefault_le : ∀ source : List UInt8, source.length ≤ maxSize →
    (lz4.compressDefault source (lz4.compressBound source.length.toUInt32)).length ≤
      (lz4.compressBound source.length.toUInt32).toNat
  decompress_compressDefault : ∀ source : List UInt8, source.length ≤ maxSize →
    lz4.decompress (lz4.compressDefault source (lz4.compressBound source.length.toUInt32))
      source.length.toUInt32 = some source

namespace CompressionCodecNone

/-- `CompressionCodecNone::doDecompressData`: `memcpy` of `uncompressed_size`
bytes, which reads past a source that is shorter. -/
def doDecompressData (source : List UInt8) (uncompressedSize : UInt32) : Except CodecError (List UInt8) :=
  if uncompressedSize.toNat ≤ source.length then pure (source.take uncompressedSize.toNat) else throw .undefined

/-- `CompressionCodecNone`: the source as it is, in a reserve of its size
(`ICompressionCodec::getMaxCompressedDataSize`). -/
def make : Codec Unit where
  methodByte := 0x02
  getMaxCompressedDataSize uncompressedSize _ := (uncompressedSize, ())
  doCompressData source _ := (.ok (source, source.length.toUInt32), ())
  doDecompressData := doDecompressData

end CompressionCodecNone

namespace CompressionCodecLZ4

/-- `CompressionCodecLZ4::doCompressData`: `LZ4_compress_default` into
`LZ4_COMPRESSBOUND(source_size)` bytes, and what it returns. -/
def doCompressData (lz4 : LZ4) (source : List UInt8) : List UInt8 × UInt32 :=
  let written := lz4.compressDefault source (lz4.compressBound source.length.toUInt32)
  (written, written.length.toUInt32)

/-- `CompressionCodecLZ4::doDecompressData`: what `LZ4::decompress` writes. -/
def doDecompressData (lz4 : LZ4) (source : List UInt8) (uncompressedSize : UInt32) : Except CodecError (List UInt8) :=
  match lz4.decompress source uncompressedSize with
  | some dest => pure dest
  | none => throw .undefined

/-- `CompressionCodecLZ4`. -/
def make (lz4 : LZ4) : Codec Unit where
  methodByte := 0x82
  getMaxCompressedDataSize uncompressedSize _ := (lz4.compressBound uncompressedSize, ())
  doCompressData source _ := (.ok (doCompressData lz4 source), ())
  doDecompressData := doDecompressData lz4

variable {lz4 : LZ4} {maxSize : Nat}

/-- **`LZ4` decodes what it encodes.** For every source of at most `maxSize`
bytes, with a library that round-trips such sources: `compress` writes a
block within the reserve `getCompressedReserveSize` gives, a block no larger
than a reader takes, with the codec's method byte, returns its size, which
the header declares, and `decompress` decodes it to the source and its
size. -/
theorem decompress_compress (hlz4 : lz4.RoundTrips maxSize) {source : List UInt8} (hsource : source.length ≤ maxSize)
    (hsmall : source.length < 2 ^ 32) :
    ∃ block, (make lz4).compress source () = (.ok (block, block.length.toUInt32), ()) ∧
      block.length ≤ ((make lz4).getCompressedReserveSize source.length.toUInt32 ()).1.toNat ∧
      block.length ≤ maxCompressedSize ∧ block.headD 0 = (make lz4).methodByte ∧
      (readCompressedBlockSize block).toNat = block.length ∧
      (make lz4).decompress block = .ok (source.length.toUInt32, source) := by
  have hbound : 9 + (lz4.compressBound source.length.toUInt32).toNat ≤ 0x40000000 :=
    hlz4.compressBound_le source.length hsource
  set written := lz4.compressDefault source (lz4.compressBound source.length.toUInt32)
  have hwritten : written.length ≤ (lz4.compressBound source.length.toUInt32).toNat :=
    hlz4.compressDefault_le source hsource
  -- no size here comes near `2 ^ 32`, so none wraps
  have hwrittenSize : written.length.toUInt32.toNat = written.length :=
    UInt32.toNat_ofNat_of_lt' (by rw [UInt32.size]; omega)
  have hsize : (written.length.toUInt32 + headerSize).toNat = written.length + 9 := by
    rw [UInt32.add_comm, toNat_headerSize_add (by omega), hwrittenSize, Nat.add_comm]
  have hreturned : headerSize + written.length.toUInt32 = (written.length + 9).toUInt32 := by
    apply UInt32.toNat_inj.mp
    rw [toNat_headerSize_add (by omega), hwrittenSize, UInt32.toNat_ofNat_of_lt' (by rw [UInt32.size]; omega),
      Nat.add_comm]
  have hreserve : ((make lz4).getCompressedReserveSize source.length.toUInt32 ()).1.toNat =
      9 + (lz4.compressBound source.length.toUInt32).toNat := by
    show (headerSize + lz4.compressBound source.length.toUInt32).toNat = _
    exact toNat_headerSize_add (by omega)
  have hlength : (0x82 :: writeLE 4 (written.length.toUInt32 + headerSize).toNat ++ writeLE 4 source.length ++
      written).length = written.length + 9 := by
    simp only [List.cons_append, List.length_cons, List.length_append, length_writeLE]
    omega
  refine ⟨0x82 :: writeLE 4 (written.length.toUInt32 + headerSize).toNat ++ writeLE 4 source.length ++ written,
    ?_, ?_, ?_, rfl, ?_, ?_⟩
  · rw [hlength, ← hreturned]
    rfl
  · rw [hlength, hreserve]
    omega
  · rw [hlength]
    unfold maxCompressedSize
    omega
  · rw [hlength, readCompressedBlockSize, hsize]
    simp only [List.cons_append, List.drop_succ_cons, List.drop_zero, List.append_assoc]
    rw [List.take_left' (length_writeLE 4 _), readLE_writeLE, Nat.mod_eq_of_lt (by omega), UInt32.toNat_ofNat']
    omega
  · have hdecode := Codec.decompress_header_length (make lz4) (written.length.toUInt32 + headerSize) hsmall written
    rw [show (make lz4).methodByte = 0x82 from rfl] at hdecode
    have hdecompress : lz4.decompress written source.length.toUInt32 = some source :=
      hlz4.decompress_compressDefault source hsource
    rw [hdecode]
    simp only [make, doDecompressData, hdecompress]
    rfl

end CompressionCodecLZ4

/-- The method bytes of `ZSTD`, `Multiple`, `Delta`, `T64`, `DoubleDelta` and
`Gorilla`, the other codecs the factory registers a byte for. -/
def otherMethodBytes : List UInt8 := [0x90, 0x91, 0x92, 0x93, 0x94, 0x95]

/-- The codecs `CompressionCodecFactory` makes from a method byte: `NONE` and
`LZ4` as modelled here, and those of the other registered bytes. -/
structure CompressionCodecFactory where
  lz4 : LZ4
  others : UInt8 → Except CodecError (Codec Unit)

/-- `CompressionCodecFactory::get(byte_code)`. -/
def CompressionCodecFactory.get (factory : CompressionCodecFactory) (byteCode : UInt8) : Except CodecError (Codec Unit) :=
  if byteCode = 0x02 then pure CompressionCodecNone.make
  else if byteCode = 0x82 then pure (CompressionCodecLZ4.make factory.lz4)
  else if byteCode ∈ otherMethodBytes then factory.others byteCode
  else throw (.unknownCodecFamilyCode byteCode)

end Daisy.Compression
