import Daisy.DataTypes.Serializations
import Daisy.Compression.CompressedBuffers

/-!
# Records of the Distributed Write Ahead Log

`Record::write` puts a record on the wire as a 64-bit flag word (bits 0 to 4
the version, 5 to 10 the opcode, 11 the compression bit) followed by the
record's block in the `Native` format, compressed with `LZ4` when asked.
`Record::read` takes the flag word apart and reads the block back.

## The model

A record is its opcode and its block; the headers, the topic, the partition
key and the sequence number are not written by `Record::write` and are left
out. The flag word is a `UInt64` as in the source. A compressed block goes
through a `CompressedWriteBuffer` of `DBMS_DEFAULT_BUFFER_SIZE` bytes with the
`LZ4` codec and comes back through a `CompressedReadBuffer`
(`Daisy.Compression.CompressedBuffers`): frames of checksum and block, whose
`lz4` library and other codecs are those of the factory
(`CompressionCodecFactory`). The data types of the block are a parameter
(`DataTypes`). `assert(Record::version(flags) == VERSION)`, like the read
buffer's `assert`, aborts a debug build only (`Build`).

## What is proved

* the flag word of an opcode below `MAX_OPS_CODE` decodes to version `1`, the
  opcode and the compression bit (`decode_flags`);
* `record_read_write`: with an `lz4` library that round-trips pieces of
  `DBMS_DEFAULT_BUFFER_SIZE` bytes, a record is read back with its opcode and
  the names and values of its block, each column's type being the one `DataTypeFactory`
  makes from the name `NativeBlockOutputStream` writes for client revision
  `0`; a type whose name does not start with `DateTime(`, and which the
  factory makes from its own name, comes back as it was;
* `read_write_dateTime_zone`: a `DateTime('UTC')` column comes back as
  `DateTime`.
-/

namespace Daisy.DWAL

open Daisy.IO Daisy.DataStreams Daisy.DataTypes Daisy.Compression
open Daisy.DistributedMergeTree (Build)

/-- `OpCode`. -/
inductive OpCode where
  /-- `ADD_DATA_BLOCK`. -/
  | addDataBlock
  /-- `ALTER_DATA_BLOCK`. -/
  | alterDataBlock
  /-- `CREATE_TABLE`. -/
  | createTable
  /-- `DELETE_TABLE`. -/
  | deleteTable
  /-- `ALTER_TABLE`. -/
  | alterTable
  /-- `CREATE_COLUMN`. -/
  | createColumn
  /-- `DELETE_COLUMN`. -/
  | deleteColumn
  /-- `ALTER_COLUMN`. -/
  | alterColumn
  /-- `CREATE_DATABASE`. -/
  | createDatabase
  /-- `DELETE_DATABASE`. -/
  | deleteDatabase
  /-- `CREATE_DICTIONARY`. -/
  | createDictionary
  /-- `DELETE_DICTIONARY`. -/
  | deleteDictionary
  /-- `MAX_OPS_CODE`. -/
  | maxOpsCode
  /-- `UNKNOWN`. -/
  | unknown
  deriving DecidableEq, Repr

/-- The value of an opcode (`enum class OpCode : uint8_t`). -/
def OpCode.toUInt8 : OpCode → UInt8
  | .addDataBlock => 0
  | .alterDataBlock => 1
  | .createTable => 2
  | .deleteTable => 3
  | .alterTable => 4
  | .createColumn => 5
  | .deleteColumn => 6
  | .alterColumn => 7
  | .createDatabase => 8
  | .deleteDatabase => 9
  | .createDictionary => 10
  | .deleteDictionary => 11
  | .maxOpsCode => 12
  | .unknown => 0x3F

/-- The opcodes below `MAX_OPS_CODE`, by value. -/
def opCodes : List OpCode :=
  [.addDataBlock, .alterDataBlock, .createTable, .deleteTable, .alterTable, .createColumn, .deleteColumn,
    .alterColumn, .createDatabase, .deleteDatabase, .createDictionary, .deleteDictionary]

/-- `Record::VERSION`. -/
def version : UInt64 := 1

/-- The flag word `Record::write` writes. -/
def writeFlags (op : OpCode) (compressed : Bool) : UInt64 :=
  version ||| (op.toUInt8.toUInt64 <<< 5) ||| (compressed.toUInt8.toUInt64 <<< 11)

/-- `Record::version(flags)`. -/
def Record.version (flags : UInt64) : UInt8 := (flags &&& 0x1F).toUInt8

/-- `Record::opcode(flags)`: `UNKNOWN` from `MAX_OPS_CODE` on. -/
def Record.opcode (flags : UInt64) : OpCode :=
  let opcode := (flags >>> 5) &&& 0x3F
  if opcode < OpCode.maxOpsCode.toUInt8.toUInt64 then opCodes.getD opcode.toNat .unknown else .unknown

/-- `Record::compression(flags)`. -/
def Record.compression (flags : UInt64) : UInt8 := ((flags >>> 11) &&& 0x01).toUInt8

/-- The flag word of an opcode below `MAX_OPS_CODE` decodes to what was written. -/
theorem decode_flags (op : OpCode) (hop : op.toUInt8 < OpCode.maxOpsCode.toUInt8) (compressed : Bool) :
    Record.version (writeFlags op compressed) = 1 ∧ Record.opcode (writeFlags op compressed) = op ∧
      Record.compression (writeFlags op compressed) = compressed.toUInt8 := by
  cases op <;> cases compressed <;> first | exact absurd hop (by decide) | decide

/-! ### Writing and reading -/

/-- A record on the wire. -/
structure Record (D : DataTypes) where
  /-- `op_code`. -/
  opCode : OpCode
  /-- `block`. -/
  block : Block D

/-- What `Record::write` and `Record::read` throw. -/
inductive RecordError where
  /-- The `Native` stream threw. -/
  | native (e : NativeError)
  /-- `CompressedWriteBuffer` threw. -/
  | compression (e : CodecError)
  /-- `CompressedReadBuffer` threw. -/
  | decompression (e : Compression.ReadError)
  /-- An `assert` of a debug build, with its condition as written. -/
  | assertionFailed (condition : String)
  deriving DecidableEq, Repr

variable {D : DataTypes}

/-- The bytes after the flag word: the block's, through a
`CompressedWriteBuffer(wb, LZ4, DBMS_DEFAULT_BUFFER_SIZE)` when compressed. -/
def Record.blockOutput (factory : CompressionCodecFactory) (compressed : Bool) (data : List UInt8) :
    Except RecordError (List UInt8) :=
  if compressed then
    match CompressedWriteBuffer.write (CompressionCodecLZ4.make factory.lz4) defaultBufferSize data () with
    | (.ok out, _) => pure out
    | (.error e, _) => throw (.compression e)
  else pure data

/-- `Record::write(record, compressed)`. -/
def Record.write (factory : CompressionCodecFactory) (r : Record D) (compressed : Bool) :
    Except RecordError (List UInt8) := do
  let data ← (writeNative r.block).mapError .native
  let output ← Record.blockOutput factory compressed data
  pure (writeIntBinary (writeFlags r.opCode compressed) ++ output)

/-- `assert(Record::version(flags) == VERSION)`. -/
def Record.checkVersion (b : Build) (flags : UInt64) : Except RecordError Unit :=
  if b = .debug ∧ Record.version flags ≠ 1 then throw (.assertionFailed "Record::version(flags) == VERSION")
  else pure ()

/-- The buffer `Record::read` reads the block from: a `CompressedReadBuffer`
over the rest of the data when the compression bit is set. -/
def Record.blockInput (factory : CompressionCodecFactory) (b : Build) (flags : UInt64) (rest : List UInt8) :
    Except RecordError (List UInt8) :=
  if Record.compression flags ≠ 0 then (CompressedReadBuffer.readAll factory b rest).mapError .decompression
  else pure rest

/-- `Record::read(data, size)`. -/
def Record.read (factory : CompressionCodecFactory) (b : Build) (data : List UInt8) : Except RecordError (Record D) := do
  let (flags, rest) ← (readIntBinary data).mapError (.native ∘ .binary)
  Record.checkVersion b flags
  let input ← Record.blockInput factory b flags rest
  let (block, _) ← (readNative input).mapError .native
  pure ⟨Record.opcode flags, block⟩

/-! ### Reading back -/

/-- The bytes of a block come back through the buffers a record writes them
to: past them, or through the compressed buffers of an `lz4` library that
round-trips pieces of `DBMS_DEFAULT_BUFFER_SIZE` bytes. -/
theorem blockInput_blockOutput {factory : CompressionCodecFactory} (hlz4 : factory.lz4.RoundTrips defaultBufferSize)
    (b : Build) {op : OpCode} (hop : op.toUInt8 < OpCode.maxOpsCode.toUInt8) (compressed : Bool)
    (bytes : List UInt8) :
    ∃ output, Record.blockOutput factory compressed bytes = .ok output ∧
      Record.blockInput factory b (writeFlags op compressed) output = .ok bytes := by
  have hcompression := (decode_flags op hop compressed).2.2
  cases compressed
  · exact ⟨bytes, rfl, by rw [Record.blockInput, hcompression]; rfl⟩
  · obtain ⟨out, hwrite, hread⟩ := read_write_lz4 hlz4 (by decide) (by decide) b bytes
    refine ⟨out, by simp only [Record.blockOutput, if_true, hwrite]; rfl, ?_⟩
    rw [Record.blockInput, hcompression]
    simp only [ne_eq, Bool.toUInt8, if_true, hread, Except.mapError]
    rfl

/-- **The record round trip.** With an `lz4` library that round-trips pieces
of `DBMS_DEFAULT_BUFFER_SIZE` bytes, a record of an opcode below
`MAX_OPS_CODE` whose columns read back (`ColumnReadsBack`) comes back with its
opcode, and with the names and values of its block, in either build; each
type is the one the factory makes from the name written, which is the type
itself unless the name starts with `DateTime(`. The flag word decodes to
version `1`, the opcode and the compression bit. -/
theorem record_read_write (factory : CompressionCodecFactory) (hlz4 : factory.lz4.RoundTrips defaultBufferSize)
    (b : Build) (r : Record D) (hop : r.opCode.toUInt8 < OpCode.maxOpsCode.toUInt8) (compressed : Bool)
    {retype : D.DataType → D.DataType} (hsize : r.block.length < 2 ^ 63 ∧ r.block.rows < 2 ^ 63)
    (hcols : ∀ c ∈ r.block, ColumnReadsBack retype r.block.rows c) :
    (Record.write factory r compressed >>= Record.read factory b) =
        .ok ⟨r.opCode, r.block.map fun c => { c with type := retype c.type }⟩ ∧
      (Record.version (writeFlags r.opCode compressed) = 1 ∧
        Record.opcode (writeFlags r.opCode compressed) = r.opCode ∧
        Record.compression (writeFlags r.opCode compressed) = compressed.toUInt8) ∧
      ∀ c ∈ r.block, ¬ascii "DateTime(" <+: D.getName c.type → D.get (D.getName c.type) = some c.type →
        retype c.type = c.type := by
  obtain ⟨bytes, hw, hr⟩ := readNative_writeNative hsize hcols []
  rw [List.append_nil] at hr
  obtain ⟨hversion, hopcode, hcompression⟩ := decode_flags r.opCode hop compressed
  refine ⟨?_, ⟨hversion, hopcode, hcompression⟩, fun c hc => (hcols c hc).retype_eq⟩
  -- the block's bytes go through the compressed buffers, or past them, and come back
  obtain ⟨output, houtput, hinput⟩ := blockInput_blockOutput hlz4 b hop compressed bytes
  have hflags := readIntBinary_writeIntBinary (writeFlags r.opCode compressed) output trivial
  have hcheck : Record.checkVersion b (writeFlags r.opCode compressed) = .ok () := by
    simp [Record.checkVersion, hversion]
    rfl
  simp only [Record.write, hw, Except.mapError, bind, Except.bind, houtput, pure, Except.pure, Record.read, hflags,
    hcheck, hinput, hr, hopcode]

/-- An `lz4` library that stores a source as it is, in a bound of its size. -/
def storedLZ4 : LZ4 where
  compressBound n := n
  compressDefault source _ := source
  decompress source n := if source.length = n.toNat then some source else none

theorem storedLZ4_roundTrips : storedLZ4.RoundTrips defaultBufferSize where
  compressBound_le n hn := by
    show 9 + n.toUInt32.toNat ≤ maxCompressedSize
    rw [UInt32.toNat_ofNat']
    unfold defaultBufferSize at hn
    unfold maxCompressedSize
    omega
  compressDefault_le source hsource := by
    show source.length ≤ source.length.toUInt32.toNat
    rw [UInt32.toNat_ofNat']
    unfold defaultBufferSize at hsource
    omega
  decompress_compressDefault source hsource := by
    have hlength : source.length = source.length.toUInt32.toNat := by
      rw [UInt32.toNat_ofNat']
      unfold defaultBufferSize at hsource
      omega
    exact if_pos hlength

/-- The factory over `storedLZ4`, with no other codec. -/
def storedFactory : CompressionCodecFactory := ⟨storedLZ4, fun byteCode => throw (.unknownCodecFamilyCode byteCode)⟩

/-- A record of the tests, with a `UInt64` column and a `DateTime('UTC')`
column of three rows, compressed in a debug build. -/
theorem record_read_write_gtest :
    let r : Record (basic [ascii "UTC"]) := ⟨.addDataBlock,
      [⟨ascii "id", DataType.uInt64, [Field.uInt64 102, Field.uInt64 101, Field.uInt64 100]⟩,
        ⟨ascii "_time", DataType.dateTime (some (ascii "UTC")),
          [Field.uInt64 1612286044, Field.uInt64 1612296044, Field.uInt64 1612276044]⟩]⟩
    (Record.write storedFactory r true >>= Record.read storedFactory .debug) =
        .ok ⟨r.opCode, r.block.map fun c => { c with type := DataType.nativeType c.type }⟩ ∧
      (Record.version (writeFlags r.opCode true) = 1 ∧ Record.opcode (writeFlags r.opCode true) = r.opCode ∧
        Record.compression (writeFlags r.opCode true) = (true : Bool).toUInt8) ∧
      ∀ c ∈ r.block, ¬ascii "DateTime(" <+: (basic [ascii "UTC"]).getName c.type →
        (basic [ascii "UTC"]).get ((basic [ascii "UTC"]).getName c.type) = some c.type →
        DataType.nativeType c.type = c.type := by
  refine record_read_write storedFactory storedLZ4_roundTrips .debug _ (by decide) true ⟨by decide, by decide⟩ ?_
  intro c hc
  simp only [List.mem_cons, List.not_mem_nil, or_false] at hc
  -- each column: a short name, a known type, three values of the type
  rcases hc with rfl | rfl
  · exact BasicColumn.readsBack ⟨by decide, by decide, by decide, rfl⟩
  · exact BasicColumn.readsBack ⟨by decide, by decide, by decide, rfl⟩

/-- A `DateTime('UTC')` column comes back as a `DateTime` column in either
build: the time zone is lost, since the type name is written as `DateTime`.
The record is written uncompressed, so the buffers play no part. -/
theorem read_write_dateTime_zone :
    (Record.write storedFactory (⟨.addDataBlock, [⟨ascii "t", DataType.dateTime (some (ascii "UTC")),
        [Field.uInt64 1612286044]⟩]⟩ : Record (basic [ascii "UTC"])) false >>= Record.read storedFactory .debug) =
      (.ok ⟨.addDataBlock, [⟨ascii "t", DataType.dateTime none, [Field.uInt64 1612286044]⟩]⟩ :
        Except RecordError (Record (basic [ascii "UTC"]))) ∧
    (Record.write storedFactory (⟨.addDataBlock, [⟨ascii "t", DataType.dateTime (some (ascii "UTC")),
        [Field.uInt64 1612286044]⟩]⟩ : Record (basic [ascii "UTC"])) false >>= Record.read storedFactory .release) =
      (.ok ⟨.addDataBlock, [⟨ascii "t", DataType.dateTime none, [Field.uInt64 1612286044]⟩]⟩ :
        Except RecordError (Record (basic [ascii "UTC"]))) :=
  ⟨rfl, rfl⟩

end Daisy.DWAL
