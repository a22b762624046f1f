import Daisy.IO.Binary

/-!
# The `Native` block format

`NativeBlockOutputStream::write` and `NativeBlockInputStream::readImpl`, as
the Distributed Write Ahead Log uses them: client and server revision `0`, no
header, no index. A block is written as its number of columns and of rows,
then each column as its name, its type name and, when there are rows, the
bulk serialization of its values.

## The model

The data types are a parameter (`DataTypes`): their names, the factory that
makes a type from a name, and the bulk (de)serialization of a column of each
type; a column is the list of its values (`Field`s). A block is its columns
in order. A reader returns the block and the input after it, or what it
throws (`NativeError`).

With `client_revision = 0`, below
`DBMS_MIN_REVISION_WITH_TIME_ZONE_PARAMETER_IN_DATETIME_DATA_TYPE`, the writer
sends a type name that starts with `DateTime(` as `DateTime`
(`nativeTypeName`); `recursiveRemoveLowCardinality` is not applied
(`client_revision` is `0` and `remove_low_cardinality` false).

## What is proved

`readNative_writeNative`: a block whose columns have one number of rows, and
whose names and type names fit `readStringBinary`, is read back column by
column with its names and values, each type being the one the factory makes
from the name that was written. `ColumnReadsBack.retype_eq`: where the
factory gives a type back from its own name and the name does not start with
`DateTime(`, that is the type itself.
-/

namespace Daisy.DataStreams

open Daisy.IO Daisy.Library

/-- What the `Native` format needs of the data types. -/
structure DataTypes where
  /-- The data types (`IDataType`). -/
  DataType : Type
  /-- The values of a column (`Field`). -/
  Value : Type
  /-- `IDataType::getName`. -/
  getName : DataType → List UInt8
  /-- `DataTypeFactory::get(full_name)`: `none` where it throws. -/
  get : List UInt8 → Option DataType
  /-- `serializeBinaryBulkStatePrefix`, `serializeBinaryBulkWithMultipleStreams`
  and `serializeBinaryBulkStateSuffix` of a whole column. -/
  serializeBulk : DataType → List Value → List UInt8
  /-- `deserializeBinaryBulkWithMultipleStreams` of `rows` values into an
  empty column. -/
  deserializeBulk : DataType → Nat → BinaryReader (List Value)

variable {D : DataTypes}

/-- `ColumnWithTypeAndName`. -/
structure Column (D : DataTypes) where
  /-- `name`. -/
  name : List UInt8
  /-- `type`. -/
  type : D.DataType
  /-- The values of `column`. -/
  values : List D.Value

/-- A `Block`: its columns in order. -/
abbrev Block (D : DataTypes) := List (Column D)

/-- What `NativeBlockOutputStream` and `NativeBlockInputStream` throw. -/
inductive NativeError where
  /-- A binary reader threw. -/
  | binary (e : BinaryError)
  /-- `Block::checkNumberOfRows`: "Sizes of columns doesn't match: `first`:
  `rows`, `name`: `size`" (`SIZES_OF_COLUMNS_DOESNT_MATCH`). -/
  | sizesOfColumnsDoesntMatch (first : List UInt8) (rows : Nat) (name : List UInt8) (size : Nat)
  /-- `DataTypeFactory::get` threw on the type name. -/
  | dataTypeFactory (typeName : List UInt8)
  /-- `readData`: "Cannot read all data in NativeBlockInputStream. Rows read:
  `read`. Rows expected: `expected`." (`CANNOT_READ_ALL_DATA`). -/
  | cannotReadAllData (read expected : Nat)
  deriving DecidableEq, Repr

/-- The bytes of an ASCII literal of the source. -/
def ascii (s : String) : List UInt8 := s.toList.map Char.toUInt8

/-- `Block::rows`: the size of the first column. -/
def Block.rows : Block D → Nat
  | [] => 0
  | c :: _ => c.values.length

/-- `Block::checkNumberOfRows`: every column has the size of the first. -/
def Block.checkNumberOfRows (b : Block D) : Except NativeError Unit :=
  match b with
  | [] => pure ()
  | first :: _ =>
    match b.find? fun c => c.values.length != first.values.length with
    | none => pure ()
    | some c => throw (.sizesOfColumnsDoesntMatch first.name first.values.length c.name c.values.length)

/-! ### Writing -/

/-- The type name `NativeBlockOutputStream::write` sends to a client of
revision `0`: no explicit time zone in a `DateTime`. -/
def nativeTypeName (typeName : List UInt8) : List UInt8 :=
  if ascii "DateTime(" <+: typeName then ascii "DateTime" else typeName

/-- One column of `NativeBlockOutputStream::write`. -/
def writeColumn (rows : Nat) (c : Column D) : List UInt8 :=
  writeStringBinary c.name ++ writeStringBinary (nativeTypeName (D.getName c.type)) ++
    -- zero items of data is always represented as zero number of bytes
    if rows = 0 then [] else D.serializeBulk c.type c.values

/-- `NativeBlockOutputStream(ostr, 0, Block{}).write(block)`. -/
def writeNative (b : Block D) : Except NativeError (List UInt8) := do
  b.checkNumberOfRows
  pure (writeVarUInt b.length.toUInt64 ++ writeVarUInt b.rows.toUInt64 ++ b.flatMap (writeColumn b.rows))

/-! ### Reading -/

/-- The factory's type for a type name. -/
def getType (typeName : List UInt8) : Except NativeError D.DataType :=
  match D.get typeName with
  | none => throw (.dataTypeFactory typeName)
  | some t => pure t

/-- `readData` of `rows` values: they are deserialized into an empty column,
which must then hold `rows` values. -/
def readData (t : D.DataType) (rows : Nat) (input : List UInt8) :
    Except NativeError (List D.Value × List UInt8) := do
  let (values, input) ← (D.deserializeBulk t rows input).mapError .binary
  if values.length ≠ rows then throw (.cannotReadAllData values.length rows)
  pure (values, input)

/-- One column of `NativeBlockInputStream::readImpl`. -/
def readColumn (rows : Nat) (input : List UInt8) : Except NativeError (Column D × List UInt8) := do
  let (name, input) ← (readStringBinary input).mapError .binary
  let (typeName, input) ← (readStringBinary input).mapError .binary
  let t ← getType typeName
  -- if no rows, nothing to read: the column stays empty
  if rows = 0 then pure (⟨name, t, []⟩, input)
  else
    let (values, input) ← readData t rows input
    pure (⟨name, t, values⟩, input)

/-- `NativeBlockInputStream(istr, 0).read()`: at the end of the input, an
empty block. -/
def readNative (input : List UInt8) : Except NativeError (Block D × List UInt8) :=
  if input = [] then pure ([], [])
  else do
    let (columns, input) ← (readVarUInt input).mapError .binary
    let (rows, input) ← (readVarUInt input).mapError .binary
    readMany (readColumn rows.toNat) columns.toNat input

/-! ### Reading back -/

section RoundTrip

variable {b : Block D} {retype : D.DataType → D.DataType}

/-- A block whose columns have one number of rows passes the check. -/
theorem checkNumberOfRows_ok (hrows : ∀ c ∈ b, c.values.length = b.rows) : b.checkNumberOfRows = .ok () := by
  rcases b with _ | ⟨first, cs⟩
  · rfl
  · have hnone : (first :: cs).find? (fun c => c.values.length != first.values.length) = none := by
      rw [List.find?_eq_none]
      intro c hc
      simp [hrows c hc, Block.rows]
    simp only [Block.checkNumberOfRows, hnone]
    rfl

/-- The names a column is written with fit `readStringBinary`. -/
def Column.Fits (c : Column D) : Prop :=
  c.name.length ≤ defaultMaxStringSize ∧ (nativeTypeName (D.getName c.type)).length ≤ defaultMaxStringSize

/-- What makes a column read back: its names fit, the factory makes `retype`
of its type from the name written, and its values are read back by the bulk
deserialization of that type. -/
structure ColumnReadsBack (retype : D.DataType → D.DataType) (rows : Nat) (c : Column D) : Prop where
  /-- The names fit `readStringBinary`. -/
  fits : c.Fits
  /-- The factory's type for the name written. -/
  get : D.get (nativeTypeName (D.getName c.type)) = some (retype c.type)
  /-- The column has the block's rows. -/
  length : c.values.length = rows
  /-- The values read back, by the type the reader makes. -/
  values : rows ≠ 0 → ∀ rest, D.deserializeBulk (retype c.type) rows (D.serializeBulk c.type c.values ++ rest) =
    .ok (c.values, rest)

/-- Only a type named `DateTime(...)` can come back as another type. -/
theorem ColumnReadsBack.retype_eq {rows : Nat} {c : Column D} (hc : ColumnReadsBack retype rows c)
    (hname : ¬ascii "DateTime(" <+: D.getName c.type) (hget : D.get (D.getName c.type) = some c.type) :
    retype c.type = c.type := by
  have h := hc.get
  rw [nativeTypeName, if_neg hname, hget, Option.some.injEq] at h
  exact h.symm

/-- A column reads back with its type replaced by the factory's. -/
theorem readColumn_writeColumn (rows : Nat) :
    ReadsAs (writeColumn rows) (readColumn rows) (fun c : Column D => { c with type := retype c.type })
      (ColumnReadsBack retype rows) := by
  intro c rest hc
  have hname := fun r => readStringBinary_writeStringBinary c.name r hc.fits.1
  have htype := fun r => readStringBinary_writeStringBinary (nativeTypeName (D.getName c.type)) r hc.fits.2
  simp only [writeColumn, List.append_assoc, readColumn, hname, htype, Except.mapError, bind, Except.bind,
    getType, hc.get]
  by_cases h0 : rows = 0
  · -- no rows: nothing written, an empty column read
    have hnil : c.values = [] := List.eq_nil_of_length_eq_zero (hc.length.trans h0)
    simp only [h0, if_true, List.nil_append, hnil]
    rfl
  · have hdata := hc.values h0 rest
    simp only [h0, if_false, readData, pure, Except.pure, hdata, Except.mapError, bind, Except.bind, hc.length,
      ne_eq, not_true_eq_false, if_false]

/-- **The `Native` round trip.** A block of fewer than `2^63` columns and
rows is written, and read back with its names and values and the factory's
types. -/
theorem readNative_writeNative (hsize : b.length < 2 ^ 63 ∧ b.rows < 2 ^ 63)
    (hcols : ∀ c ∈ b, ColumnReadsBack retype b.rows c) (rest : List UInt8) :
    ∃ bytes, writeNative b = .ok bytes ∧
      readNative (bytes ++ rest) = .ok (b.map fun c => { c with type := retype c.type }, rest) := by
  have hcheck := checkNumberOfRows_ok fun c hc => (hcols c hc).length
  refine ⟨writeVarUInt b.length.toUInt64 ++ writeVarUInt b.rows.toUInt64 ++ b.flatMap (writeColumn b.rows),
    by simp only [writeNative, hcheck]; rfl, ?_⟩
  have hlen : b.length.toUInt64.toNat = b.length :=
    UInt64.toNat_ofNat_of_lt' (Nat.lt_trans hsize.1 (by decide))
  have hrows : b.rows.toUInt64.toNat = b.rows := UInt64.toNat_ofNat_of_lt' (Nat.lt_trans hsize.2 (by decide))
  -- the two dimensions, then the columns one after the other
  have hcolumns := readVarUInt_writeVarUInt b.length.toUInt64
    (writeVarUInt b.rows.toUInt64 ++ (b.flatMap (writeColumn b.rows) ++ rest))
    (show b.length.toUInt64.toNat < 2 ^ 63 by rw [hlen]; exact hsize.1)
  have hrowsRead := readVarUInt_writeVarUInt b.rows.toUInt64 (b.flatMap (writeColumn b.rows) ++ rest)
    (show b.rows.toUInt64.toNat < 2 ^ 63 by rw [hrows]; exact hsize.2)
  have hbody := (readColumn_writeColumn b.rows).readMany b rest hcols
  rw [readNative, if_neg (by simp [writeVarUInt_ne_nil])]
  simp only [List.append_assoc, hcolumns, hrowsRead, Except.mapError, bind, Except.bind, hlen, hrows, hbody]

end RoundTrip

end Daisy.DataStreams
