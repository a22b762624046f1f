import Daisy.DataStreams.Native

/-!
# Four data types and their bulk serializations

`DataTypeUInt64`, `DataTypeFloat64`, `DataTypeString` and `DataTypeDateTime`,
with `SerializationNumber<T>` and `SerializationString`: the data types of
the `Native` format that the records of the Distributed Write Ahead Log carry
in the tests, and `DateTime`, whose name has the time zone.

## The model

A value is a `Field`: an unsigned integer, the bits of a `Float64`, or a
string. A `DateTime` column holds `UInt32`s. `getName` is `doGetName`:
`DateTime` without an explicit time zone, `DateTime('zone')` with one (the
time zone names of `DateLUT` need no escape inside the quotes).
`DataTypeFactory::get` is modelled on the names these types have: it gives
the type with that name among the types of the time zones `DateLUT` knows,
and throws on any other name (other spellings the parser takes, such as
spaces or aliases, are not modelled).

* `SerializationNumber<T>::serializeBinaryBulk` writes the values as they are
  in memory; `deserializeBinaryBulk` reads what there is up to `limit` values
  (`readBig`) and keeps the whole values among them.
* `SerializationString::serializeBinaryBulk` writes each string as its size
  (`VarUInt`) and its bytes; `deserializeBinaryBulk` reads up to `limit` of
  them and stops early at the end of the input.

## What is proved

The bulk serializations of the four types read back a column of values of
the type (`deserializeBulk_serializeBulk`), and the factory gives every type
back from its own name (`getDataType_getName`): so a block of these types comes back
from the `Native` format with its values, and with its types except a
`DateTime` with a time zone, which comes back as `DateTime`
(`readNative_writeNative_basic`).
-/

namespace Daisy.DataTypes

open Daisy.IO Daisy.DataStreams

/-- The data types modelled. -/
inductive DataType where
  /-- `DataTypeUInt64`. -/
  | uInt64
  /-- `DataTypeFloat64`. -/
  | float64
  /-- `DataTypeString`. -/
  | string
  /-- `DataTypeDateTime(time_zone_name)`: `none` for no explicit time zone. -/
  | dateTime (timeZone : Option (List UInt8))
  deriving DecidableEq, Repr

/-- A value of a column (`Field`). -/
inductive Field where
  /-- An unsigned integer: a `UInt64`, or the `UInt32` of a `DateTime`. -/
  | uInt64 (x : UInt64)
  /-- A `Float64`, by its bits. -/
  | float64 (bits : UInt64)
  /-- A `String`. -/
  | string (s : List UInt8)
  deriving DecidableEq, Repr

/-- The value a number column keeps in memory. -/
def Field.bits : Field → Nat
  | .uInt64 x => x.toNat
  | .float64 b => b.toNat
  | .string _ => 0

/-- The bytes of a string value. -/
def Field.bytes : Field → List UInt8
  | .string s => s
  | _ => []

/-- `doGetName`. -/
def DataType.getName : DataType → List UInt8
  | .uInt64 => ascii "UInt64"
  | .float64 => ascii "Float64"
  | .string => ascii "String"
  | .dateTime none => ascii "DateTime"
  -- `out << "DateTime(" << quote << time_zone.getTimeZone() << ")"`; `39` is the single quote
  | .dateTime (some zone) => ascii "DateTime(" ++ [39] ++ zone ++ [39] ++ ascii ")"

/-- The types of the time zones `zones`. -/
def dataTypes (zones : List (List UInt8)) : List DataType :=
  [.uInt64, .float64, .string, .dateTime none] ++ zones.map fun zone => .dateTime (some zone)

/-- `DataTypeFactory::get(full_name)`, on the names of `dataTypes zones`. -/
def getDataType (zones : List (List UInt8)) (name : List UInt8) : Option DataType :=
  (dataTypes zones).find? fun t => t.getName == name

/-! ### Bulk serializations -/

/-- `SerializationNumber<T>::serializeBinaryBulk` for a `T` of `width` bytes. -/
def serializeNumbers (width : Nat) (values : List Field) : List UInt8 :=
  values.flatMap fun v => writeLE width v.bits

/-- `SerializationNumber<T>::deserializeBinaryBulk` of `limit` values of
`width` bytes: `readBig` reads up to `width * limit` bytes, and the column
keeps the whole values among them. -/
def deserializeNumbers (width : Nat) : Nat → List UInt8 → List Nat × List UInt8
  | 0, input => ([], input)
  | limit + 1, input =>
    if width ≤ input.length then
      let (xs, rest) := deserializeNumbers width limit (input.drop width)
      (readLE (input.take width) :: xs, rest)
    else ([], [])

/-- `SerializationString::serializeBinaryBulk`. -/
def serializeStrings (values : List Field) : List UInt8 :=
  values.flatMap fun v => writeVarUInt v.bytes.length.toUInt64 ++ v.bytes

/-- `deserializeBinarySSE2`: up to `limit` strings, none past the end. -/
def deserializeStrings : Nat → BinaryReader (List (List UInt8))
  | 0, input => .ok ([], input)
  | limit + 1, input =>
    if input = [] then .ok ([], [])
    else do
      let (size, input) ← readVarUInt input
      let (s, input) ← readStrict size.toNat input
      let (ss, input) ← deserializeStrings limit input
      pure (s :: ss, input)

/-- The serialization of each type: `getDefaultSerialization`. -/
def DataType.serializeBulk : DataType → List Field → List UInt8
  | .uInt64, vs => serializeNumbers 8 vs
  | .float64, vs => serializeNumbers 8 vs
  | .string, vs => serializeStrings vs
  | .dateTime _, vs => serializeNumbers 4 vs

/-- The deserialization of each type. -/
def DataType.deserializeBulk (t : DataType) (limit : Nat) (input : List UInt8) :
    Except BinaryError (List Field × List UInt8) :=
  match t with
  | .uInt64 =>
    let (xs, rest) := deserializeNumbers 8 limit input
    pure (xs.map fun x => .uInt64 x.toUInt64, rest)
  | .float64 =>
    let (xs, rest) := deserializeNumbers 8 limit input
    pure (xs.map fun x => .float64 x.toUInt64, rest)
  | .string => do
    let (ss, rest) ← deserializeStrings limit input
    pure (ss.map .string, rest)
  | .dateTime _ =>
    let (xs, rest) := deserializeNumbers 4 limit input
    pure (xs.map fun x => .uInt64 x.toUInt64, rest)

/-- The data types of the time zones `zones`, for the `Native` format. -/
def basic (zones : List (List UInt8)) : DataTypes where
  DataType := DataType
  Value := Field
  getName := DataType.getName
  get := getDataType zones
  serializeBulk := DataType.serializeBulk
  deserializeBulk := DataType.deserializeBulk

/-- The type `NativeBlockInputStream` makes from the name a revision `0`
writer sends: a `DateTime` comes without its time zone. -/
def DataType.nativeType : DataType → DataType
  | .dateTime _ => .dateTime none
  | t => t

/-- Whether a value is one a column of the type holds. -/
def Field.ofType : DataType → Field → Bool
  | .uInt64, .uInt64 _ => true
  | .float64, .float64 _ => true
  | .string, .string s => decide (s.length < 2 ^ 63)
  | .dateTime _, .uInt64 x => decide (x.toNat < 2 ^ 32)
  | _, _ => false

/-! ### Names -/

theorem length_getName_dateTime (zone : List UInt8) :
    (DataType.dateTime (some zone)).getName.length = zone.length + 12 := by
  simp [DataType.getName, ascii]

theorem length_getName_of_ne {t : DataType} (ht : ∀ zone, t ≠ .dateTime (some zone)) : t.getName.length ≤ 8 := by
  rcases t with _ | _ | _ | _ | zone
  · decide
  · decide
  · decide
  · decide
  · exact absurd rfl (ht zone)

/-- Two types have one name only if they are one type. -/
theorem getName_injective : Function.Injective DataType.getName := by
  intro t t' h
  by_cases ht : ∃ zone, t = .dateTime (some zone)
  · obtain ⟨zone, rfl⟩ := ht
    by_cases ht' : ∃ zone', t' = .dateTime (some zone')
    · -- the zones stand between the same quotes
      obtain ⟨zone', rfl⟩ := ht'
      simp only [DataType.getName, List.append_assoc, List.append_cancel_left_eq] at h
      simp only [← List.append_assoc, List.append_cancel_right_eq] at h
      rw [h]
    · have hlen := congrArg List.length h
      rw [length_getName_dateTime] at hlen
      have := length_getName_of_ne (t := t') (by simpa using ht')
      omega
  · by_cases ht' : ∃ zone', t' = .dateTime (some zone')
    · obtain ⟨zone', rfl⟩ := ht'
      have hlen := congrArg List.length h
      rw [length_getName_dateTime] at hlen
      have := length_getName_of_ne (t := t) (by simpa using ht)
      omega
    · simp only [not_exists] at ht ht'
      rcases t with _ | _ | _ | _ | zone <;> rcases t' with _ | _ | _ | _ | zone' <;>
        first | rfl | exact absurd h (by decide) | exact absurd rfl (ht _) | exact absurd rfl (ht' _)

/-- The factory gives every type of a known time zone back from its name. -/
theorem getDataType_getName {zones : List (List UInt8)} {t : DataType} (ht : t ∈ dataTypes zones) :
    getDataType zones t.getName = some t := by
  cases h : getDataType zones t.getName with
  | none =>
    rw [getDataType, List.find?_eq_none] at h
    exact absurd (by simp) (h t ht)
  | some t' =>
    have hname := List.find?_some h
    rw [beq_iff_eq] at hname
    rw [getName_injective hname]

/-! ### Bulk serializations read back -/

theorem deserializeNumbers_serializeNumbers (width : Nat) :
    ∀ (vs : List Field) (rest : List UInt8), (∀ v ∈ vs, v.bits < 256 ^ width) →
      deserializeNumbers width vs.length (serializeNumbers width vs ++ rest) = (vs.map Field.bits, rest)
  | [], _, _ => rfl
  | v :: vs, rest, hvs => by
    have hv := hvs v List.mem_cons_self
    have ih := deserializeNumbers_serializeNumbers width vs rest fun w hw => hvs w (List.mem_cons_of_mem v hw)
    have hlen : (writeLE width v.bits).length = width := length_writeLE width v.bits
    simp only [serializeNumbers, List.flatMap_cons, List.append_assoc] at ih ⊢
    rw [List.length_cons, deserializeNumbers, if_pos (by simp [hlen])]
    simp only [List.take_left' hlen, List.drop_left' hlen, readLE_writeLE, Nat.mod_eq_of_lt hv, ih, List.map_cons]

theorem deserializeStrings_serializeStrings :
    ∀ (vs : List Field) (rest : List UInt8), (∀ v ∈ vs, v.bytes.length < 2 ^ 63) →
      deserializeStrings vs.length (serializeStrings vs ++ rest) = .ok (vs.map Field.bytes, rest)
  | [], _, _ => rfl
  | v :: vs, rest, hvs => by
    have hv := hvs v List.mem_cons_self
    have ih := deserializeStrings_serializeStrings vs rest fun w hw => hvs w (List.mem_cons_of_mem v hw)
    have hsize : v.bytes.length.toUInt64.toNat = v.bytes.length :=
      UInt64.toNat_ofNat_of_lt' (Nat.lt_trans hv (by decide))
    have hvar := readVarUInt_writeVarUInt v.bytes.length.toUInt64 (v.bytes ++ (serializeStrings vs ++ rest))
      (show v.bytes.length.toUInt64.toNat < 2 ^ 63 by rw [hsize]; exact hv)
    simp only [serializeStrings, List.flatMap_cons, List.append_assoc] at ih hvar ⊢
    rw [List.length_cons, deserializeStrings, if_neg (by simp [writeVarUInt_ne_nil])]
    simp only [hvar, bind, Except.bind, hsize, readStrict_append, ih]
    rfl

/-- Numbers read back as the values they were. -/
theorem map_bits_eq {vs : List Field} {f : Nat → Field} (h : ∀ v ∈ vs, f v.bits = v) :
    (vs.map Field.bits).map f = vs := by
  rw [List.map_map]
  conv_rhs => rw [← List.map_id vs]
  exact List.map_congr_left h

/-- A column of values of a type is read back by the type its name comes
back as. -/
theorem deserializeBulk_serializeBulk (t : DataType) (vs : List Field) (hvs : ∀ v ∈ vs, v.ofType t = true)
    (rest : List UInt8) :
    t.nativeType.deserializeBulk vs.length (t.serializeBulk vs ++ rest) = .ok (vs, rest) := by
  cases t with
  | uInt64 =>
    have hback : ∀ v ∈ vs, v.bits < 256 ^ 8 ∧ Field.uInt64 v.bits.toUInt64 = v := by
      intro v hv
      have h := hvs v hv
      rcases v with x | b | s
      · exact ⟨UInt64.toNat_lt x, by simp [Field.bits]⟩
      · simp [Field.ofType] at h
      · simp [Field.ofType] at h
    simp only [DataType.nativeType, DataType.serializeBulk, DataType.deserializeBulk,
      deserializeNumbers_serializeNumbers 8 vs rest fun v hv => (hback v hv).1,
      @map_bits_eq vs (fun x => .uInt64 x.toUInt64) fun v hv => (hback v hv).2]
    rfl
  | float64 =>
    have hback : ∀ v ∈ vs, v.bits < 256 ^ 8 ∧ Field.float64 v.bits.toUInt64 = v := by
      intro v hv
      have h := hvs v hv
      rcases v with x | b | s
      · simp [Field.ofType] at h
      · exact ⟨UInt64.toNat_lt b, by simp [Field.bits]⟩
      · simp [Field.ofType] at h
    simp only [DataType.nativeType, DataType.serializeBulk, DataType.deserializeBulk,
      deserializeNumbers_serializeNumbers 8 vs rest fun v hv => (hback v hv).1,
      @map_bits_eq vs (fun x => .float64 x.toUInt64) fun v hv => (hback v hv).2]
    rfl
  | string =>
    have hback : ∀ v ∈ vs, v.bytes.length < 2 ^ 63 ∧ Field.string v.bytes = v := by
      intro v hv
      have h := hvs v hv
      rcases v with x | b | s
      · simp [Field.ofType] at h
      · simp [Field.ofType] at h
      · simpa [Field.ofType, Field.bytes] using h
    have hmap : (vs.map Field.bytes).map Field.string = vs := by
      rw [List.map_map]
      conv_rhs => rw [← List.map_id vs]
      exact List.map_congr_left fun v hv => (hback v hv).2
    simp only [DataType.nativeType, DataType.serializeBulk, DataType.deserializeBulk,
      deserializeStrings_serializeStrings vs rest fun v hv => (hback v hv).1, bind, Except.bind, hmap]
    rfl
  | dateTime zone =>
    have hback : ∀ v ∈ vs, v.bits < 256 ^ 4 ∧ Field.uInt64 v.bits.toUInt64 = v := by
      intro v hv
      have h := hvs v hv
      rcases v with x | b | s
      · simp only [Field.ofType, decide_eq_true_eq] at h
        exact ⟨h, by simp [Field.bits]⟩
      · simp [Field.ofType] at h
      · simp [Field.ofType] at h
    simp only [DataType.nativeType, DataType.serializeBulk, DataType.deserializeBulk,
      deserializeNumbers_serializeNumbers 4 vs rest fun v hv => (hback v hv).1,
      @map_bits_eq vs (fun x => .uInt64 x.toUInt64) fun v hv => (hback v hv).2]
    rfl

/-! ### Blocks of these types in the `Native` format -/

/-- The factory's type for the name a revision `0` writer sends. -/
theorem getDataType_nativeTypeName {zones : List (List UInt8)} {t : DataType} (ht : t ∈ dataTypes zones) :
    getDataType zones (nativeTypeName t.getName) = some t.nativeType := by
  have hnone : DataType.dateTime none ∈ dataTypes zones := by simp [dataTypes]
  rcases t with _ | _ | _ | _ | zone
  · exact getDataType_getName ht
  · exact getDataType_getName ht
  · exact getDataType_getName ht
  · exact getDataType_getName ht
  · -- the time zone is dropped
    have hprefix : ascii "DateTime(" <+: (DataType.dateTime (some zone)).getName := by
      simp only [DataType.getName, List.append_assoc]
      exact List.prefix_append _ _
    rw [nativeTypeName, if_pos hprefix]
    exact getDataType_getName hnone

theorem length_nativeTypeName_getName (t : DataType) : (nativeTypeName t.getName).length ≤ 8 := by
  rcases t with _ | _ | _ | _ | zone
  · decide
  · decide
  · decide
  · decide
  · have hprefix : ascii "DateTime(" <+: (DataType.dateTime (some zone)).getName := by
      simp only [DataType.getName, List.append_assoc]
      exact List.prefix_append _ _
    rw [nativeTypeName, if_pos hprefix]
    decide

/-- A column of one of these types, of `rows` values of its type, with a name
`readStringBinary` takes. -/
structure BasicColumn (zones : List (List UInt8)) (rows : Nat) (c : Column (basic zones)) : Prop where
  /-- The name fits `readStringBinary`. -/
  name_fits : c.name.length ≤ defaultMaxStringSize
  /-- The type is one the factory makes. -/
  type_mem : c.type ∈ dataTypes zones
  /-- The values are of the type. -/
  values_ofType : c.values.all (Field.ofType c.type) = true
  /-- The column has the block's rows. -/
  length : c.values.length = rows

theorem BasicColumn.readsBack {zones : List (List UInt8)} {rows : Nat} {c : Column (basic zones)}
    (hc : BasicColumn zones rows c) : ColumnReadsBack DataType.nativeType rows c where
  fits := ⟨hc.name_fits, Nat.le_trans (length_nativeTypeName_getName c.type) (by decide)⟩
  get := getDataType_nativeTypeName hc.type_mem
  length := hc.length
  values _ rest := by
    rw [← hc.length]
    exact deserializeBulk_serializeBulk c.type c.values (List.all_eq_true.mp hc.values_ofType) rest

/-- **A block of these types in the `Native` format.** It comes back with its
names and values, and its types except that a `DateTime` loses its time zone. -/
theorem readNative_writeNative_basic {zones : List (List UInt8)} {b : Block (basic zones)}
    (hsize : b.length < 2 ^ 63 ∧ b.rows < 2 ^ 63) (hcols : ∀ c ∈ b, BasicColumn zones b.rows c)
    (rest : List UInt8) :
    ∃ bytes, writeNative b = .ok bytes ∧
      readNative (bytes ++ rest) = .ok (b.map fun c => { c with type := DataType.nativeType c.type }, rest) :=
  readNative_writeNative hsize (fun c hc => (hcols c hc).readsBack) rest

end Daisy.DataTypes
