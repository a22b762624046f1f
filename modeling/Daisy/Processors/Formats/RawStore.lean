import Daisy.Processors.Formats.JSONCompactEachRow
import Daisy.Library.InOrder
import Mathlib.Data.List.AList

/-!
# `RawStoreInputFormat`

`Processors/Formats/Impl/RawStoreInputFormat.cpp`: the `RawStoreEachRow`
format, a copy of `JSONEachRow` for the raw store. The input is a sequence
of JSON objects, possibly inside `[` `]`, apart by white space and an
optional `,`. Each object is a row: a member whose name is a column fills
it, the other columns get their defaults. Where the row has no `_time`, it
is extracted from the value of `_raw`, by the JSON path or the regular
expression the settings give, or by the built-in date patterns.

## The model

The input is the list of its characters. A column is the one of
`Daisy.Formats.JSONCompactEachRow` with the default `insertDefaultInto`
gives it. What the format takes from outside is a parameter: `skipJSONField`,
and the extraction of `_time` from the value of `_raw` for the settings'
extraction type and rule (`none` where the built-in patterns match
nothing). The constructor refuses a header without `_raw` or `_time`: a
`Settings` holds their positions. `columnIndex` caches the last position
found for each key index; the cache only saves the lookup in `name_map`,
so the model looks the name up. The values of a row are a list with a slot
per column, `none` until the column is seen; the format reads every column
through `deserializeTextJSON` (`input_format_null_as_default` off), so that
`read_columns` is `seen_columns`. The loops run on fuel.

## What is proved

* `read_of_escaped_name`: an object whose first member's name holds an
  escape sequence is refused. `readColumnName` reads a name in place only up
  to a closing `"` with no `\` before it; any other name it leaves where it
  is and returns the stale `current_column_name`, so that the colon is
  looked for at the name's `"`;
* at the end, the object `{"_r\u0061w":"x"}` under a header of `_raw` and
  `_time`.
-/

namespace Daisy.Formats.RawStore

open Daisy.IO Daisy.Library

variable {Value : Type}

/-- A column of the header, with its default. -/
structure HeaderColumn (Value : Type) extends Column Value where
  /-- The value `insertDefaultInto` inserts. -/
  default : Value

/-- `name_map`: the name of each column to its position; of two columns of
one name, the later one. -/
def nameMap (header : List (HeaderColumn Value)) : AList fun _ : List Char => Fin header.length :=
  (List.finRange header.length).foldl (fun m i => m.insert (header.get i).name i) ∅

/-- `columnIndex(name, key_index)`: the position of the column `name`, or
`none` for `UNKNOWN_FIELD`. -/
def columnIndex (header : List (HeaderColumn Value)) (name : List Char) : Option (Fin header.length) :=
  (nameMap header).lookup name

/-- The header, the settings, and what the format calls outside it. -/
structure Settings (Value : Type) where
  header : List (HeaderColumn Value)
  /-- `input_format_skip_unknown_fields`. -/
  skipUnknownFields : Bool
  /-- `skipJSONField(in, name)`: the input after the value, or the message
  of the exception. -/
  skipJSONField : List Char → Except (List Char) (List Char)
  /-- `_time` from the value of `_raw`, by the extraction type and rule of
  the settings: `none` where `extractTimeFromRaw` matches nothing, or the
  message of the exception. -/
  extractTime : Value → Except (List Char) (Option Value)
  /-- `raw_col_idx`. -/
  rawIndex : Fin header.length
  /-- `time_col_idx`. -/
  timeIndex : Fin header.length
  /-- The constructor throws where `_raw` is missing. -/
  columnIndex_raw : columnIndex header "_raw".toList = some rawIndex
  /-- The constructor throws where `_time` is missing. -/
  columnIndex_time : columnIndex header "_time".toList = some timeIndex

/-- What reading a row throws. -/
inductive RawStoreError where
  /-- An exception of `assertChar`. -/
  | read (e : ReadError)
  /-- An exception of `deserializeTextJSON`, to which `readField` adds
  "(while reading the value of key `name`)". -/
  | field (message name : List Char)
  /-- "Unexpected end of stream while parsing JSONEachRow format"
  (`CANNOT_READ_ALL_DATA`). -/
  | unexpectedEnd
  /-- "Unknown field found while parsing JSONEachRow format: `name`"
  (`INCORRECT_DATA`). -/
  | unknownField (name : List Char)
  /-- "Duplicate field found while parsing JSONEachRow format: `name`"
  (`INCORRECT_DATA`). -/
  | duplicateField (name : List Char)
  /-- An exception of `skipJSONField`. -/
  | skip (message : List Char)
  /-- "Logical error: no _raw column in the input data" (`LOGICAL_ERROR`). -/
  | noRaw
  /-- An exception of the extraction of `_time`. -/
  | extraction (message : List Char)
  /-- The model ran out of fuel. -/
  | outOfFuel
  deriving DecidableEq, Repr

/-- The members of the format that live from row to row. -/
structure State where
  /-- `current_column_name`: the name of the last unknown member. -/
  currentColumnName : List Char
  /-- `data_in_square_brackets`. -/
  dataInSquareBrackets : Bool
  /-- `allow_new_rows`. -/
  allowNewRows : Bool
  deriving DecidableEq, Repr

/-- `readColumnName(buf)`: a name with no `\` before its closing `"` is read
in place; for any other, the input stays where it is and the name is
`current_column_name`. -/
def readColumnName (currentColumnName : List Char) (buf : List Char) : Except ReadError (List Char × List Char) :=
  match buf with
  | _ :: rest@(_ :: _) =>
    -- `find_first_symbols<'\\', '"'>(buf.position() + 1, buf.buffer().end())`
    match rest.span fun c => c != '\\' && c != '"' with
    | (name, '"' :: after) => do
      let _ ← assertChar '"' buf
      pure (name, after)
    | _ => pure (currentColumnName, buf)
  | _ => pure (currentColumnName, buf)

/-- `skipColonDelimeter(istr)`. -/
def skipColonDelimeter (buf : List Char) : Except ReadError (List Char) := do
  let buf ← assertChar ':' (skipWhitespaceIfAny buf)
  pure (skipWhitespaceIfAny buf)

/-- `advanceToNextKey(key_index)`: whether a member follows, and the input
at its name. -/
def advanceToNextKey (keyIndex : Nat) (buf : List Char) : Except RawStoreError (Bool × List Char) :=
  match skipWhitespaceIfAny buf with
  | [] => throw .unexpectedEnd
  | c :: rest =>
    if c = '}' then pure (false, rest)
    else if keyIndex > 0 then do
      let buf ← (assertChar ',' (c :: rest)).mapError .read
      pure (true, skipWhitespaceIfAny buf)
    else pure (true, c :: rest)

/-- `readField(index, columns)`: the value of the column at `i`, once. -/
def readField (column : HeaderColumn Value) (i : Nat) (row : List (Option Value)) (buf : List Char) :
    Except RawStoreError (List (Option Value) × List Char) := do
  if (row.getD i none).isSome then throw (.duplicateField column.name)
  let (value, buf) ← (column.deserializeTextJSON buf).mapError fun message => .field message column.name
  pure (row.set i (some value), buf)

/-- The loop of `readJSONObject` from the member `keyIndex` on:
`current_column_name`, the values, and the input after the object. -/
def readMembers (s : Settings Value) :
    Nat → Nat → List Char → List (Option Value) → List Char →
      Except RawStoreError (List Char × List (Option Value) × List Char)
  | 0, _, _, _, _ => throw .outOfFuel
  | fuel + 1, keyIndex, current, row, buf => do
    let (more, buf) ← advanceToNextKey keyIndex buf
    if !more then return (current, row, buf)
    let (name, buf) ← (readColumnName current buf).mapError .read
    match columnIndex s.header name with
    | none =>
      -- the name is kept in `current_column_name` before the colon is read
      let buf ← (skipColonDelimeter buf).mapError .read
      if !s.skipUnknownFields then throw (.unknownField name)
      let buf ← (s.skipJSONField buf).mapError .skip
      readMembers s fuel (keyIndex + 1) name row buf
    | some i =>
      let buf ← (skipColonDelimeter buf).mapError .read
      let (row, buf) ← readField (s.header.get i) i row buf
      readMembers s fuel (keyIndex + 1) current row buf

/-- `readJSONObject(columns)`: the object's members, then `_time` from
`_raw` where the object has no `_time`. -/
def readJSONObject (s : Settings Value) (fuel : Nat) (current buf : List Char) :
    Except RawStoreError (List Char × List (Option Value) × List Char) := do
  let buf ← (assertChar '{' buf).mapError .read
  let (current, row, buf) ← readMembers s fuel 0 current (List.replicate s.header.length none) buf
  if (row.getD s.timeIndex none).isSome then return (current, row, buf)
  match row.getD s.rawIndex none with
  | none => throw .noRaw
  | some raw =>
    match ← (s.extractTime raw).mapError .extraction with
    | some time => pure (current, row.set s.timeIndex (some time), buf)
    | none => pure (current, row, buf)

/-- The end of `readRow`, after the separator: `false` at the end of the
input, or the object, the columns it has not seen at their defaults. -/
def readObjectRow (s : Settings Value) (fuel : Nat) (st : State) (buf : List Char) :
    Except RawStoreError (Option (List Value) × State × List Char) := do
  let buf := skipWhitespaceIfAny buf
  if buf = [] then return (none, st, buf)
  let (current, row, buf) ← readJSONObject s fuel st.currentColumnName buf
  let values := (s.header.zip row).map fun (column, value) => value.getD column.default
  pure (some values, { st with currentColumnName := current }, buf)

/-- `readRow(columns, ext)`, `isFirstRow` for the first row of the first
unit: the values of the row, or `none` where it returns `false`. -/
def readRow (s : Settings Value) (fuel : Nat) (isFirstRow : Bool) (st : State) (buf : List Char) :
    Except RawStoreError (Option (List Value) × State × List Char) :=
  if !st.allowNewRows then pure (none, st, buf)
  else
    match skipWhitespaceIfAny buf with
    | c :: rest =>
      -- an optional `,` before any row but the first; `;` or `]` ends the rows
      if !isFirstRow ∧ c = ',' then readObjectRow s fuel st rest
      else if (!st.dataInSquareBrackets ∧ c = ';') ∨ (st.dataInSquareBrackets ∧ c = ']') then
        pure (none, { st with allowNewRows := false }, c :: rest)
      else readObjectRow s fuel st (c :: rest)
    | [] => readObjectRow s fuel st []

/-- `readPrefix()`: a byte order mark, white space, and the `[` of an array
of objects. -/
def readPrefix (buf : List Char) : State × List Char :=
  match skipWhitespaceIfAny (skipBOMIfExists buf) with
  | '[' :: rest => (⟨[], true, true⟩, rest)
  | buf => (⟨[], false, true⟩, buf)

/-- The loop of `IRowInputFormat::generate`; `none` where the fuel runs out. -/
def readRows (s : Settings Value) (fuel : Nat) :
    Nat → Bool → State → List Char → Option (Except RawStoreError (List (List Value)))
  | 0, _, _, _ => none
  | rows + 1, isFirstRow, st, buf =>
    match readRow s fuel isFirstRow st buf with
    | .error e => some (.error e)
    | .ok (none, _, _) => some (.ok [])
    | .ok (some values, st, buf) => (readRows s fuel rows false st buf).map (·.map (values :: ·))

/-- The rows of the input. -/
def read (s : Settings Value) (input : List Char) : Option (Except RawStoreError (List (List Value))) :=
  let (st, buf) := readPrefix input
  readRows s (input.length + 1) (input.length + 1) true st buf

/-! ### A member name with an escape sequence -/

/-- `readColumnName` at a name with a `\` before any `"`: the input stays
where it is, at the name's opening `"`. -/
theorem readColumnName_of_escape {pre : List Char} (hpre : ∀ c ∈ pre, c ≠ '\\' ∧ c ≠ '"') (current post : List Char) :
    readColumnName current ('"' :: (pre ++ '\\' :: post)) = .ok (current, '"' :: (pre ++ '\\' :: post)) := by
  have hspan : (pre ++ '\\' :: post).span (fun c => c != '\\' && c != '"') = (pre, '\\' :: post) := by
    rw [List.span_eq_takeWhile_dropWhile, takeWhile_append_of_head, dropWhile_append_of_head]
    all_goals simp_all
  obtain ⟨d, l, hdl⟩ : ∃ d l, pre ++ '\\' :: post = d :: l := by
    cases pre with
    | nil => exact ⟨_, _, rfl⟩
    | cons d l => exact ⟨_, _, rfl⟩
  rw [hdl] at hspan ⊢
  simp only [readColumnName, hspan]
  rfl

/-- `skipColonDelimeter` at a `"`: the colon is not there. -/
theorem skipColonDelimeter_quote (rest : List Char) :
    skipColonDelimeter ('"' :: rest) = .error (.assertionFailed [':'] (('"' :: rest).take showCharsOnSyntaxError)) := by
  rw [skipColonDelimeter, skipWhitespaceIfAny_cons (by decide)]
  rfl

theorem advanceToNextKey_quote (rest : List Char) : advanceToNextKey 0 ('"' :: rest) = .ok (true, '"' :: rest) := by
  rw [advanceToNextKey, skipWhitespaceIfAny_cons (by decide)]
  rfl

/-- The first member of an object, its name with an escape sequence: the
colon is looked for at the name's `"`, whether or not the stale name is a
column's. -/
theorem readMembers_of_escape (s : Settings Value) {pre : List Char} (hpre : ∀ c ∈ pre, c ≠ '\\' ∧ c ≠ '"')
    (fuel : Nat) (current : List Char) (row : List (Option Value)) (post : List Char) :
    readMembers s (fuel + 1) 0 current row ('"' :: (pre ++ '\\' :: post)) =
      .error (.read (.assertionFailed [':'] (('"' :: (pre ++ '\\' :: post)).take showCharsOnSyntaxError))) := by
  rw [readMembers, advanceToNextKey_quote, ok_bind]
  simp only [Bool.not_true, Bool.false_eq_true, if_false]
  rw [readColumnName_of_escape hpre]
  simp only [Except.mapError, ok_bind, skipColonDelimeter_quote, error_bind]
  -- the colon is missing in both branches of `columnIndex`
  split <;> rfl

theorem readJSONObject_of_escape (s : Settings Value) {pre : List Char} (hpre : ∀ c ∈ pre, c ≠ '\\' ∧ c ≠ '"')
    (fuel : Nat) (current post : List Char) :
    readJSONObject s (fuel + 1) current ('{' :: '"' :: (pre ++ '\\' :: post)) =
      .error (.read (.assertionFailed [':'] (('"' :: (pre ++ '\\' :: post)).take showCharsOnSyntaxError))) := by
  rw [readJSONObject, assertChar_cons_self]
  simp only [Except.mapError, ok_bind]
  rw [readMembers_of_escape s hpre, error_bind]

/-- **An escaped member name refuses the row.** Whatever the header and the
settings, an input whose first object's first member has a name with a `\`
before its closing `"` (`"_r\u0061w"` for `_raw`, say) is refused: the
format looks for the colon at the name's opening `"`. -/
theorem read_of_escaped_name (s : Settings Value) {pre : List Char} (hpre : ∀ c ∈ pre, c ≠ '\\' ∧ c ≠ '"')
    (post : List Char) :
    read s ('{' :: '"' :: (pre ++ '\\' :: post)) =
      some (.error (.read (.assertionFailed [':'] (('"' :: (pre ++ '\\' :: post)).take showCharsOnSyntaxError)))) := by
  have hopen : skipWhitespaceIfAny ('{' :: '"' :: (pre ++ '\\' :: post)) = '{' :: '"' :: (pre ++ '\\' :: post) :=
    skipWhitespaceIfAny_cons (by decide) _
  have hprefix : readPrefix ('{' :: '"' :: (pre ++ '\\' :: post)) =
      (⟨[], false, true⟩, '{' :: '"' :: (pre ++ '\\' :: post)) := by
    rfl
  -- the first row is the object, and the object throws
  have hrow : ∀ fuel, readRow s (fuel + 1) true ⟨[], false, true⟩ ('{' :: '"' :: (pre ++ '\\' :: post)) =
      .error (.read (.assertionFailed [':'] (('"' :: (pre ++ '\\' :: post)).take showCharsOnSyntaxError))) := by
    intro fuel
    simp [readRow, readObjectRow, hopen, readJSONObject_of_escape s hpre]
  rw [read, hprefix]
  dsimp only
  rw [readRows, hrow]

/-- A header of `_raw` and `_time`, and the object `{"_r\u0061w":"x"}`,
whose member is `_raw` with its `a` escaped: the row is refused. -/
theorem read_of_escaped_raw :
    let column : List Char → HeaderColumn (List Char) := fun name => ⟨⟨name, fun _ => .error [], fun h => by cases h⟩, []⟩
    let s : Settings (List Char) := ⟨[column "_raw".toList, column "_time".toList], false, fun buf => .ok buf,
      fun _ => .ok none, ⟨0, by decide⟩, ⟨1, by decide⟩, by decide, by decide⟩
    (∀ c ∈ ['_', 'r'], c ≠ '\\' ∧ c ≠ '"') ∧
      read s ('{' :: '"' :: (['_', 'r'] ++ '\\' :: "u0061w\":\"x\"\x7d".toList)) =
        some (.error (.read (.assertionFailed [':']
          (('"' :: (['_', 'r'] ++ '\\' :: "u0061w\":\"x\"\x7d".toList)).take showCharsOnSyntaxError)))) :=
  ⟨by simp, read_of_escaped_name _ (by simp) _⟩

end Daisy.Formats.RawStore
