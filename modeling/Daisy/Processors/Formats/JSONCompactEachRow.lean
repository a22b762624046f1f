import Daisy.IO.Text
import Daisy.Library.Faults

/-!
# `JSONCompactEachRowRowInputFormat`

`Processors/Formats/Impl/JSONCompactEachRowRowInputFormat.cpp` as Daisy
changes it: the reader of the `JSONCompactEachRow` format, each row a JSON
array of the values of the header's columns, rows apart by white space, `,`
or `;`. The ingest API passes it the text of its `data` member, an array of
such rows (`IngestRestRouterHandler::execute` runs
`INSERT ... FORMAT JSONCompactEachRow` on the slice of the body from that
member on). The format tells the two apart as it reads the first row: after
the row's `[`, a second `[` sets `with_bracket` and the row is read from
after it; once `with_bracket` is set, a `]` where a row should start ends
the input.

## The model

A column is its name and the `deserializeTextJSON` of its type: a reader
that returns the value and the rest of its input, a suffix of it, or the
message of what it throws. Without names, `readPrefix` skips a byte order
mark and reads every column of the header in order. `readRow` returns the
values of the row (`none` where the source returns `false`), the new
`with_bracket` and the rest of the input. `IRowInputFormat::generate` calls
`readRow` until it returns `false`; with no errors allowed, an exception
ends the read. `readRows` runs that loop on fuel, one unit a row, `none`
where the fuel runs out. Reading
`*in.position()` at the end of the input is undefined and stops the model.

## What is proved

* `readRow_cases`: the four ways a call of `readRow` can end without
  throwing;
* `readRow_eq_none`: `readRow` reads no row only at the end of the input,
  at a `[[` followed by white space alone, or at a `]` once `with_bracket`
  is set;
* `readRow_consumes`: a row read takes at least its `[` and its `]` off
  the input, so that `read` never runs out of fuel (`read_isSome`);
* `read_empty_array_not_empty`: the text `[]`, an array of no rows, is never
  read as no rows: the format throws or reads a row out of it.
-/

namespace Daisy.Formats

open Daisy.IO Daisy.Library

/-- A column of the header. -/
structure Column (Value : Type) where
  /-- The column's name. -/
  name : List Char
  /-- `deserializeTextJSON` of the column's type: the value and the rest of
  the input, or the message of the exception. -/
  deserializeTextJSON : List Char → Except (List Char) (Value × List Char)
  /-- The reader reads from the front of its input. -/
  rest_suffix : ∀ {buf : List Char} {value : Value} {rest : List Char},
    deserializeTextJSON buf = .ok (value, rest) → rest <:+ buf

/-- What reading a row throws. -/
inductive ReadRowError where
  /-- An exception of `assertChar` or `throwAtAssertionFailed`. -/
  | read (e : ReadError)
  /-- An exception of `deserializeTextJSON`, to which `readField` adds
  "(while reading the value of key `name`)". -/
  | field (message name : List Char)
  /-- "Unexpected end of stream while parsing JSONCompactEachRow format"
  (`CANNOT_READ_ALL_DATA`). -/
  | unexpectedEnd
  /-- `*in.position()` at the end of the input: undefined. -/
  | pastEnd
  deriving DecidableEq, Repr

variable {Value : Type}

/-- `skipBOMIfExists(in)`: the UTF-8 byte order mark, where a byte follows it. -/
def skipBOMIfExists : List Char → List Char
  | '\xEF' :: '\xBB' :: '\xBF' :: c :: rest => c :: rest
  | buf => buf

/-- `skipEndOfLine()`: white space, then a `,` or a `;`, then white space. -/
def skipEndOfLine (buf : List Char) : List Char :=
  let buf := skipWhitespaceIfAny buf
  let buf := match buf with
    | c :: rest => if c = ',' ∨ c = ';' then rest else buf
    | [] => buf
  skipWhitespaceIfAny buf

/-- `*in.position()`: the next character, undefined at the end. -/
def position : List Char → Except ReadRowError Char
  | c :: _ => pure c
  | [] => throw .pastEnd

/-- `readField(index, columns)`: the column's value; an exception gets the
column's name. -/
def readField (column : Column Value) (buf : List Char) : Except ReadRowError (Value × List Char) :=
  (column.deserializeTextJSON buf).mapError fun message => .field message column.name

/-- The loop of `readRow` over the columns: the values and the input after
the last one. -/
def readFields : List (Column Value) → List Char → Except ReadRowError (List Value × List Char)
  | [], buf => pure ([], buf)
  | column :: columns, buf => do
    let (value, buf) ← readField column buf
    let buf := skipWhitespaceIfAny buf
    if buf = [] then throw .unexpectedEnd
    -- `file_column + 1 != column_indexes_for_input_fields.size()`
    let buf ← if columns ≠ [] then do
        pure (skipWhitespaceIfAny (← (assertChar ',' buf).mapError .read))
      else pure buf
    let (values, buf) ← readFields columns buf
    pure (value :: values, buf)

/-- The end of `readRow`, from after the row's `[`: `false` at the end of
the input, or the values of the columns and the row's `]`. -/
def readRowValues (columns : List (Column Value)) (withBracket : Bool) (buf : List Char) :
    Except ReadRowError (Option (List Value) × Bool × List Char) := do
  if buf = [] then return (none, withBracket, buf)
  let (values, buf) ← readFields columns buf
  let buf ← (assertChar ']' buf).mapError .read
  pure (some values, withBracket, buf)

/-- `readRow(columns, ext)` with `with_bracket`: the values of the row, or
`none` where it returns `false`, with the new `with_bracket` and the rest of
the input. -/
def readRow (columns : List (Column Value)) (withBracket : Bool) (buf : List Char) :
    Except ReadRowError (Option (List Value) × Bool × List Char) := do
  let buf := skipEndOfLine buf
  if buf = [] then return (none, withBracket, buf)
  let c ← position buf
  if c = '[' then
    let buf := skipWhitespaceIfAny (buf.drop 1)
    -- the Daisy change: a second `[` opens an array of rows
    if (← position buf) = '[' ∧ !withBracket then readRowValues columns true (skipWhitespaceIfAny (buf.drop 1))
    else readRowValues columns withBracket buf
  else if c = ']' ∧ withBracket then return (none, withBracket, buf)
  else throw (.read (.assertionFailed ['['] (buf.take showCharsOnSyntaxError)))

/-- The loop of `IRowInputFormat::generate`: `readRow` until it returns
`false`; `none` where the fuel runs out. -/
def readRows (columns : List (Column Value)) :
    Nat → Bool → List Char → Option (Except ReadRowError (List (List Value)))
  | 0, _, _ => none
  | fuel + 1, withBracket, buf =>
    match readRow columns withBracket buf with
    | .error e => some (.error e)
    | .ok (none, _, _) => some (.ok [])
    | .ok (some values, withBracket, buf) => (readRows columns fuel withBracket buf).map (·.map (values :: ·))

/-- The rows of the input: `readPrefix`, then the rows. -/
def read (columns : List (Column Value)) (input : List Char) : Option (Except ReadRowError (List (List Value))) :=
  readRows columns (input.length + 1) false (skipBOMIfExists input)

/-! ### What a row takes off the input -/

theorem skipEndOfLine_suffix (buf : List Char) : skipEndOfLine buf <:+ buf := by
  unfold skipEndOfLine
  have hskip := skipWhitespaceIfAny_suffix buf
  generalize skipWhitespaceIfAny buf = b at hskip ⊢
  refine (skipWhitespaceIfAny_suffix _).trans ?_
  rcases b with _ | ⟨c, r⟩
  · exact hskip
  · dsimp only
    split_ifs
    · exact (List.suffix_cons c r).trans hskip
    · exact hskip

theorem readField_suffix {column : Column Value} {buf rest : List Char} {value : Value}
    (h : readField column buf = .ok (value, rest)) : rest <:+ buf :=
  column.rest_suffix (mapError_eq_ok h)

theorem readFields_suffix {columns : List (Column Value)} {buf : List Char} {values : List Value} {rest : List Char}
    (h : readFields columns buf = .ok (values, rest)) : rest <:+ buf := by
  induction columns generalizing buf values with
  | nil =>
    cases h
    exact List.suffix_refl _
  | cons column columns ih =>
    obtain ⟨⟨value, buf₁⟩, hfield, h⟩ := bind_eq_ok h
    dsimp only at h
    have hws := (skipWhitespaceIfAny_suffix buf₁).trans (readField_suffix hfield)
    by_cases hend : skipWhitespaceIfAny buf₁ = []
    · rw [if_pos hend] at h
      cases h
    rw [if_neg hend] at h
    split_ifs at h
    · -- a `,` between two values
      obtain ⟨buf₂, hcomma, h⟩ := bind_eq_ok h
      rw [pure_eq_ok, ok_bind] at h
      obtain ⟨⟨values', buf₃⟩, hrest, h⟩ := bind_eq_ok h
      cases h
      have hbuf₂ : buf₂ <:+ skipWhitespaceIfAny buf₁ := by
        rw [assertChar_eq_ok (mapError_eq_ok hcomma)]
        exact List.suffix_cons _ _
      exact (ih hrest).trans ((skipWhitespaceIfAny_suffix buf₂).trans (hbuf₂.trans hws))
    · rw [pure_eq_ok, ok_bind] at h
      obtain ⟨⟨values', buf₃⟩, hrest, h⟩ := bind_eq_ok h
      cases h
      exact (ih hrest).trans hws

theorem readRowValues_eq_none {columns : List (Column Value)} {withBracket withBracket' : Bool}
    {buf rest : List Char} (h : readRowValues columns withBracket buf = .ok (none, withBracket', rest)) : buf = [] := by
  unfold readRowValues at h
  split_ifs at h with hbuf
  · exact hbuf
  · obtain ⟨⟨values, buf₁⟩, -, h⟩ := bind_eq_ok h
    obtain ⟨buf₂, -, h⟩ := bind_eq_ok h
    cases h

theorem readRowValues_consumes {columns : List (Column Value)} {withBracket withBracket' : Bool}
    {buf rest : List Char} {values : List Value}
    (h : readRowValues columns withBracket buf = .ok (some values, withBracket', rest)) : rest.length < buf.length := by
  unfold readRowValues at h
  split_ifs at h with hbuf
  · cases h
  · obtain ⟨⟨values', buf₁⟩, hfields, h⟩ := bind_eq_ok h
    obtain ⟨buf₂, hclose, h⟩ := bind_eq_ok h
    cases h
    have hlen := (readFields_suffix hfields).length_le
    rw [assertChar_eq_ok (mapError_eq_ok hclose), List.length_cons] at hlen
    omega

/-- What `readRow` can do: stop at the end of the input, read the values
after a `[[` that opens an array of rows, read the values after a `[`, or
stop at a `]` once `with_bracket` is set. -/
theorem readRow_cases {columns : List (Column Value)} {withBracket withBracket' : Bool} {buf rest : List Char}
    {row : Option (List Value)} (h : readRow columns withBracket buf = .ok (row, withBracket', rest)) :
    (skipEndOfLine buf = [] ∧ row = none) ∨
      (∃ r r', skipEndOfLine buf = '[' :: r ∧ skipWhitespaceIfAny r = '[' :: r' ∧ withBracket = false ∧
        readRowValues columns true (skipWhitespaceIfAny r') = .ok (row, withBracket', rest)) ∨
      (∃ r d r', skipEndOfLine buf = '[' :: r ∧ skipWhitespaceIfAny r = d :: r' ∧
        ¬(d = '[' ∧ withBracket = false) ∧ readRowValues columns withBracket (d :: r') = .ok (row, withBracket', rest)) ∨
      (withBracket = true ∧ row = none ∧ ∃ r, skipEndOfLine buf = ']' :: r) := by
  unfold readRow at h
  generalize skipEndOfLine buf = b at h ⊢
  rcases b with _ | ⟨c, r⟩
  · rw [if_pos rfl] at h
    cases h
    exact .inl ⟨rfl, rfl⟩
  simp only [reduceCtorEq, if_false, position, pure_eq_ok, ok_bind, List.drop_one, List.tail_cons] at h
  by_cases hc : c = '['
  · rw [if_pos hc] at h
    subst hc
    -- `*in.position()` after the white space that follows the row's `[`
    rcases hr : skipWhitespaceIfAny r with _ | ⟨d, r'⟩
    · rw [hr] at h
      cases h
    rw [hr, ok_bind] at h
    split_ifs at h with hd
    · obtain ⟨rfl, hwb⟩ := hd
      exact .inr (.inl ⟨r, r', rfl, hr, by simpa using hwb, h⟩)
    · exact .inr (.inr (.inl ⟨r, d, r', rfl, hr, by simpa using hd, h⟩))
  · rw [if_neg hc] at h
    split_ifs at h with hclose
    obtain ⟨rfl, hwb⟩ := hclose
    cases h
    exact .inr (.inr (.inr ⟨hwb, rfl, r, rfl⟩))

/-- **No row.** `readRow` reads no row only at the end of the input, at a
`[[` followed by white space alone before `with_bracket` is set, or at a
`]` after. -/
theorem readRow_eq_none {columns : List (Column Value)} {withBracket withBracket' : Bool} {buf rest : List Char}
    (h : readRow columns withBracket buf = .ok (none, withBracket', rest)) :
    skipEndOfLine buf = [] ∨
      (withBracket = false ∧ ∃ r r', skipEndOfLine buf = '[' :: r ∧ skipWhitespaceIfAny r = '[' :: r' ∧
        skipWhitespaceIfAny r' = []) ∨
      (withBracket = true ∧ ∃ r, skipEndOfLine buf = ']' :: r) := by
  rcases readRow_cases h with ⟨hend, -⟩ | ⟨r, r', hb, hr, hwb, hvalues⟩ | ⟨r, d, r', -, -, -, hvalues⟩ |
    ⟨hwb, -, r, hb⟩
  · exact .inl hend
  · exact .inr (.inl ⟨hwb, r, r', hb, hr, readRowValues_eq_none hvalues⟩)
  · exact absurd (readRowValues_eq_none hvalues) (List.cons_ne_nil d r')
  · exact .inr (.inr ⟨hwb, r, hb⟩)

/-- A row read takes off at least its `[` and its `]`. -/
theorem readRow_consumes {columns : List (Column Value)} {withBracket withBracket' : Bool} {buf rest : List Char}
    {values : List Value} (h : readRow columns withBracket buf = .ok (some values, withBracket', rest)) :
    rest.length < buf.length := by
  have hskip := (skipEndOfLine_suffix buf).length_le
  rcases readRow_cases h with ⟨-, hnone⟩ | ⟨r, r', hb, hr, -, hvalues⟩ | ⟨r, d, r', hb, hr, -, hvalues⟩ |
    ⟨-, hnone, -⟩
  · cases hnone
  · -- the row's `[`, the second `[`, then the values and the `]`
    have hrow := readRowValues_consumes hvalues
    have hr' := (skipWhitespaceIfAny_suffix r').length_le
    have hr'' := (skipWhitespaceIfAny_suffix r).length_le
    rw [hb, List.length_cons] at hskip
    rw [hr, List.length_cons] at hr''
    omega
  · have hrow := readRowValues_consumes hvalues
    have hr'' := (skipWhitespaceIfAny_suffix r).length_le
    rw [hb, List.length_cons] at hskip
    rw [hr, List.length_cons] at hr''
    rw [List.length_cons] at hrow
    omega
  · cases hnone

/-! ### The rows of an input -/

theorem readRows_isSome (columns : List (Column Value)) :
    ∀ fuel withBracket buf, buf.length < fuel → (readRows columns fuel withBracket buf).isSome
  | 0, _, _, hfuel => absurd hfuel (Nat.not_lt_zero _)
  | fuel + 1, withBracket, buf, hfuel => by
    rw [readRows]
    rcases hrow : readRow columns withBracket buf with e | ⟨_ | values, withBracket', rest⟩
    · rfl
    · rfl
    · have hlt := readRow_consumes hrow
      rw [Option.isSome_map]
      exact readRows_isSome columns fuel withBracket' rest (by omega)

theorem skipBOMIfExists_suffix (buf : List Char) : skipBOMIfExists buf <:+ buf := by
  unfold skipBOMIfExists
  split
  · exact ⟨['\xEF', '\xBB', '\xBF'], rfl⟩
  · exact List.suffix_refl _

/-- The fuel of `read` never runs out. -/
theorem read_isSome (columns : List (Column Value)) (input : List Char) : (read columns input).isSome :=
  readRows_isSome columns _ false _ (Nat.lt_succ_of_le (skipBOMIfExists_suffix input).length_le)

/-- **The empty array of rows is not read as no rows.** Whatever the
columns, the first row read from `[]` hands the columns the text `]`: the
format throws, or reads a row. -/
theorem read_empty_array_not_empty (columns : List (Column Value)) : read columns "[]".toList ≠ some (.ok []) := by
  -- `readRow` goes past the `[`: what follows is neither a second `[` nor the end
  have hrow : ∀ withBracket rest, readRow columns false "[]".toList ≠ .ok (none, withBracket, rest) := by
    intro withBracket rest h
    have hskip : skipEndOfLine "[]".toList = ['[', ']'] := by decide
    have hclose : skipWhitespaceIfAny [']'] = [']'] := by decide
    rcases readRow_eq_none h with h | ⟨-, r, r', h, hr, -⟩ | ⟨h, -⟩
    · rw [hskip] at h
      cases h
    · rw [hskip] at h
      cases h
      rw [hclose] at hr
      simp at hr
    · cases h
  show readRows columns 3 false "[]".toList ≠ some (.ok [])
  rw [readRows]
  rcases hfirst : readRow columns false "[]".toList with e | ⟨_ | values, withBracket, rest⟩
  · simp
  · exact absurd hfirst (hrow _ _)
  · rcases hrest : readRows columns 2 withBracket rest with _ | _ | rows <;> simp [hrest, Except.map]

end Daisy.Formats
