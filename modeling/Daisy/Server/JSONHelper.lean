import Daisy.Common.SimpleJSON

/-!
# The JSON bodies of the ingest handlers

`readIntoBuffers` (`Server/RestRouterHandlers/JSONHelper.h`) walks the
top-level object of a request body with `SimpleJSON` and keeps, for each
member, a slice of the body: from the start of its value up to the start of
the next member, the last one up to the end of the body. The handlers then
read their fields out of those slices in place:
`IngestRestRouterHandler::parseColumns` turns the `columns` array into the
column list of the `INSERT` by writing `(` and `)` over its brackets, and
`IngestRawStoreHandler::handleEnrichment` walks the `enrichment` object
with `SimpleJSON` again.

## The model

The body is the buffer `mem` of `Daisy.Common.SimpleJSON`, and a slice is
its start and size (`ReadBufferFromMemory(pre, size)`). The map of slices
is a list of named slices that `emplace` appends to unless the name is
there. A `SimpleJSONException` caught by `readIntoBuffers` becomes its
`false` with the message; the slices it has emplaced by then are dropped,
since no caller reads them after a `false`. A handler's `false` with an
error is `Except.error` with the message.

## What is proved

* `parseColumns_end`: `parseColumns` reads the byte just past the slice of
  `columns`, whatever the slice holds; for a slice that ends the body, that
  is a read past the body.
* At the end, the body `{"columns":["a"]}`, whose last member is `columns`,
  run through `readIntoBuffers` and then `parseColumns`; and the body
  `{"a":1 ,"b":2}`, one JSON object with a space after the first value:
  the iterator's `++` looks for `,` right after the value, ends the walk at
  the space, and `b` is never read; `a` gets the rest of the body.
-/

namespace Daisy.Server

open Daisy.Library Daisy.Common Daisy.Common.SimpleJSON

/-- A `ReadBufferFromMemory` over `size` bytes of the body from `pre`. -/
structure Slice where
  pre : Nat
  size : Nat
  deriving DecidableEq, Repr

/-- `JSONReadBuffers`: a slice for each member name. -/
abbrev JSONReadBuffers := List (List Char × Slice)

/-- `buffers.emplace(name, slice)`: a name already there keeps its slice. -/
def emplace (buffers : JSONReadBuffers) (name : List Char) (slice : Slice) : JSONReadBuffers :=
  if (buffers.lookup name).isSome then buffers else buffers ++ [(name, slice)]

/-- `try { ... } catch (SimpleJSONException & e)`: an exception becomes its
message; faults go through. -/
def catchJSON {α : Type} : Run α → Run (Except (List Char) α)
  | .ok a => pure (.ok a)
  | .error (.exception message) => pure (.error message)
  | .error fault => throw fault

section Handlers

variable (mem : List Char) (unicode : List Char → Except (List Char) (List Char))

/-- One turn of the loop of `readIntoBuffers`: the slice of the member
before `it` is emplaced, then the name and value of `it` are read and the
iterator moves on. -/
def readIntoBuffersStep (fuel : Nat) :
    Option SimpleJSON × Nat × List Char × JSONReadBuffers →
      Run ((Option SimpleJSON × Nat × List Char × JSONReadBuffers) ⊕ (Nat × List Char × JSONReadBuffers))
  | (none, pre, name, buffers) => pure (.inr (pre, name, buffers))
  | (some it, pre, name, buffers) => do
    let buffers := if pre ≠ 0 then emplace buffers name ⟨pre, it.ptrBegin - pre⟩ else buffers
    let name ← getString mem unicode it
    let pre := (← getValue mem it).ptrBegin
    pure (.inl (← next mem fuel it, pre, name, buffers))

/-- `readIntoBuffers`: the slices of the members of the body's object, or
the message of the exception that stopped the walk. Building the
`SimpleJSON` of the body is outside the `try`. -/
def readIntoBuffers (fuel : Nat) : Run (Except (List Char) JSONReadBuffers) := do
  let obj ← make 0 mem.length 0
  catchJSON do
    let it ← obj.begin mem
    let (pre, name, buffers) ← loop .outOfFuel (readIntoBuffersStep mem unicode fuel) fuel (it, 0, [], [])
    pure (if pre ≠ 0 then emplace buffers name ⟨pre, mem.length - pre⟩ else buffers)

/-- The message of a `columns` field that is not an array. -/
def columnsInvalid : List Char := "Invalid Request, \x27columns\x27 field is invalid".toList

/-- `while (begin < end && *begin != '[') ++begin;` -/
def findOpening (finish : Nat) (pre : Nat) (fuel : Nat) : Run Nat :=
  loop .outOfFuel (fun begin => do
      if begin < finish then
        if (← load mem begin) ≠ '[' then pure (.inl (begin + 1)) else pure (.inr begin)
      else pure (.inr begin))
    fuel pre

/-- `while (end > begin && *end != ']') --end;` -/
def findClosing (begin : Nat) (finish : Nat) (fuel : Nat) : Run Nat :=
  loop .outOfFuel (fun finish => do
      if finish > begin then
        if (← load mem finish) ≠ ']' then pure (.inl (finish - 1)) else pure (.inr finish)
      else pure (.inr finish))
    fuel finish

/-- `IngestRestRouterHandler::parseColumns`: the column list, with the
bytes it writes over; the body after the writes. -/
def parseColumns (buffers : JSONReadBuffers) : Run (List Char × Except (List Char) (List Char)) :=
  match buffers.lookup "columns".toList with
  | none => pure (mem, .error "Invalid Request, \x27columns\x27 field is missing".toList)
  | some ⟨pre, size⟩ => do
    let begin ← findOpening mem (pre + size) pre (size + 1)
    if (← load mem begin) ≠ '[' then return (mem, .error columnsInvalid)
    let mem ← store mem begin '('
    let finish ← findClosing mem begin (pre + size) (size + 1)
    if (← load mem finish) ≠ ']' then return (mem, .error columnsInvalid)
    let mem ← store mem finish ')'
    pure (mem, .ok ((mem.drop begin).take (finish - begin + 1)))

/-- `name == field && it.getType() == SimpleJSON::TYPE_NAME_VALUE_PAIR`,
the type read only for the field's name. -/
def isField (it : SimpleJSON) (name field : List Char) : Run Bool :=
  if name = field then do pure ((← getType mem it) = .nameValuePair) else pure false

/-- One turn of the loop of `handleEnrichment`: the extraction type and
rule read so far, and the member at hand. -/
def handleEnrichmentStep (fuel : Nat) :
    Option SimpleJSON × List Char × List Char → Run ((Option SimpleJSON × List Char × List Char) ⊕ (List Char × List Char))
  | (none, type, rule) => pure (.inr (type, rule))
  | (some it, type, rule) => do
    let name ← getString mem unicode it
    let (type, rule) ←
      if ← isField mem it name "time_extraction_type".toList then do
        pure (← getString mem unicode (← getValue mem it), rule)
      else if ← isField mem it name "time_extraction_rule".toList then do
        pure (type, ← getString mem unicode (← getValue mem it))
      else pure (type, rule)
    pure (.inl (← next mem fuel it, type, rule))

/-- `IngestRawStoreHandler::handleEnrichment` on a slice: the extraction
type and rule it sets, if it sets them. Its `SimpleJSON` walk is not in a
`try`, so an exception leaves the handler. -/
def handleEnrichment (fuel : Nat) (slice : Slice) : Run (Except (List Char) (Option (List Char × List Char))) := do
  let obj ← make slice.pre (slice.pre + slice.size) 0
  let it ← obj.begin mem
  let (type, rule) ← loop .outOfFuel (handleEnrichmentStep mem unicode fuel) fuel (it, [], [])
  if type ≠ [] ∧ rule ≠ [] then
    if type = "json_path".toList ∨ type = "regex".toList then pure (.ok (some (type, rule)))
    else pure (.error "Invalid enrichment, only \x27json_path\x27 and \x27regex\x27 are supported right now".toList)
  else if type ≠ [] ∨ rule ≠ [] then
    pure (.error ("Invalid enrichment, either \x27rawstore_time_extraction_type\x27 or " ++
      "\x27rawstore_time_extraction_rule\x27 is missing ").toList)
  else pure (.ok none)

/-! ### `parseColumns` reads the byte after its slice -/

/-- The forward scan stops at the first `[` of the slice, or at its end. -/
theorem findOpening_ok (pre size : Nat) (hmem : pre + size ≤ mem.length) :
    ∃ begin, findOpening mem (pre + size) pre (size + 1) = .ok begin ∧ pre ≤ begin ∧ begin ≤ pre + size ∧
      (begin < pre + size → mem[begin]? = some '[') := by
  refine loop_ok (fun b => pre ≤ b ∧ b ≤ pre + size) (fun b => pre + size - b) (fun b ⟨hpre, hle⟩ => ?_)
    (size + 1) pre ⟨Nat.le_refl _, Nat.le_add_right _ _⟩ (by omega)
  by_cases hlt : b < pre + size
  · have hb : b < mem.length := by omega
    by_cases hbracket : mem[b] = '['
    · exact ⟨.inr b, by simp [hlt, load_of_lt mem hb, hbracket, ok_bind, pure_eq_ok], hpre, hle, fun _ => by simp [hb, hbracket]⟩
    · exact ⟨.inl (b + 1), by simp [hlt, load_of_lt mem hb, hbracket, ok_bind, pure_eq_ok], ⟨by omega, by omega⟩, by omega⟩
  · exact ⟨.inr b, by simp [hlt, pure_eq_ok], hpre, hle, fun h => absurd h hlt⟩

/-- The backward scan reads `*end` first: past the buffer, that is a fault. -/
theorem findClosing_of_le {begin finish : Nat} (hlt : begin < finish) (hmem : mem.length ≤ finish) (fuel : Nat) :
    findClosing mem begin finish (fuel + 1) = .error (.outOfBounds finish) := by
  rw [findClosing, loop_succ]
  simp [hlt, load_of_le mem hmem, error_bind]

/-- **`parseColumns` reads past a slice that ends the body.** Whether or
not the slice has a `[`, the next read is the byte at its end. -/
theorem parseColumns_end {buffers : JSONReadBuffers} {pre size : Nat}
    (hcols : buffers.lookup "columns".toList = some ⟨pre, size⟩) (hend : pre + size = mem.length) :
    parseColumns mem buffers = .error (.outOfBounds mem.length) := by
  obtain ⟨b, hb, -, hle, hbracket⟩ := findOpening_ok mem pre size (by omega)
  simp only [parseColumns, hcols, hb, ok_bind]
  rw [hend] at hle hbracket
  by_cases hlt : b < mem.length
  · -- `[` is found and written over; the scan for `]` then starts past the body
    have hopen : mem[b] = '[' := by simpa [hlt] using hbracket hlt
    have hset : (mem.set b '(').length ≤ mem.length := by simp
    simp [load_of_lt mem hlt, hopen, store_of_lt mem hlt, hend, findClosing_of_le _ hlt hset, ok_bind, error_bind]
  · -- no `[`: the test after the scan reads the end of the slice
    have hb : b = mem.length := by omega
    simp [hb, load_of_le mem (Nat.le_refl _), error_bind]

end Handlers

/-- The body `{"columns":["a"]}`, the `columns` member last, as any
client may send it: `readIntoBuffers` gives `columns` the slice `["a"]}` up
to the end of the body, and `parseColumns` then reads the byte after the
body, whatever Poco's `\u` decoding does. -/
theorem parseColumns_columns_last (unicode : List Char → Except (List Char) (List Char)) :
    readIntoBuffers "\x7b\x22columns\x22:[\x22a\x22]\x7d".toList unicode 17 =
        .ok (.ok [("columns".toList, ⟨11, 6⟩)]) ∧
      parseColumns "\x7b\x22columns\x22:[\x22a\x22]\x7d".toList [("columns".toList, ⟨11, 6⟩)] =
        .error (.outOfBounds 17) :=
  ⟨by rfl, by decide +kernel⟩

/-- The body `{"a":1 ,"b":2}` is one JSON object, with a space after the
first value: `readIntoBuffers` returns `true` with the member `a` only, its
slice `1 ,"b":2}` running to the end of the body, whatever Poco's `\u`
decoding does. -/
theorem readIntoBuffers_drops_member_after_space (unicode : List Char → Except (List Char) (List Char)) :
    readIntoBuffers "\x7b\x22a\x22:1 ,\x22b\x22:2\x7d".toList unicode 14 = .ok (.ok [("a".toList, ⟨5, 9⟩)]) := by
  rfl

end Daisy.Server
