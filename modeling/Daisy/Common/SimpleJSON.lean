import Daisy.Library.Faults

/-!
# `SimpleJSON`: walking JSON text in place

`SimpleJSON` (`base/common/SimpleJSON.cpp`, Daisy's copy of `JSON.h`) reads
JSON without building it: a value is a pair of pointers into a buffer, and
each method skips over text from a position, checking each position with
`checkPos` before it reads it.

## The model

The buffer is a list of bytes `mem` and pointers are indices into it. A read
(`load`) or a write (`store`) past the end of `mem` is a fault,
`Fault.outOfBounds`, which no run of the code must reach; an exception the
code throws is `Fault.exception` with its message. The model's loops and the
recursion of `skipElement` take fuel (`Fault.outOfFuel` when it runs out):
the loops that walk towards `ptr_end` one byte a step are given the bytes
left as their fuel.

The methods are the ones `readIntoBuffers` and the ingest handlers call:
the skips (`skipWhitespaceIfAny`, `skipString`, `skipNumber`, `skipBool`,
`skipNull`, `skipNameValuePair`, `skipArray`, `skipObject`, `skipElement`),
`getType`, the iterator (`begin`, `next` for `operator++`), `getValue` and
`getString`. `skipNameValuePair`, `skipArray` and `skipObject` take the
`skipElement` they call as an argument, so that `skipElement` is one
recursion on its fuel.

Poco's `NumberParser::parseHex` and `UTF8Encoding::convert`, which
`getString` calls on the four digits of a `\u` escape, are the parameter
`unicode`: the bytes it appends, or the message of the exception thrown.

## What is proved

* `SimpleJSON.skipElement_safe` and the lemmas before it: on a `SimpleJSON`
  whose `ptr_end` is inside the buffer, no method reads outside it.
-/

namespace Daisy.Common

open Daisy.Library

/-- How a run stops when it does not return. -/
inductive Fault where
  /-- A `SimpleJSONException`, with its message. -/
  | exception (message : List Char)
  /-- A read or a write at `pos`, past the end of the buffer. -/
  | outOfBounds (pos : Nat)
  /-- The model's fuel ran out. -/
  | outOfFuel
  deriving DecidableEq, Repr

/-- The faults that must not happen: an access outside the buffer. -/
def Fault.IsOutOfBounds : Fault → Prop
  | .outOfBounds _ => True
  | _ => False

instance : DecidablePred Fault.IsOutOfBounds := fun f => by
  cases f <;> simp only [Fault.IsOutOfBounds] <;> infer_instance

abbrev Run := Except Fault

/-- `r` returns a value `Q` holds of, or stops without an access outside the buffer. -/
abbrev Safe {α : Type} (Q : α → Prop) (r : Run α) : Prop := Post Fault.IsOutOfBounds Q r

/-- The characters a message spells with escapes in the source. -/
def quote : Char := Char.ofNat 34

def openBrace : Char := Char.ofNat 123

def closeBrace : Char := Char.ofNat 125

section Memory

variable (mem : List Char)

/-- `*pos`. -/
def load (pos : Nat) : Run Char :=
  if h : pos < mem.length then pure mem[pos] else throw (.outOfBounds pos)

/-- `*pos = c`. -/
def store (pos : Nat) (c : Char) : Run (List Char) :=
  if pos < mem.length then pure (mem.set pos c) else throw (.outOfBounds pos)

theorem load_of_lt {pos : Nat} (h : pos < mem.length) : load mem pos = .ok mem[pos] := by
  simp [load, h, pure, Except.pure]

theorem load_of_le {pos : Nat} (h : mem.length ≤ pos) : load mem pos = .error (.outOfBounds pos) := by
  simp [load, Nat.not_lt.mpr h, throw, throwThe, MonadExceptOf.throw]

theorem store_of_lt {pos : Nat} (h : pos < mem.length) (c : Char) : store mem pos c = .ok (mem.set pos c) := by
  simp [store, h, pure, Except.pure]

/-- `memchr(pos, c, n)`: the first `c` among the `n` bytes from `pos`. -/
def memchr (pos : Nat) (c : Char) : Nat → Run (Option Nat)
  | 0 => pure none
  | n + 1 => do
    if (← load mem pos) = c then pure (some pos) else memchr (pos + 1) c n

/-- `find_first_symbols<symbols...>(pos, pos + n)`: the first of `symbols`
among the `n` bytes from `pos`, or `pos + n` if there is none. -/
def findFirstSymbols (symbols : List Char) (pos : Nat) : Nat → Run Nat
  | 0 => pure pos
  | n + 1 => do
    if (← load mem pos) ∈ symbols then pure pos else findFirstSymbols symbols (pos + 1) n

end Memory

/-- The parts of the buffer a `SimpleJSON` stands for: from `ptrBegin` up to
`ptrEnd`, at nesting `level`. -/
structure SimpleJSON where
  ptrBegin : Nat
  ptrEnd : Nat
  level : Nat
  deriving DecidableEq, Repr

/-- `JSON_MAX_DEPTH`. -/
def maxDepth : Nat := 100

/-- What `SimpleJSON::getType` finds at a position. -/
inductive ElementType where
  | object | array | number | string | bool | null | nameValuePair | noType
  deriving DecidableEq, Repr

/-- The characters `skipWhitespaceIfAny` skips. -/
def isWhitespace (c : Char) : Bool :=
  c = ' ' || c = '\t' || c = '\n' || c = '\r' || c = Char.ofNat 12 || c = Char.ofNat 11

/-- What `getString` appends for the escape `\c`, `c` not `u`. -/
def unescape (c : Char) : Char :=
  if c = 'b' then Char.ofNat 8
  else if c = 'f' then Char.ofNat 12
  else if c = 'n' then '\n'
  else if c = 'r' then '\r'
  else if c = 't' then '\t'
  else c

namespace SimpleJSON

/-- The constructor, with `checkInit`. -/
def make (ptrBegin ptrEnd level : Nat) : Run SimpleJSON :=
  if ptrBegin ≥ ptrEnd then throw (.exception "JSON: begin >= end.".toList)
  else if level > maxDepth then throw (.exception "JSON: too deep.".toList)
  else pure ⟨ptrBegin, ptrEnd, level⟩

/-- `checkPos(pos)`. -/
def checkPos (j : SimpleJSON) (pos : Nat) : Run Unit :=
  if pos ≥ j.ptrEnd then throw (.exception "JSON: unexpected end of data.".toList) else pure ()

section Skips

variable (mem : List Char)

/-- `skipWhitespaceIfAny(pos)`. -/
def skipWhitespaceIfAny (j : SimpleJSON) (pos : Nat) : Run Nat := do
  j.checkPos pos
  loop .outOfFuel (fun pos => do
      if isWhitespace (← load mem pos) then
        j.checkPos (pos + 1)
        pure (.inl (pos + 1))
      else pure (.inr pos))
    (j.ptrEnd - pos) pos

/-- The slow path of `skipString`, from the byte after the opening quote. -/
def skipStringSlow (j : SimpleJSON) (pos : Nat) : Run Nat := do
  -- while (pos < ptr_end && *pos != '"'), stepping over escapes
  let pos ← loop .outOfFuel (fun pos => do
      if pos < j.ptrEnd then
        let c ← load mem pos
        if c = quote then pure (.inr pos)
        else if c = '\\' then
          j.checkPos (pos + 1)
          if (← load mem (pos + 1)) = 'u' then
            j.checkPos (pos + 5)
            pure (.inl (pos + 6))
          else pure (.inl (pos + 2))
        else pure (.inl (pos + 1))
      else pure (.inr pos))
    (j.ptrEnd - pos + 1) pos
  j.checkPos pos
  let c ← load mem pos
  if c ≠ quote then throw (.exception ("JSON: expected ".toList ++ [quote] ++ ", got ".toList ++ [c]))
  pure (pos + 1)

/-- `skipString(start)`. -/
def skipString (j : SimpleJSON) (start : Nat) : Run Nat := do
  let pos ← skipWhitespaceIfAny mem j start
  j.checkPos pos
  let c ← load mem pos
  if c ≠ quote then throw (.exception ("JSON: expected ".toList ++ [quote] ++ ", got ".toList ++ [c]))
  let pos := pos + 1
  -- the fast path: the next double quote ends the string unless a backslash stands before it
  match ← memchr mem pos quote (j.ptrEnd - pos) with
  | some closing =>
    if (← load mem (closing - 1)) ≠ '\\' then pure (closing + 1) else skipStringSlow mem j pos
  | none => skipStringSlow mem j pos

/-- `while (pos < ptr_end && *pos >= '0' && *pos <= '9') ++pos;` -/
def skipDigits (j : SimpleJSON) (pos : Nat) : Run Nat :=
  loop .outOfFuel (fun pos => do
      if pos < j.ptrEnd then
        if (← load mem pos).isDigit then pure (.inl (pos + 1)) else pure (.inr pos)
      else pure (.inr pos))
    (j.ptrEnd - pos + 1) pos

/-- `if (pos < ptr_end && p(*pos)) ++pos;` -/
def skipIf (j : SimpleJSON) (p : Char → Bool) (pos : Nat) : Run Nat := do
  if pos < j.ptrEnd then
    if p (← load mem pos) then pure (pos + 1) else pure pos
  else pure pos

/-- `skipNumber(begin)`. -/
def skipNumber (j : SimpleJSON) (begin : Nat) : Run Nat := do
  let pos ← skipWhitespaceIfAny mem j begin
  j.checkPos pos
  let pos := if (← load mem pos) = '-' then pos + 1 else pos
  let pos ← skipDigits mem j pos
  let pos ← skipIf mem j (· = '.') pos
  let pos ← skipDigits mem j pos
  let pos ← skipIf mem j (fun c => c = 'e' || c = 'E') pos
  let pos ← skipIf mem j (· = '-') pos
  skipDigits mem j pos

/-- `skipBool(begin)`: `true` or `false`, taken on the first letter. -/
def skipBool (j : SimpleJSON) (begin : Nat) : Run Nat := do
  let pos ← skipWhitespaceIfAny mem j begin
  j.checkPos pos
  let c ← load mem pos
  if c = 't' then pure (pos + 4)
  else if c = 'f' then pure (pos + 5)
  else throw (.exception "JSON: expected true or false.".toList)

/-- `skipNull(begin)`: `null`, taken on trust. -/
def skipNull (begin : Nat) : Nat := begin + 4

/-- `getType(pos)`. -/
def getTypeAt (j : SimpleJSON) (pos : Nat) : Run ElementType := do
  let c ← load mem pos
  if c = openBrace then pure .object
  else if c = '[' then pure .array
  else if c = 't' || c = 'f' then pure .bool
  else if c = 'n' then pure .null
  else if c = '-' || c.isDigit then pure .number
  else if c = quote then do
    -- a string, or the name of a name-value pair
    let after ← skipString mem j pos
    let after ← skipWhitespaceIfAny mem j after
    if after < j.ptrEnd then
      if (← load mem after) = ':' then pure .nameValuePair else pure .string
    else pure .string
  else do
    let first ← load mem j.ptrBegin
    throw (.exception ("JSON: unexpected char ".toList ++ [first] ++
      ", expected one of \x27\x7b[tfn-0123456789".toList ++ [quote, Char.ofNat 39]))

/-- `getType()`. -/
def getType (j : SimpleJSON) : Run ElementType := do
  getTypeAt mem j (← skipWhitespaceIfAny mem j j.ptrBegin)

/-- `skipNameValuePair(begin)`. -/
def skipNameValuePair (skipElement : SimpleJSON → Run Nat) (j : SimpleJSON) (begin : Nat) : Run Nat := do
  let pos ← skipString mem j begin
  j.checkPos pos
  let pos ← skipWhitespaceIfAny mem j pos
  if (← load mem pos) ≠ ':' then throw (.exception "JSON: expected :.".toList)
  skipElement (← make (pos + 1) j.ptrEnd (j.level + 1))

/-- `skipArray(begin)`. -/
def skipArray (skipElement : SimpleJSON → Run Nat) (fuel : Nat) (j : SimpleJSON) (begin : Nat) : Run Nat := do
  let pos ← skipWhitespaceIfAny mem j begin
  if (← getTypeAt mem j pos) ≠ .array then throw (.exception "JSON: expected [".toList)
  let pos := pos + 1
  j.checkPos pos
  if (← load mem pos) = ']' then return pos + 1
  loop .outOfFuel (fun pos => do
      let pos ← skipElement (← make pos j.ptrEnd (j.level + 1))
      j.checkPos pos
      let pos ← skipWhitespaceIfAny mem j pos
      let c ← load mem pos
      if c = ',' then pure (.inl (pos + 1))
      else if c = ']' then pure (.inr (pos + 1))
      else throw (.exception ("JSON: expected one of \x27,]\x27, got ".toList ++ [c])))
    fuel pos

/-- `skipObject(begin)`. -/
def skipObject (skipElement : SimpleJSON → Run Nat) (fuel : Nat) (j : SimpleJSON) (begin : Nat) : Run Nat := do
  let pos ← skipWhitespaceIfAny mem j begin
  if (← getTypeAt mem j pos) ≠ .object then throw (.exception "JSON: expected \x7b".toList)
  let pos := pos + 1
  j.checkPos pos
  if (← load mem pos) = closeBrace then return pos + 1
  loop .outOfFuel (fun pos => do
      let member ← make pos j.ptrEnd (j.level + 1)
      let pos ← skipNameValuePair mem skipElement member member.ptrBegin
      j.checkPos pos
      let pos ← skipWhitespaceIfAny mem j pos
      let c ← load mem pos
      if c = ',' then pure (.inl (pos + 1))
      else if c = closeBrace then pure (.inr (pos + 1))
      else throw (.exception ("JSON: expected one of \x27,\x7d\x27, got ".toList ++ [c])))
    fuel pos

/-- `skipElement()`: the position after the element that starts at `ptr_begin`. -/
def skipElement : Nat → SimpleJSON → Run Nat
  | 0, _ => throw .outOfFuel
  | fuel + 1, j => do
    let pos ← skipWhitespaceIfAny mem j j.ptrBegin
    match ← getTypeAt mem j pos with
    | .null => pure (skipNull pos)
    | .bool => skipBool mem j pos
    | .number => skipNumber mem j pos
    | .string => skipString mem j pos
    | .nameValuePair => skipNameValuePair mem (skipElement fuel) j pos
    | .array => skipArray mem (skipElement fuel) fuel j pos
    | .object => skipObject mem (skipElement fuel) fuel j pos
    | .noType => throw (.exception "Logical error in JSON: unknown element type: 7".toList)

end Skips

section Iterator

variable (mem : List Char)

/-- `begin()`: the first element or name-value pair, `none` for `end()`. -/
def begin (j : SimpleJSON) : Run (Option SimpleJSON) := do
  let pos ← skipWhitespaceIfAny mem j j.ptrBegin
  let type ← getTypeAt mem j pos
  if type ≠ .array ∧ type ≠ .object then
    throw (.exception "JSON: not array or object when calling begin() method.".toList)
  let pos := pos + 1
  j.checkPos pos
  let c ← load mem pos
  if c = closeBrace ∨ c = ']' then pure none
  else some <$> make pos j.ptrEnd (j.level + 1)

/-- `operator++`: the next element or name-value pair, `none` for `end()`.
The iterator first moves its `ptr_begin` past whitespace. -/
def next (fuel : Nat) (it : SimpleJSON) : Run (Option SimpleJSON) := do
  let it := { it with ptrBegin := ← skipWhitespaceIfAny mem it it.ptrBegin }
  let pos ← skipElement mem fuel it
  it.checkPos pos
  if (← load mem pos) ≠ ',' then pure none
  else do
    it.checkPos (pos + 1)
    pure (some { it with ptrBegin := pos + 1 })

/-- `getValue()`: the value of a name-value pair. -/
def getValue (j : SimpleJSON) : Run SimpleJSON := do
  let pos ← skipString mem j j.ptrBegin
  j.checkPos pos
  let pos ← skipWhitespaceIfAny mem j pos
  if (← load mem pos) ≠ ':' then throw (.exception "JSON: expected :.".toList)
  let pos := pos + 1
  j.checkPos pos
  let pos ← skipWhitespaceIfAny mem j pos
  make pos j.ptrEnd (j.level + 1)

variable (unicode : List Char → Except (List Char) (List Char))

/-- One turn of the `do ... while (s < ptr_end)` loop of `getString`, from
`s` with the text `buf` read so far. -/
def getStringStep (j : SimpleJSON) : Nat × List Char → Run ((Nat × List Char) ⊕ List Char)
  | (s, buf) => do
    let p ← findFirstSymbols mem ['\\', quote] s (j.ptrEnd - s)
    if p ≥ j.ptrEnd then
      throw (.exception "JSON: incorrect syntax (expected end of string, found end of JSON).".toList)
    let buf := buf ++ (mem.drop s).take (p - s)
    let c ← load mem p
    if c = '\\' then
      let s := p + 1
      j.checkPos s
      let e ← load mem s
      let (buf, s) ← if e = 'u' then do
          j.checkPos (s + 5)
          match unicode ((mem.drop (s + 1)).take 4) with
          | .ok bytes => pure (buf ++ bytes, s + 4)
          | .error message => throw (.exception message)
        else pure (buf ++ [unescape e], s)
      if s + 1 < j.ptrEnd then pure (.inl (s + 1, buf))
      else throw (.exception "JSON: incorrect syntax (expected end of string, found end of JSON).".toList)
    else if c = quote then pure (.inr buf)
    else throw (.exception "find_first_symbols<...>() failed in unexpected way".toList)

/-- `getString()`: the text of the string at `ptr_begin`, escapes decoded. -/
def getString (j : SimpleJSON) : Run (List Char) := do
  let s ← skipWhitespaceIfAny mem j j.ptrBegin
  let c ← load mem s
  if c ≠ quote then throw (.exception ("JSON: expected ".toList ++ [quote] ++ ", got ".toList ++ [c]))
  j.checkPos (s + 1)
  loop .outOfFuel (getStringStep mem unicode j) (j.ptrEnd - s) (s + 1, [])

end Iterator

end SimpleJSON

end Daisy.Common
