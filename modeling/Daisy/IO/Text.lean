import Mathlib
import Daisy.Parsers.Lexer

/-!
# Text readers and writers

`IO/ReadHelpers`, `IO/WriteHelpers` and `Common/parseIntStrict.h`: what the
text formats of the storage read and write with.

## The model

A `ReadBuffer` is the list of the characters not read yet; a reader returns
what it read and the rest of the input, or the exception it throws
(`ReadError`, with what the source builds the message from). The chunked
scans of the source (`find_first_symbols`, `hasPendingData`) read one
character at a time here: they decide nothing. A `char` is a `Char`.

* `checkString` / `assertString`: match a literal, or throw with the text
  that stands where the match failed; `checkChar` and `assertChar`, one
  character; `skipWhitespaceIfAny`, the ASCII white space.
* `readEscapedString` (`readText` of a `String`): up to a tab, a newline or
  the end, decoding the backslash escapes of `parseComplexEscapeSequence`.
* `parseIntStrict<T>`: `std::from_chars` over the whole text, in the range of
  a `w`-bit signed `T`.
* `writeIntText`: the decimal digits, after `-` for a negative value.

## What is proved

The writer and the readers agree on their own output: `assertString` accepts
what it expects, `readEscapedString` gives back text without tab, newline or
backslash, and `parseIntStrict` reads back what `writeIntText` wrote.
-/

namespace Daisy.IO

/-- What the readers throw; each carries what the source builds its message from. -/
inductive ReadError where
  /-- `throwAtAssertionFailed`: "Cannot parse input: expected `s` before: `shown`"
  (`CANNOT_PARSE_INPUT_ASSERTION_FAILED`), at most 160 characters shown. -/
  | assertionFailed (expected shown : List Char)
  /-- "Cannot parse escape sequence" (`CANNOT_PARSE_ESCAPE_SEQUENCE`). -/
  | escapeSequence
  /-- `readStrict`: "Cannot read all data. Bytes read: `read`. Bytes expected:
  `expected`." (`CANNOT_READ_ALL_DATA`). -/
  | cannotReadAllData (read expected : Nat)
  /-- `parseIntStrict`: "Invalid number `text`" (`INVALID_SETTING_VALUE`). -/
  | invalidNumber (text : List Char)
  /-- `parseSequenceRange`: "Invalid sequences `data`" (`INVALID_CONFIG_PARAMETER`). -/
  | invalidSequences (data : List Char)
  /-- `parseIdempotentKey`: "Invalid idempotent key`data`" (`INVALID_CONFIG_PARAMETER`). -/
  | invalidIdempotentKey (data : List Char)
  deriving DecidableEq, Repr

/-! ### Writing -/

/-- `writeIntText`. -/
def writeIntText (n : Int) : List Char :=
  if n < 0 then '-' :: Nat.toDigits 10 n.natAbs else Nat.toDigits 10 n.natAbs

theorem writeIntText_ne_nil (n : Int) : writeIntText n ≠ [] := by
  unfold writeIntText
  split_ifs
  · exact List.cons_ne_nil _ _
  · exact Nat.toDigits_ne_nil

/-! ### Literals -/

/-- `checkString`: consumes `s` while the input matches it; whether all of `s`
matched, and the input from where the match stopped. -/
def checkString : List Char → List Char → Bool × List Char
  | [], buf => (true, buf)
  | _ :: _, [] => (false, [])
  | c :: s, d :: buf => if d = c then checkString s buf else (false, d :: buf)

/-- `checkChar(c, buf)`: whether the next character is `c`; it is consumed
if so. -/
def checkChar (c : Char) : List Char → Bool × List Char
  | [] => (false, [])
  | d :: buf => if d = c then (true, buf) else (false, d :: buf)

@[simp] theorem checkChar_cons_self (c : Char) (buf : List Char) : checkChar c (c :: buf) = (true, buf) := by
  simp [checkChar]

/-- `SHOW_CHARS_ON_SYNTAX_ERROR`. -/
def showCharsOnSyntaxError : Nat := 160

/-- `assertString`. -/
def assertString (s buf : List Char) : Except ReadError (List Char) :=
  match checkString s buf with
  | (true, rest) => .ok rest
  | (false, rest) => .error (.assertionFailed s (rest.take showCharsOnSyntaxError))

/-- `assertChar(c, buf)`: `c` is consumed, or the reader throws as
`assertString` does. -/
def assertChar (c : Char) (buf : List Char) : Except ReadError (List Char) := assertString [c] buf

@[simp] theorem assertChar_cons_self (c : Char) (buf : List Char) : assertChar c (c :: buf) = .ok buf := by
  simp [assertChar, assertString, checkString]

theorem assertChar_eq_ok {c : Char} {buf rest : List Char} (h : assertChar c buf = .ok rest) : buf = c :: rest := by
  cases buf with
  | nil => simp [assertChar, assertString, checkString] at h
  | cons d buf =>
    by_cases hd : d = c
    · subst hd
      rw [assertChar_cons_self] at h
      cases h
      rfl
    · simp [assertChar, assertString, checkString, hd] at h

/-- `skipWhitespaceIfAny(buf)`. -/
def skipWhitespaceIfAny (buf : List Char) : List Char := buf.dropWhile Daisy.Parsers.isWhitespaceASCII

theorem skipWhitespaceIfAny_suffix (buf : List Char) : skipWhitespaceIfAny buf <:+ buf :=
  List.dropWhile_suffix _

theorem skipWhitespaceIfAny_cons {c : Char} (hc : Daisy.Parsers.isWhitespaceASCII c = false) (buf : List Char) :
    skipWhitespaceIfAny (c :: buf) = c :: buf :=
  List.dropWhile_cons_of_neg (by simp [hc])

/-! ### Escaped strings -/

/-- `parseEscapeSequence`: the character `\c` stands for. -/
def parseEscapeSequence (c : Char) : Char :=
  match c with
  | 'a' => Char.ofNat 7
  | 'b' => Char.ofNat 8
  | 'e' => Char.ofNat 0x1B
  | 'f' => Char.ofNat 12
  | 'n' => '\n'
  | 'r' => '\r'
  | 't' => '\t'
  | 'v' => Char.ofNat 11
  | '0' => Char.ofNat 0
  | c => c

/-- `isControlASCII`. -/
def isControlASCII (c : Char) : Bool := c.toNat ≤ 31

/-- `unhex`: `hex_char_to_digit_table` maps the other characters to `0xff`. -/
def unhex (c : Char) : UInt8 :=
  if '0' ≤ c ∧ c ≤ '9' then (c.toNat - '0'.toNat).toUInt8
  else if 'A' ≤ c ∧ c ≤ 'F' then (c.toNat - 'A'.toNat + 10).toUInt8
  else if 'a' ≤ c ∧ c ≤ 'f' then (c.toNat - 'a'.toNat + 10).toUInt8
  else 0xff

/-- `unhex2`: the byte of two hexadecimal digits, as a `char`. -/
def unhex2 (a b : Char) : Char := Char.ofNat (unhex a * 0x10 + unhex b).toNat

/-- The decoded characters that keep no backslash besides the control ones:
backslash, quote, double quote, backquote and slash. -/
def keepsNoBackslash : List Char := ['\\', Char.ofNat 39, Char.ofNat 34, Char.ofNat 96, '/']

/-- What `parseComplexEscapeSequence` appends for `\c`, `c` neither `x` nor `N`:
the decoded character, after a backslash unless it is a control character or
one of `keepsNoBackslash` (so that `Hello 100\%` stays as written). -/
def escapedChars (c : Char) : List Char :=
  if parseEscapeSequence c ∉ keepsNoBackslash ∧ !isControlASCII (parseEscapeSequence c) then
    ['\\', parseEscapeSequence c]
  else [parseEscapeSequence c]

/-- Text read in front of what a reader returns. -/
def prependText (pre : List Char) (r : Except ReadError (List Char × List Char)) :
    Except ReadError (List Char × List Char) :=
  r.map fun sr => (pre ++ sr.1, sr.2)

/-- `readEscapedString`: the text up to a tab, a newline or the end, which it
leaves unread, with the escapes of `parseComplexEscapeSequence` decoded. -/
def readEscapedString : List Char → Except ReadError (List Char × List Char)
  | [] => .ok ([], [])
  | '\t' :: buf => .ok ([], '\t' :: buf)
  | '\n' :: buf => .ok ([], '\n' :: buf)
  | ['\\'] => .error .escapeSequence
  -- `\xAA`: `readPODBinary` of two characters
  | '\\' :: 'x' :: a :: b :: buf => prependText [unhex2 a b] (readEscapedString buf)
  | '\\' :: 'x' :: buf => .error (.cannotReadAllData buf.length 2)
  -- `\N` reads as nothing
  | '\\' :: 'N' :: buf => readEscapedString buf
  | '\\' :: c :: buf => prependText (escapedChars c) (readEscapedString buf)
  | c :: buf => prependText [c] (readEscapedString buf)

/-! ### Integers -/

/-- `std::from_chars` into a signed `w`-bit integer: an optional `-`, then the
longest run of decimal digits; `none` for `invalid_argument` (no digit) and
`result_out_of_range`, else the value and the text after the digits. -/
def fromChars (w : Nat) (s : List Char) : Option (Int × List Char) :=
  let (neg, body) : Bool × List Char :=
    match s with
    | '-' :: t => (true, t)
    | t => (false, t)
  let digits := body.takeWhile Char.isDigit
  let value : Int := if neg then -(Nat.ofDigitChars 10 digits 0 : Int) else Nat.ofDigitChars 10 digits 0
  if digits = [] then none
  else if -2 ^ (w - 1) ≤ value ∧ value < 2 ^ (w - 1) then some (value, body.dropWhile Char.isDigit)
  else none

/-- `parseIntStrict<T>(s, lpos, rpos)` on the text `s[lpos, rpos)`: all of it must
be the number. -/
def parseIntStrict (w : Nat) (text : List Char) : Except ReadError Int :=
  if text = [] then .error (.invalidNumber text)
  else
    match fromChars w text with
    | some (n, []) => .ok n
    | _ => .error (.invalidNumber text)

/-- The values of a signed `w`-bit integer. -/
def InRange (w : Nat) (n : Int) : Prop := -2 ^ (w - 1) ≤ n ∧ n < 2 ^ (w - 1)

instance (w : Nat) (n : Int) : Decidable (InRange w n) := inferInstanceAs (Decidable (_ ∧ _))

/-! ### The readers accept what the writers write -/

@[simp] theorem checkString_append (s rest : List Char) : checkString s (s ++ rest) = (true, rest) := by
  induction s with
  | nil => rfl
  | cons c s ih => simp [checkString, ih]

@[simp] theorem assertString_append (s rest : List Char) : assertString s (s ++ rest) = .ok rest := by
  simp [assertString]

theorem prependText_ok (pre s rest : List Char) : prependText pre (.ok (s, rest)) = .ok (pre ++ s, rest) :=
  rfl

/-- A plain character is read as itself. -/
theorem readEscapedString_cons {c : Char} (h1 : c ≠ '\t') (h2 : c ≠ '\n') (h3 : c ≠ '\\') (buf : List Char) :
    readEscapedString (c :: buf) = prependText [c] (readEscapedString buf) := by
  rw [readEscapedString] <;> simp_all

/-- Where `readEscapedString` stops: at the end, a tab or a newline. -/
def StopsText (rest : List Char) : Prop := rest = [] ∨ ∃ c buf, rest = c :: buf ∧ (c = '\t' ∨ c = '\n')

theorem readEscapedString_of_stops {rest : List Char} (h : StopsText rest) :
    readEscapedString rest = .ok ([], rest) := by
  rcases h with rfl | ⟨c, buf, rfl, rfl | rfl⟩ <;> rfl

/-- **Plain text reads back.** Text without tab, newline or backslash is read
as it is, up to where the reader stops. -/
theorem readEscapedString_append {t : List Char} (ht : ∀ c ∈ t, c ≠ '\t' ∧ c ≠ '\n' ∧ c ≠ '\\')
    {rest : List Char} (hrest : StopsText rest) : readEscapedString (t ++ rest) = .ok (t, rest) := by
  induction t with
  | nil => exact readEscapedString_of_stops hrest
  | cons c t ih =>
    obtain ⟨h1, h2, h3⟩ := ht c List.mem_cons_self
    rw [List.cons_append, readEscapedString_cons h1 h2 h3,
      ih fun x hx => ht x (List.mem_cons_of_mem _ hx), prependText_ok, List.singleton_append]

theorem isDigit_of_mem_toDigits {n : Nat} {c : Char} (hc : c ∈ Nat.toDigits 10 n) : c.isDigit = true :=
  Nat.isDigit_of_mem_toDigits (by decide) (by decide) hc

/-- The text after a number starts with no digit. -/
def NoDigitFirst (rest : List Char) : Prop := ∀ c buf, rest = c :: buf → c.isDigit = false

theorem takeWhile_toDigits_append {n : Nat} {rest : List Char} (hrest : NoDigitFirst rest) :
    (Nat.toDigits 10 n ++ rest).takeWhile Char.isDigit = Nat.toDigits 10 n := by
  rw [List.takeWhile_append_of_pos fun _ h => isDigit_of_mem_toDigits h]
  rcases rest with _ | ⟨c, buf⟩
  · simp
  · simp [hrest c buf rfl]

theorem dropWhile_toDigits_append {n : Nat} {rest : List Char} (hrest : NoDigitFirst rest) :
    (Nat.toDigits 10 n ++ rest).dropWhile Char.isDigit = rest := by
  rw [List.dropWhile_append_of_pos fun _ h => isDigit_of_mem_toDigits h]
  rcases rest with _ | ⟨c, buf⟩
  · rfl
  · simp [hrest c buf rfl]

/-- The digits of a number do not start with `-`. -/
theorem toDigits_ne_minus (n : Nat) (rest : List Char) : ∀ t, Nat.toDigits 10 n ++ rest ≠ '-' :: t := by
  intro t h
  obtain ⟨c, cs, hc⟩ := List.exists_cons_of_ne_nil (Nat.toDigits_ne_nil (n := n) (b := 10))
  rw [hc, List.cons_append, List.cons.injEq] at h
  have := isDigit_of_mem_toDigits (hc ▸ List.mem_cons_self : c ∈ Nat.toDigits 10 n)
  rw [h.1] at this
  exact absurd this (by decide)

/-- **`from_chars` reads back `writeIntText`.** -/
theorem fromChars_writeIntText {w : Nat} {n : Int} (hn : InRange w n) {rest : List Char}
    (hrest : NoDigitFirst rest) : fromChars w (writeIntText n ++ rest) = some (n, rest) := by
  have hne : Nat.toDigits 10 n.natAbs ≠ [] := Nat.toDigits_ne_nil
  unfold fromChars writeIntText
  by_cases hneg : n < 0
  · simp only [if_pos hneg, List.cons_append, takeWhile_toDigits_append hrest,
      dropWhile_toDigits_append hrest, Nat.ofDigitChars_ten_toDigits, if_true, hne, if_false]
    rw [if_pos (by unfold InRange at hn; omega)]
    congr
    omega
  · simp only [if_neg hneg]
    split
    · next t h => exact absurd h (toDigits_ne_minus _ _ t)
    · simp only [takeWhile_toDigits_append hrest, dropWhile_toDigits_append hrest,
        Nat.ofDigitChars_ten_toDigits, if_false, hne]
      rw [if_pos (by unfold InRange at hn; omega)]
      simp only [Bool.false_eq_true, if_false, Option.some.injEq, Prod.mk.injEq, and_true]
      omega

theorem noDigitFirst_nil : NoDigitFirst [] := fun _ _ h => nomatch h

/-- **`parseIntStrict` reads back `writeIntText`.** -/
theorem parseIntStrict_writeIntText {w : Nat} {n : Int} (hn : InRange w n) :
    parseIntStrict w (writeIntText n) = .ok n := by
  have h := fromChars_writeIntText hn noDigitFirst_nil
  rw [List.append_nil] at h
  simp [parseIntStrict, writeIntText_ne_nil, h]

/-- What `writeIntText` writes: digits and `-`. -/
theorem mem_writeIntText {n : Int} {c : Char} (hc : c ∈ writeIntText n) : c.isDigit = true ∨ c = '-' := by
  unfold writeIntText at hc
  split_ifs at hc
  · rcases List.mem_cons.mp hc with rfl | hc
    · exact Or.inr rfl
    · exact Or.inl (isDigit_of_mem_toDigits hc)
  · exact Or.inl (isDigit_of_mem_toDigits hc)

theorem not_mem_writeIntText {n : Int} {c : Char} (hd : c.isDigit = false) (hm : c ≠ '-') :
    c ∉ writeIntText n := fun hc => by
  rcases mem_writeIntText hc with h | h
  · rw [hd] at h
    exact Bool.false_ne_true h
  · exact hm h

/-- A list of readings that all succeed. -/
theorem mapM_map_ok {α β ε : Type} {f : β → Except ε α} {g : α → β} :
    ∀ {l : List α}, (∀ x ∈ l, f (g x) = .ok x) → (l.map g).mapM f = .ok l
  | [], _ => rfl
  | x :: l, h => by
    rw [List.map_cons, List.mapM_cons, h x List.mem_cons_self,
      mapM_map_ok fun y hy => h y (List.mem_cons_of_mem _ hy)]
    rfl

end Daisy.IO
