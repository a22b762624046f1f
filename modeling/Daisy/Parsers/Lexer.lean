import Mathlib.Data.List.Basic

/-!
# The SQL lexer

`Lexer::nextToken` reads the token at `pos` and moves `pos` past it. A token
is its type and the characters from `begin` to `end`; whitespace and comments
are tokens too, and the parser skips them (`Tokens`). The lexer looks back at
one thing: the type of the last significant token, which decides whether `.`
is a dot or the start of a number and how a number after a dot is read.

## The model

The query is the list of its characters (`char`s); `pos` is the list of those
not read yet, with how many were read before it. `nextTokenImpl` gives the
type of the token at `pos` and its length, one branch of the source's
`switch` per case, and `tokenAfter` gives them after the first character,
so that every token at a character takes one. The chunked search
`find_first_symbols` steps one character at a time here.

* `quotedString`: a quoted string or identifier, with doubled quotes and
  backslash escapes;
* `numberAfter`, `dotAfter`: numbers, `0x`/`0b` prefixes, exponents, and the
  `1identifier` case;
* `multilineComment`: nested `/* */`;
* `skipWhitespacesUTF8`: the Unicode spaces the lexer skips;
* `Lexer.nextToken`, with `max_query_size`, and `Lexer.run`: every token up
  to the one at the end of the input.

## What is proved

* `quotedString_of_clean`: a quoted text without its quote or a backslash,
  closed and not followed by the quote, is one token, of the text and its
  quotes; so the token at a quote ends at the first quote that is not doubled.
* `run_eq`: the run is a token, then the run from past it.
* `nextToken_bareWord`, `nextToken_space`, `nextToken_dot`,
  `nextToken_quotedIdentifier`: the tokens of words, single spaces, dots and
  backquoted names, wherever they stand.
* `run_congr`: where no token passes `max_query_size`, the run past `begin`
  does not depend on how far it is.
-/

namespace Daisy.Parsers

/-- `TokenType`, in the order of `APPLY_FOR_TOKENS`. -/
inductive TokenType where
  | whitespace
  | comment
  /-- Either keyword (`SELECT`) or identifier (`column`). -/
  | bareWord
  /-- Always non-negative, with no leading plus. -/
  | number
  | stringLiteral
  /-- `"x"` or a backquoted `x`. -/
  | quotedIdentifier
  | openingRoundBracket
  | closingRoundBracket
  | openingSquareBracket
  | closingSquareBracket
  | openingCurlyBrace
  | closingCurlyBrace
  | comma
  | semicolon
  | dot
  | asterisk
  | plus
  | minus
  | slash
  | percent
  | arrow
  | questionMark
  | colon
  | doubleColon
  | equals
  | notEquals
  | less
  | greater
  | lessOrEquals
  | greaterOrEquals
  | concatenation
  | at
  | doubleAt
  | endOfStream
  /-- Something unrecognized. -/
  | error
  | errorMultilineCommentIsNotClosed
  | errorSingleQuoteIsNotClosed
  | errorDoubleQuoteIsNotClosed
  | errorBackQuoteIsNotClosed
  | errorSingleExclamationMark
  | errorSinglePipeMark
  | errorWrongNumber
  | errorMaxQuerySizeExceeded
  deriving DecidableEq, Repr

/-- `Token::isSignificant`: not whitespace and not a comment. -/
def TokenType.isSignificant (t : TokenType) : Bool := t != .whitespace && t != .comment

/-- A token: its type and its characters, from `begin` to `end`. -/
structure Token where
  /-- `type`. -/
  type : TokenType
  /-- The characters of the query from `begin` to `end`. -/
  text : List Char
  deriving DecidableEq, Repr

/-! ### Characters -/

/-- `'` . -/
def singleQuote : Char := Char.ofNat 39

/-- `"` . -/
def doubleQuote : Char := Char.ofNat 34

/-- The backquote. -/
def backQuote : Char := Char.ofNat 96

/-- `isWhitespaceASCII`. -/
def isWhitespaceASCII (c : Char) : Bool :=
  c = ' ' || c = '\t' || c = '\n' || c = '\r' || c = '\x0c' || c = '\x0b'

/-- `isNumericASCII`. -/
def isNumericASCII (c : Char) : Bool := '0' ≤ c && c ≤ '9'

/-- `isHexDigit`. -/
def isHexDigit (c : Char) : Bool := isNumericASCII c || ('a' ≤ c && c ≤ 'f') || ('A' ≤ c && c ≤ 'F')

/-- `isWordCharASCII`: an ASCII letter or digit, or `_`. -/
def isWordCharASCII (c : Char) : Bool :=
  ('a' ≤ c && c ≤ 'z') || ('A' ≤ c && c ≤ 'Z') || isNumericASCII c || c = '_'

/-- How many characters at the front satisfy `p`: how far a loop
`while (pos < end && p(*pos)) ++pos` goes. -/
def spanLength (p : Char → Bool) (s : List Char) : Nat := (s.takeWhile p).length

/-- A token type and a length, with `k` more characters. -/
def addLength (k : Nat) (r : TokenType × Nat) : TokenType × Nat := (r.1, r.2 + k)

/-! ### The branches of `nextTokenImpl` -/

/-- `quotedString<quote, success_token, error_token>` after the opening
quote: the type of the token and how many characters it takes past the
quote. A doubled quote and a backslash with the character after it stay in
the token; where the input ends first, the token is the error, to the end. -/
def quotedString (quote : Char) (successToken errorToken : TokenType) : List Char → TokenType × Nat
  | [] => (errorToken, 0)
  | c :: s =>
    if c = quote then
      match s with
      | d :: s' => if d = quote then addLength 2 (quotedString quote successToken errorToken s') else (successToken, 1)
      | [] => (successToken, 1)
    else if c = '\\' then
      match s with
      | [] => (errorToken, 1)
      | _ :: s' => addLength 2 (quotedString quote successToken errorToken s')
    else addLength 1 (quotedString quote successToken errorToken s)

/-- The exponent of a number at `s`, where `isMark` is its letter: the letter
when a character follows it, a sign when a character follows that, and the
decimal digits. -/
def exponentLength (isMark : Char → Bool) : List Char → Nat
  | e :: sign :: r =>
    if isMark e then
      if (sign = '-' || sign = '+') && !r.isEmpty then 2 + spanLength isNumericASCII r
      else 1 + spanLength isNumericASCII (sign :: r)
    else 0
  | _ => 0

/-- The letter of a decimal exponent. -/
def isDecimalExponent (c : Char) : Bool := c = 'e' || c = 'E'

/-- The letter of a binary exponent, after `0x`. -/
def isBinaryExponent (c : Char) : Bool := c = 'p' || c = 'P'

/-- Whether a `.` after a token of this type is a dot whatever follows: after
a closing bracket, a word, a quoted identifier or a number. -/
def closesOperand (t : TokenType) : Bool :=
  t = .closingRoundBracket || t = .closingSquareBracket || t = .bareWord || t = .quotedIdentifier || t = .number

/-- The `0x` or `0b` of a number at the digit `c`, where two characters
follow it: whether the number is hexadecimal, and how many characters of `s`
the prefix takes. -/
def numberPrefix (c : Char) (s : List Char) : Bool × Nat :=
  match c, s with
  | '0', x :: _ :: _ => if x = 'x' || x = 'X' then (true, 1) else if x = 'b' || x = 'B' then (false, 1) else (false, 0)
  | _, _ => (false, 0)

/-- The decimal point of a number and the digits after it. -/
def fractionLength (digit : Char → Bool) : List Char → Nat
  | '.' :: r => 1 + spanLength digit r
  | _ => 0

/-- How many characters of `s` a number at the digit `c` takes: after a dot
its decimal digits; otherwise an optional `0x` or `0b`, digits, a fraction and
an exponent. -/
def numberBody (prev : TokenType) (c : Char) (s : List Char) : Nat :=
  if prev = .dot then spanLength isNumericASCII s
  else
    let (hex, k) := numberPrefix c s
    let digit := if hex then isHexDigit else isNumericASCII
    let k := k + spanLength digit (s.drop k)
    let k := k + fractionLength digit (s.drop k)
    k + exponentLength (if hex then isBinaryExponent else isDecimalExponent) (s.drop k)

/-- The case `'0'` to `'9'`, after the digit `c`: a number, or where word
characters follow it an identifier such as `1identifier`, or
`ErrorWrongNumber` where the number held a character that is no word
character and no `$`. -/
def numberAfter (prev : TokenType) (c : Char) (s : List Char) : TokenType × Nat :=
  let k := numberBody prev c s
  match s.drop k with
  | w :: r =>
    if isWordCharASCII w then
      let k := k + 1 + spanLength isWordCharASCII r
      if (c :: s.take k).all fun x => isWordCharASCII x || x = '$' then (.bareWord, k) else (.errorWrongNumber, k)
    else (.number, k)
  | [] => (.number, k)

/-- The case `'.'`, past the dot: a dot where a token came before and no
digit follows or an operand came just before; otherwise a number such as `.1`. -/
def dotAfter (pastBegin : Bool) (prev : TokenType) (s : List Char) : TokenType × Nat :=
  let nextNumeric := match s with
    | d :: _ => isNumericASCII d
    | [] => false
  if pastBegin && (!nextNumeric || closesOperand prev) then (.dot, 0)
  else
    let k := spanLength isNumericASCII s
    (.number, k + exponentLength isDecimalExponent (s.drop k))

/-- The body of a `/* */` comment at nesting `level`: how many characters it
takes, or the error to the end where it is not closed. -/
def multilineComment (level : Nat) : List Char → TokenType × Nat
  | '/' :: '*' :: s => addLength 2 (multilineComment (level + 1) s)
  | '*' :: '/' :: s => if level = 1 then (.comment, 2) else addLength 2 (multilineComment (level - 1) s)
  | [_] => (.errorMultilineCommentIsNotClosed, 1)
  | [] => (.errorMultilineCommentIsNotClosed, 0)
  | _ :: s => addLength 1 (multilineComment level s)

/-- The three bytes of a Unicode space that `skipWhitespacesUTF8` skips:
`U+180E`, `U+2000` to `U+200D`, `U+2028`, `U+2029`, `U+202F`, `U+205F`,
`U+2060`, `U+3000` and `U+FEFF`. -/
def isWhitespaceUTF8Three (a b c : Nat) : Bool :=
  (a = 0xE1 && b = 0xA0 && c = 0x8E) ||
    (a = 0xE2 &&
      ((b = 0x80 && ((0x80 ≤ c && c ≤ 0x8A) || (0xA8 ≤ c && c ≤ 0xA9) || (0x8B ≤ c && c ≤ 0x8D) || c = 0xAF)) ||
        (b = 0x81 && (c = 0x9F || c = 0xA0)))) ||
    (a = 0xE3 && b = 0x80 && c = 0x80) || (a = 0xEF && b = 0xBB && c = 0xBF)

/-- The length of the Unicode space at the front that `skipWhitespacesUTF8`
skips, `0` where there is none: `U+0085` and `U+00A0` take two bytes. -/
def whitespaceUTF8Length : List Char → Nat
  | a :: b :: s =>
    if a.toNat = 0xC2 && (b.toNat = 0x85 || b.toNat = 0xA0) then 2
    else
      match s with
      | c :: _ => if isWhitespaceUTF8Three a.toNat b.toNat c.toNat then 3 else 0
      | [] => 0
  | _ => 0

/-- `skipWhitespacesUTF8`: how many characters of ASCII and Unicode spaces
are at the front. -/
def skipWhitespacesUTF8 : List Char → Nat
  | [] => 0
  | c :: s =>
    if isWhitespaceASCII c then skipWhitespacesUTF8 s + 1
    else
      match whitespaceUTF8Length (c :: s) with
      | 0 => 0
      | k + 1 => skipWhitespacesUTF8 ((c :: s).drop (k + 1)) + (k + 1)
termination_by s => s.length
decreasing_by all_goals simp only [List.length_drop, List.length_cons]; omega

/-- `nextTokenImpl` at a character `c` followed by `s`: the type of the token
and how many characters of `s` it takes. -/
def tokenAfter (pastBegin : Bool) (prev : TokenType) (c : Char) (s : List Char) : TokenType × Nat :=
  if isWhitespaceASCII c then (.whitespace, spanLength isWhitespaceASCII s)
  else if isNumericASCII c then numberAfter prev c s
  else if c = singleQuote then quotedString singleQuote .stringLiteral .errorSingleQuoteIsNotClosed s
  else if c = doubleQuote then quotedString doubleQuote .quotedIdentifier .errorDoubleQuoteIsNotClosed s
  else if c = backQuote then quotedString backQuote .quotedIdentifier .errorBackQuoteIsNotClosed s
  else
    match c, s with
    | '(', _ => (.openingRoundBracket, 0)
    | ')', _ => (.closingRoundBracket, 0)
    | '[', _ => (.openingSquareBracket, 0)
    | ']', _ => (.closingSquareBracket, 0)
    | '\x7b', _ => (.openingCurlyBrace, 0)
    | '\x7d', _ => (.closingCurlyBrace, 0)
    | ',', _ => (.comma, 0)
    | ';', _ => (.semicolon, 0)
    | '.', s => dotAfter pastBegin prev s
    | '+', _ => (.plus, 0)
    -- minus, arrow or the start of a comment
    | '-', '>' :: _ => (.arrow, 1)
    | '-', '-' :: r => (.comment, 1 + spanLength (· != '\n') r)
    | '-', _ => (.minus, 0)
    | '*', _ => (.asterisk, 0)
    -- division or the start of a comment
    | '/', '/' :: r => (.comment, 1 + spanLength (· != '\n') r)
    | '/', '*' :: r => addLength 1 (multilineComment 1 r)
    | '/', _ => (.slash, 0)
    | '%', _ => (.percent, 0)
    | '=', '=' :: _ => (.equals, 1)
    | '=', _ => (.equals, 0)
    | '!', '=' :: _ => (.notEquals, 1)
    | '!', _ => (.errorSingleExclamationMark, 0)
    | '<', '=' :: _ => (.lessOrEquals, 1)
    | '<', '>' :: _ => (.notEquals, 1)
    | '<', _ => (.less, 0)
    | '>', '=' :: _ => (.greaterOrEquals, 1)
    | '>', _ => (.greater, 0)
    | '?', _ => (.questionMark, 0)
    | ':', ':' :: _ => (.doubleColon, 1)
    | ':', _ => (.colon, 0)
    | '|', '|' :: _ => (.concatenation, 1)
    | '|', _ => (.errorSinglePipeMark, 0)
    | '@', '@' :: _ => (.doubleAt, 1)
    | '@', _ => (.at, 0)
    | c, s =>
      if isWordCharASCII c || c = '$' then (.bareWord, spanLength (fun x => isWordCharASCII x || x = '$') s)
      else
        match skipWhitespacesUTF8 (c :: s) with
        | 0 => (.error, 0)
        | n + 1 => (.whitespace, n)

/-- `Lexer::nextTokenImpl` at `pos`: the type of the token and its length.
`pastBegin` is `pos > begin`; `prev` is `prev_significant_token_type`. -/
def nextTokenImpl (pastBegin : Bool) (prev : TokenType) : List Char → TokenType × Nat
  | [] => (.endOfStream, 0)
  | c :: s => addLength 1 (tokenAfter pastBegin prev c s)

/-! ### The lexer -/

/-- A `Lexer` between two tokens. -/
structure Lexer where
  /-- `pos - begin`. -/
  offset : Nat
  /-- The characters from `pos` to `end`. -/
  rest : List Char
  /-- `max_query_size`; `0` for none. -/
  maxQuerySize : Nat
  /-- `prev_significant_token_type`. -/
  prevSignificantTokenType : TokenType

/-- The lexer of a query: at `begin`, with no token before (`Whitespace`). -/
def Lexer.ofQuery (maxQuerySize : Nat) (query : List Char) : Lexer := ⟨0, query, maxQuerySize, .whitespace⟩

/-- The type and length of the token at `pos`. -/
def Lexer.impl (l : Lexer) : TokenType × Nat :=
  nextTokenImpl (decide (0 < l.offset)) l.prevSignificantTokenType l.rest

/-- Whether a token of length `n` at `pos` ends past `begin + max_query_size`. -/
def Lexer.exceeds (l : Lexer) (n : Nat) : Bool := l.maxQuerySize != 0 && l.maxQuerySize < l.offset + n

/-- `Lexer::nextToken`: the token at `pos` (`ErrorMaxQuerySizeExceeded` where
it ends past `max_query_size`), and the lexer past it. -/
def Lexer.nextToken (l : Lexer) : Token × Lexer :=
  let type := if l.exceeds l.impl.2 then .errorMaxQuerySizeExceeded else l.impl.1
  (⟨type, l.rest.take l.impl.2⟩,
    { l with
      offset := l.offset + l.impl.2
      rest := l.rest.drop l.impl.2
      prevSignificantTokenType := if type.isSignificant then type else l.prevSignificantTokenType })

/-- `nextToken` until the end of the input, at most `fuel` times. -/
def Lexer.runFor : Nat → Lexer → List Token
  | 0, _ => []
  | fuel + 1, l => if l.rest = [] then [l.nextToken.1] else l.nextToken.1 :: runFor fuel l.nextToken.2

/-- Every token, up to and with the one at the end of the input. A token at a
character takes it, so `rest.length + 1` calls reach the end. -/
def Lexer.run (l : Lexer) : List Token := Lexer.runFor (l.rest.length + 1) l

/-- The tokens of a query. -/
def tokenize (maxQuerySize : Nat) (query : List Char) : List Token := (Lexer.ofQuery maxQuerySize query).run

/-! ### A token ends within the input -/

section Bounds

theorem spanLength_le (p : Char → Bool) (s : List Char) : spanLength p s ≤ s.length :=
  (List.takeWhile_sublist p).length_le

/-- A length taken at `s.drop k`, within it, keeps `k` plus it within `s`. -/
theorem add_le_of_drop {s : List Char} {k n : Nat} (hk : k ≤ s.length) (hn : n ≤ (s.drop k).length) :
    k + n ≤ s.length := by
  rw [List.length_drop] at hn
  omega

theorem quotedString_le (quote : Char) (successToken errorToken : TokenType) (s : List Char) :
    (quotedString quote successToken errorToken s).2 ≤ s.length := by
  fun_induction quotedString quote successToken errorToken s <;> simp only [addLength, List.length_cons] <;> omega

theorem exponentLength_le (isMark : Char → Bool) (s : List Char) : exponentLength isMark s ≤ s.length := by
  unfold exponentLength
  split
  · rename_i e sign r
    have h1 := spanLength_le isNumericASCII r
    have h2 := spanLength_le isNumericASCII (sign :: r)
    split_ifs <;> simp only [List.length_cons] at h2 ⊢ <;> omega
  · exact Nat.zero_le _

theorem fractionLength_le (digit : Char → Bool) (s : List Char) : fractionLength digit s ≤ s.length := by
  unfold fractionLength
  split
  · have := spanLength_le digit ‹List Char›
    simp only [List.length_cons]
    omega
  · exact Nat.zero_le _

theorem numberPrefix_le (c : Char) (s : List Char) : (numberPrefix c s).2 ≤ s.length := by
  unfold numberPrefix
  split
  · split_ifs <;> simp
  · exact Nat.zero_le _

theorem numberBody_le (prev : TokenType) (c : Char) (s : List Char) : numberBody prev c s ≤ s.length := by
  unfold numberBody
  split_ifs
  · exact spanLength_le _ _
  · -- each part is read where the one before stopped
    rcases hp : numberPrefix c s with ⟨hex, k⟩
    have h0 : k ≤ s.length := by simpa [hp] using numberPrefix_le c s
    dsimp only
    have h1 := add_le_of_drop h0 (spanLength_le (if hex then isHexDigit else isNumericASCII) (s.drop k))
    have h2 := add_le_of_drop h1 (fractionLength_le (if hex then isHexDigit else isNumericASCII) _)
    exact add_le_of_drop h2 (exponentLength_le _ _)

theorem numberAfter_le (prev : TokenType) (c : Char) (s : List Char) : (numberAfter prev c s).2 ≤ s.length := by
  have hbody := numberBody_le prev c s
  unfold numberAfter
  dsimp only
  split
  · rename_i w r hdrop
    have hr := spanLength_le isWordCharASCII r
    have hlen : (s.drop (numberBody prev c s)).length = r.length + 1 := by rw [hdrop, List.length_cons]
    rw [List.length_drop] at hlen
    split_ifs <;> dsimp only <;> omega
  · exact hbody

theorem dotAfter_le (pastBegin : Bool) (prev : TokenType) (s : List Char) :
    (dotAfter pastBegin prev s).2 ≤ s.length := by
  unfold dotAfter
  dsimp only
  split_ifs
  · exact Nat.zero_le _
  · exact add_le_of_drop (spanLength_le _ _) (exponentLength_le _ _)

theorem multilineComment_le (level : Nat) (s : List Char) : (multilineComment level s).2 ≤ s.length := by
  fun_induction multilineComment level s <;> simp only [addLength, List.length_cons, List.length_nil] <;> omega

theorem whitespaceUTF8Length_le (s : List Char) : whitespaceUTF8Length s ≤ s.length := by
  unfold whitespaceUTF8Length
  split
  · split_ifs
    · simp
    · split
      · split_ifs <;> simp
      · exact Nat.zero_le _
  · exact Nat.zero_le _

theorem skipWhitespacesUTF8_le (s : List Char) : skipWhitespacesUTF8 s ≤ s.length := by
  fun_induction skipWhitespacesUTF8 s with
  | case1 => exact Nat.zero_le _
  | case2 c s _ ih =>
    simp only [List.length_cons]
    omega
  | case3 => exact Nat.zero_le _
  | case4 c s _ k hk ih =>
    have hle := whitespaceUTF8Length_le (c :: s)
    rw [hk] at hle
    rw [List.length_drop] at ih
    omega

/-- A token at `c` takes at most what follows `c`. -/
theorem tokenAfter_le (pastBegin : Bool) (prev : TokenType) (c : Char) (s : List Char) :
    (tokenAfter pastBegin prev c s).2 ≤ s.length := by
  unfold tokenAfter
  split_ifs
  · exact spanLength_le _ _
  · exact numberAfter_le _ _ _
  · exact quotedString_le _ _ _ _
  · exact quotedString_le _ _ _ _
  · exact quotedString_le _ _ _ _
  · split
    all_goals first
      | exact Nat.zero_le _
      | exact dotAfter_le _ _ _
      | (simp only [addLength, List.length_cons]; have := multilineComment_le 1 ‹List Char›; omega)
      | (simp only [List.length_cons]; have := spanLength_le (· != '\n') ‹List Char›; omega)
      | simp only [List.length_cons, le_add_iff_nonneg_left, zero_le]
      | skip
    · split_ifs
      · exact spanLength_le _ _
      · have hskip := skipWhitespacesUTF8_le (c :: s)
        split
        · exact Nat.zero_le _
        · rename_i k hk
          rw [hk, List.length_cons] at hskip
          exact Nat.le_of_succ_le_succ hskip

/-- **A token never ends past the end of the input.** -/
theorem Lexer.impl_le (l : Lexer) : l.impl.2 ≤ l.rest.length := by
  unfold Lexer.impl
  cases h : l.rest with
  | nil => exact Nat.zero_le _
  | cons c s =>
    have := tokenAfter_le (decide (0 < l.offset)) l.prevSignificantTokenType c s
    simp only [nextTokenImpl, addLength, List.length_cons]
    omega

end Bounds

/-! ### One token -/

section Token

variable (l : Lexer)

theorem impl_cons {c : Char} {s : List Char} (h : l.rest = c :: s) :
    l.impl = addLength 1 (tokenAfter (decide (0 < l.offset)) l.prevSignificantTokenType c s) := by
  rw [Lexer.impl, h, nextTokenImpl]

/-- A token at a character takes it. -/
theorem impl_pos {c : Char} {s : List Char} (h : l.rest = c :: s) : 0 < l.impl.2 := by
  rw [impl_cons l h, addLength]
  omega

theorem nextToken_rest : l.nextToken.2.rest = l.rest.drop l.impl.2 := rfl

/-- Past a token at a character, less is left. -/
theorem length_nextToken_rest_lt (h : l.rest ≠ []) : l.nextToken.2.rest.length < l.rest.length := by
  obtain ⟨c, s, hcs⟩ := List.exists_cons_of_ne_nil h
  have hpos := impl_pos l hcs
  rw [nextToken_rest, List.length_drop]
  have hlen : 0 < l.rest.length := List.length_pos_iff.mpr h
  omega

/-- Any fuel past the length of the input gives the same tokens. -/
theorem runFor_congr : ∀ (fuel fuel' : Nat) (l : Lexer), l.rest.length < fuel → l.rest.length < fuel' →
    l.runFor fuel = l.runFor fuel'
  | 0, _, _, h, _ => absurd h (Nat.not_lt_zero _)
  | _, 0, _, _, h => absurd h (Nat.not_lt_zero _)
  | fuel + 1, fuel' + 1, l, h, h' => by
    simp only [Lexer.runFor]
    split_ifs with hnil
    · rfl
    · have hlt := length_nextToken_rest_lt l hnil
      rw [runFor_congr fuel fuel' _ (by omega) (by omega)]

/-- **The run, one token at a time.** -/
theorem run_eq (h : l.rest ≠ []) : l.run = l.nextToken.1 :: l.nextToken.2.run := by
  have hlt := length_nextToken_rest_lt l h
  rw [Lexer.run, Lexer.runFor, if_neg h, Lexer.run,
    runFor_congr _ _ _ (by omega : l.nextToken.2.rest.length < l.rest.length) (Nat.lt_succ_self _)]

theorem run_nil (h : l.rest = []) : l.run = [l.nextToken.1] := by
  rw [Lexer.run, h, Lexer.runFor, if_pos h]

end Token

/-! ### Quoted strings -/

section Quoted

variable (quote : Char) (successToken errorToken : TokenType)

/-- A text with neither the quote nor a backslash. -/
def Clean (body : List Char) : Prop := ∀ c ∈ body, c ≠ quote ∧ c ≠ '\\'

/-- **A quoted text is one token.** After the opening quote, a text with
neither the quote nor a backslash, then the quote, not doubled, make one token
of the text and the quote. -/
theorem quotedString_of_clean :
    ∀ body : List Char, Clean quote body → ∀ post : List Char, post.head? ≠ some quote →
      quotedString quote successToken errorToken (body ++ quote :: post) = (successToken, body.length + 1)
  | [], _, post, hpost => by
    cases post with
    | nil => simp [quotedString]
    | cons d post =>
      have hd : d ≠ quote := fun h => hpost (by rw [h]; rfl)
      simp [quotedString, hd]
  | c :: body, hclean, post, hpost => by
    have hc := hclean c List.mem_cons_self
    have ih := quotedString_of_clean body (fun x hx => hclean x (List.mem_cons_of_mem c hx)) post hpost
    rw [List.cons_append, quotedString.eq_def]
    simp only [if_neg hc.1, if_neg hc.2, ih, addLength, List.length_cons]

end Quoted

/-! ### Tokens the handlers write -/

section Shapes

variable (l : Lexer)

/-- No token of the run passes `max_query_size`: there is none, or the whole
input is within it. -/
def Lexer.Fits : Prop := l.maxQuerySize = 0 ∨ l.offset + l.rest.length ≤ l.maxQuerySize

theorem not_exceeds (hfits : l.Fits) {n : Nat} (hn : n ≤ l.rest.length) : l.exceeds n = false := by
  rcases hfits with h | h
  · simp [Lexer.exceeds, h]
  · simp only [Lexer.exceeds, Bool.and_eq_false_iff, bne_eq_false_iff_eq, decide_eq_false_iff_not,
      Nat.not_lt]
    omega

/-- A token that fits: its type is that of `nextTokenImpl`, its text the
characters it takes, and the lexer moves past them. -/
theorem nextToken_of_impl (hfits : l.Fits) {type : TokenType} {w post : List Char} (hrest : l.rest = w ++ post)
    (himpl : l.impl = (type, w.length)) :
    l.nextToken = (⟨type, w⟩, ⟨l.offset + w.length, post, l.maxQuerySize,
      if type.isSignificant then type else l.prevSignificantTokenType⟩) := by
  have hle : w.length ≤ l.rest.length := by rw [hrest, List.length_append]; omega
  simp only [Lexer.nextToken, himpl, not_exceeds l hfits hle, hrest, List.take_left, List.drop_left]
  rfl

/-- Past a token, what is left still fits. -/
theorem Lexer.Fits.next {l : Lexer} (hfits : l.Fits) : l.nextToken.2.Fits := by
  have hle := l.impl_le
  rcases hfits with h | h
  · exact .inl h
  · right
    simp only [Lexer.nextToken, List.length_drop]
    omega

/-- Where the run fits, a token is the one `nextTokenImpl` reads. -/
theorem nextToken_fst (hfits : l.Fits) : l.nextToken.1 = ⟨l.impl.1, l.rest.take l.impl.2⟩ := by
  simp only [Lexer.nextToken, not_exceeds l hfits l.impl_le, Bool.false_eq_true, if_false]

/-- Where the run fits, the lexer moves past the token `nextTokenImpl` reads. -/
theorem nextToken_snd (hfits : l.Fits) :
    l.nextToken.2 = ⟨l.offset + l.impl.2, l.rest.drop l.impl.2, l.maxQuerySize,
      if l.impl.1.isSignificant then l.impl.1 else l.prevSignificantTokenType⟩ := by
  simp only [Lexer.nextToken, not_exceeds l hfits l.impl_le, Bool.false_eq_true, if_false]

theorem spanLength_append {p : Char → Bool} {w : List Char} (hw : ∀ x ∈ w, p x) {c : Char} (hc : p c = false)
    (post : List Char) : spanLength p (w ++ c :: post) = w.length := by
  rw [spanLength, List.takeWhile_append_of_pos hw, List.takeWhile_cons_of_neg (by simp [hc]), List.append_nil]

/-- A word character, not a digit: the first character of a bare word. -/
def IsWordStart (c : Char) : Prop := isWordCharASCII c = true ∧ isNumericASCII c = false

/-- At a word character that is no digit, the token is a bare word. -/
theorem tokenAfter_wordStart (pastBegin : Bool) (prev : TokenType) {c : Char} (hc : IsWordStart c)
    (s : List Char) :
    tokenAfter pastBegin prev c s = (.bareWord, spanLength (fun x => isWordCharASCII x || x = '$') s) := by
  obtain ⟨hword, hdigit⟩ := hc
  have hws : isWhitespaceASCII c = false := by
    rw [Bool.eq_false_iff]
    intro h
    simp only [isWhitespaceASCII, Bool.or_eq_true, decide_eq_true_eq] at h
    rcases h with ((((rfl | rfl) | rfl) | rfl) | rfl) | rfl <;> exact absurd hword (by decide)
  have hquote : ∀ q ∈ [singleQuote, doubleQuote, backQuote], c ≠ q := by
    rintro q hq rfl
    simp only [List.mem_cons, List.not_mem_nil, or_false] at hq
    rcases hq with rfl | rfl | rfl <;> exact absurd hword (by decide)
  unfold tokenAfter
  simp only [hws, hdigit, Bool.false_eq_true, if_false, hquote singleQuote (by simp),
    hquote doubleQuote (by simp), hquote backQuote (by simp)]
  split
  all_goals first
    | exact absurd hword (by decide)
    | simp [hword]

/-- A bare word: a word character that is no digit, then word characters. -/
def IsBareWord : List Char → Prop
  | [] => False
  | c :: w => IsWordStart c ∧ ∀ x ∈ w, isWordCharASCII x = true

/-- A character that ends a bare word. -/
def EndsWord (c : Char) : Prop := isWordCharASCII c = false ∧ c ≠ '$'

instance (c : Char) : Decidable (IsWordStart c) := inferInstanceAs (Decidable (_ ∧ _))

instance : DecidablePred IsBareWord := fun w =>
  match w with
  | [] => isFalse id
  -- by the list: a decision over every character would be found first, and
  -- it runs through all of them
  | c :: w => @instDecidableAnd (IsWordStart c) _ _ (List.decidableBAll _ w)

instance (c : Char) : Decidable (EndsWord c) := inferInstanceAs (Decidable (_ ∧ _))

/-- A bare word, up to a character that ends it, is one token. -/
theorem nextToken_bareWord (hfits : l.Fits) {w post : List Char} (hw : IsBareWord w) {c : Char}
    (hc : EndsWord c) (hrest : l.rest = w ++ c :: post) :
    l.nextToken = (⟨.bareWord, w⟩, ⟨l.offset + w.length, c :: post, l.maxQuerySize, .bareWord⟩) := by
  obtain ⟨a, w', rfl⟩ : ∃ a w', w = a :: w' := by
    cases w with
    | nil => exact absurd hw id
    | cons a w' => exact ⟨a, w', rfl⟩
  have hword : ∀ x ∈ w', (isWordCharASCII x || x = '$') = true := fun x hx => by simp [hw.2 x hx]
  have hstop : (isWordCharASCII c || c = '$') = false := by simp [hc.1, hc.2]
  have himpl : l.impl = (.bareWord, (a :: w').length) := by
    rw [impl_cons l (c := a) (s := w' ++ c :: post) hrest, tokenAfter_wordStart _ _ hw.1,
      spanLength_append hword hstop, addLength, List.length_cons]
  exact nextToken_of_impl l hfits hrest himpl

/-- A single space before a character that is no space is one token, which
leaves the last significant token as it was. -/
theorem nextToken_space (hfits : l.Fits) {c : Char} (hc : isWhitespaceASCII c = false) {post : List Char}
    (hrest : l.rest = ' ' :: c :: post) :
    l.nextToken = (⟨.whitespace, [' ']⟩, ⟨l.offset + 1, c :: post, l.maxQuerySize, l.prevSignificantTokenType⟩) := by
  have hspan : spanLength isWhitespaceASCII (c :: post) = 0 := by
    rw [spanLength, List.takeWhile_cons_of_neg (by simp [hc]), List.length_nil]
  have hspace : isWhitespaceASCII ' ' = true := by decide
  have himpl : l.impl = (.whitespace, [' '].length) := by
    rw [impl_cons l hrest]
    unfold tokenAfter
    rw [if_pos hspace, hspan]
    rfl
  exact nextToken_of_impl l hfits (w := [' ']) hrest himpl

/-- Past `begin`, a `.` before a character that is no digit is a dot. -/
theorem nextToken_dot (hfits : l.Fits) (hpast : 0 < l.offset) {c : Char} (hc : isNumericASCII c = false)
    {post : List Char} (hrest : l.rest = '.' :: c :: post) :
    l.nextToken = (⟨.dot, ['.']⟩, ⟨l.offset + 1, c :: post, l.maxQuerySize, .dot⟩) := by
  have hdot : dotAfter true l.prevSignificantTokenType (c :: post) = (.dot, 0) := by
    simp [dotAfter, hc]
  have himpl : l.impl = (.dot, ['.'].length) := by
    rw [impl_cons l hrest, decide_eq_true hpast]
    unfold tokenAfter
    simp only [show isWhitespaceASCII '.' = false by decide, show isNumericASCII '.' = false by decide,
      show '.' ≠ singleQuote by decide, show '.' ≠ doubleQuote by decide, show '.' ≠ backQuote by decide,
      Bool.false_eq_true, if_false]
    rw [hdot]
    rfl
  exact nextToken_of_impl l hfits (w := ['.']) hrest himpl

/-- **A backquoted name is one token.** A name with no backquote and no
backslash between backquotes, the second not doubled, is one quoted
identifier, of the name and its quotes. -/
theorem nextToken_quotedIdentifier (hfits : l.Fits) {name post : List Char} (hname : Clean backQuote name)
    (hpost : post.head? ≠ some backQuote) (hrest : l.rest = backQuote :: (name ++ backQuote :: post)) :
    l.nextToken = (⟨.quotedIdentifier, backQuote :: (name ++ [backQuote])⟩,
      ⟨l.offset + (name.length + 2), post, l.maxQuerySize, .quotedIdentifier⟩) := by
  have himpl : l.impl = (.quotedIdentifier, (backQuote :: (name ++ [backQuote])).length) := by
    rw [impl_cons l hrest]
    unfold tokenAfter
    simp only [quotedString_of_clean backQuote _ _ name hname post hpost]
    simp [isWhitespaceASCII, isNumericASCII, singleQuote, doubleQuote, backQuote, addLength]
  have hrest' : l.rest = backQuote :: (name ++ [backQuote]) ++ post := by simp [hrest]
  rw [nextToken_of_impl l hfits hrest' himpl]
  simp [TokenType.isSignificant]

/-- **The run past `begin` reads only what is left and the last significant
token.** Two lexers past `begin`, at the same characters after the same
significant token, give the same tokens wherever they are, if their runs fit. -/
theorem run_congr : ∀ (n : Nat) (l l' : Lexer), l.rest.length ≤ n → l.rest = l'.rest →
    l.prevSignificantTokenType = l'.prevSignificantTokenType → 0 < l.offset → 0 < l'.offset →
    l.Fits → l'.Fits → l.run = l'.run := by
  intro n
  -- on how much is left: each token takes a character
  induction n with
  | zero =>
    intro l l' hn hrest hprev hpast hpast' hfits hfits'
    have hnil : l.rest = [] := List.eq_nil_of_length_eq_zero (Nat.le_zero.mp hn)
    have himpl : l.impl = l'.impl := by simp only [Lexer.impl, hrest, hprev, hpast, hpast']
    rw [run_nil l hnil, run_nil l' (hrest ▸ hnil), nextToken_fst l hfits, nextToken_fst l' hfits', himpl, hrest]
  | succ n ih =>
    intro l l' hn hrest hprev hpast hpast' hfits hfits'
    have himpl : l.impl = l'.impl := by simp only [Lexer.impl, hrest, hprev, hpast, hpast']
    have hfst : l.nextToken.1 = l'.nextToken.1 := by
      rw [nextToken_fst l hfits, nextToken_fst l' hfits', himpl, hrest]
    by_cases hnil : l.rest = []
    · rw [run_nil l hnil, run_nil l' (hrest ▸ hnil), hfst]
    · have hlt := length_nextToken_rest_lt l hnil
      rw [run_eq l hnil, run_eq l' (hrest ▸ hnil), hfst]
      congr 1
      refine ih _ _ (by omega) ?_ ?_ ?_ ?_ hfits.next hfits'.next
      · simp only [nextToken_rest, himpl, hrest]
      · rw [nextToken_snd l hfits, nextToken_snd l' hfits', himpl, hprev]
      · rw [nextToken_snd l hfits]
        exact Nat.lt_of_lt_of_le hpast (Nat.le_add_right _ _)
      · rw [nextToken_snd l' hfits']
        exact Nat.lt_of_lt_of_le hpast' (Nat.le_add_right _ _)

end Shapes

end Daisy.Parsers
