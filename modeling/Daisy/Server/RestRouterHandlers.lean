import Daisy.IO.Text
import Daisy.Parsers.Lexer

/-!
# The SQL the REST handlers write

The REST handlers turn a request into a statement for `executeQuery`. A table
named in the path of `/dae/v1/ingest/tables/{table}`,
`/dae/v1/ingest/rawstores/{rawstore}` or `/dae/v1/ddl/tables/{table}` is
matched by `[%\w]+`, decoded by `unescapeForFileName` and spliced between
backquotes; names, aliases and comments of a table's JSON are spliced
between backquotes or single quotes, and the settings of the query string
after `=`.

## The model

A `std::string` is the list of its characters. A path parameter is the text
the route matched; `unescapeForFileName` decodes each `%` followed by two
characters (`unhex2`, with the source's table for other characters). A JSON
value is the text `toString` gives of it. The handlers' queries are built as
the source builds them; `executeQuery` splits them with the `Lexer` of
`Parsers.Lexer` under `max_query_size`.

## What is proved

* `tokenize_ingestQuery`: the statement of an ingest request for a table name
  with no backquote and no backslash is `INSERT`, `into`, the database, a dot,
  and one quoted identifier of the name, then tokens that do not depend on the
  name; so two such names give the same token types
  (`ingestQuery_tokenTypes_eq`).
* `ingestQuery_path_backquote`: a path `t%60b`, which the route admits,
  decodes to a name with a backquote that closes the quoted identifier early:
  the rest of the name and of the statement are read as SQL.
-/

namespace Daisy.Server

open Daisy.IO (unhex2)
open Daisy.Parsers

/-! ### Path parameters -/

/-- `unescapeForFileName(s)`: each `%` with two characters after it is the
byte of those two hexadecimal digits; any other character is itself. -/
def unescapeForFileName : List Char → List Char
  | '%' :: a :: b :: s => unhex2 a b :: unescapeForFileName s
  | c :: s => c :: unescapeForFileName s
  | [] => []

/-- A path parameter the routes admit: `[%\w]+`. -/
def IsRouteName (s : List Char) : Prop := s ≠ [] ∧ ∀ c ∈ s, c = '%' ∨ isWordCharASCII c = true

-- by the list, not by a decision over every character
instance (s : List Char) : Decidable (IsRouteName s) := @instDecidableAnd (s ≠ []) _ _ (List.decidableBAll _ s)

/-! ### The statements -/

/-- The statement of `IngestRestRouterHandler::execute` for the table `table`
of the database `database`, with the columns `cols` as `parseColumns` made them. -/
def ingestQuery (database table cols : List Char) : List Char :=
  "INSERT into ".toList ++ database ++ ".`".toList ++ table ++ "` ".toList ++ cols ++
    " FORMAT JSONCompactEachRow ".toList

/-- The statement of `IngestRawStoreHandler::execute`. -/
def rawStoreQuery (database table : List Char) : List Char :=
  "INSERT into ".toList ++ database ++ ".`".toList ++ table ++ "` FORMAT RawStoreEachRow ".toList

/-- The statement of `TableRestRouterHandler::executeDelete`. -/
def dropTableQuery (database table : List Char) : List Char :=
  "DROP TABLE ".toList ++ database ++ ".`".toList ++ table ++ "`".toList

/-- The statement of `TableRestRouterHandler::executePatch`: its two segments
joined by a space. -/
def alterTtlQuery (database table ttlExpression : List Char) : List Char :=
  "ALTER TABLE ".toList ++ database ++ ".`".toList ++ table ++ "`".toList ++ " ".toList ++
    " MODIFY TTL ".toList ++ ttlExpression

/-- A column of a table's JSON, as `getCreateColumnDefination` reads it. -/
structure ColumnJSON where
  /-- `name`. -/
  name : List Char
  /-- `type`. -/
  type : List Char
  /-- `nullable`, where given. -/
  nullable : Option Bool
  /-- `default`, where given. -/
  default : Option (List Char)
  /-- `alias`, where given. -/
  columnAlias : Option (List Char)
  /-- `comment`, where given. -/
  comment : Option (List Char)
  /-- `compression_codec`, where given. -/
  compressionCodec : Option (List Char)
  /-- `ttl_expression`, where given. -/
  ttlExpression : Option (List Char)
  /-- `skipping_index_expression`, where given. -/
  skippingIndexExpression : Option (List Char)

/-- `getCreateColumnDefination(column)`: its segments joined by spaces. A
`String` column's default is put between single quotes; an alias between
backquotes. -/
def getCreateColumnDefination (column : ColumnJSON) : List Char :=
  let typeSegment :=
    if column.nullable = some true then " Nullable(".toList ++ column.type ++ ")".toList
    else " ".toList ++ column.type
  let defaultSegment : List (List Char) := match column.default, column.columnAlias with
    | some d, _ =>
      let d := if column.type = "String".toList then singleQuote :: (d ++ [singleQuote]) else d
      [" DEFAULT ".toList ++ d]
    | none, some a => [" ALIAS `".toList ++ a ++ "`".toList]
    | none, none => []
  let optional (v : Option (List Char)) (f : List Char → List Char) : List (List Char) := (v.map f).toList
  List.intercalate [' '] <|
    ["`".toList ++ column.name ++ "`".toList, typeSegment] ++ defaultSegment ++
      optional column.comment (fun c => " COMMENT ".toList ++ singleQuote :: (c ++ [singleQuote])) ++
      optional column.compressionCodec (fun c => " CODEC(".toList ++ c ++ ")".toList) ++
      optional column.ttlExpression (fun t => " TTL ".toList ++ t) ++
      optional column.skippingIndexExpression (fun e => ", ".toList ++ e)

/-- `getAndValidateStorageSetting(key)` for the value `value` of the query
string: empty for an empty or rejected value; the three settings with fixed
values between single quotes, the others as given. -/
def getAndValidateStorageSetting (key value : List Char) : List Char :=
  let quoted := key ++ "=".toList ++ singleQuote :: (value ++ [singleQuote])
  if value = [] then []
  else if key = "streaming_storage_subscription_mode".toList then
    if value ≠ "shared".toList ∧ value ≠ "dedicated".toList then [] else quoted
  else if key = "streaming_storage_auto_offset_reset".toList then
    if value ≠ "earliest".toList ∧ value ≠ "latest".toList then [] else quoted
  else if key = "distributed_ingest_mode".toList then
    if value ≠ "async".toList ∧ value ≠ "sync".toList ∧ value ≠ "fire_and_forget".toList ∧
        value ≠ "ordered".toList then []
    else quoted
  else key ++ "=".toList ++ value

/-! ### The tokens of an ingest statement -/

/-- The tokens of the statement up to the table name: `INSERT`, a space, `into`,
a space, the database and a dot. -/
def ingestHead (database : List Char) : List Token :=
  [⟨.bareWord, ['I', 'N', 'S', 'E', 'R', 'T']⟩, ⟨.whitespace, [' ']⟩, ⟨.bareWord, ['i', 'n', 't', 'o']⟩,
    ⟨.whitespace, [' ']⟩, ⟨.bareWord, database⟩, ⟨.dot, ['.']⟩]

/-- What follows the table name's closing quote. -/
def ingestTail (cols : List Char) : List Char := ' ' :: (cols ++ " FORMAT JSONCompactEachRow ".toList)

/-- The statement, with its literal text spelt out where the lexer reads it. -/
theorem ingestQuery_eq (database table cols : List Char) :
    ingestQuery database table cols =
      ['I', 'N', 'S', 'E', 'R', 'T'] ++ ' ' :: (['i', 'n', 't', 'o'] ++ ' ' ::
        (database ++ '.' :: backQuote :: (table ++ backQuote :: ingestTail cols))) := by
  have hinsert : "INSERT into ".toList = ['I', 'N', 'S', 'E', 'R', 'T', ' ', 'i', 'n', 't', 'o', ' '] := by
    decide +kernel
  have hdot : ".`".toList = ['.', backQuote] := by decide +kernel
  have hquote : "` ".toList = [backQuote, ' '] := by decide +kernel
  unfold ingestQuery ingestTail
  -- the literals first: a rewrite that meets two of them would unfold both
  simp only [hinsert, hdot, hquote]
  simp only [List.append_assoc, List.cons_append, List.nil_append]

theorem not_whitespace_of_wordStart {c : Char} (hc : IsWordStart c) : isWhitespaceASCII c = false := by
  rw [Bool.eq_false_iff]
  intro h
  simp only [isWhitespaceASCII, Bool.or_eq_true, decide_eq_true_eq] at h
  rcases h with ((((rfl | rfl) | rfl) | rfl) | rfl) | rfl <;> exact absurd hc.1 (by decide)

/-- **The tokens of an ingest statement.** For a database that is a bare
word and a table name with no backquote and no backslash, the statement is
`INSERT into`, the database, a dot and one quoted identifier of the name, then
the tokens of what follows, read after a quoted identifier wherever it stands. -/
theorem tokenize_ingestQuery (maxQuerySize : Nat) {database table : List Char} (cols : List Char)
    (hdb : IsBareWord database) (htable : Clean backQuote table)
    (hfits : maxQuerySize = 0 ∨ (ingestQuery database table cols).length ≤ maxQuerySize) :
    tokenize maxQuerySize (ingestQuery database table cols) =
      ingestHead database ++ ⟨.quotedIdentifier, backQuote :: (table ++ [backQuote])⟩ ::
        (Lexer.mk 1 (ingestTail cols) 0 .quotedIdentifier).run := by
  obtain ⟨d, ds, rfl⟩ : ∃ d ds, database = d :: ds := by
    cases database with
    | nil => exact absurd hdb id
    | cons d ds => exact ⟨d, ds, rfl⟩
  have hd := not_whitespace_of_wordStart hdb.1
  set l0 := Lexer.ofQuery maxQuerySize (ingestQuery (d :: ds) table cols) with hl0
  have hf0 : l0.Fits := by simpa [Lexer.Fits, hl0, Lexer.ofQuery] using hfits
  have hr0 := ingestQuery_eq (d :: ds) table cols
  -- `INSERT`
  have hr0 : l0.rest = _ := hr0
  have h1 := nextToken_bareWord l0 hf0 (by decide) (by decide) hr0
  -- a space, `into`, a space
  have h2 := nextToken_space _ (h1 ▸ hf0.next) (c := 'i') (by decide) rfl
  have h3 := nextToken_bareWord _ (h2 ▸ (h1 ▸ hf0.next).next) (w := ['i', 'n', 't', 'o']) (by decide)
    (by decide) rfl
  have hf3 := h3 ▸ (h2 ▸ (h1 ▸ hf0.next).next).next
  have h4 := nextToken_space _ hf3 (c := d) hd rfl
  -- the database and the dot
  have h5 := nextToken_bareWord _ (h4 ▸ hf3.next) (w := d :: ds) hdb (by decide) rfl
  have hf5 := h5 ▸ (h4 ▸ hf3.next).next
  have h6 := nextToken_dot _ hf5 (Nat.add_pos_right _ (Nat.succ_pos _)) (c := backQuote) (by decide) rfl
  -- the name
  have hpost : (ingestTail cols).head? ≠ some backQuote := by
    rw [ingestTail, List.head?_cons]
    decide
  have h7 := nextToken_quotedIdentifier _ (h6 ▸ hf5.next) htable hpost rfl
  have hf7 := h7 ▸ (h6 ▸ hf5.next).next
  rw [tokenize, ← hl0, run_eq l0 (by rw [hr0]; simp), h1, run_eq _ (by simp), h2, run_eq _ (by simp), h3,
    run_eq _ (by simp), h4, run_eq _ (by simp), h5, run_eq _ (by simp), h6, run_eq _ (by simp), h7]
  simp only [ingestHead, List.cons_append, List.nil_append, List.cons.injEq, true_and]
  exact run_congr _ _ _ (Nat.le_refl _) rfl rfl (Nat.add_pos_right _ (Nat.succ_pos _)) Nat.one_pos hf7 (.inl rfl)

/-- **Clean names give the same token types.** Two ingest statements whose
table names have no backquote and no backslash have the same token types,
and differ only in the quoted identifier of the name. -/
theorem ingestQuery_tokenTypes_eq (maxQuerySize : Nat) {database table table' : List Char} (cols : List Char)
    (hdb : IsBareWord database) (htable : Clean backQuote table) (htable' : Clean backQuote table')
    (hfits : maxQuerySize = 0 ∨ (ingestQuery database table cols).length ≤ maxQuerySize)
    (hfits' : maxQuerySize = 0 ∨ (ingestQuery database table' cols).length ≤ maxQuerySize) :
    (tokenize maxQuerySize (ingestQuery database table cols)).map Token.type =
      (tokenize maxQuerySize (ingestQuery database table' cols)).map Token.type := by
  rw [tokenize_ingestQuery maxQuerySize cols hdb htable hfits, tokenize_ingestQuery maxQuerySize cols hdb htable' hfits']
  simp

/-- The table path `t%60b` is a route name and decodes to `t`, a backquote and
`b`; its statement then closes the quoted identifier after `t`, reads `b` as a
bare word, and leaves a backquote open to the end, where the statement for
the table `t` has one quoted identifier. -/
theorem ingestQuery_path_backquote :
    IsRouteName "t%60b".toList ∧ unescapeForFileName "t%60b".toList = ['t', backQuote, 'b'] ∧
      (tokenize 262144 (ingestQuery "default".toList "t".toList "(a)".toList)).map Token.type =
        [.bareWord, .whitespace, .bareWord, .whitespace, .bareWord, .dot, .quotedIdentifier, .whitespace,
          .openingRoundBracket, .bareWord, .closingRoundBracket, .whitespace, .bareWord, .whitespace, .bareWord,
          .whitespace, .endOfStream] ∧
      (tokenize 262144 (ingestQuery "default".toList (unescapeForFileName "t%60b".toList) "(a)".toList)).map
          Token.type =
        [.bareWord, .whitespace, .bareWord, .whitespace, .bareWord, .dot, .quotedIdentifier, .bareWord,
          .errorBackQuoteIsNotClosed, .endOfStream] := by
  refine ⟨by decide +kernel, by decide +kernel, by decide +kernel, by decide +kernel⟩

end Daisy.Server
