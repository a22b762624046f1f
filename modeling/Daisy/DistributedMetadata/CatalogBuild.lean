import Daisy.DistributedMetadata.CatalogService

/-!
# `CatalogService::buildCatalog`

The snapshot of one node's tables, built from the rows of `system.tables`
the node broadcasts: one `Table` per row, filed under its database, name
and shard, a later row with the same key dropped by `emplace`. The shard of
a `DistributedMergeTree` table is read from `engine_full` by
`searchIntValueByRegex(PARSE_SHARD_REGEX, engine_full)`: the first match of
`shard\s*=\s*(\d+)` anywhere in the text, its digits through `std::stoi`.

## The model

A row is the columns of `system.tables` that the snapshot's entries keep:
database, name, engine, uuid and `engine_full`; the other columns are
copied into fields nothing here reads. `std::regex_search` with the fixed
pattern is `searchShard`: at each position from the left, `shard`, white
space (`\s`: space, tab, newline, vertical tab, form feed, carriage
return), `=`, white space and the longest run of digits. Where there is no
match, `pattern_match.str(1)` is empty, after an `assert` that stops a debug
build; `std::stoi` throws `std::invalid_argument` on text with no digits and
`std::out_of_range` past the range of `int`.

## What is proved

* `buildCatalog_of_no_shard`: a block with a `DistributedMergeTree` row
  whose `engine_full` has no `shard = n` makes `buildCatalog` throw, in a
  release build as in a debug one;
* at the end, the row of a `DistributedMergeTree` table created through SQL
  without a shard setting.
-/

namespace Daisy.DistributedMetadata

open Daisy.DistributedMergeTree (Build)

/-- The columns of a row of `system.tables` that `buildCatalog` keeps in the
snapshot. -/
structure SystemTablesRow where
  database : String
  name : String
  engine : String
  uuid : UUID
  engineFull : String
  deriving DecidableEq, Repr

/-- Why `buildCatalog` does not return. -/
inductive BuildCatalogError where
  /-- `assert(m)` of a debug build. -/
  | assertionFailed
  /-- `std::stoi` of a text with no number: `std::invalid_argument`. -/
  | invalidArgument
  /-- `std::stoi` of a number past the range of `int`: `std::out_of_range`. -/
  | outOfRange
  deriving DecidableEq, Repr

/-- `\s` of the pattern. -/
def isRegexSpace (c : Char) : Bool :=
  c = ' ' ∨ c = '\t' ∨ c = '\n' ∨ c = '\x0b' ∨ c = '\x0c' ∨ c = '\r'

/-- `\d` of the pattern. -/
def isRegexDigit (c : Char) : Bool := '0' ≤ c ∧ c ≤ '9'

/-- The group `(\d+)` of a match of `shard\s*=\s*(\d+)` that starts at the
front of `l`. -/
def matchShardAt (l : List Char) : Option (List Char) :=
  if "shard".toList.isPrefixOf l then
    match (l.drop 5).dropWhile isRegexSpace with
    | '=' :: rest =>
      let digits := (rest.dropWhile isRegexSpace).takeWhile isRegexDigit
      if digits = [] then none else some digits
    | _ => none
  else none

/-- `std::regex_search(str, pattern_match, PARSE_SHARD_REGEX)`: the group of
the leftmost match. -/
def searchShard : List Char → Option (List Char)
  | [] => none
  | c :: l => (matchShardAt (c :: l)).or (searchShard l)

/-- `std::stoi` of a text that is a run of digits or empty. -/
def stoi (digits : List Char) : Except BuildCatalogError Int :=
  if digits = [] then throw .invalidArgument
  else
    let value := digits.foldl (fun n c => 10 * n + (c.toNat - '0'.toNat)) 0
    if value > 2147483647 then throw .outOfRange else pure value

/-- `searchIntValueByRegex(PARSE_SHARD_REGEX, str)`. -/
def searchShardValue (b : Build) (str : String) : Except BuildCatalogError Int :=
  match searchShard str.toList with
  | some digits => stoi digits
  | none =>
    match b with
    | .debug => throw .assertionFailed
    -- `pattern_match.str(1)` of a failed search is empty
    | .release => stoi []

/-- The `Table` of one row; its shard is `0` but for a `DistributedMergeTree`. -/
def tableOfRow (b : Build) (node : Node) (row : SystemTablesRow) : Except BuildCatalogError Table := do
  let shard ← if row.engine = "DistributedMergeTree" then searchShardValue b row.engineFull else pure 0
  pure ⟨node.identity, row.database, row.name, row.uuid, shard⟩

/-- The body of the loop of `buildCatalog` for one row. -/
def buildCatalogStep (b : Build) (node : Node) (snapshot : TableContainerPerNode) (row : SystemTablesRow) :
    Except BuildCatalogError TableContainerPerNode := do
  let table ← tableOfRow b node row
  -- `snapshot.emplace(key, table)` keeps an entry already there
  pure (if (snapshot.lookup table.key).isSome then snapshot else snapshot.insert table.key table)

/-- `buildCatalog(node, block)`: the snapshot of the rows, the first row of
each key kept. -/
def buildCatalog (b : Build) (node : Node) (rows : List SystemTablesRow) :
    Except BuildCatalogError TableContainerPerNode :=
  rows.foldlM (buildCatalogStep b node) ∅

/-! ### A `DistributedMergeTree` row with no shard setting -/

theorem searchShardValue_of_none {b : Build} {str : String} (hnone : searchShard str.toList = none) :
    ∃ e, searchShardValue b str = .error e := by
  cases b
  · exact ⟨.assertionFailed, by rw [searchShardValue, hnone]; rfl⟩
  · exact ⟨.invalidArgument, by rw [searchShardValue, hnone]; rfl⟩

/-- **A table with no shard setting stops `buildCatalog`.** A block with a
`DistributedMergeTree` row whose `engine_full` has no match of
`shard\s*=\s*(\d+)` makes `buildCatalog` throw, whatever rows are around it. -/
theorem buildCatalog_of_no_shard (b : Build) (node : Node) (before after : List SystemTablesRow)
    {row : SystemTablesRow} (hengine : row.engine = "DistributedMergeTree") (hnone : searchShard row.engineFull.toList = none) :
    ∃ e, buildCatalog b node (before ++ row :: after) = .error e := by
  obtain ⟨e, he⟩ := searchShardValue_of_none (b := b) hnone
  have hrow : tableOfRow b node row = .error e := by simp [tableOfRow, hengine, he, bind, Except.bind]
  unfold buildCatalog
  rw [List.foldlM_append]
  -- the rows before may already have thrown; otherwise the row throws
  cases hbefore : before.foldlM (buildCatalogStep b node) ∅ with
  | error e' => exact ⟨e', rfl⟩
  | ok snapshot => exact ⟨e, by simp [List.foldlM_cons, buildCatalogStep, hrow, bind, Except.bind]⟩

/-- The row of `default.events`, a `DistributedMergeTree` created through SQL
with no `shard` setting, its `engine_full` the engine and the `ORDER BY`,
read by a release build. -/
theorem buildCatalog_of_no_shard_events :
    let row : SystemTablesRow :=
      ⟨"default", "events", "DistributedMergeTree", 0, "DistributedMergeTree(1, 1, rand()) ORDER BY _time"⟩
    row.engine = "DistributedMergeTree" ∧ searchShard row.engineFull.toList = none ∧
      ∃ e, buildCatalog .release ⟨"node1", "node1", 9000⟩ ([] ++ row :: []) = .error e :=
  ⟨rfl, by decide, buildCatalog_of_no_shard .release ⟨"node1", "node1", 9000⟩ [] [] rfl (by decide)⟩

end Daisy.DistributedMetadata
