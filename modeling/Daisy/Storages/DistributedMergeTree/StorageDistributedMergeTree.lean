import Daisy.DistributedWriteAheadLog.Record

/-!
# `StorageDistributedMergeTree::commit`

`commit` turns a batch of records consumed from the Distributed Write Ahead
Log into one block for `doCommit`. Each `ADD_DATA_BLOCK` record whose
idempotent key was seen already is skipped (`dedupBlock`, which remembers the
key otherwise); the first kept block is taken as it is and every later one is
appended to it by `mergeBlocks`. `mergeBlocks(lhs, rhs)` appends each column
of `rhs` to the column of `lhs` of its name, first giving `lhs` a column of
defaults where it has none, and then checks that all columns have one size.

## The model

A block is `DataStreams.Block`; `Block::findByName`, `Block::insert` and
`insertRangeFrom` on the column found are functions of the list of columns.
The default a column of a type holds (`insertManyDefaults`) is a parameter.
`idempotent_keys` and its index `idempotent_keys_index` hold the same keys,
as the asserts of `addIdempotentKey` check, and are one list here, oldest
first; it is what `commit` leaves behind, also when it throws. What `commit`
hands to `doCommit` is the block, the sequence numbers of the first and the
last record and the idempotent keys of the kept records; the missing sequence
ranges are passed on as they are and left out.

## What is proved

* `mergeBlocks_of_missing`: when `lhs` has a column that `rhs` has not, and
  `rhs` has rows, `mergeBlocks` throws `SIZES_OF_COLUMNS_DOESNT_MATCH`: the
  column of `lhs` is never extended.
* `commit_rejects_narrower_block`: so does `commit` of every batch whose second
  record lacks a column of the first.
-/

namespace Daisy.DataStreams

variable {D : DataTypes}

/-- `Block::findByName(name)`: the first column of the name. -/
def Block.findByName (b : Block D) (name : List UInt8) : Option (Column D) :=
  b.find? fun c => c.name == name

/-- `Block::insert(elem)`: the column after the others. -/
def Block.insert (b : Block D) (c : Column D) : Block D := b ++ [c]

/-- `insertRangeFrom(src, 0, src.size())` on the column `findByName(name)`
gives: `values` after its own. -/
def Block.insertRangeFrom (name : List UInt8) (values : List D.Value) : Block D → Block D
  | [] => []
  | c :: b => if c.name == name then { c with values := c.values ++ values } :: b else c :: insertRangeFrom name values b

/-- `ColumnWithTypeAndName::cloneEmpty`: the name and the type, no values. -/
def Column.cloneEmpty (c : Column D) : Column D := { c with values := [] }

/-- `insertManyDefaults(length)`, with the default `insertDefault` gives a
value of the type. -/
def Column.insertManyDefaults (insertDefault : D.DataType → D.Value) (c : Column D) (length : Nat) : Column D :=
  { c with values := c.values ++ List.replicate length (insertDefault c.type) }

section Lemmas

variable {b : Block D} {c col : Column D} {name other : List UInt8} {values : List D.Value}

theorem mem_of_findByName (h : b.findByName name = some c) : c ∈ b := List.mem_of_find?_eq_some h

theorem findByName_cons : Block.findByName (c :: b) name = if c.name = name then some c else b.findByName name := by
  by_cases h : c.name = name <;> simp [Block.findByName, h]

theorem insertRangeFrom_cons : Block.insertRangeFrom name values (c :: b) =
    if c.name = name then { c with values := c.values ++ values } :: b else c :: b.insertRangeFrom name values := by
  simp [Block.insertRangeFrom]

theorem findByName_insert : (b.insert col).findByName name = (b.findByName name).or
    (if col.name = name then some col else none) := by
  simp only [Block.insert, Block.findByName, List.find?_append, List.find?_singleton, beq_iff_eq]

theorem mem_insert (h : c ∈ b) : c ∈ b.insert col := List.mem_append_left _ h

theorem findByName_insertRangeFrom_self :
    (b.insertRangeFrom name values).findByName name = (b.findByName name).map fun c => { c with values := c.values ++ values } := by
  induction b with
  | nil => rfl
  | cons c b ih =>
    by_cases hc : c.name = name
    · simp [insertRangeFrom_cons, findByName_cons, hc]
    · simp [insertRangeFrom_cons, findByName_cons, hc, ih]

theorem findByName_insertRangeFrom_of_ne (h : other ≠ name) :
    (b.insertRangeFrom name values).findByName other = b.findByName other := by
  induction b with
  | nil => rfl
  | cons c b ih =>
    by_cases hc : c.name = name
    · simp [insertRangeFrom_cons, findByName_cons, hc, Ne.symm h]
    · simp [insertRangeFrom_cons, findByName_cons, hc, ih]

/-- A column of another name is left as it is. -/
theorem mem_insertRangeFrom (hc : c ∈ b) (hname : c.name ≠ name) : c ∈ b.insertRangeFrom name values := by
  induction b with
  | nil => cases hc
  | cons d b ih =>
    rcases List.mem_cons.mp hc with rfl | hc
    · simp [insertRangeFrom_cons, hname]
    · by_cases hd : d.name = name
      · simp [insertRangeFrom_cons, hd, hc]
      · simp [insertRangeFrom_cons, hd, ih hc]

/-- A block whose columns are not all of one size fails `checkNumberOfRows`. -/
theorem checkNumberOfRows_of_ne {c₁ c₂ : Column D} (h₁ : c₁ ∈ b) (h₂ : c₂ ∈ b)
    (hne : c₁.values.length ≠ c₂.values.length) :
    ∃ first rows name size, b.checkNumberOfRows = .error (.sizesOfColumnsDoesntMatch first rows name size) := by
  rcases b with _ | ⟨head, cs⟩
  · cases h₁
  · -- one of the two differs from the first column, and `find?` stops at the first that does
    have hsome : ((head :: cs).find? fun c => c.values.length != head.values.length).isSome := by
      rw [List.find?_isSome]
      by_cases h : c₁.values.length = head.values.length
      · exact ⟨c₂, h₂, by simp; omega⟩
      · exact ⟨c₁, h₁, by simpa using h⟩
    obtain ⟨d, hd⟩ := Option.isSome_iff_exists.mp hsome
    exact ⟨_, _, _, _, by simp only [Block.checkNumberOfRows, hd]; rfl⟩

end Lemmas

end Daisy.DataStreams

namespace Daisy.DistributedMergeTree

open Daisy.DataStreams Daisy.DWAL

variable {D : DataTypes}

/-! ### `mergeBlocks` -/

/-- One column of `rhs` in the loop of `mergeBlocks`: a column of defaults
where `lhs` has none of its name, then its values after those of the column
`findByName` gives. -/
def mergeColumn (insertDefault : D.DataType → D.Value) (lhsRows : Nat) (lhs : Block D) (rhsCol : Column D) :
    Block D :=
  let lhs := match lhs.findByName rhsCol.name with
    | some _ => lhs
    | none => lhs.insert (rhsCol.cloneEmpty.insertManyDefaults insertDefault lhsRows)
  lhs.insertRangeFrom rhsCol.name rhsCol.values

/-- `StorageDistributedMergeTree::mergeBlocks(lhs, rhs)`: the merged block, or
what `checkNumberOfRows` throws. -/
def mergeBlocks (insertDefault : D.DataType → D.Value) (lhs rhs : Block D) : Except NativeError (Block D) := do
  let merged := rhs.foldl (mergeColumn insertDefault lhs.rows) lhs
  merged.checkNumberOfRows
  pure merged

section MergeBlocks

variable {insertDefault : D.DataType → D.Value} {lhsRows : Nat} {lhs : Block D} {c : Column D}

/-- A column of `lhs` of a name `rhsCol` has not is left as it is. -/
theorem mem_mergeColumn {rhsCol : Column D} (hc : c ∈ lhs) (hname : c.name ≠ rhsCol.name) :
    c ∈ mergeColumn insertDefault lhsRows lhs rhsCol := by
  unfold mergeColumn
  split
  · exact mem_insertRangeFrom hc hname
  · exact mem_insertRangeFrom (mem_insert hc) hname

theorem mem_foldl_mergeColumn (rhs : Block D) (hc : c ∈ lhs) (hmissing : ∀ r ∈ rhs, r.name ≠ c.name) :
    c ∈ rhs.foldl (mergeColumn insertDefault lhsRows) lhs := by
  induction rhs generalizing lhs with
  | nil => exact hc
  | cons r rhs ih =>
    exact ih (mem_mergeColumn hc (Ne.symm (hmissing r (List.mem_cons_self ..))))
      fun r' hr' => hmissing r' (List.mem_cons_of_mem _ hr')

/-- After `rhsCol`, the column of its name has its values after those of the
column `lhs` had of the name, or after `lhsRows` defaults. -/
theorem findByName_mergeColumn_self (rhsCol : Column D) :
    ∃ col, (mergeColumn insertDefault lhsRows lhs rhsCol).findByName rhsCol.name = some col ∧
      col.values.length = ((lhs.findByName rhsCol.name).map (·.values.length)).getD lhsRows + rhsCol.values.length := by
  unfold mergeColumn
  split
  · rename_i l hl
    exact ⟨_, by rw [findByName_insertRangeFrom_self, hl]; rfl, by simp [hl]⟩
  · rename_i hl
    -- the column of defaults is the first of its name
    have hnew : (lhs.insert (rhsCol.cloneEmpty.insertManyDefaults insertDefault lhsRows)).findByName rhsCol.name =
        some (rhsCol.cloneEmpty.insertManyDefaults insertDefault lhsRows) := by
      rw [findByName_insert, hl]
      simp [Column.insertManyDefaults, Column.cloneEmpty]
    refine ⟨_, by rw [findByName_insertRangeFrom_self, hnew]; rfl, ?_⟩
    simp [hl, Column.insertManyDefaults, Column.cloneEmpty]

/-- The column of a name never gets shorter, and stays. -/
theorem findByName_mergeColumn_le {name : List UInt8} {col : Column D} (rhsCol : Column D)
    (h : lhs.findByName name = some col) :
    ∃ col', (mergeColumn insertDefault lhsRows lhs rhsCol).findByName name = some col' ∧
      col.values.length ≤ col'.values.length := by
  by_cases hname : name = rhsCol.name
  · subst hname
    obtain ⟨col', hcol', hlength⟩ := (findByName_mergeColumn_self rhsCol :
      ∃ col, (mergeColumn insertDefault lhsRows lhs rhsCol).findByName rhsCol.name = some col ∧ _)
    refine ⟨col', hcol', ?_⟩
    rw [hlength, h]
    simp
  · refine ⟨col, ?_, le_rfl⟩
    unfold mergeColumn
    split
    · rw [findByName_insertRangeFrom_of_ne hname, h]
    · rw [findByName_insertRangeFrom_of_ne hname, findByName_insert, h]
      rfl

theorem findByName_foldl_mergeColumn_le {name : List UInt8} {col : Column D} (rhs : Block D)
    (h : lhs.findByName name = some col) :
    ∃ col', (rhs.foldl (mergeColumn insertDefault lhsRows) lhs).findByName name = some col' ∧
      col.values.length ≤ col'.values.length := by
  induction rhs generalizing lhs col with
  | nil => exact ⟨col, h, le_rfl⟩
  | cons r rhs ih =>
    obtain ⟨col₁, h₁, hle₁⟩ := (findByName_mergeColumn_le r h :
      ∃ col', (mergeColumn insertDefault lhsRows _ r).findByName _ = some col' ∧ _)
    obtain ⟨col₂, h₂, hle₂⟩ := ih h₁
    exact ⟨col₂, h₂, hle₁.trans hle₂⟩

/-- **`mergeBlocks` has no branch for a column only `lhs` has.** When `lhs`
has a column that no column of `rhs` is named as, and `rhs` has rows, that
column keeps its `rows(lhs)` values while the column of the first name of
`rhs` gets more, and `checkNumberOfRows` throws. -/
theorem mergeBlocks_of_missing (lhs rhs : Block D) (hlhs : ∀ c ∈ lhs, c.values.length = lhs.rows)
    (hc : c ∈ lhs) (hmissing : ∀ r ∈ rhs, r.name ≠ c.name) (hrows : 0 < rhs.rows) :
    ∃ first rows name size,
      mergeBlocks insertDefault lhs rhs = .error (.sizesOfColumnsDoesntMatch first rows name size) := by
  obtain _ | ⟨r, rhs⟩ := rhs
  · cases hrows
  -- the column of `r`'s name after `r`, and after the rest of `rhs`
  obtain ⟨col₁, h₁, hlength₁⟩ := (findByName_mergeColumn_self r :
    ∃ col, (mergeColumn insertDefault lhs.rows lhs r).findByName r.name = some col ∧ _)
  obtain ⟨col₂, h₂, hle⟩ := (findByName_foldl_mergeColumn_le rhs h₁ :
    ∃ col', (rhs.foldl (mergeColumn insertDefault lhs.rows) _).findByName _ = some col' ∧ _)
  have hfirst : ((lhs.findByName r.name).map (·.values.length)).getD lhs.rows = lhs.rows := by
    cases hl : lhs.findByName r.name with
    | none => rfl
    | some l => simp [hlhs l (mem_of_findByName hl)]
  have hlonger : c.values.length ≠ col₂.values.length := by
    simp only [Block.rows] at hrows
    rw [hlhs c hc]
    omega
  have hcmem : c ∈ (r :: rhs).foldl (mergeColumn insertDefault lhs.rows) lhs :=
    mem_foldl_mergeColumn (r :: rhs) hc hmissing
  obtain ⟨first, rows, name, size, herror⟩ := checkNumberOfRows_of_ne hcmem (mem_of_findByName h₂) hlonger
  refine ⟨first, rows, name, size, ?_⟩
  simp only [mergeBlocks, herror]
  rfl

end MergeBlocks

/-! ### `commit` -/

/-- A record as `commit` reads it: its opcode and block, its sequence number
`sn`, and its idempotent key where `hasIdempotentKey`. -/
structure CommitRecord (D : DataTypes) extends Record D where
  sn : Int
  idempotentKey : Option (List UInt8)

/-- `idempotent_keys`, oldest first; `idempotent_keys_index` holds the same. -/
abbrev IdempotentKeys := List (List UInt8)

/-- What `commit` throws. -/
inductive CommitError where
  /-- `mergeBlocks` threw. -/
  | native (e : NativeError)
  /-- "Not impelemented" (`NOT_IMPLEMENTED`), for `ALTER_DATA_BLOCK`. -/
  | notImplemented
  /-- Undefined behaviour. -/
  | failure (f : Failure)

/-- `addIdempotentKey(key)`: the oldest key leaves once `max_idempotent_ids`
are kept. -/
def addIdempotentKey (maxIdempotentIds : Nat) (keys : IdempotentKeys) (key : List UInt8) :
    Except CommitError IdempotentKeys := do
  let keys ← if maxIdempotentIds ≤ keys.length then
      match keys with
      | [] => throw (.failure .frontOfEmptyDeque)
      | _ :: keys => pure keys
    else pure keys
  pure (keys ++ [key])

/-- `dedupBlock(record)`: whether the record's key was seen, and the keys
after it. -/
def dedupBlock (maxIdempotentIds : Nat) (keys : IdempotentKeys) (r : CommitRecord D) :
    Except CommitError (Bool × IdempotentKeys) :=
  match r.idempotentKey with
  | none => pure (false, keys)
  | some key =>
    if key ∈ keys then pure (true, keys)
    else do
      let keys ← addIdempotentKey maxIdempotentIds keys key
      pure (false, keys)

/-- The block and the idempotent keys `commit` gathers. -/
structure Batch (D : DataTypes) where
  block : Block D
  keys : List (Int × List UInt8)

/-- The loop of `commit` over the records: the batch, or what it throws, and
the idempotent keys as the loop leaves them. -/
def commitLoop (insertDefault : D.DataType → D.Value) (maxIdempotentIds : Nat) :
    List (CommitRecord D) → Batch D → IdempotentKeys → Except CommitError (Batch D) × IdempotentKeys
  | [], batch, keys => (.ok batch, keys)
  | r :: rs, batch, keys =>
    match r.opCode with
    | .addDataBlock =>
      match dedupBlock maxIdempotentIds keys r with
      | .error e => (.error e, keys)
      | .ok (true, keys) => commitLoop insertDefault maxIdempotentIds rs batch keys
      | .ok (false, keys) =>
        -- `if (block)`: a block with columns; the first is swapped in
        let block := if batch.block.isEmpty then .ok r.block else (mergeBlocks insertDefault batch.block r.block).mapError .native
        match block with
        | .error e => (.error e, keys)
        | .ok block =>
          let batchKeys := match r.idempotentKey with
            | some key => batch.keys ++ [(r.sn, key)]
            | none => batch.keys
          commitLoop insertDefault maxIdempotentIds rs ⟨block, batchKeys⟩ keys
    | .alterDataBlock => (.error .notImplemented, keys)
    | _ => commitLoop insertDefault maxIdempotentIds rs batch keys

/-- What `commit` hands to `doCommit`. -/
structure DoCommit (D : DataTypes) where
  block : Block D
  snRange : Int × Int
  keys : List (Int × List UInt8)

/-- `StorageDistributedMergeTree::commit(records, missing_sequence_ranges)`:
what it hands to `doCommit` (nothing for no records) or throws, and the
idempotent keys after it. -/
def commit (insertDefault : D.DataType → D.Value) (maxIdempotentIds : Nat) (records : List (CommitRecord D))
    (keys : IdempotentKeys) : Except CommitError (Option (DoCommit D)) × IdempotentKeys :=
  match records.head?, records.getLast? with
  | some first, some last =>
    let (r, keys) := commitLoop insertDefault maxIdempotentIds records ⟨[], []⟩ keys
    (r.map fun batch => some ⟨batch.block, (first.sn, last.sn), batch.keys⟩, keys)
  | _, _ => (.ok none, keys)

section Commit

variable {insertDefault : D.DataType → D.Value} {maxIdempotentIds : Nat}

/-- A kept record of no idempotent key appended to a batch that has columns. -/
theorem commitLoop_add (r : CommitRecord D) (rs : List (CommitRecord D)) (batch : Batch D) (keys : IdempotentKeys)
    (hadd : r.opCode = .addDataBlock) (hkey : r.idempotentKey = none) (hblock : batch.block ≠ []) :
    commitLoop insertDefault maxIdempotentIds (r :: rs) batch keys =
      match mergeBlocks insertDefault batch.block r.block with
      | .error e => (.error (.native e), keys)
      | .ok block => commitLoop insertDefault maxIdempotentIds rs ⟨block, batch.keys⟩ keys := by
  have hdedup : dedupBlock maxIdempotentIds keys r = .ok (false, keys) := by
    simp only [dedupBlock, hkey]
    rfl
  have hempty : batch.block.isEmpty = false := List.isEmpty_eq_false_iff.mpr hblock
  simp only [commitLoop, hadd, hdedup, hempty, hkey]
  cases mergeBlocks insertDefault batch.block r.block <;> rfl

/-- The first kept record of no idempotent key starts the batch. -/
theorem commitLoop_first (r : CommitRecord D) (rs : List (CommitRecord D)) (keys : IdempotentKeys)
    (hadd : r.opCode = .addDataBlock) (hkey : r.idempotentKey = none) :
    commitLoop insertDefault maxIdempotentIds (r :: rs) ⟨[], []⟩ keys =
      commitLoop insertDefault maxIdempotentIds rs ⟨r.block, []⟩ keys := by
  have hdedup : dedupBlock maxIdempotentIds keys r = .ok (false, keys) := by
    simp only [dedupBlock, hkey]
    rfl
  simp only [commitLoop, hadd, hdedup, hkey]
  rfl

/-- **A batch whose second block lacks a column of the first is not
committed.** For every batch whose first two records are `ADD_DATA_BLOCK`s
with no idempotent key, the first of consistent sizes and with a column the
second has not, and the second with rows: `commit` throws
`SIZES_OF_COLUMNS_DOESNT_MATCH` and hands nothing to `doCommit`. The same
holds of `mergeBlocks` on every such pair of blocks. -/
theorem commit_rejects_narrower_block (r₁ r₂ : CommitRecord D) (rs : List (CommitRecord D)) (keys : IdempotentKeys)
    (c : Column D) (hadd₁ : r₁.opCode = .addDataBlock) (hadd₂ : r₂.opCode = .addDataBlock)
    (hkey₁ : r₁.idempotentKey = none) (hkey₂ : r₂.idempotentKey = none)
    (hrows₁ : ∀ c ∈ r₁.block, c.values.length = r₁.block.rows) (hc : c ∈ r₁.block)
    (hmissing : ∀ r ∈ r₂.block, r.name ≠ c.name) (hrows₂ : 0 < r₂.block.rows) :
    (∃ first rows name size, mergeBlocks insertDefault r₁.block r₂.block =
        .error (.sizesOfColumnsDoesntMatch first rows name size)) ∧
      ∃ first rows name size, (commit insertDefault maxIdempotentIds (r₁ :: r₂ :: rs) keys).1 =
        .error (.native (.sizesOfColumnsDoesntMatch first rows name size)) := by
  obtain ⟨first, rows, name, size, hmerge⟩ := (mergeBlocks_of_missing r₁.block r₂.block hrows₁ hc hmissing hrows₂ :
    ∃ first rows name size, mergeBlocks insertDefault r₁.block r₂.block = _)
  refine ⟨⟨first, rows, name, size, hmerge⟩, first, rows, name, size, ?_⟩
  have hblock : r₁.block ≠ [] := List.ne_nil_of_mem hc
  obtain ⟨last, hlast⟩ : ∃ last, (r₁ :: r₂ :: rs).getLast? = some last := Option.isSome_iff_exists.mp (by simp)
  simp only [commit, List.head?_cons, hlast]
  rw [commitLoop_first r₁ _ keys hadd₁ hkey₁,
    commitLoop_add r₂ rs ⟨r₁.block, []⟩ keys hadd₂ hkey₂ hblock, hmerge]
  rfl

/-- Two one-row blocks, the first of the columns `a` and `b`, the second of
`a` alone: the batch is not committed. -/
theorem commit_rejects_narrower_block_two_columns :
    ∃ first rows name size,
      (commit (D := DataTypes.basic []) (fun _ => .uInt64 0) 1000
          [⟨⟨.addDataBlock, [⟨ascii "a", .uInt64, [.uInt64 1]⟩, ⟨ascii "b", .uInt64, [.uInt64 2]⟩]⟩, 1, none⟩,
            ⟨⟨.addDataBlock, [⟨ascii "a", .uInt64, [.uInt64 3]⟩]⟩, 2, none⟩] []).1 =
        .error (.native (.sizesOfColumnsDoesntMatch first rows name size)) :=
  (commit_rejects_narrower_block _ _ [] [] (⟨ascii "b", .uInt64, [.uInt64 2]⟩ : Column (DataTypes.basic [])) rfl rfl
    rfl rfl (by decide) (by simp) (by decide) (by decide)).2

end Commit

end Daisy.DistributedMergeTree
