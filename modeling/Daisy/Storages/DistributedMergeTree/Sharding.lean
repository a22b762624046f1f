import Daisy.Interpreters.BlockSelector
import Daisy.Library.Loops
import Mathlib.Data.List.Sort

/-!
# Where a row of a `DistributedMergeTree` lives

An insert splits each block by its sharding key into one block per shard
(`shardBlock`, `doShardBlock`); a query whose `WHERE` pins the sharding key to
constants asks only the shards of those constants (`skipUnusedShards`). Both
go through `createSelector` and `createBlockSelector`, with
`slot_to_shard = [0, …, shards - 1]`: an insert on the full key column of the
block, a query on the constant column of each value.

## The model

A block is the list of its rows; scattering every column by the selector, as
`doShardBlock` does, is scattering the rows. The sharding key is what it
evaluates to on a row: a value of an integer type (a `LowCardinality` column
is converted to its full column, with the same keys), or a column of another
type. `skipUnusedShards` starts where `evaluateExpressionOverConstantCondition`
has folded the conditions into blocks of one row: its input is the key
column of each block, a constant column. `std::set<int>` is a sorted list
without repeats. The random shard of a table with no sharding key is an
input.

## What is proved

* `doShardBlock_eq`: the shard blocks are the rows of each shard in their
  order, for the shards that have rows, so they partition the block
  (`doShardBlock_partition`).
* `mem_skipUnusedShards`: the shards a query asks are those of its values
  read as constants.
* `mem_skipUnusedShards_of_routed`: where the two reads agree on a value, the
  shard a row with that key was sent to is asked; they agree for the
  unsigned types, `Int32` and `Int64`, and for no negative `Int8` key over 11
  shards, the case at the end.
-/

namespace Daisy.DistributedMergeTree

open Daisy.Interpreters Daisy.Library

/-- What sharding reads of a `StorageDistributedMergeTree`: its shards. -/
structure Sharding where
  /-- `shards`. -/
  shards : Nat
  /-- There is a shard. -/
  shards_pos : 0 < shards

/-- `slot_to_shard`: shard `i` at slot `i`. -/
def slotToShard (shards : Nat) : List Nat := List.range shards

theorem length_slotToShard (shards : Nat) : (slotToShard shards).length = shards := List.length_range

/-- The result column of the sharding key expression. -/
inductive KeyResult where
  /-- A column of an integer type, `LowCardinality` or not. -/
  | int {T : IntType} (column : KeyColumn T)
  /-- A column of another type. -/
  | other

/-- What sharding throws. -/
inductive ShardingError where
  /-- "Sharding key expression does not evaluate to an integer type" (`TYPE_MISMATCH`). -/
  | typeMismatch
  /-- `scatter`: "Size of selector: `selector` doesn't match size of column: `rows`". -/
  | sizesOfColumnsDoesntMatch (selector rows : Nat)
  deriving DecidableEq, Repr

/-- `StorageDistributedMergeTree::createSelector(result)`. -/
def createSelector (st : Sharding) : KeyResult → Except ShardingError (List Nat)
  | .int column =>
    pure (createBlockSelector column (slotToShard st.shards) (by rw [length_slotToShard]; exact st.shards_pos))
  | .other => throw .typeMismatch

/-- The sharding key expression, by what it evaluates to on a row. -/
inductive ShardingKey (α : Type) where
  /-- A value of an integer type. -/
  | int (T : IntType) (eval : α → Value T)
  /-- A value of another type. -/
  | other

/-- The key column of a block: the key of each row. -/
def ShardingKey.keyColumn {α : Type} (rows : List α) : ShardingKey α → KeyResult
  | .int _ eval => .int (.vector (rows.map eval))
  | .other => .other

/-- `createSelector(block)`: the sharding key executed over the block, then
`createSelector` of its column. -/
def createSelectorOfBlock {α : Type} (st : Sharding) (key : ShardingKey α) (rows : List α) :
    Except ShardingError (List Nat) :=
  createSelector st (key.keyColumn rows)

/-- `IColumn::scatter(num_columns, selector)`: row `i` goes to part `selector[i]`. -/
def scatter {α : Type} (numColumns : Nat) (rows : List α) (selector : List Nat) :
    Except ShardingError (List (List α)) :=
  if rows.length ≠ selector.length then throw (.sizesOfColumnsDoesntMatch selector.length rows.length)
  else pure ((List.range numColumns).map fun j => ((rows.zip selector).filter (·.2 = j)).map (·.1))

/-- `doShardBlock`: the rows of each shard, with the shard, for the shards
that have rows. -/
def doShardBlock {α : Type} (st : Sharding) (key : ShardingKey α) (rows : List α) :
    Except ShardingError (List (List α × Nat)) := do
  let selector ← createSelectorOfBlock st key rows
  let sharded ← scatter st.shards rows selector
  -- filter out empty blocks
  pure (sharded.zipIdx.filter fun b => b.1 ≠ [])

/-- `shardBlock`: split by the sharding key where there are shards to split
over; a table without one sends the whole block to `randomShard`. -/
def shardBlock {α : Type} (st : Sharding) (key : Option (ShardingKey α)) (randomShard : Nat) (rows : List α) :
    Except ShardingError (List (List α × Nat)) :=
  if 1 < st.shards then
    match key with
    | some key => doShardBlock st key rows
    | none => pure [(rows, randomShard)]
  else pure [(rows, 0)]

/-- `shard_ids.insert(id)` of a `std::set<int>`. -/
def insertShardId (ids : List Nat) (id : Nat) : List Nat :=
  if id ∈ ids then ids else ids.orderedInsert (· ≤ ·) id

/-- `skipUnusedShards`, from the key column of each block the conditions fold
into: the shard ids of their selectors, in the order of `std::set`. -/
def skipUnusedShards (st : Sharding) (results : List KeyResult) : Except ShardingError (List Nat) :=
  results.foldlM (fun shardIds result => do
    let selector ← createSelector st result
    pure (selector.foldl insertShardId shardIds)) []

/-! ### The shard of a row -/

section Rows

variable {α : Type} (st : Sharding) {T : IntType} (eval : α → Value T)

/-- The shard an insert sends a row to. -/
def routedShard (r : α) : Nat := vectorIndex st.shards (eval r)

/-- The shard a query reads for a value of the key. -/
def constShard (v : Value T) : Nat := constIndex st.shards v

theorem get_slotToShard {i : Nat} (h : i < (slotToShard st.shards).length) : (slotToShard st.shards).get ⟨i, h⟩ = i :=
  List.getElem_range _

theorem createSelectorOfBlock_int (rows : List α) :
    createSelectorOfBlock st (.int T eval) rows = .ok (rows.map (routedShard st eval)) := by
  simp only [createSelectorOfBlock, ShardingKey.keyColumn, createSelector, createBlockSelector_vector,
    get_slotToShard, length_slotToShard, List.map_map]
  rfl

theorem scatter_eq {numColumns : Nat} (rows : List α) (f : α → Nat) :
    scatter numColumns rows (rows.map f) = .ok ((List.range numColumns).map fun j => rows.filter (f · = j)) := by
  rw [scatter, if_neg (by simp)]
  congr 2
  funext j
  induction rows with
  | nil => rfl
  | cons r rows ih =>
    by_cases hr : f r = j <;> simp [hr, ih]

theorem zipIdx_map_range {β : Type} (n : Nat) (g : Nat → β) :
    ((List.range n).map g).zipIdx = (List.range n).map fun j => (g j, j) := by
  apply List.ext_getElem
  · simp
  · intro i h1 h2
    simp [List.getElem_zipIdx]

/-- **The shard blocks.** Each shard with rows gets its rows, in their order. -/
theorem doShardBlock_eq (rows : List α) :
    doShardBlock st (.int T eval) rows =
      .ok (((List.range st.shards).map fun j => (rows.filter (routedShard st eval · = j), j)).filter
        fun b => b.1 ≠ []) := by
  simp only [doShardBlock, createSelectorOfBlock_int, scatter_eq, bind, Except.bind, pure, Except.pure,
    zipIdx_map_range]

/-- Splitting a list by a function below `n` into the parts of `0`, …, `n - 1`
keeps every element once. -/
theorem flatMap_range_filter_perm {β : Type} (l : List β) (f : β → Nat) (n : Nat) :
    ((List.range n).flatMap fun j => l.filter (f · = j)).Perm (l.filter (f · < n)) := by
  induction n with
  | zero => simp
  | succ n ih =>
    rw [List.range_succ, List.flatMap_append, List.flatMap_singleton]
    refine (ih.append_right _).trans ?_
    -- the elements below `n + 1` are those below `n`, then those at `n`
    have hsplit := List.filter_append_perm (fun a => decide (f a < n)) (l.filter (f · < n + 1))
    rw [List.filter_filter, List.filter_filter] at hsplit
    refine List.Perm.trans ?_ hsplit
    have hlt : (fun a => decide (f a < n) && decide (f a < n + 1)) = fun a => decide (f a < n) := by
      funext a
      by_cases h : f a < n
      · simp [h]
        omega
      · simp [h]
    have heq : (fun a => !decide (f a < n) && decide (f a < n + 1)) = fun a => decide (f a = n) := by
      funext a
      by_cases h : f a = n
      · simp [h]
      · simp [h]
        omega
    rw [hlt, heq]

/-- **The shard blocks partition the block.** They hold every row once, in
the order of the block within each, are not empty, and go to distinct
shards in increasing order. -/
theorem doShardBlock_partition (rows : List α) :
    ∃ bs, doShardBlock st (.int T eval) rows = .ok bs ∧ (bs.map Prod.fst).flatten.Perm rows ∧
      (∀ b ∈ bs, b.1 ≠ [] ∧ b.1 = rows.filter (routedShard st eval · = b.2)) ∧
      (bs.map Prod.snd).Pairwise (· < ·) := by
  refine ⟨_, doShardBlock_eq st eval rows, ?_, ?_, ?_⟩
  · have hbelow : rows.filter (routedShard st eval · < st.shards) = rows := by
      rw [List.filter_eq_self]
      intro r _
      exact decide_eq_true (Nat.mod_lt _ st.shards_pos)
    have hfst : ∀ L : List (List α × Nat),
        (L.filter fun b => decide (b.1 ≠ [])).map Prod.fst = (L.map Prod.fst).filter fun l => decide (l ≠ []) := by
      intro L
      rw [List.filter_map]
      rfl
    -- dropping the empty blocks drops no row
    rw [hfst, List.flatten_filter_ne_nil, List.map_map, ← List.flatMap_def]
    have hperm := flatMap_range_filter_perm rows (routedShard st eval) st.shards
    rw [hbelow] at hperm
    exact hperm
  · intro b hb
    obtain ⟨hb, hne⟩ := List.mem_filter.mp hb
    obtain ⟨j, -, rfl⟩ := List.mem_map.mp hb
    exact ⟨by simpa using hne, rfl⟩
  · have hsub := (List.filter_sublist (p := fun b : List α × Nat => decide (b.1 ≠ []))
      (l := (List.range st.shards).map fun j => (rows.filter (routedShard st eval · = j), j))).map Prod.snd
    have hshards : (List.range st.shards).map (Prod.snd ∘ fun j => (rows.filter (routedShard st eval · = j), j)) =
        List.range st.shards := by
      simp [Function.comp_def]
    rw [List.map_map, hshards] at hsub
    exact List.pairwise_lt_range.sublist hsub

/-! ### The shards a query asks -/

theorem mem_insertShardId {ids : List Nat} {i j : Nat} : j ∈ insertShardId ids i ↔ j = i ∨ j ∈ ids := by
  unfold insertShardId
  split_ifs with hi
  · constructor
    · exact .inr
    · rintro (rfl | hj)
      · exact hi
      · exact hj
  · exact List.mem_orderedInsert _

/-- `std::set<int>` stays sorted without repeats. -/
theorem insertShardId_pairwise {ids : List Nat} (h : ids.Pairwise (· < ·)) (i : Nat) :
    (insertShardId ids i).Pairwise (· < ·) := by
  unfold insertShardId
  split_ifs with hi
  · exact h
  · have hle : (ids.orderedInsert (· ≤ ·) i).Pairwise (· ≤ ·) := (h.imp Nat.le_of_lt).orderedInsert i ids
    have hnd : (ids.orderedInsert (· ≤ ·) i).Nodup :=
      (List.perm_orderedInsert _ i ids).nodup_iff.mpr (List.nodup_cons.mpr ⟨hi, h.imp Nat.ne_of_lt⟩)
    exact (hle.and hnd).imp fun hij => Nat.lt_of_le_of_ne hij.1 hij.2

theorem foldl_insertShardId (sel : List Nat) {ids : List Nat} (h : ids.Pairwise (· < ·)) :
    (sel.foldl insertShardId ids).Pairwise (· < ·) ∧ ∀ j, j ∈ sel.foldl insertShardId ids ↔ j ∈ sel ∨ j ∈ ids := by
  induction sel generalizing ids with
  | nil => simpa using h
  | cons i sel ih =>
    obtain ⟨hpair, hmem⟩ := ih (insertShardId_pairwise h i)
    refine ⟨hpair, fun j => ?_⟩
    rw [List.foldl_cons, hmem, mem_insertShardId, List.mem_cons]
    tauto

/-- **The shards a query asks.** Where every key column has a selector,
`skipUnusedShards` gives the shards of their selectors, in increasing order
and once each. -/
theorem skipUnusedShards_spec (results : List KeyResult)
    (hok : ∀ r ∈ results, ∃ sel, createSelector st r = .ok sel) :
    ∃ ids, skipUnusedShards st results = .ok ids ∧ ids.Pairwise (· < ·) ∧
      ∀ j, j ∈ ids ↔ ∃ r ∈ results, ∃ sel, createSelector st r = .ok sel ∧ j ∈ sel := by
  refine foldlM_of_step (fun (done : List KeyResult) (ids : List Nat) => ids.Pairwise (· < ·) ∧
    ∀ j, j ∈ ids ↔ ∃ r ∈ done, ∃ sel, createSelector st r = .ok sel ∧ j ∈ sel) results ?_ ⟨List.Pairwise.nil, by simp⟩
  rintro done r rest ids hdone ⟨hpair, hmem⟩
  obtain ⟨sel, hsel⟩ := hok r (hdone ▸ by simp)
  obtain ⟨hpair', hmem'⟩ := foldl_insertShardId sel hpair
  refine ⟨sel.foldl insertShardId ids, by simp only [hsel, bind, Except.bind, pure, Except.pure], hpair', fun j => ?_⟩
  rw [hmem', hmem]
  constructor
  · rintro (hj | ⟨r', hr', sel', hsel', hj⟩)
    · exact ⟨r, by simp, sel, hsel, hj⟩
    · exact ⟨r', by simp [hr'], sel', hsel', hj⟩
  · rintro ⟨r', hr', sel', hsel', hj⟩
    rcases List.mem_append.mp hr' with hr' | hr'
    · exact .inr ⟨r', hr', sel', hsel', hj⟩
    · rw [List.mem_singleton.mp hr', hsel, Except.ok.injEq] at hsel'
      exact .inl (hsel' ▸ hj)

theorem createSelector_const (v : Value T) (rows : Nat) :
    createSelector st (.int (.const v rows)) = .ok (List.replicate rows (constShard st v)) := by
  simp only [createSelector, createBlockSelector_const, get_slotToShard, length_slotToShard]
  rfl

/-- A query pinning the key to `vs` asks the shards of the values of `vs`
read as constants. -/
theorem mem_skipUnusedShards (vs : List (Value T)) :
    ∃ ids, skipUnusedShards st (vs.map fun v => .int (.const v 1)) = .ok ids ∧
      ∀ j, j ∈ ids ↔ ∃ v ∈ vs, constShard st v = j := by
  obtain ⟨ids, hids, -, hmem⟩ := skipUnusedShards_spec st (vs.map fun v => .int (.const v 1)) (by
    intro r hr
    obtain ⟨v, -, rfl⟩ := List.mem_map.mp hr
    exact ⟨_, createSelector_const st v 1⟩)
  refine ⟨ids, hids, fun j => ?_⟩
  rw [hmem]
  constructor
  · rintro ⟨r, hr, sel, hsel, hj⟩
    obtain ⟨v, hv, rfl⟩ := List.mem_map.mp hr
    rw [createSelector_const, Except.ok.injEq] at hsel
    subst hsel
    exact ⟨v, hv, (List.eq_of_mem_replicate hj).symm⟩
  · rintro ⟨v, hv, rfl⟩
    exact ⟨_, List.mem_map_of_mem hv, _, createSelector_const st v 1, List.mem_singleton_self _⟩

/-- **Routed rows are asked.** Where the full and the constant reads of the
key agree on the query's values, every shard an insert sends a row with one
of those keys to is one the query asks. -/
theorem mem_skipUnusedShards_of_routed (rows : List α) (vs : List (Value T))
    (hagree : ∀ v ∈ vs, vectorIndex st.shards v = constIndex st.shards v) :
    ∃ bs ids, doShardBlock st (.int T eval) rows = .ok bs ∧
      skipUnusedShards st (vs.map fun v => .int (.const v 1)) = .ok ids ∧
      ∀ b ∈ bs, ∀ r ∈ b.1, eval r ∈ vs → b.2 ∈ ids := by
  obtain ⟨bs, hbs, -, hblocks, -⟩ := doShardBlock_partition st eval rows
  obtain ⟨ids, hids, hmem⟩ := mem_skipUnusedShards st vs
  refine ⟨bs, ids, hbs, hids, fun b hb r hr hv => ?_⟩
  have hrouted : routedShard st eval r = b.2 := by
    rw [(hblocks b hb).2] at hr
    exact of_decide_eq_true (List.mem_filter.mp hr).2
  exact (hmem _).mpr ⟨eval r, hv, by rw [constShard, ← hagree _ hv, ← hrouted]; rfl⟩

end Rows

/-- A negative `Int8` key over 11 shards: an insert sends the row to shard 3,
and the query `WHERE key = -1` asks shard 2 only. -/
theorem skipUnusedShards_misses_negative_int8 :
    let st : Sharding := ⟨11, by decide⟩
    let v : Value .int8 := ⟨-1, by decide, by decide⟩
    shardBlock st (some (.int .int8 fun _ : Unit => v)) 0 [()] = .ok [([()], 3)] ∧
      skipUnusedShards st [.int (.const v 1)] = .ok [2] := by
  constructor <;> rfl

end Daisy.DistributedMergeTree
