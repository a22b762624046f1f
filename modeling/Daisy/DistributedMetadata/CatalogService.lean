import Mathlib.Data.List.AList
import Daisy.Storages.DistributedMergeTree.Sequences

/-!
# The table catalog of `CatalogService`

Every node of the cluster broadcasts the tables it holds; `CatalogService`
merges each node's snapshot into three indexes, under `catalog_rwlock`:
`indexed_by_node` (node → its tables by `(database, table, shard)`),
`indexed_by_name` (`(database, table)` → the copies by `(node, shard)`) and
`indexed_by_id` (uuid → table). `table_nodes` records the nodes.

## The model

A table is the fields of `Table` that the indexes read: its node, database,
name, uuid and shard (the other fields only decide when a cached storage is
dropped, and the storage cache `storages` is not modelled). A map that the
code iterates or tests for emptiness is an `AList`, in the order the code
iterates it, which is any order: the snapshot is an input. The maps that are
only looked up are functions. Each call is a function of the state; an
`assert` aborts a debug build only, and going through `end()` of
`indexed_by_name` is undefined and stops the model.

* `removeTable`: the body of the loops that take a table away;
* `addNewTable`: the body of the loop of a new node;
* `mergeTable`: the body of the loop that adds or overrides a table;
* `deleteCatalogForNode`, `mergeCatalog`, and `run` over a list of calls.
-/

namespace Daisy.DistributedMetadata

open Daisy.DistributedMergeTree (Build)

/-- A `UUID`; `UUIDHelpers::Nil` is `0`. -/
abbrev UUID := Nat

/-- `UUIDHelpers::Nil`. -/
def nilUUID : UUID := 0

/-- `NodeShard`: a node's identity and a shard. -/
abbrev NodeShard := String × Int

/-- `DatabaseTable`. -/
abbrev DatabaseTable := String × String

/-- `DatabaseTableShard`. -/
abbrev DatabaseTableShard := String × (String × Int)

/-- The fields of `CatalogService::Table` the indexes read. -/
structure Table where
  /-- `node_identity`. -/
  nodeIdentity : String
  /-- `database`. -/
  database : String
  /-- `name`. -/
  name : String
  /-- `uuid`. -/
  uuid : UUID
  /-- `shard`. -/
  shard : Int
  deriving DecidableEq, Repr

/-- `(database, name)` of a table. -/
def Table.databaseTable (t : Table) : DatabaseTable := (t.database, t.name)

/-- `(node_identity, shard)` of a table. -/
def Table.nodeShard (t : Table) : NodeShard := (t.nodeIdentity, t.shard)

/-- The key `buildCatalog` files a table under: `(database, (name, shard))`. -/
def Table.key (t : Table) : DatabaseTableShard := (t.database, (t.name, t.shard))

/-- A `Node`: its identity, host and TCP port. -/
structure Node where
  /-- `identity`. -/
  identity : String
  /-- `host`. -/
  host : String
  /-- `tcp_port` (`-1` where not given). -/
  tcpPort : Int
  deriving DecidableEq, Repr

/-- `TableContainerPerNode`. -/
abbrev TableContainerPerNode := AList fun _ : DatabaseTableShard => Table

/-- `TableContainerByNodeShard`. -/
abbrev TableContainerByNodeShard := AList fun _ : NodeShard => Table

/-- The indexes of `CatalogService`. -/
structure CatalogState where
  /-- `indexed_by_name`. -/
  indexedByName : DatabaseTable → Option TableContainerByNodeShard
  /-- `indexed_by_node`. -/
  indexedByNode : String → Option TableContainerPerNode
  /-- `table_nodes`. -/
  tableNodes : String → Option Node
  /-- `indexed_by_id`. -/
  indexedById : UUID → Option Table

/-- The indexes of a new `CatalogService`: all empty. -/
def CatalogState.empty : CatalogState := ⟨fun _ => none, fun _ => none, fun _ => none, fun _ => none⟩

/-- `indexed_by_name[(database, table)][(node, shard)]`, where both are there. -/
def CatalogState.lookupName (s : CatalogState) (dt : DatabaseTable) (ns : NodeShard) : Option Table :=
  (s.indexedByName dt).bind fun inner => inner.lookup ns

/-- Why a call does not return. -/
inductive CatalogFailure where
  /-- An `assert` of a debug build, with its condition as written. -/
  | assertionFailed (condition : String)
  /-- `iter_by_name->second` with `iter_by_name == indexed_by_name.end()`: undefined. -/
  | endIterator
  deriving DecidableEq, Repr

/-- `assert(condition)`, for the calls of `CatalogService`. -/
def assert (b : Build) (condition : Bool) (text : String) : Except CatalogFailure Unit :=
  match b with
  | .debug => if condition then pure () else throw (.assertionFailed text)
  | .release => pure ()

/-! ### The loop bodies -/

/-- A table that goes away: out of its inner map of `indexed_by_name`, which
goes once empty, and out of `indexed_by_id`. -/
def removeTable (b : Build) (s : CatalogState) (t : Table) : Except CatalogFailure CatalogState :=
  match s.indexedByName t.databaseTable with
  | none => do
    assert b false "iter_by_name != indexed_by_name.end()"
    throw .endIterator
  | some inner => do
    assert b (decide (t.nodeShard ∈ inner)) "removed == 1"
    let inner := inner.erase t.nodeShard
    let indexedByName := Function.update s.indexedByName t.databaseTable
      (if inner.entries = [] then none else some inner)
    assert b (s.indexedById t.uuid).isSome "removed == 1"
    pure { s with indexedByName, indexedById := Function.update s.indexedById t.uuid none }

/-- A table of a new node: `emplace` into `indexed_by_name` (which keeps an
entry already there), and into `indexed_by_id`. -/
def addNewTable (b : Build) (s : CatalogState) (t : Table) : Except CatalogFailure CatalogState := do
  assert b (t.uuid != nilUUID) "p.second->uuid != UUIDHelpers::Nil"
  let inner := (s.indexedByName t.databaseTable).getD ∅
  let inner := if t.nodeShard ∈ inner then inner else inner.insert t.nodeShard t
  assert b (s.indexedById t.uuid).isNone "!indexed_by_id.contains(p.second->uuid)"
  pure { s with
    indexedByName := Function.update s.indexedByName t.databaseTable (some inner)
    indexedById := Function.update s.indexedById t.uuid (some t) }

/-- The uuid of the table a new one overrides, where it differs
(`UUIDHelpers::Nil` for none). -/
def overriddenUUID (inner : TableContainerByNodeShard) (t : Table) : UUID :=
  match inner.lookup t.nodeShard with
  | some old => if old.uuid ≠ t.uuid then old.uuid else nilUUID
  | none => nilUUID

/-- A table of a node's new snapshot: added to `indexed_by_name`, or put in
place of the table there (`insert_or_assign`); a uuid it replaces leaves
`indexed_by_id`. -/
def mergeTable (b : Build) (s : CatalogState) (t : Table) : Except CatalogFailure CatalogState := do
  let (inner, uuid) := match s.indexedByName t.databaseTable with
    | none => (∅, nilUUID)
    | some inner => (inner, overriddenUUID inner t)
  let indexedByName := Function.update s.indexedByName t.databaseTable (some (inner.insert t.nodeShard t))
  let indexedById ← if uuid ≠ nilUUID then do
      assert b (s.indexedById uuid).isSome "removed"
      assert b (s.indexedById uuid).isSome "removed == 1"
      pure (Function.update s.indexedById uuid none)
    else pure s.indexedById
  pure { s with indexedByName, indexedById := Function.update indexedById t.uuid (some t) }

/-! ### The calls -/

/-- `deleteCatalogForNode(node)`: every table of the node goes; the node's
entry of `indexed_by_node` is left empty. -/
def deleteCatalogForNode (b : Build) (node : Node) (s : CatalogState) : Except CatalogFailure CatalogState :=
  match s.indexedByNode node.identity with
  | none => pure s
  | some tables => do
    let s ← tables.entries.foldlM (fun s p => removeTable b s p.2) s
    pure { s with indexedByNode := Function.update s.indexedByNode node.identity (some ∅) }

/-- `mergeCatalog(node, snapshot)`. -/
def mergeCatalog (b : Build) (node : Node) (snapshot : TableContainerPerNode) (s : CatalogState) :
    Except CatalogFailure CatalogState :=
  if snapshot.entries = [] then deleteCatalogForNode b node s
  else
    match s.indexedByNode node.identity with
    | none => do
      let s ← snapshot.entries.foldlM (fun s p => addNewTable b s p.2) s
      let s := { s with indexedByNode := Function.update s.indexedByNode node.identity (some snapshot) }
      -- `table_nodes.emplace`: a node already there stays
      assert b (s.tableNodes node.identity).isNone "res.second"
      pure { s with
        tableNodes := if (s.tableNodes node.identity).isSome then s.tableNodes
          else Function.update s.tableNodes node.identity (some node) }
    | some tables => do
      let s := { s with tableNodes := Function.update s.tableNodes node.identity (some node) }
      let s ← tables.entries.foldlM (fun s p => if p.1 ∈ snapshot then pure s else removeTable b s p.2) s
      let s ← snapshot.entries.foldlM (fun s p => mergeTable b s p.2) s
      pure { s with indexedByNode := Function.update s.indexedByNode node.identity (some snapshot) }

/-- The calls that change the indexes, in the order they take `catalog_rwlock`. -/
inductive Event where
  /-- `mergeCatalog(node, snapshot)`. -/
  | mergeCatalog (node : Node) (snapshot : TableContainerPerNode)
  /-- `deleteCatalogForNode(node)`. -/
  | deleteCatalogForNode (node : Node)

/-- One call. -/
def step (b : Build) (s : CatalogState) : Event → Except CatalogFailure CatalogState
  | .mergeCatalog node snapshot => mergeCatalog b node snapshot s
  | .deleteCatalogForNode node => deleteCatalogForNode b node s

/-- A sequence of calls. -/
def run (b : Build) (s : CatalogState) (es : List Event) : Except CatalogFailure CatalogState :=
  es.foldlM (step b) s

end Daisy.DistributedMetadata
