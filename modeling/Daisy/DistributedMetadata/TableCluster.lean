import Daisy.DistributedMetadata.CatalogService
import Daisy.Interpreters.Cluster
import Daisy.Library.Grouping
import Daisy.Storages.DistributedMergeTree.Sharding

/-!
# The query cluster of a table

`CatalogService::tableCluster(database, table, replication_factor, shards)`
makes the `Cluster` a query of a `DistributedMergeTree` table is sent to: the
copies of the table (`findTableByName`) are grouped by shard id in an
`std::unordered_map<Int32, TablePtrs> by_shard`, each group becomes the list
of the `host:tcp_port` addresses of its nodes, and these lists, in the order
the map iterates, are the shards of a new `Cluster`, cached in
`table_clusters`. A query that skips unused shards then takes the shards at
the positions `skipUnusedShards` gives as shard ids
(`getClusterWithMultipleShards`).

## The model

The catalog is `CatalogState`; `findTableByName` lists the copies in the order
the inner map of `indexed_by_name` iterates them. The order `by_shard`
iterates in is a parameter, an `IterationOrder`. `replication_factor` and
`shards` are read by the warnings only, which are not modelled, nor the locks.
`table_clusters` is a function, only looked up and set.

## What is proved

* `tableCluster_shards`: on a cache miss, the cluster has a shard for each
  shard id of the copies, once each, in the order `by_shard` iterates them;
  the shard at position `i` is numbered `i + 1` and has the addresses of the
  known nodes of the copies of the `i`-th shard id.
* `tableCluster_byKey`: were `by_shard` iterated by increasing shard id, a
  table with the shard ids `0, …, n - 1` would get shard `j` at position `j`,
  and `getClusterWithMultipleShards S` the shards of the ids `S`.
* `tableCluster_misorders_shards`: the map iterates its keys as it likes; in
  the order `libc++` gives two shard ids met as `0, 1`, shard `1` is at
  position `0`, so a query for shard id `0` goes to the node of shard `1`.
-/

namespace Daisy.DistributedMetadata

open Daisy.Library (IterationOrder groupByKey groupByKey_eq groupsOf keys_groupsOf)
open Daisy.Interpreters (Cluster getShard_ofNames getClusterWithMultipleShards_ofNames)

/-- `findTableByName(database, table)`: the copies of a table, in the order
its inner map of `indexed_by_name` iterates them. -/
def findTableByName (s : CatalogState) (database table : String) : List Table :=
  match s.indexedByName (database, table) with
  | some inner => inner.entries.map fun p => p.2
  | none => []

/-- The address of a node in a table's cluster: `host + ":" + std::to_string(tcp_port)`. -/
def Node.hostPort (node : Node) : String := node.host ++ ":" ++ toString node.tcpPort

/-- `replica_hosts`: the addresses of the nodes of the copies of one shard.
A copy whose node `table_nodes` does not know is skipped (`LOG_ERROR`). -/
def replicaHosts (s : CatalogState) (replicas : List Table) : List String :=
  replicas.filterMap fun t => (s.tableNodes t.nodeIdentity).map Node.hostPort

/-- `table_clusters`: the clusters made so far. -/
abbrev TableClusters := DatabaseTable → Option Cluster

/-- `tableCluster(database, table, replication_factor, shards)`, with
`by_shard` iterated in the order `ord`: the cluster and the new
`table_clusters`; `nullptr` is `none`. -/
def tableCluster (ord : IterationOrder Int (List Table)) (s : CatalogState) (tableClusters : TableClusters)
    (database table : String) : Option Cluster × TableClusters :=
  match tableClusters (database, table) with
  | some cluster => (some cluster, tableClusters)
  | none =>
    let remoteTables := findTableByName s database table
    if remoteTables = [] then (none, tableClusters)
    else
      let byShard := groupByKey Table.shard remoteTables
      let hostPorts := (ord.order byShard).map fun shardReplicas => replicaHosts s shardReplicas.2
      let tableCluster := Cluster.ofNames hostPorts
      (some tableCluster, Function.update tableClusters (database, table) (some tableCluster))

/-! ### The shards in the order `by_shard` iterates them -/

section Shards

variable (ord : IterationOrder Int (List Table)) (s : CatalogState)

/-- The shard ids of the copies `remoteTables`, in the order `by_shard` iterates them. -/
def shardOrder (remoteTables : List Table) : List Int :=
  (ord.order (groupByKey Table.shard remoteTables)).map Prod.fst

/-- The addresses of the known nodes of the copies of shard `k`. -/
def shardHosts (remoteTables : List Table) (k : Int) : List String :=
  replicaHosts s (remoteTables.filter fun t => t.shard = k)

variable (remoteTables : List Table)

/-- Each shard id of the copies comes once in `shardOrder`. -/
theorem shardOrder_spec :
    (shardOrder ord remoteTables).Nodup ∧
      ∀ k, k ∈ shardOrder ord remoteTables ↔ ∃ t ∈ remoteTables, t.shard = k := by
  obtain ⟨ks, hnodup, hmem, heq⟩ := groupByKey_eq Table.shard remoteTables
  have hperm : (shardOrder ord remoteTables).Perm ks := by
    have h := ord.keys_perm (groupsOf Table.shard remoteTables ks)
    rw [keys_groupsOf, ← heq] at h
    exact h
  exact ⟨hperm.nodup_iff.mpr hnodup, fun k => by rw [hperm.mem_iff, hmem]⟩

/-- The replica lists of `tableCluster` are the addresses of each shard, in `shardOrder`. -/
theorem hostPorts_eq :
    (ord.order (groupByKey Table.shard remoteTables)).map (fun g => replicaHosts s g.2) =
      (shardOrder ord remoteTables).map (shardHosts s remoteTables) := by
  obtain ⟨ks, -, -, heq⟩ := groupByKey_eq Table.shard remoteTables
  rw [shardOrder, heq]
  exact ord.map_order_groupsOf remoteTables ks (replicaHosts s)

variable (tableClusters : TableClusters) {database table : String}

/-- On a cache miss for a table with copies, `tableCluster` makes the cluster
of the addresses of each shard, in `shardOrder`, and caches it. -/
theorem tableCluster_of_miss (hmiss : tableClusters (database, table) = none)
    (hremote : findTableByName s database table ≠ []) :
    tableCluster ord s tableClusters database table =
      (some (Cluster.ofNames ((shardOrder ord (findTableByName s database table)).map
          (shardHosts s (findTableByName s database table)))),
        Function.update tableClusters (database, table)
          (some (Cluster.ofNames ((shardOrder ord (findTableByName s database table)).map
            (shardHosts s (findTableByName s database table)))))) := by
  simp only [tableCluster, hmiss, hremote, if_false, hostPorts_eq]

/-- **The shards of a table's query cluster.** On a cache miss for a table
with copies, `tableCluster` makes and caches a cluster with one shard for
each shard id of the copies, once each, in the order `by_shard` iterates
them: the shard at position `i` is numbered `i + 1` and has the addresses of
the known nodes of the copies of the `i`-th shard id. -/
theorem tableCluster_shards (hmiss : tableClusters (database, table) = none)
    (hremote : findTableByName s database table ≠ []) :
    let remoteTables := findTableByName s database table
    let shardIds := shardOrder ord remoteTables
    ∃ c, tableCluster ord s tableClusters database table =
        (some c, Function.update tableClusters (database, table) (some c)) ∧
      shardIds.Nodup ∧ (∀ k, k ∈ shardIds ↔ ∃ t ∈ remoteTables, t.shard = k) ∧
      c.shardsInfo.length = shardIds.length ∧
      ∀ i (hi : i < shardIds.length), ∃ addresses, c.getShard i = .ok (⟨i + 1⟩, addresses) ∧
        Interpreters.hostPorts addresses = shardHosts s remoteTables shardIds[i] := by
  intro remoteTables shardIds
  obtain ⟨hnodup, hmem⟩ := shardOrder_spec ord remoteTables
  refine ⟨_, tableCluster_of_miss _ s tableClusters hmiss hremote, hnodup, hmem, ?_, fun i hi => ?_⟩
  · rw [Interpreters.length_ofNames_shardsInfo, List.length_map]
  · obtain ⟨addresses, hshard, hhost, -⟩ := getShard_ofNames (shardIds.map (shardHosts s remoteTables))
      (j := i) (by rw [List.length_map]; exact hi)
    exact ⟨addresses, hshard, by rw [hhost, List.getElem_map]⟩

/-- Node `n1` sends its copy of `db.t`, of shard `1`, then node `n0` its copy
of shard `0`. `by_shard` meets the shard ids as `0, 1`, and `libc++`
iterates two such keys as `1, 0` (each went into an empty bucket and was put
first): the cluster has the address of `n1` at position `0`. A query whose
key `0` selects shard id `0` then goes to `n1`, which holds shard `1` only. -/
theorem tableCluster_misorders_shards :
    let n0 : Node := ⟨"n0", "h0", 9000⟩
    let n1 : Node := ⟨"n1", "h1", 9000⟩
    let es : List Event := [
      .mergeCatalog n1 ((∅ : TableContainerPerNode).insert ("db", "t", 1) ⟨"n1", "db", "t", 1, 1⟩),
      .mergeCatalog n0 ((∅ : TableContainerPerNode).insert ("db", "t", 0) ⟨"n0", "db", "t", 2, 0⟩)]
    let sharding : DistributedMergeTree.Sharding := ⟨2, by decide⟩
    let key : Interpreters.Value .int32 := ⟨0, by decide, by decide⟩
    ∃ s, run .debug CatalogState.empty es = .ok s ∧
      shardHosts s (findTableByName s "db" "t") 0 = ["h0:9000"] ∧
      ∃ c, (tableCluster .lastFirst s (fun _ => none) "db" "t").1 = some c ∧
        c.addressesWithFailover.map Interpreters.hostPorts = [["h1:9000"], ["h0:9000"]] ∧
        DistributedMergeTree.skipUnusedShards sharding [.int (.const key 1)] = .ok [0] ∧
        ∃ c', c.getClusterWithMultipleShards [0] = .ok c' ∧
          c'.addressesWithFailover.map Interpreters.hostPorts = [["h1:9000"]] := by
  intro n0 n1 es sharding key
  refine ⟨_, rfl, by decide, _, rfl, by decide, rfl, _, rfl, by decide⟩

end Shards

/-! ### Were `by_shard` iterated by shard id -/

section ByKey

variable (s : CatalogState) (tableClusters : TableClusters) {database table : String} {n : Nat}

/-- The shard ids `0, …, n - 1`. -/
def shardIdRange (n : Nat) : List Int := (List.range n).map Nat.cast

theorem shardIdRange_pairwise (n : Nat) : (shardIdRange n).Pairwise (· < ·) :=
  List.pairwise_map.mpr (List.pairwise_lt_range.imp fun h => by exact_mod_cast h)

theorem mem_shardIdRange {k : Int} : k ∈ shardIdRange n ↔ 0 ≤ k ∧ k < n := by
  simp only [shardIdRange, List.mem_map, List.mem_range]
  constructor
  · rintro ⟨j, hj, rfl⟩
    omega
  · rintro ⟨h0, hn⟩
    exact ⟨k.toNat, by omega, by omega⟩

/-- By shard id, the copies of the shard ids `0, …, n - 1` come in that order. -/
theorem shardOrder_byKey {remoteTables : List Table}
    (hshards : ∀ k, (∃ t ∈ remoteTables, t.shard = k) ↔ 0 ≤ k ∧ k < n) :
    shardOrder .byKey remoteTables = shardIdRange n := by
  obtain ⟨ks, hnodup, hmem, heq⟩ := groupByKey_eq Table.shard remoteTables
  rw [shardOrder, heq]
  refine IterationOrder.keys_byKey (shardIdRange_pairwise n) (by rwa [keys_groupsOf]) fun k => ?_
  rw [keys_groupsOf, hmem, hshards, mem_shardIdRange]

/-- **The query cluster, by shard id.** Were `by_shard` iterated by shard
id, a table whose copies have the shard ids `0, …, n - 1` would get a cluster
of `n` shards with shard `j` at position `j`, numbered `j + 1`, and
`getClusterWithMultipleShards S` would take the shards of the ids `S`. -/
theorem tableCluster_byKey (hmiss : tableClusters (database, table) = none)
    (hremote : findTableByName s database table ≠ [])
    (hshards : ∀ k, (∃ t ∈ findTableByName s database table, t.shard = k) ↔ 0 ≤ k ∧ k < n) :
    let remoteTables := findTableByName s database table
    ∃ c, tableCluster .byKey s tableClusters database table =
        (some c, Function.update tableClusters (database, table) (some c)) ∧
      c.shardsInfo.length = n ∧
      (∀ j < n, ∃ addresses, c.getShard j = .ok (⟨j + 1⟩, addresses) ∧
        Interpreters.hostPorts addresses = shardHosts s remoteTables j) ∧
      ∀ S : List Nat, (∀ j ∈ S, j < n) → ∃ c', c.getClusterWithMultipleShards S = .ok c' ∧
        c'.addressesWithFailover.map Interpreters.hostPorts = S.map fun j : Nat => shardHosts s remoteTables j := by
  intro remoteTables
  have horder := shardOrder_byKey hshards
  have hlength : (shardIdRange n).length = n := by rw [shardIdRange, List.length_map, List.length_range]
  obtain ⟨c, hc, -, -, hinfo, hpos⟩ := tableCluster_shards .byKey s tableClusters hmiss hremote
  refine ⟨c, hc, by rw [hinfo, horder, hlength], fun j hj => ?_, fun S hS => ?_⟩
  · obtain ⟨addresses, hshard, hhost⟩ := hpos j (by rw [horder, hlength]; exact hj)
    refine ⟨addresses, hshard, ?_⟩
    simp only [hhost, horder, shardIdRange, List.getElem_map, List.getElem_range]
    rfl
  · -- the cluster is `Cluster.ofNames` of the addresses of the shard ids `0, …, n - 1`
    have hcluster : c = Cluster.ofNames ((shardIdRange n).map (shardHosts s remoteTables)) := by
      rw [tableCluster_of_miss _ s tableClusters hmiss hremote, horder] at hc
      exact (Prod.mk.inj hc).1 |> Option.some.inj |>.symm
    obtain ⟨c', hc', hhosts⟩ := getClusterWithMultipleShards_ofNames
      ((shardIdRange n).map (shardHosts s remoteTables)) S (by simpa [shardIdRange] using hS)
    refine ⟨c', hcluster ▸ hc', hhosts.trans (List.map_congr_left fun j hj => ?_)⟩
    simp [shardIdRange, hS j hj]

end ByKey

end Daisy.DistributedMetadata
