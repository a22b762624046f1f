import Mathlib.Data.List.Basic

/-!
# `Cluster`, as a table's query cluster builds it

`Cluster(settings, names, …)` makes one shard of each list of replica names,
numbered from `1` in the order of the lists; `getClusterWithMultipleShards`
keeps the shards at the given positions.

## The model

A replica is its `host:port` name and the numbers of its shard and of
itself in the shard; a shard's `ShardInfo` is its number. The connection
pools, weights and credentials are not read by what is modelled here, and
`parseAddress` (which splits the name) is not modelled: an address is its name.
`shards_info.at(index)` throws out of range.

## What is proved

* `getShard_ofNames`: shard `j` of `Cluster(names)` is numbered `j + 1` and
  has the replicas `names[j]`.
* `getClusterWithMultipleShards_ofNames`: the subcluster of positions `S`
  has, in order, the shards at those positions.
-/

namespace Daisy.Interpreters

/-- A replica of a shard: `Cluster::Address`. -/
structure Address where
  /-- The `host:port` it was made from. -/
  hostPort : String
  /-- `shard_index`: the number of its shard, from `1`. -/
  shardIndex : Nat
  /-- `replica_index`: its number in the shard, from `1`. -/
  replicaIndex : Nat
  deriving DecidableEq, Repr

/-- `Cluster::ShardInfo`: the number of a shard, from `1`. -/
structure ShardInfo where
  /-- `shard_num`. -/
  shardNum : Nat
  deriving DecidableEq, Repr

/-- A `Cluster`: the replicas of each shard and the shards' infos. -/
structure Cluster where
  /-- `addresses_with_failover`. -/
  addressesWithFailover : List (List Address)
  /-- `shards_info`. -/
  shardsInfo : List ShardInfo
  deriving DecidableEq, Repr

/-- Why a `Cluster` call throws. -/
inductive ClusterError where
  /-- `std::vector::at` out of range. -/
  | outOfRange (index : Nat)
  deriving DecidableEq, Repr

/-- `Cluster(settings, names, username, password, clickhouse_port, …)`: shard
`current_shard_num` of each list of names, counted from `1`. -/
def Cluster.ofNames (names : List (List String)) : Cluster where
  addressesWithFailover := names.zipIdx.map fun (shard, i) => shard.zipIdx.map fun (replica, k) => ⟨replica, i + 1, k + 1⟩
  shardsInfo := names.zipIdx.map fun (_, i) => ⟨i + 1⟩

/-- A shard of a cluster: its info and its replicas. -/
def Cluster.getShard (c : Cluster) (index : Nat) : Except ClusterError (ShardInfo × List Address) :=
  match c.shardsInfo[index]?, c.addressesWithFailover[index]? with
  | some info, some addresses => pure (info, addresses)
  | _, _ => throw (.outOfRange index)

/-- `Cluster(SubclusterTag{}, from, indices)`, as `getClusterWithMultipleShards`
makes it: the shards at `indices`, in their order. -/
def Cluster.getClusterWithMultipleShards (c : Cluster) (indices : List Nat) : Except ClusterError Cluster := do
  let shards ← indices.mapM c.getShard
  pure ⟨shards.map Prod.snd, shards.map Prod.fst⟩

/-- The replica names of a shard. -/
def hostPorts (addresses : List Address) : List String := addresses.map Address.hostPort

theorem length_ofNames_shardsInfo (names : List (List String)) :
    (Cluster.ofNames names).shardsInfo.length = names.length := by
  simp [Cluster.ofNames]

/-- Shard `j` of `Cluster(names)` is numbered `j + 1`, and its replicas are
`names[j]`, numbered from `1`. -/
theorem getShard_ofNames (names : List (List String)) {j : Nat} (hj : j < names.length) :
    ∃ addresses, (Cluster.ofNames names).getShard j = .ok (⟨j + 1⟩, addresses) ∧
      hostPorts addresses = names[j] ∧ ∀ a ∈ addresses, a.shardIndex = j + 1 := by
  refine ⟨names[j].zipIdx.map fun (replica, k) => ⟨replica, j + 1, k + 1⟩, ?_, ?_, ?_⟩
  · simp [Cluster.getShard, Cluster.ofNames, hj]
    rfl
  · simp [hostPorts, Function.comp_def]
  · intro a ha
    obtain ⟨⟨replica, k⟩, -, rfl⟩ := List.mem_map.mp ha
    rfl

/-- The subcluster of positions `S` of `Cluster(names)` has, in the order of
`S`, the replicas `names[j]` of each position `j`. -/
theorem getClusterWithMultipleShards_ofNames (names : List (List String)) (S : List Nat)
    (hS : ∀ j ∈ S, j < names.length) :
    ∃ c, (Cluster.ofNames names).getClusterWithMultipleShards S = .ok c ∧
      c.addressesWithFailover.map hostPorts = S.map fun j => names.getD j [] := by
  induction S with
  | nil => exact ⟨⟨[], []⟩, rfl, rfl⟩
  | cons j S ih =>
    obtain ⟨c, hc, hnames⟩ := ih fun j' hj' => hS j' (List.mem_cons_of_mem j hj')
    have hj := hS j List.mem_cons_self
    obtain ⟨addresses, hshard, hhost, -⟩ := getShard_ofNames names hj
    simp only [Cluster.getClusterWithMultipleShards, bind, Except.bind, pure, Except.pure] at hc
    split at hc
    · cases hc
    · rename_i shards hshards
      cases hc
      refine ⟨⟨addresses :: shards.map Prod.snd, ⟨j + 1⟩ :: shards.map Prod.fst⟩, ?_, ?_⟩
      · simp [Cluster.getClusterWithMultipleShards, List.mapM_cons, hshard, hshards, bind, Except.bind, pure,
          Except.pure]
      · show hostPorts addresses :: (shards.map Prod.snd).map hostPorts =
          names.getD j [] :: S.map fun j => names.getD j []
        rw [← List.getElem_eq_getD (h := hj) [], ← hhost]
        exact congrArg _ hnames

end Daisy.Interpreters
