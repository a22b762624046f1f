import Mathlib.Data.List.Sort
import Mathlib.Data.List.Infix

/-!
# `DiskStrategy::qualifiedNodes`

`DistributedMetadata/PlacementStrategy.cpp`: where the replicas of a new
table go. `PlacementService::place` asks the strategy for `requested_nodes`
nodes of the cluster's metrics. `DiskStrategy` keeps the nodes that may take
a table (no `search` or `ingest` role, not staled, free space for the storage
policy), gives none when there are fewer than asked for, and otherwise
shuffles them, sorts them by free space, most first, then by number of
tables, fewest first, and takes the first `requested_nodes`.

## The model

A node's metrics are the fields `qualifiedNodes` reads: the node's identity
and roles, the free space of each policy (`UInt64`, compared only, so a
`Nat`), the number of tables and the staled flag. The container is the list
of its entries in the order it iterates them. `std::shuffle` with its
engine, after the unspecified order of the hash map, is any permutation: a
`Shuffle` carries the proof that it permutes. `std::sort` with the
comparator is `List.mergeSort` with the order it induces; a stable sort of
some permutation reaches every order that `std::sort` may leave equal nodes
in, so that nothing is lost by fixing it.

## What is proved

What a placement asks for is stated apart from the code: a node is
`Eligible` when its roles hold neither `search` nor `ingest` as a
substring, it is not staled and it has free space for the policy; a node is
`Better` than another when it has more free space for the policy, or as much
and fewer tables.

* `isQualified_iff`, `diskComp_iff`: the loop's test is eligibility, and the
  comparator is the order `Better`;
* `diskLE_trans`, `diskLE_total`: the comparator orders the nodes;
* `qualifiedNodes_spec`: for every container and every `k ≥ 1`, no node
  when fewer than `k` are eligible, and otherwise `k` of the eligible nodes,
  distinct where the container's identities are, sorted by `Better`, none of
  the left-out eligible nodes better than a chosen one.
-/

namespace Daisy.DistributedMetadata

/-- `NodeMetrics`, with what `qualifiedNodes` reads of it. -/
structure NodeMetrics where
  /-- `node.identity`. -/
  identity : String
  /-- `node.roles`. -/
  roles : String
  /-- `disk_space`: the free space of each storage policy. -/
  diskSpace : List (String × Nat)
  /-- `num_of_tables`. -/
  numOfTables : Int
  /-- `staled`. -/
  staled : Bool
  deriving DecidableEq, Repr

/-- `PlacementStrategy::PlacementRequest`. -/
structure PlacementRequest where
  /-- `requested_nodes`. -/
  requestedNodes : Nat
  /-- `storage_policy`. -/
  storagePolicy : String
  deriving DecidableEq, Repr

/-- A shuffle of a list: any permutation of it. -/
structure Shuffle (α : Type) where
  run : List α → List α
  perm : ∀ l, (run l).Perm l

/-- `text.find(word) != String::npos`. -/
def containsText (word : List Char) : List Char → Bool
  | [] => word.isEmpty
  | c :: text => word.isPrefixOf (c :: text) || containsText word text

/-- Whether `qualifiedNodes` keeps a node for the policy: no `search` or
`ingest` role, not staled, and free space for the policy. -/
def isQualified (policy : String) (metrics : NodeMetrics) : Bool :=
  !(containsText "search".toList metrics.roles.toList || containsText "ingest".toList metrics.roles.toList) &&
    match metrics.diskSpace.lookup policy with
    | some space => !metrics.staled && space > 0
    | none => false

/-- The loop of `qualifiedNodes` over the container: the nodes it keeps. -/
def eligibleNodes (policy : String) (nodes : List NodeMetrics) : List NodeMetrics :=
  nodes.filter (isQualified policy)

theorem eligibleNodes_sublist (policy : String) (nodes : List NodeMetrics) : (eligibleNodes policy nodes).Sublist nodes :=
  List.filter_sublist

/-- `disk_space[policy]`. -/
def diskSpaceOf (policy : String) (metrics : NodeMetrics) : Nat :=
  (metrics.diskSpace.lookup policy).getD 0

/-- The comparator of the sort: whether `lhs` goes before `rhs`, for more
free space, then for fewer tables. -/
def diskComp (policy : String) (lhs rhs : NodeMetrics) : Bool :=
  if diskSpaceOf policy lhs = diskSpaceOf policy rhs then lhs.numOfTables < rhs.numOfTables
  else diskSpaceOf policy lhs > diskSpaceOf policy rhs

/-- The order the comparator sorts by: `rhs` does not go before `lhs`. -/
def diskLE (policy : String) (lhs rhs : NodeMetrics) : Bool := !diskComp policy rhs lhs

/-- `DiskStrategy::qualifiedNodes(nodes_metrics, request)`. -/
def qualifiedNodes (shuffle : Shuffle NodeMetrics) (nodes : List NodeMetrics) (request : PlacementRequest) :
    List NodeMetrics :=
  if request.requestedNodes = 0 then []
  else
    let qualified := eligibleNodes request.storagePolicy nodes
    if qualified.length < request.requestedNodes then []
    else ((shuffle.run qualified).mergeSort (diskLE request.storagePolicy)).take request.requestedNodes

/-! ### What the placement asks for -/

/-- A node that may take a table of the policy: no `search` and no `ingest`
in its roles, not staled, and free space for the policy. -/
def Eligible (policy : String) (metrics : NodeMetrics) : Prop :=
  ¬ "search".toList <:+: metrics.roles.toList ∧ ¬ "ingest".toList <:+: metrics.roles.toList ∧
    metrics.staled = false ∧ ∃ space, metrics.diskSpace.lookup policy = some space ∧ 0 < space

/-- `a` is better placed than `b`: more free space for the policy, or as
much and fewer tables. A policy a node has no space entry for counts as no
space. -/
def Better (policy : String) (a b : NodeMetrics) : Prop :=
  (b.diskSpace.lookup policy).getD 0 < (a.diskSpace.lookup policy).getD 0 ∨
    (a.diskSpace.lookup policy).getD 0 = (b.diskSpace.lookup policy).getD 0 ∧ a.numOfTables < b.numOfTables

/-- `find` looks for the word at every position of the text. -/
theorem containsText_iff (word : List Char) : ∀ text, containsText word text = true ↔ word <:+: text
  | [] => by cases word <;> simp [containsText]
  | c :: text => by
    rw [containsText, Bool.or_eq_true, containsText_iff word text, List.isPrefixOf_iff_prefix, List.infix_cons_iff]

theorem isQualified_iff (policy : String) (metrics : NodeMetrics) :
    isQualified policy metrics = true ↔ Eligible policy metrics := by
  unfold isQualified Eligible
  rw [← containsText_iff, ← containsText_iff]
  cases metrics.diskSpace.lookup policy <;> simp [and_assoc]

instance (policy : String) : DecidablePred (Eligible policy) := fun metrics =>
  decidable_of_iff _ (isQualified_iff policy metrics)

/-- The loop keeps the eligible nodes, in the container's order. -/
theorem eligibleNodes_eq (policy : String) (nodes : List NodeMetrics) :
    eligibleNodes policy nodes = nodes.filter fun metrics => decide (Eligible policy metrics) := by
  unfold eligibleNodes
  congr 1
  funext metrics
  rw [Bool.eq_iff_iff, isQualified_iff, decide_eq_true_iff]

theorem diskComp_iff (policy : String) (a b : NodeMetrics) : diskComp policy a b = true ↔ Better policy a b := by
  unfold diskComp Better diskSpaceOf
  split_ifs with h <;> simp [h]

/-! ### The order -/

theorem diskLE_total (policy : String) (a b : NodeMetrics) : (diskLE policy a b || diskLE policy b a) = true := by
  unfold diskLE diskComp
  split_ifs <;> simp_all <;> omega

theorem diskLE_trans (policy : String) (a b c : NodeMetrics) (hab : diskLE policy a b = true)
    (hbc : diskLE policy b c = true) : diskLE policy a c = true := by
  unfold diskLE diskComp at *
  split_ifs at * <;> simp_all <;> omega

/-- The order puts no node after one it is better placed than: `diskLE a b`
says that `b` is not better placed than `a`. -/
theorem not_better_of_diskLE {policy : String} {a b : NodeMetrics} (hab : diskLE policy a b = true) :
    ¬ Better policy b a := by
  rw [← diskComp_iff]
  simpa [diskLE] using hab

/-! ### The nodes chosen -/

/-- **The best `k` eligible nodes.** For every container and every `k ≥ 1`:
fewer than `k` eligible nodes give none; otherwise the result is `k` of the
eligible nodes, the rest `rest` of them left out, no chosen node better
than one chosen before it, and no node left out better than a node chosen. -/
theorem qualifiedNodes_spec (shuffle : Shuffle NodeMetrics) (nodes : List NodeMetrics) (request : PlacementRequest)
    (hk : 0 < request.requestedNodes) :
    ((nodes.filter fun m => decide (Eligible request.storagePolicy m)).length < request.requestedNodes →
        qualifiedNodes shuffle nodes request = []) ∧
      (request.requestedNodes ≤ (nodes.filter fun m => decide (Eligible request.storagePolicy m)).length →
        (qualifiedNodes shuffle nodes request).length = request.requestedNodes ∧
        ((nodes.map NodeMetrics.identity).Nodup → ((qualifiedNodes shuffle nodes request).map NodeMetrics.identity).Nodup) ∧
        ∃ rest, (qualifiedNodes shuffle nodes request ++ rest).Perm
            (nodes.filter fun m => decide (Eligible request.storagePolicy m)) ∧
          (qualifiedNodes shuffle nodes request).Pairwise (fun a b => ¬ Better request.storagePolicy b a) ∧
          ∀ y ∈ qualifiedNodes shuffle nodes request, ∀ x ∈ rest, ¬ Better request.storagePolicy x y) := by
  rw [← eligibleNodes_eq]
  have hk' : request.requestedNodes ≠ 0 := Nat.pos_iff_ne_zero.mp hk
  refine ⟨fun hlt => by simp [qualifiedNodes, hk', hlt], fun hle => ?_⟩
  -- the sorted eligible nodes, of which the first `k` are chosen
  set sorted := (shuffle.run (eligibleNodes request.storagePolicy nodes)).mergeSort (diskLE request.storagePolicy)
    with hsorted
  have hperm : sorted.Perm (eligibleNodes request.storagePolicy nodes) :=
    (List.mergeSort_perm _ _).trans (shuffle.perm _)
  have hpairwise : sorted.Pairwise fun a b => diskLE request.storagePolicy a b = true :=
    List.pairwise_mergeSort (diskLE_trans _) (diskLE_total _) _
  have hchosen : qualifiedNodes shuffle nodes request = sorted.take request.requestedNodes := by
    simp [qualifiedNodes, hk', Nat.not_lt.mpr hle, hsorted]
  rw [hchosen]
  -- the chosen nodes and the left-out ones split the sorted list
  have hsplit : (sorted.take request.requestedNodes ++ sorted.drop request.requestedNodes).Pairwise
      fun a b => diskLE request.storagePolicy a b = true := by
    rw [List.take_append_drop]
    exact hpairwise
  obtain ⟨htake, -, hacross⟩ := List.pairwise_append.mp hsplit
  refine ⟨by simp [hperm.length_eq, hle], fun hnodup => ?_, sorted.drop request.requestedNodes, ?_, ?_, ?_⟩
  · -- the entries of the container have distinct identities, and the chosen are some of them
    have heligible : ((eligibleNodes request.storagePolicy nodes).map NodeMetrics.identity).Nodup :=
      hnodup.sublist ((eligibleNodes_sublist _ _).map _)
    have hdistinct : (sorted.map NodeMetrics.identity).Nodup := (hperm.map _).nodup_iff.mpr heligible
    exact hdistinct.sublist ((List.take_sublist _ _).map _)
  · rw [List.take_append_drop]
    exact hperm
  · exact htake.imp not_better_of_diskLE
  · intro y hy x hx
    exact not_better_of_diskLE (hacross y hy x hx)

/-- Two replicas of a `default` table over three nodes, one of them a
`search` node, with the shuffle that keeps the order. -/
theorem qualifiedNodes_spec_two :
    let shuffle : Shuffle NodeMetrics := ⟨id, fun l => List.Perm.refl l⟩
    let nodes : List NodeMetrics :=
      [⟨"n1", "", [("default", 10)], 3, false⟩, ⟨"n2", "search", [("default", 50)], 0, false⟩,
        ⟨"n3", "", [("default", 20)], 5, false⟩]
    let request : PlacementRequest := ⟨2, "default"⟩
    0 < request.requestedNodes ∧
      ((nodes.filter fun m => decide (Eligible request.storagePolicy m)).length < request.requestedNodes →
          qualifiedNodes shuffle nodes request = []) ∧
        (request.requestedNodes ≤ (nodes.filter fun m => decide (Eligible request.storagePolicy m)).length →
          (qualifiedNodes shuffle nodes request).length = request.requestedNodes ∧
          ((nodes.map NodeMetrics.identity).Nodup →
            ((qualifiedNodes shuffle nodes request).map NodeMetrics.identity).Nodup) ∧
          ∃ rest, (qualifiedNodes shuffle nodes request ++ rest).Perm
              (nodes.filter fun m => decide (Eligible request.storagePolicy m)) ∧
            (qualifiedNodes shuffle nodes request).Pairwise (fun a b => ¬ Better request.storagePolicy b a) ∧
            ∀ y ∈ qualifiedNodes shuffle nodes request, ∀ x ∈ rest, ¬ Better request.storagePolicy x y) :=
  ⟨by decide, qualifiedNodes_spec _ _ _ (by decide)⟩

end Daisy.DistributedMetadata
