import Daisy.DistributedMetadata.CatalogIndexes

/-!
# The indexes of `CatalogService` stay consistent

`indexed_by_node` is what the catalog knows: for each node, the tables it
last sent. `indexed_by_name` and `indexed_by_id` are meant to be two other
views of the same tables, kept in step by every `mergeCatalog` and
`deleteCatalogForNode`.

## The model

A table is held (`Held`) where it is in its node's entry of
`indexed_by_node`, under its key. `Consistent s`: every entry of
`indexed_by_node` is a node's table under its own key, with a uuid; the two
other indexes file exactly the held tables (`Indexes`); `table_nodes` knows
the nodes `indexed_by_node` knows. What a run is meant to leave in
`indexed_by_node` is `lastSnapshots`: for each node the last snapshot merged
for it, emptied by a delete.

A run's snapshots are as `buildCatalog` makes them (each table is the
node's, under its own key), and a uuid names one table throughout the run,
that is one node and one key (`RunOk`).

## What is proved

* `deleteCatalogForNode_spec`, `mergeCatalog_known`, `mergeCatalog_new`: each
  call keeps `Consistent`, returns in either build, and leaves in
  `indexed_by_node` what `lastSnapshot` says.
* `step_spec` and the run theorem: from an empty catalog, every run with
  `RunOk` returns, and leaves the indexes consistent and `indexed_by_node`
  as `lastSnapshots`.
-/

namespace Daisy.DistributedMetadata

open Daisy.DistributedMergeTree (Build)
open Daisy.Library

/-! ### What a run is meant to do -/

/-- `indexed_by_node`. -/
abbrev NodeIndex := String → Option TableContainerPerNode

/-- The node's entry emptied, where it is there. -/
def clearNode (m : NodeIndex) (node : Node) : NodeIndex :=
  if (m node.identity).isSome then Function.update m node.identity (some ∅) else m

/-- What a call is meant to do to `indexed_by_node`: a snapshot that is not
empty becomes the node's; a delete, or an empty snapshot, empties the
node's entry. -/
def lastSnapshot (m : NodeIndex) : Event → NodeIndex
  | .mergeCatalog node snapshot =>
    if snapshot.entries = [] then clearNode m node else Function.update m node.identity (some snapshot)
  | .deleteCatalogForNode node => clearNode m node

/-- `indexed_by_node` after a run, as meant: for each node, the last snapshot
merged for it, emptied by a delete. -/
def lastSnapshots (es : List Event) : NodeIndex :=
  es.foldl lastSnapshot fun _ => none

theorem lastSnapshots_concat (es : List Event) (e : Event) :
    lastSnapshots (es ++ [e]) = lastSnapshot (lastSnapshots es) e := by
  simp [lastSnapshots]

/-- A table is held: it is in its node's entry of `indexed_by_node`, under
its key. -/
def Held (m : NodeIndex) (t : Table) : Prop :=
  ∃ tables, m t.nodeIdentity = some tables ∧ tables.lookup t.key = some t

/-- The tables a call sends: a merge's snapshot. -/
def Event.tables : Event → List Table
  | .mergeCatalog _ snapshot => snapshot.entries.map Sigma.snd
  | .deleteCatalogForNode _ => []

/-- Every entry of a node `n`'s tables is a table of `n` under its own key,
with a uuid: as `buildCatalog` makes them. -/
def NodeTables (n : String) (tables : TableContainerPerNode) : Prop :=
  ∀ p ∈ tables.entries, p.2.nodeIdentity = n ∧ p.2.key = p.1 ∧ p.2.uuid ≠ nilUUID

instance (n : String) (tables : TableContainerPerNode) : Decidable (NodeTables n tables) :=
  inferInstanceAs (Decidable (∀ p ∈ tables.entries, _))

/-- A call's snapshot is as `buildCatalog` makes it. -/
def Event.TablesOk : Event → Prop
  | .mergeCatalog node snapshot => NodeTables node.identity snapshot
  | .deleteCatalogForNode _ => True

instance : DecidablePred Event.TablesOk := fun e =>
  match e with
  | .mergeCatalog node snapshot => inferInstanceAs (Decidable (NodeTables node.identity snapshot))
  | .deleteCatalogForNode _ => inferInstanceAs (Decidable True)

/-- What a run of calls needs: its snapshots are as `buildCatalog` makes
them, and a uuid names one table throughout the run, one node and one key. -/
structure RunOk (es : List Event) : Prop where
  /-- Every snapshot is a node's tables under their keys, with uuids. -/
  tables : ∀ e ∈ es, e.TablesOk
  /-- Two tables of the run with one uuid are of one node and one key. -/
  uuid : ∀ e ∈ es, ∀ e' ∈ es, ∀ t ∈ e.tables, ∀ t' ∈ e'.tables, t.uuid = t'.uuid →
    t.nodeIdentity = t'.nodeIdentity ∧ t.key = t'.key

/-- The three indexes agree: `indexed_by_node` holds each node's tables under
their keys, with uuids; `indexed_by_name` and `indexed_by_id` file exactly
the held tables, and `indexed_by_name` has no empty inner map; `table_nodes`
knows the nodes `indexed_by_node` knows. -/
structure Consistent (s : CatalogState) : Prop where
  /-- `indexed_by_node[n]` holds tables of `n` under their keys, with uuids. -/
  byNode : ∀ n tables, s.indexedByNode n = some tables → NodeTables n tables
  /-- `indexed_by_name` and `indexed_by_id` file exactly the held tables. -/
  indexes : Indexes s (Held s.indexedByNode)
  /-- `table_nodes` has the nodes of `indexed_by_node`. -/
  tableNodes : ∀ n, (s.tableNodes n).isSome = (s.indexedByNode n).isSome

/-! ### Held tables -/

section Held

variable {m : NodeIndex} {n : String} {tables : TableContainerPerNode} {x : Table}

theorem held_update_self (hx : x.nodeIdentity = n) (tables : TableContainerPerNode) :
    Held (Function.update m n (some tables)) x ↔ tables.lookup x.key = some x := by
  subst hx
  simp [Held]

theorem held_update_ne (hx : x.nodeIdentity ≠ n) (v : Option TableContainerPerNode) :
    Held (Function.update m n v) x ↔ Held m x := by
  simp [Held, Function.update_of_ne hx]

theorem nodeIdentity_ne_of_held (hm : m n = none) (hx : Held m x) : x.nodeIdentity ≠ n := by
  rintro rfl
  obtain ⟨tables, htables, -⟩ := hx
  rw [hm] at htables
  cases htables

theorem mem_entries_of_held (hm : m n = some tables) (hx : Held m x) (hxn : x.nodeIdentity = n) :
    ⟨x.key, x⟩ ∈ tables.entries := by
  obtain ⟨tables', htables', hlookup⟩ := hx
  rw [hxn, hm, Option.some.injEq] at htables'
  subst htables'
  exact AList.mem_lookup_iff.mp hlookup

/-- Two entries of a container with one key are one entry. -/
theorem eq_of_mem_entries_of_key_eq {p q : Entry} (hp : p ∈ tables.entries) (hq : q ∈ tables.entries)
    (hkey : p.1 = q.1) : p = q := by
  have hp' : tables.lookup q.1 = some p.2 := hkey ▸ AList.mem_lookup_iff.mpr hp
  rw [AList.mem_lookup_iff.mpr hq, Option.some.injEq] at hp'
  exact Sigma.ext hkey (heq_of_eq hp'.symm)

namespace NodeTables

variable (h : NodeTables n tables)
include h

/-- A node's table is held where its entry is. -/
theorem lookup_iff : tables.lookup x.key = some x ↔ ∃ p ∈ tables.entries, x = p.2 := by
  constructor
  · intro hx
    exact ⟨⟨x.key, x⟩, AList.mem_lookup_iff.mp hx, rfl⟩
  · rintro ⟨p, hp, rfl⟩
    rw [(h p hp).2.1]
    exact AList.mem_lookup_iff.mpr hp

theorem held (hm : m n = some tables) {p : Entry} (hp : p ∈ tables.entries) : Held m p.2 := by
  obtain ⟨hn, hkey, -⟩ := h p hp
  refine ⟨tables, hn ▸ hm, ?_⟩
  rw [hkey]
  exact AList.mem_lookup_iff.mpr hp

theorem not_sameSlot (hx : x.nodeIdentity ≠ n) : ∀ p ∈ tables.entries, ¬x.SameSlot p.2 := by
  intro p hp hslot
  exact hx ((Table.sameSlot_iff.mp hslot).1.trans (h p hp).1)

theorem pairwise_ne : tables.entries.Pairwise fun p q => p.2 ≠ q.2 := by
  refine (List.nodupKeys_iff_pairwise.mp tables.nodupKeys).imp_of_mem fun {p q} hp hq hne heq => hne ?_
  rw [← (h p hp).2.1, ← (h q hq).2.1, heq]

theorem pairwise_not_sameSlot : tables.entries.Pairwise fun p q => ¬p.2.SameSlot q.2 := by
  refine (List.nodupKeys_iff_pairwise.mp tables.nodupKeys).imp_of_mem fun {p q} hp hq hne hslot => hne ?_
  rw [← (h p hp).2.1, ← (h q hq).2.1]
  exact (Table.sameSlot_iff.mp hslot).2

end NodeTables

theorem held_clearNode (node : Node) (hx : Held (clearNode m node) x) : Held m x := by
  unfold clearNode at hx
  split_ifs at hx
  · by_cases hxn : x.nodeIdentity = node.identity
    · rw [held_update_self hxn, AList.lookup_empty] at hx
      cases hx
    · exact (held_update_ne hxn _).mp hx
  · exact hx

/-- A table held after a call was held before, or the call sent it. -/
theorem held_lastSnapshot {e : Event} (hx : Held (lastSnapshot m e) x) : Held m x ∨ x ∈ e.tables := by
  cases e with
  | mergeCatalog node snapshot =>
    simp only [lastSnapshot] at hx
    split_ifs at hx
    · exact .inl (held_clearNode node hx)
    · by_cases hxn : x.nodeIdentity = node.identity
      · rw [held_update_self hxn] at hx
        exact .inr (List.mem_map.mpr ⟨⟨x.key, x⟩, AList.mem_lookup_iff.mp hx, rfl⟩)
      · exact .inl ((held_update_ne hxn _).mp hx)
  | deleteCatalogForNode node => exact .inl (held_clearNode node hx)

end Held

namespace Consistent

variable {s : CatalogState} {x : Table}

theorem uuid_ne_nil (hs : Consistent s) (hx : Held s.indexedByNode x) : x.uuid ≠ nilUUID := by
  obtain ⟨tables, htables, hlookup⟩ := hx
  exact (hs.byNode _ _ htables ⟨x.key, x⟩ (AList.mem_lookup_iff.mp hlookup)).2.2

theorem empty : Consistent CatalogState.empty where
  byNode _ _ h := by cases h
  indexes := by
    refine ⟨fun dt ns t => ?_, fun u t => ?_, fun _ _ h => by cases h⟩
    · simp only [CatalogState.lookupName, CatalogState.empty, Option.bind_none, reduceCtorEq, false_iff]
      rintro ⟨⟨_, h, -⟩, -⟩
      cases h
    · simp only [CatalogState.empty, reduceCtorEq, false_iff]
      rintro ⟨⟨_, h, -⟩, -⟩
      cases h
  tableNodes _ := rfl

end Consistent

/-! ### The calls -/

/-- What a merge needs of its snapshot, against the tables held: it is the
node's tables under their keys, with uuids; two of its tables have two
uuids; and a held table with the uuid of one of its tables is that table of
that node, under that key. -/
structure SnapshotOk (m : NodeIndex) (n : String) (snapshot : TableContainerPerNode) : Prop where
  /-- The node's tables under their keys, with uuids. -/
  tables : NodeTables n snapshot
  /-- One uuid, one entry. -/
  uuid : ∀ p ∈ snapshot.entries, ∀ q ∈ snapshot.entries, p.2.uuid = q.2.uuid → p = q
  /-- A held table with the uuid of an entry is at its place. -/
  held : ∀ p ∈ snapshot.entries, ∀ x, Held m x → x.uuid = p.2.uuid → x.nodeIdentity = n ∧ x.key = p.1

/-- What a call needs of the catalog it is made on. -/
def EventOk (m : NodeIndex) : Event → Prop
  | .mergeCatalog node snapshot => SnapshotOk m node.identity snapshot
  | .deleteCatalogForNode _ => True

section Calls

variable {b : Build} {s : CatalogState} {node : Node} {snapshot tables : TableContainerPerNode}

theorem SnapshotOk.pairwise_uuid {m : NodeIndex} {n : String} (h : SnapshotOk m n snapshot) :
    snapshot.entries.Pairwise fun p q => p.2.uuid ≠ q.2.uuid :=
  h.tables.pairwise_ne.imp_of_mem fun {p q : Entry} hp hq hne hu => hne (congrArg Sigma.snd (h.uuid p hp q hq hu))

theorem deleteCatalogForNode_spec (hs : Consistent s) :
    ∃ s', deleteCatalogForNode b node s = .ok s' ∧ Consistent s' ∧
      s'.indexedByNode = clearNode s.indexedByNode node := by
  cases htables : s.indexedByNode node.identity with
  | none =>
    refine ⟨s, by simp only [deleteCatalogForNode, htables]; rfl, hs, ?_⟩
    simp [clearNode, htables]
  | some tables =>
    have hT := hs.byNode _ _ htables
    obtain ⟨s1, hrun, hI1, hnode1, htn1⟩ := removeLoop_spec (b := b) ∅ tables.entries hs.indexes
      (fun p hp => hT.held htables hp) hT.pairwise_ne
    have hbody : (fun (s : CatalogState) (p : Entry) =>
        if p.1 ∈ (∅ : TableContainerPerNode) then pure s else removeTable b s p.2) =
        fun s p => removeTable b s p.2 := by
      funext s p
      simp [AList.notMem_empty]
    rw [hbody] at hrun
    refine ⟨{ s1 with indexedByNode := Function.update s1.indexedByNode node.identity (some ∅) },
      by simp only [deleteCatalogForNode, htables, hrun]; rfl, ⟨?byNode, ?indexes, ?tableNodes⟩, ?_⟩
    case byNode =>
      intro n tables' h
      by_cases hn : n = node.identity
      · subst hn
        simp only [Function.update_self, Option.some.injEq] at h
        subst h
        intro p hp
        cases hp
      · simp only [Function.update_of_ne hn, hnode1] at h
        exact hs.byNode n tables' h
    case indexes =>
      refine (hI1.congr fun x => ?_).of_indexes_eq rfl rfl
      simp only [hnode1]
      by_cases hxn : x.nodeIdentity = node.identity
      · -- a table of the node: taken out
        rw [held_update_self hxn, AList.lookup_empty]
        simp only [reduceCtorEq, iff_false, not_and]
        intro hx hall
        exact hall ⟨x.key, x⟩ (mem_entries_of_held htables hx hxn) (AList.notMem_empty _) rfl
      · rw [held_update_ne hxn, and_iff_left_iff_imp]
        rintro - p hp - rfl
        exact hxn (hT p hp).1
    case tableNodes =>
      intro n
      by_cases hn : n = node.identity
      · subst hn
        simp only [Function.update_self, Option.isSome_some, htn1, hs.tableNodes, htables]
      · simp only [Function.update_of_ne hn, htn1, hnode1, hs.tableNodes]
    · simp [clearNode, htables, hnode1]

theorem mergeCatalog_new (hs : Consistent s) (hne : snapshot.entries ≠ [])
    (hnone : s.indexedByNode node.identity = none) (hsnap : SnapshotOk s.indexedByNode node.identity snapshot) :
    ∃ s', mergeCatalog b node snapshot s = .ok s' ∧ Consistent s' ∧
      s'.indexedByNode = Function.update s.indexedByNode node.identity (some snapshot) := by
  have hfresh : ∀ p ∈ snapshot.entries, ∀ x, Held s.indexedByNode x → ¬x.SameSlot p.2 ∧ x.uuid ≠ p.2.uuid := by
    intro p hp x hx
    have hxn := nodeIdentity_ne_of_held hnone hx
    exact ⟨hsnap.tables.not_sameSlot hxn p hp, fun hu => hxn (hsnap.held p hp x hx hu).1⟩
  obtain ⟨s1, hrun, hI1, hnode1, htn1⟩ := addLoop_spec (b := b) snapshot.entries hs.indexes
    (fun p hp => (hsnap.tables p hp).2.2) hsnap.tables.pairwise_not_sameSlot hsnap.pairwise_uuid hfresh
  have htn : s1.tableNodes node.identity = none := by
    have h := hs.tableNodes node.identity
    rw [hnone, Option.isSome_none, Option.isSome_eq_false_iff, Option.isNone_iff_eq_none] at h
    rw [htn1, h]
  refine ⟨{ s1 with
      indexedByNode := Function.update s1.indexedByNode node.identity (some snapshot)
      tableNodes := Function.update s1.tableNodes node.identity (some node) }, ?_, ⟨?byNode, ?indexes, ?tableNodes⟩,
    by simp only [hnode1]⟩
  · simp only [mergeCatalog, if_neg hne, hnone, bind, Except.bind, hrun, htn,
      assert_of_true _ Option.isNone_none, Option.isSome_none, Bool.false_eq_true, if_false]
    rfl
  case byNode =>
    intro n tables' h
    by_cases hn : n = node.identity
    · subst hn
      simp only [Function.update_self, Option.some.injEq] at h
      exact h ▸ hsnap.tables
    · simp only [Function.update_of_ne hn, hnode1] at h
      exact hs.byNode n tables' h
  case indexes =>
    refine (hI1.congr fun x => ?_).of_indexes_eq rfl rfl
    simp only [hnode1]
    by_cases hxn : x.nodeIdentity = node.identity
    · -- a table of the new node: one of the snapshot's
      rw [held_update_self hxn, hsnap.tables.lookup_iff, or_iff_right]
      exact fun hx => nodeIdentity_ne_of_held hnone hx hxn
    · rw [held_update_ne hxn, or_iff_left]
      rintro ⟨p, hp, rfl⟩
      exact hxn (hsnap.tables p hp).1
  case tableNodes =>
    intro n
    by_cases hn : n = node.identity
    · subst hn
      simp only [Function.update_self, Option.isSome_some]
    · simp only [Function.update_of_ne hn, htn1, hnode1, hs.tableNodes]

theorem mergeCatalog_known (hs : Consistent s) (hne : snapshot.entries ≠ [])
    (htables : s.indexedByNode node.identity = some tables)
    (hsnap : SnapshotOk s.indexedByNode node.identity snapshot) :
    ∃ s', mergeCatalog b node snapshot s = .ok s' ∧ Consistent s' ∧
      s'.indexedByNode = Function.update s.indexedByNode node.identity (some snapshot) := by
  have hT := hs.byNode _ _ htables
  have hI0 : Indexes { s with tableNodes := Function.update s.tableNodes node.identity (some node) }
      (Held s.indexedByNode) := hs.indexes.of_indexes_eq rfl rfl
  -- first the tables the snapshot no longer has go
  obtain ⟨s1, hrun1, hI1, hnode1, htn1⟩ := removeLoop_spec (b := b) snapshot tables.entries hI0
    (fun p hp => hT.held htables hp) hT.pairwise_ne
  have hheld : ∀ p ∈ snapshot.entries, ∀ x,
      (Held s.indexedByNode x ∧ ∀ q ∈ tables.entries, q.1 ∉ snapshot → x ≠ q.2) → x.uuid = p.2.uuid →
        x.SameSlot p.2 := by
    intro p hp x hx hu
    obtain ⟨hxn, hxk⟩ := hsnap.held p hp x hx.1 hu
    exact Table.sameSlot_iff.mpr ⟨hxn.trans (hsnap.tables p hp).1.symm, hxk.trans (hsnap.tables p hp).2.1.symm⟩
  have huuid : ∀ p ∈ snapshot.entries, ∀ q ∈ snapshot.entries, p.2.uuid = q.2.uuid → p.2.SameSlot q.2 := by
    intro p hp q hq hu
    rw [hsnap.uuid p hp q hq hu]
    exact Table.sameSlot_refl q.2
  -- then every table of the snapshot is filed
  obtain ⟨s2, hrun2, hI2, hnode2, htn2⟩ := mergeLoop_spec (b := b) snapshot.entries hI1
    (fun x hx => hs.uuid_ne_nil hx.1) (fun p hp => (hsnap.tables p hp).2.2) hsnap.tables.pairwise_not_sameSlot
    huuid hheld
  refine ⟨{ s2 with indexedByNode := Function.update s2.indexedByNode node.identity (some snapshot) }, ?_,
    ⟨?byNode, ?indexes, ?tableNodes⟩, by simp only [hnode2, hnode1]⟩
  · simp only [mergeCatalog, if_neg hne, htables, bind, Except.bind, hrun1, hrun2]
    rfl
  case byNode =>
    intro n tables' h
    by_cases hn : n = node.identity
    · subst hn
      simp only [Function.update_self, Option.some.injEq] at h
      exact h ▸ hsnap.tables
    · simp only [Function.update_of_ne hn, hnode2, hnode1] at h
      exact hs.byNode n tables' h
  case indexes =>
    refine (hI2.congr fun x => ?_).of_indexes_eq rfl rfl
    simp only [hnode2, hnode1]
    by_cases hxn : x.nodeIdentity = node.identity
    · -- a table of the node is held now where the snapshot has it
      rw [held_update_self hxn, hsnap.tables.lookup_iff, or_iff_right]
      rintro ⟨⟨hx, hkept⟩, hnot⟩
      have hmem := mem_entries_of_held htables hx hxn
      by_cases hkey : x.key ∈ snapshot
      · obtain ⟨y, hy⟩ := Option.isSome_iff_exists.mp (AList.lookup_isSome.mpr hkey)
        have hy' := AList.mem_lookup_iff.mp hy
        exact hnot _ hy' (Table.sameSlot_iff.mpr ⟨hxn.trans (hsnap.tables _ hy').1.symm,
          (hsnap.tables _ hy').2.1.symm⟩)
      · exact hkept ⟨x.key, x⟩ hmem hkey rfl
    · -- a table of another node is left as it was
      rw [held_update_ne hxn, or_iff_left]
      · refine ⟨fun ⟨⟨hx, _⟩, _⟩ => hx, fun hx => ⟨⟨hx, ?_⟩, hsnap.tables.not_sameSlot hxn⟩⟩
        rintro p hp - rfl
        exact hxn (hT p hp).1
      · rintro ⟨p, hp, rfl⟩
        exact hxn (hsnap.tables p hp).1
  case tableNodes =>
    intro n
    by_cases hn : n = node.identity
    · subst hn
      simp only [Function.update_self, Option.isSome_some, htn2, htn1]
    · simp only [Function.update_of_ne hn, htn2, htn1, hnode2, hnode1, hs.tableNodes]

theorem step_spec {e : Event} (hs : Consistent s) (he : EventOk s.indexedByNode e) :
    ∃ s', step b s e = .ok s' ∧ Consistent s' ∧ s'.indexedByNode = lastSnapshot s.indexedByNode e := by
  cases e with
  | mergeCatalog node snapshot =>
    by_cases hne : snapshot.entries = []
    · -- an empty snapshot deletes
      simp only [step, mergeCatalog, if_pos hne, lastSnapshot]
      exact deleteCatalogForNode_spec hs
    · simp only [step, lastSnapshot, if_neg hne]
      cases htables : s.indexedByNode node.identity with
      | none => exact mergeCatalog_new hs hne htables he
      | some tables => exact mergeCatalog_known hs hne htables he
  | deleteCatalogForNode node => exact deleteCatalogForNode_spec hs

end Calls

/-! ### Runs -/

/-- What the call at `done ++ e :: rest` of a run with `RunOk` needs of the
catalog, where every table held was sent by a call of `done`. -/
theorem RunOk.eventOk {es done rest : List Event} {e : Event} {s : CatalogState} (hes : RunOk es)
    (hdone : done ++ e :: rest = es) (hmerged : ∀ x, Held s.indexedByNode x → ∃ e' ∈ done, x ∈ e'.tables) :
    EventOk s.indexedByNode e := by
  have he : e ∈ es := hdone ▸ by simp
  cases e with
  | deleteCatalogForNode node => trivial
  | mergeCatalog node snapshot =>
    have hT : NodeTables node.identity snapshot := hes.tables _ he
    have hmem : ∀ p ∈ snapshot.entries, p.2 ∈ (Event.mergeCatalog node snapshot).tables :=
      fun p hp => List.mem_map_of_mem hp
    refine ⟨hT, fun p hp q hq hu => ?_, fun p hp x hx hu => ?_⟩
    · -- one uuid in a snapshot: one key, so one entry
      obtain ⟨-, hkey⟩ := hes.uuid _ he _ he _ (hmem p hp) _ (hmem q hq) hu
      exact eq_of_mem_entries_of_key_eq hp hq (by rw [← (hT p hp).2.1, ← (hT q hq).2.1, hkey])
    · -- a held table was sent earlier in the run
      obtain ⟨e', he', hx'⟩ := hmerged x hx
      obtain ⟨hn, hkey⟩ := hes.uuid _ (hdone ▸ List.mem_append_left _ he') _ he _ hx' _ (hmem p hp) hu
      exact ⟨hn.trans (hT p hp).1, hkey.trans (hT p hp).2.1⟩

theorem catalog_indexes_consistent (b : Build) (es : List Event) (hes : RunOk es) :
    ∃ s, run b CatalogState.empty es = .ok s ∧ Consistent s ∧ s.indexedByNode = lastSnapshots es := by
  -- the run's invariant: consistent, `lastSnapshots` so far, and every held table sent so far
  have hstep : ∀ done e rest s, done ++ e :: rest = es →
      (Consistent s ∧ s.indexedByNode = lastSnapshots done ∧
        ∀ x, Held s.indexedByNode x → ∃ e' ∈ done, x ∈ e'.tables) →
      ∃ s', step b s e = .ok s' ∧ Consistent s' ∧ s'.indexedByNode = lastSnapshots (done ++ [e]) ∧
        ∀ x, Held s'.indexedByNode x → ∃ e' ∈ done ++ [e], x ∈ e'.tables := by
    rintro done e rest s hdone ⟨hs, hnode, hmerged⟩
    obtain ⟨s', hstep, hs', hnode'⟩ := step_spec (b := b) hs (hes.eventOk hdone hmerged)
    refine ⟨s', hstep, hs', by rw [hnode', hnode, lastSnapshots_concat], fun x hx => ?_⟩
    rw [hnode'] at hx
    rcases held_lastSnapshot hx with hx | hx
    · obtain ⟨e', he', hx'⟩ := hmerged x hx
      exact ⟨e', List.mem_append_left _ he', hx'⟩
    · exact ⟨e, List.mem_append_right _ (List.mem_singleton_self e), hx⟩
  obtain ⟨s, hrun, hs, hnode, -⟩ :=
    foldlM_of_step _ es hstep ⟨Consistent.empty, rfl, fun x ⟨_, h, _⟩ => by cases h⟩
  exact ⟨s, hrun, hs, hnode⟩

/-- A node sends two tables, then one of them re-created under its name with
a new uuid, then goes. -/
theorem catalog_indexes_consistent_recreated :
    let node : Node := ⟨"n1", "h1", 9000⟩
    let es : List Event := [
      .mergeCatalog node (((∅ : TableContainerPerNode).insert ("db", "a", 0) ⟨"n1", "db", "a", 1, 0⟩).insert
        ("db", "b", 0) ⟨"n1", "db", "b", 2, 0⟩),
      .mergeCatalog node ((∅ : TableContainerPerNode).insert ("db", "a", 0) ⟨"n1", "db", "a", 3, 0⟩),
      .deleteCatalogForNode node]
    RunOk es ∧ ∃ s, run .debug CatalogState.empty es = .ok s ∧ Consistent s ∧ s.indexedByNode = lastSnapshots es := by
  intro node es
  have hes : RunOk es := ⟨by decide, by decide⟩
  exact ⟨hes, catalog_indexes_consistent .debug es hes⟩

end Daisy.DistributedMetadata
