import Daisy.DistributedMetadata.CatalogService
import Daisy.Library.Loops

/-!
# What the loop bodies of `CatalogService` do to its indexes

The three loop bodies of `mergeCatalog` and `deleteCatalogForNode` each take a
table out of `indexed_by_name` and `indexed_by_id`, or put one in. What they
keep is a relation between the two indexes and a set of tables.

## The model

`Indexes s H`: the tables `indexed_by_name` files, and the tables
`indexed_by_id` files, are exactly the tables `H`, each filed under its own
`(database, name)`, `(node, shard)` and uuid; no inner map of `indexed_by_name`
is empty. Two tables of `H` then never share a place by name (`SameSlot`) or a
uuid.

## What is proved

* `removeTable_spec`: a table of `H` leaves `H`.
* `addNewTable_spec`: a table with a uuid, whose place and uuid no table of
  `H` has, joins `H`.
* `mergeTable_spec`: a table joins `H` and takes the place of the one at its
  place, provided a table of `H` with its uuid is at its place.
* `removeLoop_spec`, `addLoop_spec`, `mergeLoop_spec`: the three loops over a
  list of entries, by `foldlM_of_step`. None of them throws, in either build.
-/

namespace Daisy.DistributedMetadata

open Daisy.DistributedMergeTree (Build)
open Daisy.Library

/-- Two tables are filed at one place of `indexed_by_name`. -/
def Table.SameSlot (t t' : Table) : Prop :=
  t.databaseTable = t'.databaseTable ∧ t.nodeShard = t'.nodeShard

theorem Table.sameSlot_iff {t t' : Table} :
    t.SameSlot t' ↔ t.nodeIdentity = t'.nodeIdentity ∧ t.key = t'.key := by
  simp only [Table.SameSlot, Table.databaseTable, Table.nodeShard, Table.key, Prod.mk.injEq]
  tauto

theorem Table.sameSlot_refl (t : Table) : t.SameSlot t := ⟨rfl, rfl⟩

theorem Table.SameSlot.symm {t t' : Table} (h : t.SameSlot t') : t'.SameSlot t := ⟨h.1.symm, h.2.symm⟩

theorem Table.SameSlot.trans {t t' t'' : Table} (h : t.SameSlot t') (h' : t'.SameSlot t'') : t.SameSlot t'' :=
  ⟨h.1.trans h'.1, h.2.trans h'.2⟩

/-! ### Lookups after an update -/

section Lookups

variable {s : CatalogState}

theorem lookupName_update {s' : CatalogState} {dt : DatabaseTable} {v : Option TableContainerByNodeShard}
    (h : s'.indexedByName = Function.update s.indexedByName dt v) (dt' : DatabaseTable) (ns : NodeShard) :
    s'.lookupName dt' ns = if dt' = dt then v.bind fun inner => inner.lookup ns else s.lookupName dt' ns := by
  by_cases hdt : dt' = dt
  · subst hdt
    simp [CatalogState.lookupName, h]
  · simp [CatalogState.lookupName, h, hdt]

/-- An inner map dropped once empty is looked up as itself. -/
theorem bind_lookup_dropEmpty (inner : TableContainerByNodeShard) (ns : NodeShard) :
    (if inner.entries = [] then none else some inner).bind (fun inner => inner.lookup ns) = inner.lookup ns := by
  split_ifs with h
  · simp [AList.lookup, h]
  · rfl

/-- `insert_or_assign` over an erase of the same key is the `insert_or_assign`. -/
theorem insert_erase_self (inner : TableContainerByNodeShard) (ns : NodeShard) (t : Table) :
    (inner.erase ns).insert ns t = inner.insert ns t := by
  apply AList.ext
  rw [AList.entries_insert, AList.entries_insert]
  congr 1
  exact List.kerase_of_notMem_keys (List.notMem_keys_kerase ns inner.nodupKeys)

theorem getD_dropEmpty (inner : TableContainerByNodeShard) :
    (if inner.entries = [] then none else some inner).getD ∅ = inner := by
  split_ifs with h
  · apply AList.ext
    rw [h]
    rfl
  · rfl

theorem lookup_getD_empty (o : Option TableContainerByNodeShard) (ns : NodeShard) :
    (o.getD ∅).lookup ns = o.bind fun inner => inner.lookup ns := by
  cases o <;> simp

theorem assert_of_true {b : Build} {c : Bool} (text : String) (h : c = true) : assert b c text = .ok () := by
  cases b <;> simp [assert, h] <;> rfl

end Lookups

/-! ### The invariant -/

/-- `indexed_by_name` and `indexed_by_id` file exactly the tables `H`. -/
structure Indexes (s : CatalogState) (H : Table → Prop) : Prop where
  /-- `indexed_by_name[dt][ns]` is the table of `H` with that name and place. -/
  byName : ∀ dt ns t, s.lookupName dt ns = some t ↔ H t ∧ t.databaseTable = dt ∧ t.nodeShard = ns
  /-- `indexed_by_id[u]` is the table of `H` with uuid `u`. -/
  byId : ∀ u t, s.indexedById u = some t ↔ H t ∧ t.uuid = u
  /-- `indexed_by_name` has no empty inner map. -/
  nonempty : ∀ dt inner, s.indexedByName dt = some inner → inner.entries ≠ []

namespace Indexes

variable {s : CatalogState} {H H' : Table → Prop} {t t' : Table}

theorem congr (hI : Indexes s H) (hH : ∀ t, H t ↔ H' t) : Indexes s H' where
  byName dt ns t := by rw [hI.byName, hH]
  byId u t := by rw [hI.byId, hH]
  nonempty := hI.nonempty

/-- The invariant reads only `indexed_by_name` and `indexed_by_id`. -/
theorem of_indexes_eq {s' : CatalogState} (hI : Indexes s H) (hname : s'.indexedByName = s.indexedByName)
    (hid : s'.indexedById = s.indexedById) : Indexes s' H where
  byName dt ns t := by rw [CatalogState.lookupName, hname]; exact hI.byName dt ns t
  byId u t := by rw [hid]; exact hI.byId u t
  nonempty dt inner := by rw [hname]; exact hI.nonempty dt inner

theorem lookupName_of_mem (hI : Indexes s H) (ht : H t) : s.lookupName t.databaseTable t.nodeShard = some t :=
  (hI.byName _ _ _).mpr ⟨ht, rfl, rfl⟩

theorem byId_of_mem (hI : Indexes s H) (ht : H t) : s.indexedById t.uuid = some t :=
  (hI.byId _ _).mpr ⟨ht, rfl⟩

theorem eq_of_sameSlot (hI : Indexes s H) (ht : H t) (ht' : H t') (hslot : t.SameSlot t') : t = t' := by
  have h := hI.lookupName_of_mem ht'
  rw [← hslot.1, ← hslot.2, hI.lookupName_of_mem ht, Option.some.injEq] at h
  exact h

theorem eq_of_uuid (hI : Indexes s H) (ht : H t) (ht' : H t') (huuid : t.uuid = t'.uuid) : t = t' := by
  have h := hI.byId_of_mem ht'
  rw [← huuid, hI.byId_of_mem ht, Option.some.injEq] at h
  exact h

theorem lookupName_eq_none (hI : Indexes s H) (h : ∀ x, H x → ¬x.SameSlot t) :
    s.lookupName t.databaseTable t.nodeShard = none :=
  Option.eq_none_iff_forall_ne_some.mpr fun x hx =>
    h x ((hI.byName _ _ _).mp hx).1 ((hI.byName _ _ _).mp hx).2

theorem byId_eq_none (hI : Indexes s H) {u : UUID} (h : ∀ x, H x → x.uuid ≠ u) : s.indexedById u = none :=
  Option.eq_none_iff_forall_ne_some.mpr fun x hx => h x ((hI.byId _ _).mp hx).1 ((hI.byId _ _).mp hx).2

/-- The inner map a table of `H` is in. -/
theorem exists_inner (hI : Indexes s H) (ht : H t) :
    ∃ inner, s.indexedByName t.databaseTable = some inner ∧ inner.lookup t.nodeShard = some t := by
  have h := hI.lookupName_of_mem ht
  rw [CatalogState.lookupName, Option.bind_eq_some_iff] at h
  exact h

/-- Looking up `ns` in the inner map of `dt`. -/
theorem inner_lookup (hI : Indexes s H) {dt : DatabaseTable} {inner : TableContainerByNodeShard}
    (hinner : s.indexedByName dt = some inner) (ns : NodeShard) (x : Table) :
    inner.lookup ns = some x ↔ H x ∧ x.databaseTable = dt ∧ x.nodeShard = ns := by
  rw [← hI.byName, CatalogState.lookupName, hinner, Option.bind_some]

end Indexes

/-! ### What the loop bodies leave -/

/-- The indexes once `t` is taken out of them: what `removeTable` leaves. -/
def eraseTable (s : CatalogState) (t : Table) : CatalogState :=
  let inner := ((s.indexedByName t.databaseTable).getD ∅).erase t.nodeShard
  { s with
    indexedByName := Function.update s.indexedByName t.databaseTable (if inner.entries = [] then none else some inner)
    indexedById := Function.update s.indexedById t.uuid none }

/-- The indexes once `t` is filed at its place and under its uuid, over what
was there: what `addNewTable` and `mergeTable` leave. -/
def putTable (s : CatalogState) (t : Table) : CatalogState :=
  { s with
    indexedByName := Function.update s.indexedByName t.databaseTable
      (some (((s.indexedByName t.databaseTable).getD ∅).insert t.nodeShard t))
    indexedById := Function.update s.indexedById t.uuid (some t) }

@[simp] theorem eraseTable_indexedByNode (s : CatalogState) (t : Table) :
    (eraseTable s t).indexedByNode = s.indexedByNode := rfl

@[simp] theorem eraseTable_tableNodes (s : CatalogState) (t : Table) :
    (eraseTable s t).tableNodes = s.tableNodes := rfl

@[simp] theorem putTable_indexedByNode (s : CatalogState) (t : Table) :
    (putTable s t).indexedByNode = s.indexedByNode := rfl

@[simp] theorem putTable_tableNodes (s : CatalogState) (t : Table) :
    (putTable s t).tableNodes = s.tableNodes := rfl

/-- Where `q` rules out `x = t`, `x ≠ t` adds nothing to it. -/
theorem and_ne_and_iff {p q : Prop} {x t : Table} (h : q → x ≠ t) : (p ∧ x ≠ t) ∧ q ↔ p ∧ q :=
  ⟨fun ⟨⟨hp, _⟩, hq⟩ => ⟨hp, hq⟩, fun ⟨hp, hq⟩ => ⟨⟨hp, h hq⟩, hq⟩⟩

namespace Indexes

variable {s : CatalogState} {H : Table → Prop} {t : Table}

/-- Taking a table of `H` out leaves the others. -/
theorem erase (hI : Indexes s H) (ht : H t) : Indexes (eraseTable s t) fun x => H x ∧ x ≠ t := by
  obtain ⟨inner, hinner, -⟩ := hI.exists_inner ht
  refine ⟨?byName, ?byId, ?nonempty⟩
  case byName =>
    intro dt ns x
    rw [lookupName_update rfl, bind_lookup_dropEmpty, hinner, Option.getD_some]
    split_ifs with hdt
    · subst hdt
      by_cases hns : ns = t.nodeShard
      · -- the place of `t` itself is now empty
        subst hns
        rw [AList.lookup_erase]
        simp only [reduceCtorEq, false_iff]
        rintro ⟨⟨hx, hne⟩, hdt, hns⟩
        exact hne (hI.eq_of_sameSlot hx ht ⟨hdt, hns⟩)
      · rw [AList.lookup_erase_ne hns, hI.inner_lookup hinner, and_ne_and_iff]
        rintro ⟨-, hxns⟩ rfl
        exact hns hxns.symm
    · rw [hI.byName, and_ne_and_iff]
      rintro ⟨hxdt, -⟩ rfl
      exact hdt hxdt.symm
  case byId =>
    intro u x
    by_cases hu : u = t.uuid
    · subst hu
      simp only [eraseTable, Function.update_self, reduceCtorEq, false_iff]
      rintro ⟨⟨hx, hne⟩, hxu⟩
      exact hne (hI.eq_of_uuid hx ht hxu)
    · simp only [eraseTable, Function.update_of_ne hu]
      rw [hI.byId, and_ne_and_iff]
      rintro hxu rfl
      exact hu hxu.symm
  case nonempty =>
    intro dt inner' h
    by_cases hdt : dt = t.databaseTable
    · subst hdt
      simp only [eraseTable, Function.update_self] at h
      split_ifs at h with hempty
      cases h
      exact hempty
    · simp only [eraseTable, Function.update_of_ne hdt] at h
      exact hI.nonempty dt inner' h

/-- Filing `t` over the table at its place keeps the indexes, where the table
there (if any) has `t`'s uuid, and a table with `t`'s uuid is there. -/
theorem put (hI : Indexes s H) (huuid : ∀ x, H x → x.uuid = t.uuid → x.SameSlot t)
    (hslot : ∀ x, H x → x.SameSlot t → x.uuid = t.uuid) :
    Indexes (putTable s t) fun x => (H x ∧ ¬x.SameSlot t) ∨ x = t := by
  refine ⟨?byName, ?byId, ?nonempty⟩
  case byName =>
    intro dt ns x
    rw [lookupName_update rfl, Option.bind_some]
    split_ifs with hdt
    · subst hdt
      by_cases hns : ns = t.nodeShard
      · subst hns
        rw [AList.lookup_insert, Option.some.injEq]
        constructor
        · rintro rfl
          exact ⟨.inr rfl, rfl, rfl⟩
        · rintro ⟨⟨hx, hne⟩ | rfl, hdt, hns⟩
          · exact absurd ⟨hdt, hns⟩ hne
          · rfl
      · rw [AList.lookup_insert_ne hns, lookup_getD_empty, ← CatalogState.lookupName, hI.byName]
        constructor
        · rintro ⟨hx, hdt, hxns⟩
          exact ⟨.inl ⟨hx, fun h => hns (hxns ▸ h.2)⟩, hdt, hxns⟩
        · rintro ⟨⟨hx, -⟩ | rfl, hrest⟩
          · exact ⟨hx, hrest⟩
          · exact absurd hrest.2.symm hns
    · rw [hI.byName]
      constructor
      · rintro ⟨hx, hxdt, hns⟩
        exact ⟨.inl ⟨hx, fun h => hdt (hxdt ▸ h.1)⟩, hxdt, hns⟩
      · rintro ⟨⟨hx, -⟩ | rfl, hrest⟩
        · exact ⟨hx, hrest⟩
        · exact absurd hrest.1.symm hdt
  case byId =>
    intro u x
    by_cases hu : u = t.uuid
    · subst hu
      simp only [putTable, Function.update_self, Option.some.injEq]
      constructor
      · rintro rfl
        exact ⟨.inr rfl, rfl⟩
      · rintro ⟨⟨hx, hne⟩ | rfl, hxu⟩
        · exact absurd (huuid x hx hxu) hne
        · rfl
    · simp only [putTable, Function.update_of_ne hu]
      rw [hI.byId]
      constructor
      · rintro ⟨hx, hxu⟩
        exact ⟨.inl ⟨hx, fun h => hu (hxu ▸ hslot x hx h)⟩, hxu⟩
      · rintro ⟨⟨hx, -⟩ | rfl, hxu⟩
        · exact ⟨hx, hxu⟩
        · exact absurd hxu.symm hu
  case nonempty =>
    intro dt inner h
    by_cases hdt : dt = t.databaseTable
    · subst hdt
      simp only [putTable, Function.update_self, Option.some.injEq] at h
      subst h
      simp [AList.entries_insert]
    · simp only [putTable, Function.update_of_ne hdt] at h
      exact hI.nonempty dt inner h

end Indexes

/-! ### The loop bodies -/

section Bodies

variable {b : Build} {s : CatalogState} {H : Table → Prop} {t : Table}

theorem removeTable_eq {inner : TableContainerByNodeShard} (hinner : s.indexedByName t.databaseTable = some inner)
    (hmem : t.nodeShard ∈ inner) (hid : (s.indexedById t.uuid).isSome = true) :
    removeTable b s t = .ok (eraseTable s t) := by
  simp only [removeTable, hinner, assert_of_true _ (decide_eq_true hmem), assert_of_true _ hid]
  simp only [eraseTable, hinner, Option.getD_some]
  rfl

theorem removeTable_spec (hI : Indexes s H) (ht : H t) :
    ∃ s', removeTable b s t = .ok s' ∧ Indexes s' (fun x => H x ∧ x ≠ t) ∧
      s'.indexedByNode = s.indexedByNode ∧ s'.tableNodes = s.tableNodes := by
  obtain ⟨inner, hinner, hlookup⟩ := hI.exists_inner ht
  have hmem : t.nodeShard ∈ inner := AList.lookup_isSome.mp (by rw [hlookup]; rfl)
  have hid : (s.indexedById t.uuid).isSome = true := by rw [hI.byId_of_mem ht]; rfl
  exact ⟨_, removeTable_eq hinner hmem hid, hI.erase ht, rfl, rfl⟩

theorem addNewTable_eq (hu : t.uuid ≠ nilUUID) (hns : t.nodeShard ∉ (s.indexedByName t.databaseTable).getD ∅)
    (hid : s.indexedById t.uuid = none) : addNewTable b s t = .ok (putTable s t) := by
  simp only [addNewTable, assert_of_true _ (bne_iff_ne.mpr hu), if_neg hns, hid,
    assert_of_true _ Option.isNone_none]
  rfl

theorem addNewTable_spec (hI : Indexes s H) (hu : t.uuid ≠ nilUUID) (hslot : ∀ x, H x → ¬x.SameSlot t)
    (huuid : ∀ x, H x → x.uuid ≠ t.uuid) :
    ∃ s', addNewTable b s t = .ok s' ∧ Indexes s' (fun x => H x ∨ x = t) ∧
      s'.indexedByNode = s.indexedByNode ∧ s'.tableNodes = s.tableNodes := by
  have hns : t.nodeShard ∉ (s.indexedByName t.databaseTable).getD ∅ := by
    rw [← AList.lookup_eq_none, lookup_getD_empty]
    exact hI.lookupName_eq_none hslot
  have hput := hI.put (fun x hx h => absurd h (huuid x hx)) (fun x hx h => absurd h (hslot x hx))
  refine ⟨_, addNewTable_eq hu hns (hI.byId_eq_none huuid), hput.congr fun x => ?_, rfl, rfl⟩
  exact or_congr_left ⟨And.left, fun hx => ⟨hx, hslot x hx⟩⟩

/-- Where the table at `t`'s place (if any) has `t`'s uuid, `mergeTable`
files `t` over it. -/
theorem mergeTable_eq_put (hover : ∀ o, s.lookupName t.databaseTable t.nodeShard = some o → o.uuid = t.uuid) :
    mergeTable b s t = .ok (putTable s t) := by
  cases hinner : s.indexedByName t.databaseTable with
  | none =>
    simp only [mergeTable, hinner, ne_eq, not_true_eq_false, if_false]
    simp only [putTable, hinner, Option.getD_none]
    rfl
  | some inner =>
    have hkeep : overriddenUUID inner t = nilUUID := by
      unfold overriddenUUID
      cases hlookup : inner.lookup t.nodeShard with
      | none => rfl
      | some o =>
        have ho := hover o (by rw [CatalogState.lookupName, hinner, Option.bind_some, hlookup])
        simp [ho]
    simp only [mergeTable, hinner, hkeep, ne_eq, not_true_eq_false, if_false]
    simp only [putTable, hinner, Option.getD_some]
    rfl

/-- Where the table `o` at `t`'s place has another uuid, `mergeTable` takes
`o` out, then files `t`. -/
theorem mergeTable_eq_erase_put {o : Table} (hI : Indexes s H) (ho : H o) (hslot : o.SameSlot t)
    (hou : o.uuid ≠ t.uuid) (hnil : o.uuid ≠ nilUUID) :
    mergeTable b s t = .ok (putTable (eraseTable s o) t) := by
  obtain ⟨inner, hinner, hlookup⟩ := hI.exists_inner ho
  rw [hslot.1] at hinner
  rw [hslot.2] at hlookup
  have hover : overriddenUUID inner t = o.uuid := by simp [overriddenUUID, hlookup, hou]
  have hid : (s.indexedById o.uuid).isSome = true := by rw [hI.byId_of_mem ho]; rfl
  simp only [mergeTable, hinner, hover, ne_eq, hnil, not_false_eq_true, if_true, assert_of_true _ hid]
  simp only [putTable, eraseTable, hslot.1, hslot.2, hinner, Option.getD_some, Function.update_self,
    Function.update_idem, getD_dropEmpty, insert_erase_self]
  rfl

theorem mergeTable_spec (hI : Indexes s H) (hnil : ∀ x, H x → x.uuid ≠ nilUUID)
    (huuid : ∀ x, H x → x.uuid = t.uuid → x.SameSlot t) :
    ∃ s', mergeTable b s t = .ok s' ∧ Indexes s' (fun x => (H x ∧ ¬x.SameSlot t) ∨ x = t) ∧
      s'.indexedByNode = s.indexedByNode ∧ s'.tableNodes = s.tableNodes := by
  by_cases hover : ∃ o, H o ∧ o.SameSlot t ∧ o.uuid ≠ t.uuid
  · -- a table re-created under the same name: its old uuid goes
    obtain ⟨o, ho, hos, hou⟩ := hover
    have hput := (hI.erase ho).put (fun x hx => huuid x hx.1)
      (fun x hx h => absurd (hI.eq_of_sameSlot hx.1 ho (h.trans hos.symm)) hx.2)
    refine ⟨_, mergeTable_eq_erase_put hI ho hos hou (hnil o ho), hput.congr fun x => ?_, rfl, rfl⟩
    refine or_congr_left ⟨fun ⟨⟨hx, _⟩, hne⟩ => ⟨hx, hne⟩, fun ⟨hx, hne⟩ => ⟨⟨hx, ?_⟩, hne⟩⟩
    rintro rfl
    exact hne hos
  · have hslot : ∀ x, H x → x.SameSlot t → x.uuid = t.uuid := fun x hx h =>
      Classical.not_not.mp fun hne => hover ⟨x, hx, h, hne⟩
    refine ⟨_, mergeTable_eq_put fun o ho => ?_, hI.put huuid hslot, rfl, rfl⟩
    obtain ⟨hx, hdt, hns⟩ := (hI.byName _ _ _).mp ho
    exact hslot o hx ⟨hdt, hns⟩

end Bodies

/-! ### The loops -/

/-- An entry of a `TableContainerPerNode`. -/
abbrev Entry := Σ _ : DatabaseTableShard, Table

section Loops

variable {b : Build} {H : Table → Prop}

/-- The loops that take out the tables of a list of entries whose keys are
not in `keep`: `deleteCatalogForNode`'s (with nothing kept), and the first
loop of `mergeCatalog` over a known node. -/
theorem removeLoop_spec (keep : TableContainerPerNode) (l : List Entry) {s : CatalogState} (hI : Indexes s H)
    (hl : ∀ p ∈ l, H p.2) (hnd : l.Pairwise fun p q => p.2 ≠ q.2) :
    ∃ s', l.foldlM (fun s p => if p.1 ∈ keep then pure s else removeTable b s p.2) s = .ok s' ∧
      Indexes s' (fun x => H x ∧ ∀ p ∈ l, p.1 ∉ keep → x ≠ p.2) ∧
      s'.indexedByNode = s.indexedByNode ∧ s'.tableNodes = s.tableNodes := by
  refine foldlM_of_step (fun done s' => Indexes s' (fun x => H x ∧ ∀ p ∈ done, p.1 ∉ keep → x ≠ p.2) ∧
    s'.indexedByNode = s.indexedByNode ∧ s'.tableNodes = s.tableNodes) l ?_
    ⟨hI.congr fun x => by simp, rfl, rfl⟩
  rintro done p rest s' hdone ⟨hI', hnode, htables⟩
  by_cases hkeep : p.1 ∈ keep
  · refine ⟨s', by simp only [hkeep, if_true]; rfl, hI'.congr fun x => ?_, hnode, htables⟩
    simp [or_imp, forall_and, hkeep]
  · have hp : H p.2 ∧ ∀ q ∈ done, q.1 ∉ keep → p.2 ≠ q.2 :=
      ⟨hl p (hdone ▸ by simp), fun q hq _ => (rel_of_mem_done hnd hdone q hq).symm⟩
    obtain ⟨s'', hremove, hI'', hnode', htables'⟩ := removeTable_spec (b := b) hI' hp
    refine ⟨s'', by simp only [hkeep, if_false]; exact hremove, hI''.congr fun x => ?_,
      hnode'.trans hnode, htables'.trans htables⟩
    simp [or_imp, forall_and, hkeep, and_assoc]

/-- The loop of `mergeCatalog` over a new node: every table joins. -/
theorem addLoop_spec (l : List Entry) {s : CatalogState} (hI : Indexes s H) (hl : ∀ p ∈ l, p.2.uuid ≠ nilUUID)
    (hslot : l.Pairwise fun p q => ¬p.2.SameSlot q.2) (huuid : l.Pairwise fun p q => p.2.uuid ≠ q.2.uuid)
    (hfresh : ∀ p ∈ l, ∀ x, H x → ¬x.SameSlot p.2 ∧ x.uuid ≠ p.2.uuid) :
    ∃ s', l.foldlM (fun s p => addNewTable b s p.2) s = .ok s' ∧
      Indexes s' (fun x => H x ∨ ∃ p ∈ l, x = p.2) ∧
      s'.indexedByNode = s.indexedByNode ∧ s'.tableNodes = s.tableNodes := by
  refine foldlM_of_step (fun done s' => Indexes s' (fun x => H x ∨ ∃ p ∈ done, x = p.2) ∧
    s'.indexedByNode = s.indexedByNode ∧ s'.tableNodes = s.tableNodes) l ?_
    ⟨hI.congr fun x => by simp, rfl, rfl⟩
  rintro done p rest s' hdone ⟨hI', hnode, htables⟩
  have hp : p ∈ l := hdone ▸ by simp
  have hslot' : ∀ x, (H x ∨ ∃ q ∈ done, x = q.2) → ¬x.SameSlot p.2 := by
    rintro x (hx | ⟨q, hq, rfl⟩)
    · exact (hfresh p hp x hx).1
    · exact rel_of_mem_done hslot hdone q hq
  have huuid' : ∀ x, (H x ∨ ∃ q ∈ done, x = q.2) → x.uuid ≠ p.2.uuid := by
    rintro x (hx | ⟨q, hq, rfl⟩)
    · exact (hfresh p hp x hx).2
    · exact rel_of_mem_done huuid hdone q hq
  obtain ⟨s'', hadd, hI'', hnode', htables'⟩ := addNewTable_spec (b := b) hI' (hl p hp) hslot' huuid'
  refine ⟨s'', hadd, hI''.congr fun x => ?_, hnode'.trans hnode, htables'.trans htables⟩
  simp [or_assoc, eq_comm]

/-- The second loop of `mergeCatalog` over a known node: every table joins,
over the table at its place. -/
theorem mergeLoop_spec (l : List Entry) {s : CatalogState} (hI : Indexes s H)
    (hnil : ∀ x, H x → x.uuid ≠ nilUUID) (hl : ∀ p ∈ l, p.2.uuid ≠ nilUUID)
    (hslot : l.Pairwise fun p q => ¬p.2.SameSlot q.2)
    (huuid : ∀ p ∈ l, ∀ q ∈ l, p.2.uuid = q.2.uuid → p.2.SameSlot q.2)
    (hheld : ∀ p ∈ l, ∀ x, H x → x.uuid = p.2.uuid → x.SameSlot p.2) :
    ∃ s', l.foldlM (fun s p => mergeTable b s p.2) s = .ok s' ∧
      Indexes s' (fun x => (H x ∧ ∀ p ∈ l, ¬x.SameSlot p.2) ∨ ∃ p ∈ l, x = p.2) ∧
      s'.indexedByNode = s.indexedByNode ∧ s'.tableNodes = s.tableNodes := by
  let Merged (done : List Entry) (x : Table) : Prop := (H x ∧ ∀ p ∈ done, ¬x.SameSlot p.2) ∨ ∃ p ∈ done, x = p.2
  have hstep : ∀ done p rest s', done ++ p :: rest = l →
      Indexes s' (Merged done) ∧ (∀ x, Merged done x → x.uuid ≠ nilUUID) ∧
        s'.indexedByNode = s.indexedByNode ∧ s'.tableNodes = s.tableNodes →
      ∃ s'', mergeTable b s' p.2 = .ok s'' ∧
        Indexes s'' (Merged (done ++ [p])) ∧ (∀ x, Merged (done ++ [p]) x → x.uuid ≠ nilUUID) ∧
        s''.indexedByNode = s.indexedByNode ∧ s''.tableNodes = s.tableNodes := by
    rintro done p rest s' hdone ⟨hI', hnil', hnode, htables⟩
    have hp : p ∈ l := hdone ▸ by simp
    have huuid' : ∀ x, Merged done x → x.uuid = p.2.uuid → x.SameSlot p.2 := by
      rintro x (⟨hx, -⟩ | ⟨q, hq, rfl⟩)
      · exact hheld p hp x hx
      · exact huuid q (hdone ▸ by simp [hq]) p hp
    obtain ⟨s'', hmerge, hI'', hnode', htables'⟩ := mergeTable_spec (b := b) hI' hnil' huuid'
    have hmerged : ∀ x, (Merged done x ∧ ¬x.SameSlot p.2) ∨ x = p.2 ↔ Merged (done ++ [p]) x := by
      intro x
      simp only [Merged, List.mem_append, List.mem_singleton, or_imp, forall_and, forall_eq]
      constructor
      · rintro (⟨⟨hx, hall⟩ | ⟨q, hq, rfl⟩, hne⟩ | rfl)
        · exact .inl ⟨hx, hall, hne⟩
        · exact .inr ⟨q, .inl hq, rfl⟩
        · exact .inr ⟨p, .inr rfl, rfl⟩
      · rintro (⟨hx, hall, hne⟩ | ⟨q, hq | rfl, rfl⟩)
        · exact .inl ⟨.inl ⟨hx, hall⟩, hne⟩
        · exact .inl ⟨.inr ⟨q, hq, rfl⟩, rel_of_mem_done hslot hdone q hq⟩
        · exact .inr rfl
    refine ⟨s'', hmerge, hI''.congr hmerged, fun x hx => ?_, hnode'.trans hnode, htables'.trans htables⟩
    rcases (hmerged x).mpr hx with ⟨hx, -⟩ | rfl
    · exact hnil' x hx
    · exact hl p hp
  have h0 : Indexes s (Merged []) ∧ (∀ x, Merged [] x → x.uuid ≠ nilUUID) ∧
      s.indexedByNode = s.indexedByNode ∧ s.tableNodes = s.tableNodes := by
    refine ⟨hI.congr fun x => by simp [Merged], ?_, rfl, rfl⟩
    rintro x (⟨hx, -⟩ | ⟨q, hq, -⟩)
    · exact hnil x hx
    · exact absurd hq List.not_mem_nil
  obtain ⟨s', hrun, hI', -, hnode, htables⟩ := foldlM_of_step _ l hstep h0
  exact ⟨s', hrun, hI', hnode, htables⟩

end Loops

end Daisy.DistributedMetadata
