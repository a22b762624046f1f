import Daisy.Coordination.KeeperStorage

/-!
# Keeper's snapshots: `KeeperStorageSnapshot`

A snapshot of `KeeperStorage` (`Coordination/KeeperSnapshotManager.cpp`)
does not copy the tree. Its constructor puts the container into snapshot
mode and keeps the length of its list; `serialize`, run later, walks that
many elements from the start of the list, which snapshot mode keeps as they
were. `deserialize` reads the elements into a new storage with
`insertOrReplace`, and rebuilds what was not written: the ephemerals, from
each node's `ephemeralOwner`, and the children, from each node's path.

## The model

What `serialize` writes after the version byte and the metadata is an
`Image`: the session id counter, each element as its path and its node, and
the sessions. `writeNode` writes every field of a node but its children,
and `readNode` reads them back in the same order into a node with none, so
an element of the image is its node without children; the bytes, the
metadata of `nuraft` and the compression are not modelled. The image's
sessions are the sessions' map in its order.

## What is proved

* `mem_ephemerals_deserialize`: a path is among a session's ephemerals
  after `deserialize` only if a node written at that path is owned by the
  session.
* From the first state, a snapshot whose restored ephemerals are not the
  ones it was taken from.
-/

namespace Daisy.Coordination

open SnapshotableHashTable

/-- `KeeperStorageSnapshot`: what its constructor records. -/
structure KeeperStorageSnapshot where
  lastLogIdx : Nat
  sessionId : Int
  snapshotContainerSize : Nat
  sessionAndTimeout : AList fun _ : Int => Int

/-- What `KeeperStorageSnapshot::serialize` writes past the version and the
metadata. -/
structure Image where
  lastLogIdx : Nat
  sessionId : Int
  nodes : List (List Char × Node)
  sessions : List (Int × Int)

/-- The deserializer's updater: the parent gets the child's name. -/
def Node.linkChild (child : List Char) (p : Node) : Node := { p with children := p.children.insert child }

namespace KeeperStorageSnapshot

/-- `KeeperStorageSnapshot(storage, up_to_log_idx)`: the storage goes into
snapshot mode, and the snapshot keeps the session id counter, the length of
the list and a copy of the sessions. -/
def make (s : KeeperStorage) (upToLogIdx : Nat) : KeeperStorage × KeeperStorageSnapshot :=
  ({ s with tree := { s.tree with container := s.tree.container.enableSnapshotMode } },
    ⟨upToLogIdx, s.sessionIdCounter, s.tree.container.snapshotSize, s.sessionAndTimeout⟩)

/-- `KeeperStorageSnapshot::serialize` over the storage as it is when it
runs; `none` for its `LOGICAL_ERROR`, a node written after the last log
index (`static_cast<size_t>` wraps a negative `mzxid`). -/
def serialize (snap : KeeperStorageSnapshot) (s : KeeperStorage) : Option Image :=
  let elements := s.tree.container.list.take snap.snapshotContainerSize
  if elements.any fun e => (e.value.stat.mzxid % 2 ^ 64).toNat > snap.lastLogIdx then none
  else some ⟨snap.lastLogIdx, snap.sessionId, elements.map fun e => (e.key, { e.value with children := [] }),
    snap.sessionAndTimeout.entries.map fun e => (e.1, e.2)⟩

/-- One element read by `deserialize`: the node in by `insertOrReplace`,
and its path under its owner's ephemerals. -/
def readElement (t : Tree) (element : List Char × Node) : Tree :=
  ⟨t.container.insertOrReplace element.1 element.2,
    if element.2.stat.ephemeralOwner ≠ 0 then t.ephemerals.emplace element.2.stat.ephemeralOwner element.1
    else t.ephemerals⟩

/-- The walk of `deserialize` over the list that gives each parent the names
of its children. Outside snapshot mode `updateValue` changes the elements in
place, so the walk visits the keys of the list as it was. -/
def linkChildren (container : Container) : Option Container :=
  container.list.foldlM (fun c e =>
      if e.key ≠ ['/'] then c.updateValue (parentPath e.key) (Node.linkChild (getBaseName e.key)) else pure c)
    container

/-- `addSessionID(session_id, timeout)`: `emplace` keeps a session there. -/
def addSessionID (sessions : AList fun _ : Int => Int) (session : Int × Int) : AList fun _ : Int => Int :=
  if (sessions.lookup session.1).isSome then sessions else sessions.insert session.1 session.2

/-- `KeeperStorageSnapshot::deserialize` into a new `KeeperStorage`. -/
def deserialize (image : Image) : Option KeeperStorage := do
  let tree := image.nodes.foldl readElement KeeperStorage.init.tree
  let container ← linkChildren tree.container
  pure { KeeperStorage.init with
    sessionIdCounter := image.sessionId
    tree := ⟨container, tree.ephemerals⟩
    sessionAndTimeout := image.sessions.foldl addSessionID KeeperStorage.init.sessionAndTimeout
    zxid := image.lastLogIdx }

/-! ### The ephemerals a snapshot restores -/

theorem linkChildren_ephemerals {image : Image} {restored : KeeperStorage} (h : deserialize image = some restored) :
    restored.tree.ephemerals = (image.nodes.foldl readElement KeeperStorage.init.tree).ephemerals := by
  simp only [deserialize, bind, Option.bind_eq_some_iff, pure, Option.some.injEq] at h
  obtain ⟨c, -, rfl⟩ := h
  rfl

/-- What reading the elements puts under a session: the paths of elements
that session owns, with what was there. -/
theorem mem_readElements {session : Int} {path : List Char} :
    ∀ (elements : List (List Char × Node)) (t : Tree),
      path ∈ ((elements.foldl readElement t).ephemerals.lookup session).getD [] →
        path ∈ (t.ephemerals.lookup session).getD [] ∨
          ∃ node, (path, node) ∈ elements ∧ node.stat.ephemeralOwner = session
  | [], t, h => .inl h
  | (p, node) :: elements, t, h => by
    rcases mem_readElements elements (readElement t (p, node)) h with h | ⟨n, hn, howner⟩
    · -- the path was under the session after this element: before it, or it is this one
      simp only [readElement] at h
      split at h
      · rename_i hne
        by_cases hs : node.stat.ephemeralOwner = session
        · subst hs
          simp only [Ephemerals.emplace, AList.lookup_insert, Option.getD_some, List.mem_insert_iff] at h
          rcases h with rfl | h
          · exact .inr ⟨node, List.mem_cons_self, rfl⟩
          · exact .inl h
        · simp only [Ephemerals.emplace, AList.lookup_insert_ne (Ne.symm hs)] at h
          exact .inl h
      · exact .inl h
    · exact .inr ⟨n, List.mem_cons_of_mem _ hn, howner⟩

/-- A path is among a session's restored ephemerals only if a node written
at that path is owned by the session. -/
theorem mem_ephemerals_deserialize {image : Image} {restored : KeeperStorage} (h : deserialize image = some restored)
    {session : Int} {path : List Char} (hmem : path ∈ (restored.tree.ephemerals.lookup session).getD []) :
    ∃ node, (path, node) ∈ image.nodes ∧ node.stat.ephemeralOwner = session := by
  rw [linkChildren_ephemerals h] at hmem
  rcases mem_readElements image.nodes _ hmem with h | h
  · simp [KeeperStorage.init] at h
  · exact h

/-- **A snapshot restores ephemerals the storage did not have.** After the
node `/a0000000001` and an ephemeral sequential create of `/a` by session
`1`, whose name is that node's, the session lists `/a0000000001` among its
ephemerals though the node is not its own. A snapshot at the last index
restores the ephemerals from the owners, and the session has none. -/
theorem snapshot_restores_other_ephemerals :
    ∃ s, KeeperStorage.init.run [⟨.create "/a0000000001".toList [] false false, 1, some 1, 0⟩,
        ⟨.create "/a".toList [] true true, 1, some 2, 0⟩] = some s ∧
      s.zxid = 2 ∧ s.tree.ephemerals.lookup 1 = some ["/a0000000001".toList] ∧
      ∃ restored, ((make s 2).2.serialize (make s 2).1).bind deserialize = some restored ∧
        restored.tree.ephemerals.lookup 1 = none :=
  ⟨_, rfl, rfl, rfl, _, rfl, rfl⟩

end KeeperStorageSnapshot

end Daisy.Coordination
