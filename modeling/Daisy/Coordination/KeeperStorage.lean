import Mathlib.Data.List.AList
import Daisy.Coordination.SnapshotableHashTable
import Daisy.IO.Text

/-!
# Keeper's tree: `KeeperStorage`

`KeeperStorage` (`Coordination/KeeperStorage.cpp`) is the state machine of
ClickHouse Keeper: a tree of nodes kept in a `SnapshotableHashTable` from
path to node, each node with its data, its `Stat`, the sequence number its
next sequential child takes, and the set of its children's names; and the
ephemeral nodes of each session. `processRequest` applies one request of a
session. A request of a `multi` returns, with its response, an undo that
puts the tree back as it was before it.

## The model

A request is `Request`, with the fields its `process` reads; the requests
a `multi` may hold are `SubRequest`. The part of the state a request
changes is `Tree`: the container and the ephemerals. An undo is a function
of `Tree`, as the closure is a function of the container and the
ephemerals it holds by reference. `std::chrono::system_clock::now()`, read
for `ctime` and `mtime`, is the argument `now`.

A set of names (`ChildrenSet`, the paths of a session's ephemerals) is a
list with no name twice, in the order its names went in, which is any
order the code may visit them in. The watches, `sessions_and_watchers` and
the session expiry queue are not modelled: no request reads them to decide
what it does to the tree. Going through `end()` of a map (`updateValue` of
a path that is not there, `ephemerals.find` of a session with none) is
undefined, and the model stops (`none`). The `int32` counters (`seq_num`,
`version`, `numChildren`) are integers: no run here comes near their
bounds. `List` throws on an empty path, which no node has.

## What is proved

* `processCreate_sequential_taken`: a sequential create whose name is a
  node already there answers `ZOK`, leaves that node, and has the parent
  count a child it does not list; its undo erases the name
  (`undoCreate_erases`), so `processMulti_erases_taken`: a multi that fails
  after such a create erases the node that was there.
* From the first state, the two creates that reach this, and the multi.
* `find?_foldlM_closeEphemeral`: `Close` erases the paths the session's
  ephemerals list, whoever owns their nodes, and changes no other node but
  their parents; `close_erases_other_sessions_node`: after a sequential
  ephemeral create whose name was taken, the list holds a plain node, which
  `Close` then erases.
-/

namespace Daisy.Coordination

/-- `Coordination::Stat`. -/
structure Stat where
  czxid : Int
  mzxid : Int
  ctime : Int
  mtime : Int
  version : Int
  cversion : Int
  aversion : Int
  ephemeralOwner : Int
  dataLength : Int
  numChildren : Int
  pzxid : Int
  deriving DecidableEq, Repr

/-- `Stat{}`. -/
def Stat.zero : Stat := ⟨0, 0, 0, 0, 0, 0, 0, 0, 0, 0, 0⟩

/-- `Coordination::ACL`. -/
structure ACL where
  permissions : Int
  scheme : List Char
  id : List Char
  deriving DecidableEq, Repr

/-- `KeeperStorage::Node`. -/
structure Node where
  data : List Char
  acls : List ACL
  isSequental : Bool
  stat : Stat
  seqNum : Int
  children : List (List Char)
  deriving DecidableEq, Repr

/-- `Node()`. -/
def Node.root : Node := ⟨[], [], false, Stat.zero, 0, []⟩

/-! The updaters the requests pass to `updateValue` for the parent of the
node they create or remove. -/

/-- Create's updater: the sequence number goes up even for a node that is
not sequential. -/
def Node.addChild (child : List Char) (p : Node) : Node :=
  { p with seqNum := p.seqNum + 1, children := p.children.insert child,
           stat := { p.stat with cversion := p.stat.cversion + 1, numChildren := p.stat.numChildren + 1 } }

/-- The updater of create's undo. -/
def Node.undoAddChild (child : List Char) (p : Node) : Node :=
  { p with seqNum := p.seqNum - 1, children := p.children.erase child,
           stat := { p.stat with cversion := p.stat.cversion - 1, numChildren := p.stat.numChildren - 1 } }

/-- The updater of remove, and of the ephemeral sweep of close. -/
def Node.removeChild (child : List Char) (p : Node) : Node :=
  { p with children := p.children.erase child,
           stat := { p.stat with numChildren := p.stat.numChildren - 1, cversion := p.stat.cversion + 1 } }

/-- The updater of remove's undo. -/
def Node.undoRemoveChild (child : List Char) (p : Node) : Node :=
  { p with children := p.children.insert child,
           stat := { p.stat with numChildren := p.stat.numChildren + 1, cversion := p.stat.cversion - 1 } }

/-- `KeeperStorage::Container`. -/
abbrev Container := SnapshotableHashTable Node

/-- `KeeperStorage::Ephemerals`: the paths of each session's ephemeral nodes. -/
abbrev Ephemerals := AList fun _ : Int => List (List Char)

/-- `ephemerals[session].emplace(path)`, the set made if there is none. -/
def Ephemerals.emplace (e : Ephemerals) (session : Int) (path : List Char) : Ephemerals :=
  e.insert session (((e.lookup session).getD []).insert path)

/-- `ephemerals[session].erase(path)`, the set made if there is none. -/
def Ephemerals.eraseAt (e : Ephemerals) (session : Int) (path : List Char) : Ephemerals :=
  e.insert session (((e.lookup session).getD []).erase path)

/-! ### Paths -/

/-- `path.rfind(c)`. -/
def rfind (c : Char) : List Char → Option Nat
  | [] => none
  | x :: xs =>
    match rfind c xs with
    | some i => some (i + 1)
    | none => if x = c then some 0 else none

/-- `parentPath(path)`: up to the last slash, `/` for a child of the root,
and the whole path when there is no slash (`substr(0, npos)`). -/
def parentPath (path : List Char) : List Char :=
  match rfind '/' path with
  | some pos => if pos > 0 then path.take pos else ['/']
  | none => path

/-- `getBaseName(path)`: after the last slash; the whole path when there is
none (`npos + 1` wraps to `0`). -/
def getBaseName (path : List Char) : List Char :=
  match rfind '/' path with
  | some pos => path.drop (pos + 1)
  | none => path

/-- `seq_num_str << std::setw(10) << std::setfill('0') << seq_num`. -/
def sequentialSuffix (seqNum : Int) : List Char :=
  let digits := Daisy.IO.writeIntText seqNum
  List.replicate (10 - digits.length) '0' ++ digits

theorem rfind_lt {c : Char} : ∀ {path : List Char} {pos : Nat}, rfind c path = some pos → pos < path.length
  | [], _, h => by simp [rfind] at h
  | x :: xs, pos, h => by
    unfold rfind at h
    split at h
    · rename_i i hi
      cases h
      simpa using rfind_lt hi
    · split at h <;> cases h
      simp

theorem length_parentPath_le (path : List Char) : (parentPath path).length ≤ path.length := by
  unfold parentPath
  split
  · rename_i pos hpos
    have hlt := rfind_lt hpos
    split
    · simp
    · simp only [List.length_singleton]
      omega
  · exact Nat.le_refl _

theorem sequentialSuffix_ne_nil (seqNum : Int) : sequentialSuffix seqNum ≠ [] := by
  simp [sequentialSuffix, Daisy.IO.writeIntText_ne_nil]

/-- A sequential name is never its own parent path. -/
theorem parentPath_ne_sequential (path : List Char) (seqNum : Int) :
    parentPath path ≠ path ++ sequentialSuffix seqNum := by
  intro h
  have hlen := congrArg List.length h
  have hpos : 0 < (sequentialSuffix seqNum).length := List.length_pos_iff.2 (sequentialSuffix_ne_nil seqNum)
  have hle := length_parentPath_le path
  simp only [List.length_append] at hlen
  omega

/-! ### Requests and responses -/

/-- `Coordination::Error`, the codes the requests answer with. -/
inductive Error where
  | ok | noNode | nodeExists | noChildrenForEphemerals | badVersion | notEmpty | runtimeInconsistency
  deriving DecidableEq, Repr

/-- A response, with what each kind carries. -/
inductive Response where
  | heartbeat
  | sync (path : List Char)
  | auth
  | close
  | create (error : Error) (pathCreated : List Char)
  | remove (error : Error)
  | exists (error : Error) (stat : Stat)
  | get (error : Error) (data : List Char) (stat : Stat)
  | set (error : Error) (stat : Stat)
  | list (error : Error) (names : List (List Char)) (stat : Stat)
  | check (error : Error)
  /-- `ZooKeeperErrorResponse`. -/
  | error (error : Error)
  | multi (error : Error) (responses : List Response)
  deriving Repr

/-- A response's `error`. -/
def Response.errorCode : Response → Error
  | .create e _ | .remove e | .exists e _ | .get e _ _ | .set e _ | .list e _ _ | .check e | .error e | .multi e _ => e
  | _ => .ok

/-- The requests a `multi` may hold. -/
inductive SubRequest where
  | create (path data : List Char) (isEphemeral isSequential : Bool)
  | remove (path : List Char) (version : Int)
  | set (path data : List Char) (version : Int)
  | check (path : List Char) (version : Int)
  deriving DecidableEq, Repr

/-- A request, with the fields its `process` reads. -/
inductive Request where
  | heartbeat
  | sync (path : List Char)
  | auth
  | close
  | create (path data : List Char) (isEphemeral isSequential : Bool)
  | remove (path : List Char) (version : Int)
  | exists (path : List Char)
  | get (path : List Char)
  | set (path data : List Char) (version : Int)
  | list (path : List Char)
  | simpleList (path : List Char)
  | check (path : List Char) (version : Int)
  | multi (requests : List SubRequest)
  deriving DecidableEq, Repr

/-- What a request changes: the container and the ephemerals. -/
structure Tree where
  container : Container
  ephemerals : Ephemerals

/-- An undo: the closure a request returns to put the tree back. -/
abbrev Undo := Tree → Option Tree

/-- What `process` gives: the response, the undo, and the tree after. -/
abbrev Processed := Response × Option Undo × Tree

/-! The undos, each a function of what its closure captures. -/

/-- The undo of a create: the node it reported out, and the parent's count,
sequence number and name of it back. -/
def undoCreate (sessionId : Int) (pathCreated : List Char) (isEphemeral : Bool) (parent child : List Char) :
    Undo := fun t => do
  let container := (t.container.erase pathCreated).1
  let ephemerals := if isEphemeral then t.ephemerals.eraseAt sessionId pathCreated else t.ephemerals
  let container ← container.updateValue parent (Node.undoAddChild child)
  pure ⟨container, ephemerals⟩

/-- The undo of a remove: the node back as it was, and its name in the parent. -/
def undoRemove (prev : Node) (path child : List Char) : Undo := fun t => do
  let ephemerals := if prev.stat.ephemeralOwner ≠ 0 then t.ephemerals.emplace prev.stat.ephemeralOwner path
    else t.ephemerals
  let container := (t.container.insert path prev).1
  let container ← container.updateValue (parentPath path) (Node.undoRemoveChild child)
  pure ⟨container, ephemerals⟩

/-- The undo of a set: the node's value back, and the parent's `cversion`. -/
def undoSet (prev : Node) (path : List Char) : Undo := fun t => do
  let container ← t.container.updateValue path fun _ => prev
  let container ← container.updateValue (parentPath path) fun p =>
    { p with stat := { p.stat with cversion := p.stat.cversion - 1 } }
  pure ⟨container, t.ephemerals⟩

section Process

variable (zxid sessionId now : Int)

/-- `KeeperStorageCreateRequest::process`. -/
def processCreate (path data : List Char) (isEphemeral isSequential : Bool) (t : Tree) : Option Processed := do
  if t.container.contains path then return (.create .nodeExists [], none, t)
  let parent := parentPath path
  let some parentNode := t.container.find? parent | return (.create .noNode [], none, t)
  if parentNode.stat.ephemeralOwner ≠ 0 then return (.create .noChildrenForEphemerals [], none, t)
  let created : Node := {
    data, acls := [], isSequental := isSequential, seqNum := 0, children := []
    stat := { Stat.zero with
      czxid := zxid, mzxid := zxid, ctime := now, mtime := now, numChildren := 0,
      dataLength := data.length, ephemeralOwner := if isEphemeral then sessionId else 0 } }
  -- the sequential name is made after the existence check, from the parent's counter
  let pathCreated := if isSequential then path ++ sequentialSuffix parentNode.seqNum else path
  let child := getBaseName pathCreated
  let container ← t.container.updateValue parent (Node.addChild child)
  let container := (container.insert pathCreated created).1
  let ephemerals := if isEphemeral then t.ephemerals.emplace sessionId pathCreated else t.ephemerals
  pure (.create .ok pathCreated, some (undoCreate sessionId pathCreated isEphemeral parent child),
    ⟨container, ephemerals⟩)

/-- `KeeperStorageRemoveRequest::process`. -/
def processRemove (path : List Char) (version : Int) (t : Tree) : Option Processed := do
  let some node := t.container.find? path | return (.remove .noNode, none, t)
  if version ≠ -1 ∧ version ≠ node.stat.version then return (.remove .badVersion, none, t)
  if node.stat.numChildren ≠ 0 then return (.remove .notEmpty, none, t)
  let owner := node.stat.ephemeralOwner
  let ephemerals ← if owner ≠ 0 then do
      let paths ← t.ephemerals.lookup owner
      let paths := paths.erase path
      pure (if paths = [] then t.ephemerals.erase owner else t.ephemerals.insert owner paths)
    else pure t.ephemerals
  let child := getBaseName path
  let container ← t.container.updateValue (parentPath path) (Node.removeChild child)
  let container := (container.erase path).1
  pure (.remove .ok, some (undoRemove node path child), ⟨container, ephemerals⟩)

/-- `KeeperStorageSetRequest::process`. -/
def processSet (path data : List Char) (version : Int) (t : Tree) : Option Processed := do
  let some prev := t.container.find? path | return (.set .noNode Stat.zero, none, t)
  if ¬ (version = -1 ∨ version = prev.stat.version) then return (.set .badVersion Stat.zero, none, t)
  let updated : Node := { prev with
    data := data
    stat := { prev.stat with version := prev.stat.version + 1, mzxid := zxid, mtime := now, dataLength := data.length } }
  let container ← t.container.updateValue path fun _ => updated
  let container ← container.updateValue (parentPath path) fun p =>
    { p with stat := { p.stat with cversion := p.stat.cversion + 1 } }
  -- the response reads the element the first update returned: outside
  -- snapshot mode, the update of the parent writes into it when the path is
  -- its own parent (`/`)
  let stat := if ¬ t.container.snapshotMode ∧ parentPath path = path then
      { updated.stat with cversion := updated.stat.cversion + 1 } else updated.stat
  pure (.set .ok stat, some (undoSet prev path), ⟨container, t.ephemerals⟩)

/-- `KeeperStorageCheckRequest::process`. -/
def processCheck (path : List Char) (version : Int) (t : Tree) : Option Processed :=
  match t.container.find? path with
  | none => some (.check .noNode, none, t)
  | some node =>
    if version ≠ -1 ∧ version ≠ node.stat.version then some (.check .badVersion, none, t)
    else some (.check .ok, none, t)

/-- A sub-request's `process`. -/
def SubRequest.process : SubRequest → Tree → Option Processed
  | .create path data isEphemeral isSequential => processCreate zxid sessionId now path data isEphemeral isSequential
  | .remove path version => processRemove path version
  | .set path data version => processSet zxid now path data version
  | .check path version => processCheck path version

/-- The undos of the sub-requests done, run from the last to the first. -/
def runUndos : List (Option Undo) → Tree → Option Tree
  | [], t => some t
  | undo :: undos, t => do
    let t ← match undo with
      | some undo => undo t
      | none => pure t
    runUndos undos t

/-- The loop of `KeeperStorageMultiRequest::process`, over the sub-requests
left, with the undos and responses of those done. At the first failure the
responses so far keep only their errors, the rest are
`ZRUNTIMEINCONSISTENCY`, and the undos are run in reverse. -/
def processMultiLoop : List SubRequest → List (Option Undo) → List Response → Tree → Option Processed
  | [], _, responses, t => some (.multi .ok responses, none, t)
  | request :: rest, undos, responses, t => do
    let (response, undo, t) ← request.process zxid sessionId now t
    if response.errorCode ≠ .ok then
      let responses := (responses ++ [response]).map (fun r => .error r.errorCode) ++
        rest.map fun _ => .error .runtimeInconsistency
      let t ← runUndos undos.reverse t
      pure (.multi .ok responses, none, t)
    else processMultiLoop rest (undos ++ [undo]) (responses ++ [response]) t

/-- `KeeperStorageMultiRequest::process`. -/
def processMulti (requests : List SubRequest) (t : Tree) : Option Processed :=
  processMultiLoop zxid sessionId now requests [] [] t

/-- `process` of a request other than `Close`. -/
def Request.process : Request → Tree → Option Processed
  | .heartbeat, t => some (.heartbeat, none, t)
  | .sync path, t => some (.sync path, none, t)
  | .auth, t => some (.auth, none, t)
  | .close, t => some (.close, none, t)
  | .create path data isEphemeral isSequential, t =>
    processCreate zxid sessionId now path data isEphemeral isSequential t
  | .remove path version, t => processRemove path version t
  | .exists path, t =>
    match t.container.find? path with
    | some node => some (.exists .ok node.stat, none, t)
    | none => some (.exists .noNode Stat.zero, none, t)
  | .get path, t =>
    match t.container.find? path with
    | some node => some (.get .ok node.data node.stat, none, t)
    | none => some (.get .noNode [] Stat.zero, none, t)
  | .set path data version, t => processSet zxid now path data version t
  | .list path, t | .simpleList path, t =>
    match t.container.find? path with
    | some node => some (.list .ok node.children node.stat, none, t)
    | none => some (.list .noNode [] Stat.zero, none, t)
  | .check path version, t => processCheck path version t
  | .multi requests, t => processMulti zxid sessionId now requests t

end Process

/-! ### A sequential name that is already taken -/

section Collision

open SnapshotableHashTable

variable {zxid sessionId now : Int}

/-- **A sequential create over an existing node.** The existence check is
made on the path asked for, and the sequential name only after it: when the
name made is a node already there, the create still answers `ZOK` with that
name and an undo that erases it, the node there is left as it was, the
session's ephemerals get the name when the create is ephemeral, and the
parent counts one child more under the same names. -/
theorem processCreate_sequential_taken {t : Tree} {path data : List Char} {isEphemeral : Bool} {parent : Node}
    (hfree : t.container.contains path = false) (hparent : t.container.find? (parentPath path) = some parent)
    (howner : parent.stat.ephemeralOwner = 0)
    (htaken : t.container.contains (path ++ sequentialSuffix parent.seqNum) = true)
    (hchild : getBaseName (path ++ sequentialSuffix parent.seqNum) ∈ parent.children) :
    ∃ t', processCreate zxid sessionId now path data isEphemeral true t =
        some (.create .ok (path ++ sequentialSuffix parent.seqNum),
          some (undoCreate sessionId (path ++ sequentialSuffix parent.seqNum) isEphemeral (parentPath path)
            (getBaseName (path ++ sequentialSuffix parent.seqNum))), t') ∧
      (∀ key, key ≠ parentPath path → t'.container.find? key = t.container.find? key) ∧
      t'.container.find? (parentPath path) =
        some { parent with seqNum := parent.seqNum + 1, stat := { parent.stat with
          cversion := parent.stat.cversion + 1, numChildren := parent.stat.numChildren + 1 } } ∧
      t'.ephemerals = if isEphemeral then t.ephemerals.emplace sessionId (path ++ sequentialSuffix parent.seqNum)
        else t.ephemerals := by
  set created := path ++ sequentialSuffix parent.seqNum
  set child := getBaseName created
  obtain ⟨c, hc⟩ : ∃ c, t.container.updateValue (parentPath path) (Node.addChild child) = some c :=
    Option.ne_none_iff_exists'.1 fun h => by simp [(updateValue_eq_none_iff _ _ _).1 h] at hparent
  have hfind := fun key => find?_updateValue _ _ key hc
  -- the name made is taken: `insert` leaves the container as the update left it
  have hins : ∀ v, (c.insert created v).1 = c := by
    have hcontains : c.contains created = true := by
      rw [contains_eq_isSome, hfind created, if_neg (parentPath_ne_sequential path parent.seqNum).symm,
        ← contains_eq_isSome, htaken]
    intro v
    simp [SnapshotableHashTable.insert, hcontains]
  have hrun : processCreate zxid sessionId now path data isEphemeral true t =
      some (.create .ok created, some (undoCreate sessionId created isEphemeral (parentPath path) child),
        ⟨c, if isEphemeral then t.ephemerals.emplace sessionId created else t.ephemerals⟩) := by
    simp [processCreate, hfree, hparent, howner, hc, hins, created, child]
  refine ⟨_, hrun, fun key hkey => ?_, ?_, rfl⟩
  · rw [hfind key, if_neg hkey]
  · rw [hfind, if_pos rfl, hparent]
    simp [Node.addChild, List.insert_of_mem hchild]

/-- The undo of a create erases the path it was given, whatever node is
there by then. -/
theorem undoCreate_erases {u u' : Tree} {pathCreated parent child : List Char} {isEphemeral : Bool}
    (h : undoCreate sessionId pathCreated isEphemeral parent child u = some u') (hne : pathCreated ≠ parent) :
    u'.container.find? pathCreated = none := by
  simp only [undoCreate, bind, Option.bind_eq_some_iff, pure, Option.some.injEq] at h
  obtain ⟨c, hc, rfl⟩ := h
  rw [find?_updateValue _ _ _ hc, if_neg hne, find?_erase, if_pos rfl]

/-- The undo of a create runs when the parent is there, apart from the path. -/
theorem undoCreate_isSome {u : Tree} {pathCreated parent child : List Char} {isEphemeral : Bool} {p : Node}
    (hparent : u.container.find? parent = some p) (hne : pathCreated ≠ parent) :
    ∃ u', undoCreate sessionId pathCreated isEphemeral parent child u = some u' := by
  obtain ⟨c, hc⟩ : ∃ c, (u.container.erase pathCreated).1.updateValue parent (Node.undoAddChild child) = some c :=
    Option.ne_none_iff_exists'.1 fun h => by
      rw [updateValue_eq_none_iff, find?_erase, if_neg (Ne.symm hne), hparent] at h
      cases h
  exact ⟨⟨c, if isEphemeral then u.ephemerals.eraseAt sessionId pathCreated else u.ephemerals⟩,
    by simp [undoCreate, hc]⟩

/-- **A failed multi erases the node a sequential create named.** A multi of
a sequential create whose name is taken, then a check of a missing node:
the check fails, every response is an error, and the undo of the create
erases the node that was there before the multi. -/
theorem processMulti_erases_taken {t : Tree} {path data check : List Char} {isEphemeral : Bool}
    {parent : Node} {version : Int}
    (hfree : t.container.contains path = false) (hparent : t.container.find? (parentPath path) = some parent)
    (howner : parent.stat.ephemeralOwner = 0)
    (htaken : t.container.contains (path ++ sequentialSuffix parent.seqNum) = true)
    (hchild : getBaseName (path ++ sequentialSuffix parent.seqNum) ∈ parent.children)
    (hmissing : t.container.find? check = none) (hcheck : check ≠ parentPath path) :
    ∃ t'', processMulti zxid sessionId now [.create path data isEphemeral true, .check check version] t =
        some (.multi .ok [.error .ok, .error .noNode], none, t'') ∧
      t''.container.find? (path ++ sequentialSuffix parent.seqNum) = none := by
  have hne := (parentPath_ne_sequential path parent.seqNum).symm
  obtain ⟨t', hrun, hkeep, hpar, -⟩ :=
    @processCreate_sequential_taken zxid sessionId now t path data isEphemeral parent hfree hparent howner htaken hchild
  have hchecked : processCheck check version t' = some (.check .noNode, none, t') := by
    simp [processCheck, hkeep check hcheck, hmissing]
  obtain ⟨t'', hundo⟩ :=
    @undoCreate_isSome sessionId _ _ _ (getBaseName (path ++ sequentialSuffix parent.seqNum)) isEphemeral _ hpar hne
  refine ⟨t'', ?_, undoCreate_erases hundo hne⟩
  simp [processMulti, processMultiLoop, SubRequest.process, hrun, hchecked, runUndos, hundo, Response.errorCode]

end Collision

/-! ### The storage -/

/-- The state of `KeeperStorage` that the requests read or change. -/
structure KeeperStorage where
  sessionIdCounter : Int
  tree : Tree
  sessionAndTimeout : AList fun _ : Int => Int
  zxid : Int

namespace KeeperStorage

/-- `KeeperStorage(tick_time_ms)`: the root `/` alone. -/
def init : KeeperStorage :=
  ⟨1, ⟨(SnapshotableHashTable.empty.insert ['/'] Node.root).1, ∅⟩, ∅, 0⟩

/-- The sweep of `Close` over one ephemeral path of the session. -/
def closeEphemeral (container : Container) (path : List Char) : Option Container :=
  ((container.erase path).1).updateValue (parentPath path) (Node.removeChild (getBaseName path))

/-- `processRequest(request, session_id, new_last_zxid)` at the wall clock
`now`: the storage after and the response to the session. `none` when the
code throws (a `new_last_zxid` not above `zxid`) or is undefined. -/
def processRequest (s : KeeperStorage) (request : Request) (sessionId : Int) (newLastZxid : Option Int)
    (now : Int) : Option (KeeperStorage × Response) := do
  let zxid ← match newLastZxid with
    | some z => if s.zxid ≥ z then none else some z
    | none => some s.zxid
  -- session_and_timeout[session_id] makes the entry if there is none
  let sessionAndTimeout :=
    if (s.sessionAndTimeout.lookup sessionId).isSome then s.sessionAndTimeout else s.sessionAndTimeout.insert sessionId 0
  let s := { s with zxid, sessionAndTimeout }
  match request with
  | .close =>
    let paths := (s.tree.ephemerals.lookup sessionId).getD []
    let container ← paths.foldlM closeEphemeral s.tree.container
    pure ({ s with
      tree := ⟨container, s.tree.ephemerals.erase sessionId⟩
      sessionAndTimeout := s.sessionAndTimeout.erase sessionId }, .close)
  | request =>
    let (response, _, tree) ← request.process zxid sessionId now s.tree
    pure ({ s with tree }, response)

/-- A call of `processRequest`: the request, its session, the index of the
log entry it is committed at (`std::nullopt` for a read served locally),
and the wall clock it reads. -/
structure Call where
  request : Request
  sessionId : Int
  newLastZxid : Option Int
  now : Int

/-- A run: each call in turn. -/
def run (s : KeeperStorage) : List Call → Option KeeperStorage
  | [] => some s
  | call :: rest => do
    let (s, _) ← s.processRequest call.request call.sessionId call.newLastZxid call.now
    run s rest

/-- **Two creates give the root a child it does not list.** A node
`/a0000000001`, then a sequential `/a`: the root's sequence number is `1`
after the first create, so the second makes the same name. It answers
`ZOK`, leaves the node as it was, and the root counts two children while
it lists one. -/
theorem sequential_create_counts_missing_child :
    ∃ s, init.run [⟨.create "/a0000000001".toList [] false false, 1, some 1, 0⟩,
        ⟨.create "/a".toList [] false true, 1, some 2, 0⟩] = some s ∧
      ∃ root, s.tree.container.find? ['/'] = some root ∧ root.stat.numChildren = 2 ∧
        root.children = ["a0000000001".toList] :=
  ⟨_, rfl, _, rfl, rfl, rfl⟩

/-- **A failed multi erases a node that was there before it.** After the
node `/a0000000001`, a multi of a sequential create of `/a`, whose name is
that node's, and a check of the missing `/b`: the check fails, every
response is an error, and the undo of the create erases `/a0000000001`. -/
theorem failed_multi_erases_existing_node :
    ∃ s, init.run [⟨.create "/a0000000001".toList [] false false, 1, some 1, 0⟩] = some s ∧
      s.tree.container.contains "/a0000000001".toList = true ∧
      ∃ s', s.processRequest (.multi [.create "/a".toList [] false true, .check "/b".toList (-1)]) 1 (some 2) 0 =
          some (s', .multi .ok [.error .ok, .error .noNode]) ∧
        s'.tree.container.contains "/a0000000001".toList = false :=
  ⟨_, rfl, rfl, _, rfl, rfl⟩

/-- The sweep of `Close` leaves every node that is neither one of the paths it
erases nor the parent of one as it was. -/
theorem find?_foldlM_closeEphemeral {q : List Char} :
    ∀ {paths : List (List Char)} {c c' : Container}, q ∉ paths → (∀ p ∈ paths, parentPath p ≠ q) →
      paths.foldlM closeEphemeral c = some c' → c'.find? q = c.find? q := by
  intro paths
  induction paths with
  | nil =>
    intro c c' _ _ h
    cases h
    rfl
  | cons p ps ih =>
    intro c c' hq hpar h
    obtain ⟨c₁, hc₁, hrest⟩ := Option.bind_eq_some_iff.mp h
    have hqp : q ≠ p := fun hqp => hq (hqp ▸ List.mem_cons_self)
    rw [ih (fun h => hq (List.mem_cons_of_mem _ h)) (fun p hp => hpar p (List.mem_cons_of_mem _ hp)) hrest,
      SnapshotableHashTable.find?_updateValue _ _ _ hc₁, if_neg (Ne.symm (hpar p List.mem_cons_self)),
      SnapshotableHashTable.find?_erase, if_neg hqp]

/-- **`Close` erases a node of another session.** Session `1` creates the
plain node `/a0000000001`; session `2` then creates `/a`, ephemeral and
sequential, whose name is that node's. The create answers `ZOK` and leaves
the node as it was, owned by no session, but puts its path among session
`2`'s ephemerals, so `Close` of session `2` erases it. -/
theorem close_erases_other_sessions_node :
    ∃ s, init.run [⟨.create "/a0000000001".toList [] false false, 1, some 1, 0⟩,
        ⟨.create "/a".toList [] true true, 2, some 2, 0⟩] = some s ∧
      (∃ node, s.tree.container.find? "/a0000000001".toList = some node ∧ node.stat.ephemeralOwner = 0) ∧
      ∃ s', s.processRequest .close 2 (some 3) 0 = some (s', .close) ∧
        s'.tree.container.find? "/a0000000001".toList = none :=
  ⟨_, rfl, ⟨_, rfl, rfl⟩, _, rfl, rfl⟩

end KeeperStorage

end Daisy.Coordination
