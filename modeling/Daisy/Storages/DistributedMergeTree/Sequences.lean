import Mathlib.Data.List.Sort

/-!
# The sequence number checkpoint of a `DistributedMergeTree` shard

`StorageDistributedMergeTree` consumes the records of its shard from the
Distributed Write Ahead Log in order and hands each block `[first, second]`
to `doCommit`, which queues it in `outstanding_sns` and commits it to the
file system on a thread pool. The pool finishes blocks in any order and
calls `progressSequences`: a block that is not the oldest outstanding one
waits in the ordered set `local_committed_sns`; when the oldest finishes,
`last_sn` moves to its end and past every block behind it that already
finished. `commitSN` hands `last_sn` to the log (`prev_sn`) and, every
hundred records, to `committed_sn.txt` (`local_sn`). All of it happens under
`sns_mutex`, so the calls form one sequence of events.

## The model

The state is `SnState`; the deque and the ordered set are lists, the set kept
in increasing order as `std::set` iterates it. Each call is a function of the
state. An `assert` aborts a debug build and is compiled out of a release one
(`Build`); calling `front()` on an empty deque is undefined and stops the
model. The work on the thread pool and the file writes of `commitSNLocal` are
not modelled; their effect on the state is an event of its own.
-/

namespace Daisy.DistributedMergeTree

/-- `SequencePair`: the first and the last sequence number of a block. -/
abbrev SequencePair := Int × Int

/-- `operator<` of `std::pair`: by the first, then by the second. -/
def pairLT (a b : SequencePair) : Prop := a.1 < b.1 ∨ (a.1 = b.1 ∧ a.2 < b.2)

instance : DecidableRel pairLT := fun _ _ => inferInstanceAs (Decidable (_ ∨ _))

/-- `std::set<SequencePair>::insert`, the set as its elements in increasing
order: nothing for an element already there. -/
def setInsert (x : SequencePair) (s : List SequencePair) : List SequencePair :=
  if x ∈ s then s else s.orderedInsert (fun a b => ¬pairLT b a) x

/-- How the binary is built: `assert` aborts a debug build and is compiled out
of a release build. -/
inductive Build where
  | debug
  | release
  deriving DecidableEq, Repr

/-- Why a call does not return. -/
inductive Failure where
  /-- An `assert` of a debug build, with its condition as written. -/
  | assertionFailed (condition : String)
  /-- `front()` of an empty `std::deque`: undefined behaviour. -/
  | frontOfEmptyDeque
  /-- `back()` of an empty `std::vector`: undefined behaviour. -/
  | backOfEmptyVector
  deriving DecidableEq, Repr

/-- `assert(condition)`. -/
def assert (b : Build) (condition : Bool) (text : String) : Except Failure Unit :=
  match b with
  | .debug => if condition then pure () else throw (.assertionFailed text)
  | .release => pure ()

theorem assert_of_true {b : Build} {c : Bool} (text : String) (h : c = true) : assert b c text = .ok () := by
  cases b <;> simp [assert, h] <;> rfl

/-- `assert` holds in a release build, and in a debug build where its
condition does. -/
theorem assert_ok {b : Build} {condition : Bool} {text : String} (h : b = .release ∨ condition = true) :
    assert b condition text = .ok () := by
  rcases h with rfl | h
  · rfl
  · exact assert_of_true text h

/-- The fields of `StorageDistributedMergeTree` under `sns_mutex`. -/
structure SnState where
  /-- `outstanding_sns`: the blocks handed to the thread pool, oldest first. -/
  outstandingSns : List SequencePair
  /-- `local_committed_sns`: blocks committed ahead of an older one, in increasing order. -/
  localCommittedSns : List SequencePair
  /-- `last_sn`: to be committed to the log. -/
  lastSn : Int
  /-- `prev_sn`: committed to the log. -/
  prevSn : Int
  /-- `local_sn`: committed to `committed_sn.txt`. -/
  localSn : Int
  deriving DecidableEq, Repr

/-- The state the constructor leaves: `last_sn` and `local_sn` are the
sequence number `sn` committed to `committed_sn.txt` when there is one
(`sn ≥ 0`), `prev_sn` is `-1`. -/
def SnState.initial (sn : Int) : SnState :=
  if 0 ≤ sn then ⟨[], [], sn, -1, sn⟩ else ⟨[], [], -1, -1, -1⟩

/-- The loop of `progressSequencesWithoutLock` that moves `last_sn` past the
fronts of `outstanding_sns` that already committed: it returns the deque, the
set and `last_sn` after it. -/
def catchUp (b : Build) :
    List SequencePair → List SequencePair → Int → Except Failure (List SequencePair × List SequencePair × Int)
  | outstanding, [], lastSn => pure (outstanding, [], lastSn)
  | [], _ :: _, _ => throw .frontOfEmptyDeque
  | p :: ps, c :: cs, lastSn =>
    if c = p then do
      -- sn shall be consecutive
      assert b (p.1 == lastSn + 1) "p.first == last_sn + 1"
      catchUp b ps cs p.2
    else pure (p :: ps, c :: cs, lastSn)

/-- `progressSequencesWithoutLock`: the block `seq` committed to the file system. -/
def progressSequencesWithoutLock (b : Build) (seq : SequencePair) (s : SnState) : Except Failure SnState := do
  assert b (!s.outstandingSns.isEmpty) "!outstanding_sns.empty()"
  match s.outstandingSns with
  | [] => throw .frontOfEmptyDeque
  | front :: rest =>
    if seq ≠ front then
      -- out of order committed sn
      pure { s with localCommittedSns := setInsert seq s.localCommittedSns }
    else
      let (outstanding, committed, lastSn) ← catchUp b rest s.localCommittedSns seq.2
      assert b (decide (committed.length ≤ outstanding.length)) "outstanding_sns.size() >= local_committed_sns.size()"
      assert b (decide (s.prevSn ≤ lastSn)) "last_sn >= prev_sn"
      pure { s with outstandingSns := outstanding, localCommittedSns := committed, lastSn := lastSn }

/-- What `doCommit` does under the lock: queue the block, and for a block left
empty by deduplication mark it committed at once. -/
def doCommit (b : Build) (seq : SequencePair) (empty : Bool) (s : SnState) : Except Failure SnState := do
  assert b (decide (s.lastSn < seq.1)) "seq_pair.first > last_sn"
  let s := { s with outstandingSns := s.outstandingSns ++ [seq] }
  if empty then progressSequencesWithoutLock b seq s
  else
    assert b (decide (s.localCommittedSns.length ≤ s.outstandingSns.length))
      "outstanding_sns.size() >= local_committed_sns.size()"
    pure s

/-- What `commitSN` does under the lock: a new `last_sn` is taken as committed
to the log. It returns the sequence number to commit (`-1` for none) and the
records since the last local commit. -/
def commitSN (s : SnState) : SnState × Int × Int :=
  if s.lastSn ≠ s.prevSn then ({ s with prevSn := s.lastSn }, s.lastSn, s.lastSn - s.localSn)
  else (s, -1, 0)

/-- What reaches the state under `sns_mutex`, in the order the lock is taken. -/
inductive Event where
  /-- `doCommit(block, seq_pair, ...)`; `empty` for a block deduplication emptied. -/
  | doCommit (seq : SequencePair) (empty : Bool)
  /-- `progressSequences(seq)` from the thread pool once the block is on disk. -/
  | progressSequences (seq : SequencePair)
  /-- `commitSN()`. -/
  | commitSN
  /-- `commitSNLocal(sn)` once `committed_sn.txt` holds `sn`. -/
  | commitSNLocal (sn : Int)
  deriving DecidableEq, Repr

/-- One event. -/
def step (b : Build) (s : SnState) : Event → Except Failure SnState
  | .doCommit seq empty => doCommit b seq empty s
  | .progressSequences seq => progressSequencesWithoutLock b seq s
  | .commitSN => pure (commitSN s).1
  | .commitSNLocal sn => pure { s with localSn := sn }

/-- A sequence of events from `s`. -/
def run (b : Build) (s : SnState) (es : List Event) : Except Failure SnState := es.foldlM (step b) s

theorem run_nil (b : Build) (s : SnState) : run b s [] = .ok s := rfl

theorem run_append_singleton (b : Build) (s : SnState) (es : List Event) (e : Event) :
    run b s (es ++ [e]) = (run b s es).bind fun s' => step b s' e := by
  simp only [run, List.foldlM_append, List.foldlM_cons, List.foldlM_nil]
  cases List.foldlM (step b) s es with
  | error err => rfl
  | ok s' =>
    show (step b s' e).bind pure = step b s' e
    cases step b s' e <;> rfl

end Daisy.DistributedMergeTree
