import Mathlib.Data.List.AList
import Daisy.IO.Text

/-!
# Finished tasks of `TaskStatusService`

`TaskStatusService` keeps the status of each task (a DDL, say) in memory,
indexed by id (`indexed_by_id`) and by user (`indexed_by_user`), from the
records of the `__system_tasks` stream. Every `RESCHEDULE_TIME_MS` it runs
`persistentFinishedTask`: the tasks that have `SUCCEEDED` or `FAILED` move
to `finished_tasks`, filed under their `last_modified`, and a filing old
enough (`CACHE_FINISHED_TASK_MS`) is taken out of memory and written to
`system.tasks` with one `INSERT`.

`last_modified` is written by `buildBlock` as `UTCMilliseconds::now()`, the
milliseconds since 1970; the age test subtracts it from
`MonotonicSeconds::now()`, the seconds of the steady clock, which on Linux
counts from boot.

## The model

A task is `TaskStatus` with its fields. The three maps are `AList`s,
iterated in the order of their entries; that order decides only the order
of the rows of the `INSERT`. `indexed_by_user` holds, for each user, the
ids of its tasks: each stands for the pointer `indexed_by_id` holds for
the id. A run of the service is a list of events: a record consumed
(`processRecords`, one record at a time) or a run of
`persistentFinishedTask`, with the reading of the steady clock it makes.
Looking up a user or an id that is not there and going through `end()`
is undefined and stops the model (`none`).

## What is proved

* `flush_of_young`: a run keeps every filing younger than
  `CACHE_FINISHED_TASK_MS` by the steady clock, and writes none of it;
* `moveFinished_only`: a finished task alone in memory moves to its
  filing and out of both indexes;
* `persist_filed`, `run_filed`: runs over the single filing of a task
  change nothing while the filing is young;
* at the end, what this gives for a finished task recorded by a fresh
  service: with its `last_modified` from the UTC clock in milliseconds,
  every run the steady clock times before some thousand centuries of
  uptime keeps it in memory and writes nothing;
* `updateTaskStatus_known`: a record of a known task leaves the indexes by
  user as they are, whatever user it names; so a task whose user changes
  stays filed under its former user (`user_change_keeps_former_index`).
-/

namespace Daisy.DistributedMetadata

/-- `TaskStatusService::TaskStatus`. -/
structure TaskStatus where
  id : String
  /-- The overall status: `SUBMITTED`, `INPROGRESS`, `SUCCEEDED` or `FAILED`. -/
  status : String
  progress : String
  reason : String
  user : String
  context : String
  /-- `last_modified`, `-1` until `buildBlock` sets it. -/
  lastModified : Int
  /-- `created`, `-1` until `buildBlock` sets it. -/
  created : Int
  deriving DecidableEq, Repr

namespace TaskStatus

/-- A task that `persistentFinishedTask` moves out: `SUCCEEDED` or `FAILED`. -/
def IsFinished (t : TaskStatus) : Prop := t.status = "SUCCEEDED" ∨ t.status = "FAILED"

instance (t : TaskStatus) : Decidable t.IsFinished := inferInstanceAs (Decidable (_ ∨ _))

end TaskStatus

/-- `CACHE_FINISHED_TASK_MS`. -/
def cacheFinishedTaskMs : Int := 30000

/-- `RESCHEDULE_TIME_MS`. -/
def rescheduleTimeMs : Nat := 120000

/-- The in-memory state of `TaskStatusService`. -/
structure TaskStatusService where
  /-- `indexed_by_id`. -/
  indexedById : AList fun _ : String => TaskStatus
  /-- `indexed_by_user`: the ids of each user's tasks. -/
  indexedByUser : AList fun _ : String => List String
  /-- `finished_tasks`, by `last_modified`. -/
  finishedTasks : AList fun _ : Int => List TaskStatus

namespace TaskStatusService

/-- The service when it starts. -/
def empty : TaskStatusService := ⟨∅, ∅, ∅⟩

/-- `updateTaskStatus(task)`: a new id is indexed by id and by user; for a
known id every field but `created` is copied over, and the indexes by user
are left as they are. For a known id the entry of the record's user in
`indexed_by_user` is then dereferenced, which is undefined where that user
has none. -/
def updateTaskStatus (s : TaskStatusService) (task : TaskStatus) : Option TaskStatusService :=
  match s.indexedById.lookup task.id with
  | none =>
    some { s with
      indexedById := s.indexedById.insert task.id task
      indexedByUser := s.indexedByUser.insert task.user ((s.indexedByUser.lookup task.user).getD [] ++ [task.id]) }
  | some old => do
    -- `user_map_iter->second.find(task_ptr->id)`, only an `assert` guarding `user_map_iter`
    let _ ← s.indexedByUser.lookup task.user
    pure { s with indexedById := s.indexedById.insert task.id { task with created := old.created } }

/-- The body of the first loop of `persistentFinishedTask` for a finished
task: out of its user's index (and the user out, if none is left), into
`finished_tasks[last_modified]`, out of `indexed_by_id`. -/
def moveFinished (s : TaskStatusService) (t : TaskStatus) : Option TaskStatusService := do
  let ids ← s.indexedByUser.lookup t.user
  if t.id ∉ ids then none
  let ids := ids.erase t.id
  pure {
    indexedById := s.indexedById.erase t.id
    indexedByUser := if ids = [] then s.indexedByUser.erase t.user else s.indexedByUser.insert t.user ids
    finishedTasks := s.finishedTasks.insert t.lastModified ((s.finishedTasks.lookup t.lastModified).getD [] ++ [t]) }

/-- One turn of the second loop of `persistentFinishedTask`: a filing the
age test keeps stays; the tasks of another are added to the list to write
and the filing is erased. -/
def flushStep (monoNow : Int) (acc : (AList fun _ : Int => List TaskStatus) × List TaskStatus)
    (e : Sigma fun _ : Int => List TaskStatus) : (AList fun _ : Int => List TaskStatus) × List TaskStatus :=
  if monoNow - e.1 < cacheFinishedTaskMs then acc else (acc.1.erase e.1, acc.2 ++ e.2)

/-- The second loop of `persistentFinishedTask`, at the steady clock's
reading `monoNow`: the filings the age test keeps, and the tasks of the
others, in the order they are visited. -/
def flush (monoNow : Int) (finished : AList fun _ : Int => List TaskStatus) :
    (AList fun _ : Int => List TaskStatus) × List TaskStatus :=
  finished.entries.foldl (flushStep monoNow) (finished, [])

/-- `persistentFinishedTask()`, at the steady clock's reading `monoNow`:
the state after, and the tasks it writes to `system.tasks`. -/
def persistentFinishedTask (monoNow : Int) (s : TaskStatusService) : Option (TaskStatusService × List TaskStatus) := do
  let s ← s.indexedById.entries.foldlM (fun s e => if e.2.IsFinished then moveFinished s e.2 else pure s) s
  let (finished, persisted) := flush monoNow s.finishedTasks
  pure ({ s with finishedTasks := finished }, persisted)

/-- The head of the `INSERT` of `persistentTaskStatuses`, its two line
splices keeping the indentation of the lines after them. -/
def insertHead : List Char :=
  "INSERT INTO system.tasks ".toList ++ List.replicate 20 ' ' ++
    "(id, status, progress, reason, user, context, created, last_modified) ".toList ++
    List.replicate 20 ' ' ++ "VALUES ".toList

/-- `fmt::format("{}('{}', '{}', '{}', '{}', '{}', '{}', {}, {})", delimiter, ...)`. -/
def taskValue (delimiter : List Char) (t : TaskStatus) : List Char :=
  delimiter ++ "(\x27".toList ++ t.id.toList ++ "\x27, \x27".toList ++ t.status.toList ++ "\x27, \x27".toList ++
    t.progress.toList ++ "\x27, \x27".toList ++ t.reason.toList ++ "\x27, \x27".toList ++ t.user.toList ++
    "\x27, \x27".toList ++ t.context.toList ++ "\x27, ".toList ++ Daisy.IO.writeIntText t.created ++ ", ".toList ++
    Daisy.IO.writeIntText t.lastModified ++ ")".toList

/-- `persistentTaskStatuses(tasks)`: the text of its `INSERT`. -/
def persistentTaskStatuses : List TaskStatus → List Char
  | [] => insertHead
  | t :: ts => insertHead ++ taskValue [] t ++ ts.flatMap (taskValue [','])

/-- What happens to the service. -/
inductive Event where
  /-- `processRecords` of a record that holds `task`. -/
  | record (task : TaskStatus)
  /-- A run of `persistentFinishedTask`, when `MonotonicSeconds::now()` is `monoNow`. -/
  | persist (monoNow : Int)
  deriving DecidableEq, Repr

/-- One event: the state after it and the `INSERT`s it executes. -/
def step (s : TaskStatusService) : Event → Option (TaskStatusService × List (List Char))
  | .record task => do pure (← s.updateTaskStatus task, [])
  | .persist monoNow => do
    let (s, persisted) ← s.persistentFinishedTask monoNow
    pure (s, if persisted = [] then [] else [persistentTaskStatuses persisted])

/-- A run: the state after the events and the `INSERT`s executed on the way. -/
def run (s : TaskStatusService) : List Event → Option (TaskStatusService × List (List Char))
  | [] => some (s, [])
  | e :: es => do
    let (s, inserts) ← s.step e
    let (s, inserts') ← run s es
    pure (s, inserts ++ inserts')

/-! ### Filings the age test keeps -/

/-- The age test keeps a filing whose key is within `CACHE_FINISHED_TASK_MS`
of the reading, and takes out none of its tasks. -/
theorem flush_loop_of_young (monoNow : Int) :
    ∀ (l : List (Sigma fun _ : Int => List TaskStatus)), (∀ e ∈ l, monoNow - e.1 < cacheFinishedTaskMs) →
      ∀ acc, l.foldl (flushStep monoNow) acc = acc
  | [], _, _ => rfl
  | e :: l, hyoung, acc => by
    rw [List.foldl_cons, flushStep, if_pos (hyoung e List.mem_cons_self)]
    exact flush_loop_of_young monoNow l (fun e' he' => hyoung e' (List.mem_cons_of_mem _ he')) acc

/-- **A run keeps the young filings.** When every filing is younger than
`CACHE_FINISHED_TASK_MS` by the reading, `finished_tasks` stays as it is
and no task is written. -/
theorem flush_of_young {monoNow : Int} {finished : AList fun _ : Int => List TaskStatus}
    (hyoung : ∀ k ∈ finished.keys, monoNow - k < cacheFinishedTaskMs) : flush monoNow finished = (finished, []) :=
  flush_loop_of_young monoNow finished.entries (fun e he => hyoung e.1 (List.mem_map_of_mem he)) _

/-! ### A finished task alone in memory -/

section Singleton

variable {κ β : Type} [DecidableEq κ] (k : κ) (b : β)

theorem lookup_singleton : (AList.singleton k b : AList fun _ : κ => β).lookup k = some b := by
  rw [← AList.insert_empty]
  exact AList.lookup_insert _

theorem erase_singleton : (AList.singleton k b : AList fun _ : κ => β).erase k = ∅ :=
  AList.ext (by simp [AList.erase, AList.singleton, List.kerase_cons_eq])

end Singleton

/-- The state after the record of a new task, when nothing else is known. -/
def recorded (t : TaskStatus) : TaskStatusService :=
  ⟨AList.singleton t.id t, AList.singleton t.user [t.id], ∅⟩

/-- The state once the task is filed under its `last_modified`. -/
def filed (t : TaskStatus) : TaskStatusService :=
  ⟨∅, ∅, AList.singleton t.lastModified [t]⟩

theorem updateTaskStatus_empty (t : TaskStatus) : empty.updateTaskStatus t = some (recorded t) := by
  simp [updateTaskStatus, empty, recorded, AList.lookup_empty, AList.insert_empty]

/-- A finished task alone in memory moves to its filing and out of both
indexes, its user's index emptied and erased. -/
theorem moveFinished_only (t : TaskStatus) : (recorded t).moveFinished t = some (filed t) := by
  simp [moveFinished, recorded, filed, lookup_singleton, erase_singleton, AList.lookup_empty, AList.insert_empty]

/-- A run over a task alone in memory files it, and writes nothing while the
filing is young. -/
theorem persist_recorded {t : TaskStatus} (ht : t.IsFinished) {monoNow : Int}
    (hyoung : monoNow - t.lastModified < cacheFinishedTaskMs) :
    (recorded t).persistentFinishedTask monoNow = some (filed t, []) := by
  have hentries : (recorded t).indexedById.entries = [⟨t.id, t⟩] := rfl
  have hflush : flush monoNow (AList.singleton t.lastModified [t]) = (AList.singleton t.lastModified [t], []) :=
    flush_of_young (by simpa [AList.keys_singleton] using hyoung)
  simp only [persistentFinishedTask, hentries, List.foldlM_cons, List.foldlM_nil, if_pos ht, moveFinished_only]
  simp [hflush, filed]

/-- **A young filing stays.** A run over the filing of a task alone
changes nothing and writes nothing while the filing is young. -/
theorem persist_filed (t : TaskStatus) {monoNow : Int} (hyoung : monoNow - t.lastModified < cacheFinishedTaskMs) :
    (filed t).persistentFinishedTask monoNow = some (filed t, []) := by
  have hflush : flush monoNow (AList.singleton t.lastModified [t]) = (AList.singleton t.lastModified [t], []) :=
    flush_of_young (by simpa [AList.keys_singleton] using hyoung)
  simp [persistentFinishedTask, filed, hflush]

/-- Runs of `persistentFinishedTask` over a filed task, at readings all
within `CACHE_FINISHED_TASK_MS` of its `last_modified`, keep it filed and
execute no `INSERT`. -/
theorem run_filed (t : TaskStatus) :
    ∀ readings : List Int, (∀ m ∈ readings, m < t.lastModified + cacheFinishedTaskMs) →
      (filed t).run (readings.map .persist) = some (filed t, [])
  | [], _ => rfl
  | m :: readings, hm => by
    have hstep : (filed t).step (.persist m) = some (filed t, []) := by
      simp [step, persist_filed t (show m - t.lastModified < cacheFinishedTaskMs by
        have := hm m List.mem_cons_self; omega)]
    have hrest := run_filed t readings fun m' hm' => hm m' (List.mem_cons_of_mem _ hm')
    simp [run, hstep, hrest]

/-- **A finished task is never written to `system.tasks`.** A task that
has `SUCCEEDED` or `FAILED`, recorded by a service that knows nothing
else, is then filed and kept in memory by every run of
`persistentFinishedTask` whose steady-clock reading in seconds is below
its `last_modified` in milliseconds plus `CACHE_FINISHED_TASK_MS`, and no
`INSERT` is executed. With `last_modified` a reading of the UTC clock in
milliseconds, that is every run before the machine has been up for about
as many seconds as the milliseconds since 1970. -/
theorem finished_task_never_persisted (t : TaskStatus) (ht : t.IsFinished) (readings : List Int)
    (hreadings : ∀ m ∈ readings, m < t.lastModified + cacheFinishedTaskMs) :
    ∃ s, empty.run (.record t :: readings.map .persist) = some (s, []) ∧
      (readings ≠ [] → s.finishedTasks.lookup t.lastModified = some [t]) := by
  cases readings with
  | nil => exact ⟨recorded t, by simp [run, step, updateTaskStatus_empty], fun h => absurd rfl h⟩
  | cons m readings =>
    have hm : m - t.lastModified < cacheFinishedTaskMs := by
      have := hreadings m List.mem_cons_self; omega
    have hrest := run_filed t readings fun m' hm' => hreadings m' (List.mem_cons_of_mem _ hm')
    refine ⟨filed t, ?_, fun _ => lookup_singleton _ _⟩
    simp [run, step, updateTaskStatus_empty, persist_recorded ht hm, hrest]

/-- A DDL task that succeeded at `1600000000000` ms past 1970, then two
runs a day after boot, two minutes apart. -/
theorem finished_task_never_persisted_ddl :
    ∃ s, empty.run (.record ⟨"ddl", "SUCCEEDED", "", "", "default", "CREATE TABLE t", 1600000000000, 1600000000000⟩ ::
        [86400, 86520].map .persist) = some (s, []) ∧
      ([86400, 86520] ≠ ([] : List Int) → s.finishedTasks.lookup 1600000000000 =
        some [⟨"ddl", "SUCCEEDED", "", "", "default", "CREATE TABLE t", 1600000000000, 1600000000000⟩]) :=
  finished_task_never_persisted ⟨"ddl", "SUCCEEDED", "", "", "default", "CREATE TABLE t", 1600000000000, 1600000000000⟩
    (.inl rfl) [86400, 86520] (by decide)

/-! ### A task that changes its user -/

/-- A record of a known task, whose user has an entry in `indexed_by_user`,
changes the task in `indexed_by_id` and nothing in the indexes by user. -/
theorem updateTaskStatus_known {s : TaskStatusService} {task old : TaskStatus} {ids : List String}
    (hold : s.indexedById.lookup task.id = some old) (huser : s.indexedByUser.lookup task.user = some ids) :
    s.updateTaskStatus task =
      some { s with indexedById := s.indexedById.insert task.id { task with created := old.created } } := by
  simp [updateTaskStatus, hold, huser]

/-- Task `t2` of user `a` is recorded after task `t1` of user `b`, then
`t2` again with user `b`: `indexed_by_user[a]` still holds `t2`, whose user
in `indexed_by_id` is now `b`, and `indexed_by_user[b]` does not. -/
theorem user_change_keeps_former_index :
    ∃ s, empty.run [.record ⟨"t1", "INPROGRESS", "", "", "b", "", 1, 1⟩,
        .record ⟨"t2", "INPROGRESS", "", "", "a", "", 2, 2⟩,
        .record ⟨"t2", "INPROGRESS", "", "", "b", "", 3, 2⟩] = some (s, []) ∧
      s.indexedByUser.lookup "a" = some ["t2"] ∧ s.indexedByUser.lookup "b" = some ["t1"] ∧
      (s.indexedById.lookup "t2").map TaskStatus.user = some "b" := by
  refine ⟨_, rfl, ?_⟩
  decide

end TaskStatusService

end Daisy.DistributedMetadata
