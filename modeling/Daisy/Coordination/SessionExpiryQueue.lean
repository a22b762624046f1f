import Mathlib.Data.List.AList

/-!
# `SessionExpiryQueue`

Keeper's expiry queue (`Coordination/SessionExpiryQueue.{h,cpp}`) keeps the
sessions in buckets keyed by the time they expire at, rounded up to the next
multiple of the interval: `session_to_timeout` gives the bucket of each
session, `expiry_to_sessions` the sessions of each bucket. `update` moves a
session to the bucket of the reading plus its timeout, `remove` takes it out
of its bucket, and `getExpiredSessions` hands over the one bucket
`next_expiration_time` once the clock reaches it, and moves that time on by one
interval.

## The model

Each call reads `getNowMilliseconds()`: the reading is an argument, any
integer, since `system_clock` may also step back. The `int64_t` arithmetic is
on integers (no run here comes near its bounds), and `/` rounds toward zero
(`Int.tdiv`). A set of sessions is a list; `erase` takes the session out.
`Call` is one call of the three, and `run` a sequence of them, with the
reading and the sessions of each `getExpiredSessions`.

## What is proved

* `Placed`: a session sits only in the bucket `session_to_timeout` gives it.
  Every call keeps this.
* `run_removed_never_returned`: a session whose last call was `remove` is
  never handed over.
* `run_never_early`: a session whose last call was `update(s, T)` at the
  reading `t` is handed over only at a reading past `t + T`.
* `make_run_hands_over_in_time`: both, for every queue that calls take a
  fresh queue to.
* `update_after_remove_never_expires`: `remove` leaves the session in
  `session_to_timeout`, so an `update` that computes the same bucket returns
  early without putting it back, and no later call hands it over.
-/

namespace Daisy.Coordination

/-- The buckets: `expiry_to_sessions`. -/
abbrev Buckets := AList fun _ : Int => List Int

/-- `SessionExpiryQueue`. -/
structure SessionExpiryQueue where
  sessionToTimeout : AList fun _ : Int => Int
  expiryToSessions : Buckets
  expirationInterval : Int
  nextExpirationTime : Int

namespace SessionExpiryQueue

/-- `roundToNextInterval(time)`. -/
def roundToNextInterval (expirationInterval time : Int) : Int :=
  (time.tdiv expirationInterval + 1) * expirationInterval

/-- `SessionExpiryQueue(expiration_interval)`, at the reading `now`. -/
def make (expirationInterval now : Int) : SessionExpiryQueue :=
  ⟨∅, ∅, expirationInterval, roundToNextInterval expirationInterval now⟩

/-- `expiry_to_sessions[expiry_time].insert(session_id)`, the bucket made if
there is none. -/
def insertIntoBucket (sets : Buckets) (expiryTime sessionId : Int) : Buckets :=
  sets.insert expiryTime (((sets.lookup expiryTime).getD []).insert sessionId)

/-- The session out of the bucket, where the bucket is there. -/
def eraseFromBucket (sets : Buckets) (expiryTime sessionId : Int) : Buckets :=
  match sets.lookup expiryTime with
  | some set => sets.insert expiryTime (set.filter fun s => s != sessionId)
  | none => sets

/-- `remove(session_id)`: the session out of its bucket; `session_to_timeout`
keeps it. -/
def remove (q : SessionExpiryQueue) (sessionId : Int) : Bool × SessionExpiryQueue :=
  match q.sessionToTimeout.lookup sessionId with
  | some expiryTime => (true, { q with expiryToSessions := eraseFromBucket q.expiryToSessions expiryTime sessionId })
  | none => (false, q)

/-- `update(session_id, timeout_ms)` at the reading `now`. -/
def update (q : SessionExpiryQueue) (sessionId timeoutMs now : Int) : Bool × SessionExpiryQueue :=
  let newExpiryTime := roundToNextInterval q.expirationInterval (now + timeoutMs)
  match q.sessionToTimeout.lookup sessionId with
  | some prevExpiryTime =>
    if newExpiryTime = prevExpiryTime then (false, q)
    else
      let sets := insertIntoBucket q.expiryToSessions newExpiryTime sessionId
      let sets := if prevExpiryTime ≠ newExpiryTime then eraseFromBucket sets prevExpiryTime sessionId else sets
      (true, { q with
        sessionToTimeout := q.sessionToTimeout.insert sessionId newExpiryTime
        expiryToSessions := sets })
  | none =>
    (false, { q with
      sessionToTimeout := q.sessionToTimeout.insert sessionId newExpiryTime
      expiryToSessions := insertIntoBucket q.expiryToSessions newExpiryTime sessionId })

/-- `getExpiredSessions()` at the reading `now`: the bucket
`next_expiration_time` once the clock has reached it, taken out. -/
def getExpiredSessions (q : SessionExpiryQueue) (now : Int) : List Int × SessionExpiryQueue :=
  if now < q.nextExpirationTime then ([], q)
  else
    let q' := { q with nextExpirationTime := q.nextExpirationTime + q.expirationInterval }
    match q.expiryToSessions.lookup q.nextExpirationTime with
    | some set => (set, { q' with expiryToSessions := q.expiryToSessions.erase q.nextExpirationTime })
    | none => ([], q')

/-- `clear()`. -/
def clear (q : SessionExpiryQueue) : SessionExpiryQueue := { q with sessionToTimeout := ∅, expiryToSessions := ∅ }

/-- A call of the queue, with the reading it takes. -/
inductive Call where
  | update (sessionId timeoutMs now : Int)
  | remove (sessionId : Int)
  | getExpiredSessions (now : Int)
  deriving DecidableEq, Repr

/-- Whether a call names the session. -/
def Call.touches (s : Int) : Call → Bool
  | .update sessionId _ _ | .remove sessionId => sessionId == s
  | .getExpiredSessions _ => false

/-- One call: the reading and the sessions of a `getExpiredSessions`, and the
queue after. -/
def step (q : SessionExpiryQueue) : Call → Option (Int × List Int) × SessionExpiryQueue
  | .update sessionId timeoutMs now => (none, (q.update sessionId timeoutMs now).2)
  | .remove sessionId => (none, (q.remove sessionId).2)
  | .getExpiredSessions now => (some (now, (q.getExpiredSessions now).1), (q.getExpiredSessions now).2)

/-- The calls in turn: what each `getExpiredSessions` hands over, at its
reading. -/
def run (q : SessionExpiryQueue) : List Call → List (Int × List Int) × SessionExpiryQueue
  | [] => ([], q)
  | c :: cs => ((q.step c).1.toList ++ ((q.step c).2.run cs).1, ((q.step c).2.run cs).2)

/-! ### Runs -/

theorem run_append (q : SessionExpiryQueue) (cs ds : List Call) :
    q.run (cs ++ ds) = ((q.run cs).1 ++ ((q.run cs).2.run ds).1, ((q.run cs).2.run ds).2) := by
  induction cs generalizing q with
  | nil => rfl
  | cons c cs ih => simp [run, ih]

/-- An invariant of the queue that each call of the run keeps, and that makes
what each call hands over good, holds of the whole run. -/
theorem run_invariant (I : SessionExpiryQueue → Prop) (P : Int × List Int → Prop) {cs : List Call}
    (hstep : ∀ q, ∀ c ∈ cs, I q → I (q.step c).2 ∧ ∀ r ∈ (q.step c).1, P r) :
    ∀ q, I q → I (q.run cs).2 ∧ ∀ r ∈ (q.run cs).1, P r := by
  induction cs with
  | nil => exact fun q hq => ⟨hq, by simp [run]⟩
  | cons c cs ih =>
    intro q hq
    obtain ⟨hq', hP⟩ := hstep q c (.head _) hq
    obtain ⟨hend, hrest⟩ := ih (fun q c hc => hstep q c (.tail _ hc)) _ hq'
    refine ⟨hend, fun r hr => ?_⟩
    rcases List.mem_append.mp hr with hr | hr
    · exact hP r (Option.mem_toList.mp hr)
    · exact hrest r hr

/-! ### The buckets -/

/-- The session is in the bucket `expiryTime`. -/
def InBucket (sets : Buckets) (expiryTime s : Int) : Prop := ∃ set, sets.lookup expiryTime = some set ∧ s ∈ set

section Buckets

variable {sets : Buckets} {k k' s s' : Int}

theorem inBucket_insertIntoBucket :
    InBucket (insertIntoBucket sets k' s') k s ↔ (k = k' ∧ s = s') ∨ InBucket sets k s := by
  unfold InBucket insertIntoBucket
  by_cases hk : k = k'
  · subst hk
    cases sets.lookup k <;> simp [AList.lookup_insert, or_comm]
  · simp [AList.lookup_insert_ne hk, hk]

theorem inBucket_eraseFromBucket :
    InBucket (eraseFromBucket sets k' s') k s ↔ ¬ (k = k' ∧ s = s') ∧ InBucket sets k s := by
  unfold InBucket eraseFromBucket
  cases h : sets.lookup k' with
  | none =>
    refine ⟨fun hin => ⟨fun hkk => ?_, hin⟩, fun hin => hin.2⟩
    obtain ⟨set, hset, -⟩ := hin
    rw [hkk.1, h] at hset
    cases hset
  | some set =>
    by_cases hk : k = k'
    · subst hk
      simp [AList.lookup_insert, h]
      tauto
    · simp [AList.lookup_insert_ne hk, hk]

theorem inBucket_erase : InBucket (sets.erase k') k s ↔ k ≠ k' ∧ InBucket sets k s := by
  unfold InBucket
  by_cases hk : k = k'
  · subst hk
    simp [AList.lookup_erase]
  · simp [AList.lookup_erase_ne hk, hk]

end Buckets

/-! ### Where a session sits -/

/-- A session sits only in the bucket `session_to_timeout` gives it. -/
def Placed (q : SessionExpiryQueue) : Prop :=
  ∀ k s, InBucket q.expiryToSessions k s → q.sessionToTimeout.lookup s = some k

/-- The session is in no bucket. -/
def Absent (q : SessionExpiryQueue) (s : Int) : Prop := ∀ k, ¬ InBucket q.expiryToSessions k s

/-- Every bucket that holds the session comes after `bound`. -/
def After (q : SessionExpiryQueue) (s bound : Int) : Prop := ∀ k, InBucket q.expiryToSessions k s → bound < k

variable {q : SessionExpiryQueue} {s : Int}

theorem placed_make (expirationInterval now : Int) : Placed (make expirationInterval now) := by
  rintro k s ⟨set, hset, -⟩
  simp [make] at hset

theorem Placed.update (hq : Placed q) (sessionId timeoutMs now : Int) : Placed (q.update sessionId timeoutMs now).2 := by
  unfold SessionExpiryQueue.update
  dsimp only
  cases hprev : q.sessionToTimeout.lookup sessionId with
  | some prev =>
    dsimp only
    split_ifs with hsame hne
    · exact hq
    · intro k x hx
      rw [inBucket_eraseFromBucket, inBucket_insertIntoBucket] at hx
      obtain ⟨hnot, hx | hx⟩ := hx
      · rw [hx.2, hx.1]
        exact AList.lookup_insert _
      · by_cases hxs : x = sessionId
        · subst hxs
          exact absurd ⟨(Option.some.inj (hprev.symm.trans (hq k x hx))).symm, rfl⟩ hnot
        · rw [AList.lookup_insert_ne hxs]
          exact hq k x hx
    · exact absurd (Ne.symm hsame) hne
  | none =>
    intro k x hx
    rw [inBucket_insertIntoBucket] at hx
    rcases hx with hx | hx
    · rw [hx.2, hx.1]
      exact AList.lookup_insert _
    · by_cases hxs : x = sessionId
      · subst hxs
        rw [hq k x hx] at hprev
        cases hprev
      · rw [AList.lookup_insert_ne hxs]
        exact hq k x hx

theorem Placed.remove (hq : Placed q) (sessionId : Int) : Placed (q.remove sessionId).2 := by
  unfold SessionExpiryQueue.remove
  split
  · intro k x hx
    exact hq k x (inBucket_eraseFromBucket.mp hx).2
  · exact hq

theorem Placed.getExpiredSessions (hq : Placed q) (now : Int) : Placed (q.getExpiredSessions now).2 := by
  unfold SessionExpiryQueue.getExpiredSessions
  split_ifs
  · exact hq
  · split
    · intro k x hx
      exact hq k x (inBucket_erase.mp hx).2
    · exact hq

theorem Placed.step (hq : Placed q) : ∀ c, Placed (q.step c).2
  | .update sessionId timeoutMs now => hq.update sessionId timeoutMs now
  | .remove sessionId => hq.remove sessionId
  | .getExpiredSessions now => hq.getExpiredSessions now

/-- No call changes the interval. -/
theorem expirationInterval_step (q : SessionExpiryQueue) : ∀ c, (q.step c).2.expirationInterval = q.expirationInterval
  | .update sessionId timeoutMs now => by
    simp only [step, update]
    split
    · split_ifs <;> rfl
    · rfl
  | .remove sessionId => by
    simp only [step, remove]
    split <;> rfl
  | .getExpiredSessions now => by
    simp only [step, getExpiredSessions]
    split_ifs
    · rfl
    · split <;> rfl

/-- A queue that calls take a fresh queue to: its sessions sit where
`session_to_timeout` says, and its interval is the one it was made with. -/
theorem placed_run_make (expirationInterval now : Int) (cs : List Call) :
    Placed ((make expirationInterval now).run cs).2 ∧
      ((make expirationInterval now).run cs).2.expirationInterval = expirationInterval :=
  (run_invariant (fun q => Placed q ∧ q.expirationInterval = expirationInterval) (fun _ => True)
    (fun q c _ hq => ⟨⟨hq.1.step c, (expirationInterval_step q c).trans hq.2⟩, fun _ _ => trivial⟩) _
    ⟨placed_make expirationInterval now, rfl⟩).1

/-- `remove` takes the session out of every bucket. -/
theorem Placed.absent_remove (hq : Placed q) (s : Int) : Absent (q.remove s).2 s := by
  intro k hk
  unfold SessionExpiryQueue.remove at hk
  split at hk
  · rename_i expiryTime hlookup
    obtain ⟨hnot, hin⟩ := inBucket_eraseFromBucket.mp hk
    exact hnot ⟨Option.some.inj ((hq k s hin).symm.trans hlookup), rfl⟩
  · rename_i hlookup
    rw [hq k s hk] at hlookup
    cases hlookup

/-! ### Calls on other sessions -/

section Others

variable {c : Call}

/-- A call that does not name the session moves it only out of a bucket. -/
theorem inBucket_of_step (hc : c.touches s = false) {k : Int} (hk : InBucket (q.step c).2.expiryToSessions k s) :
    InBucket q.expiryToSessions k s := by
  cases c with
  | update sessionId timeoutMs now =>
    have hne : s ≠ sessionId := fun h => by simp [Call.touches, h] at hc
    simp only [step, update] at hk
    split at hk
    · split_ifs at hk with hsame hne'
      · exact hk
      · rw [inBucket_eraseFromBucket, inBucket_insertIntoBucket] at hk
        exact hk.2.resolve_left fun h => hne h.2
      · exact absurd (Ne.symm hsame) hne'
    · rw [inBucket_insertIntoBucket] at hk
      exact hk.resolve_left fun h => hne h.2
  | remove sessionId =>
    simp only [step, remove] at hk
    split at hk
    · exact (inBucket_eraseFromBucket.mp hk).2
    · exact hk
  | getExpiredSessions now =>
    simp only [step, getExpiredSessions] at hk
    split_ifs at hk
    · exact hk
    · split at hk
      · exact (inBucket_erase.mp hk).2
      · exact hk

/-- What `getExpiredSessions` hands over is the bucket it reached. -/
theorem inBucket_of_mem_step {r : Int × List Int} (hr : r ∈ (q.step c).1) (hs : s ∈ r.2) :
    q.nextExpirationTime ≤ r.1 ∧ InBucket q.expiryToSessions q.nextExpirationTime s := by
  cases c with
  | update _ _ _ | remove _ => cases hr
  | getExpiredSessions now =>
    simp only [step, Option.mem_def, Option.some.injEq] at hr
    subst hr
    simp only [getExpiredSessions] at hs ⊢
    split_ifs at hs with hnow
    · cases hs
    · split at hs
      · rename_i set hset
        exact ⟨Int.not_lt.mp hnow, set, hset, hs⟩
      · cases hs

end Others

/-- **A session whose last call was `remove` is never handed over.** -/
theorem run_removed_never_returned (hq : Placed q) (s : Int) {cs : List Call}
    (hcs : ∀ c ∈ cs, c.touches s = false) : ∀ r ∈ ((q.remove s).2.run cs).1, s ∉ r.2 := by
  refine (run_invariant (fun q => Absent q s) (fun r => s ∉ r.2) (fun q c hc hq => ⟨?_, ?_⟩) _
    (hq.absent_remove s)).2
  · exact fun k hk => hq k (inBucket_of_step (hcs c hc) hk)
  · exact fun r hr hs => hq _ (inBucket_of_mem_step hr hs).2

/-- `roundToNextInterval` of a positive interval lies past the time. -/
theorem lt_roundToNextInterval {expirationInterval : Int} (hpos : 0 < expirationInterval) (time : Int) :
    time < roundToNextInterval expirationInterval time := by
  unfold roundToNextInterval
  rw [Int.add_mul, Int.one_mul]
  have htdiv := Int.tdiv_mul_add_tmod time expirationInterval
  have hlt : time.tmod expirationInterval < expirationInterval := Int.tmod_lt_of_pos time hpos
  omega

/-- After `update(s, T)` at the reading `t`, every bucket that holds the
session lies past `t + T`. -/
theorem Placed.after_update (hq : Placed q) (hpos : 0 < q.expirationInterval) (s timeoutMs now : Int) :
    After (q.update s timeoutMs now).2 s (now + timeoutMs) := by
  have hround := lt_roundToNextInterval hpos (now + timeoutMs)
  intro k hk
  unfold SessionExpiryQueue.update at hk
  dsimp only at hk
  cases hprev : q.sessionToTimeout.lookup s with
  | some prev =>
    rw [hprev] at hk
    dsimp only at hk
    split_ifs at hk with hsame hne
    · have hkprev : k = prev := Option.some.inj ((hq k s hk).symm.trans hprev)
      rw [hkprev, ← hsame]
      exact hround
    · rw [inBucket_eraseFromBucket, inBucket_insertIntoBucket] at hk
      rcases hk with ⟨hnot, ⟨rfl, -⟩ | hk⟩
      · exact hround
      · exact absurd ⟨Option.some.inj ((hq k s hk).symm.trans hprev), rfl⟩ hnot
    · exact absurd (Ne.symm hsame) hne
  | none =>
    rw [hprev] at hk
    rcases inBucket_insertIntoBucket.mp hk with ⟨rfl, -⟩ | hk
    · exact hround
    · rw [hq k s hk] at hprev
      cases hprev

/-- **A session is never handed over early.** After `update(s, T)` at the
reading `t`, and calls that do not name the session, each
`getExpiredSessions` that hands the session over reads past `t + T`. -/
theorem run_never_early (hq : Placed q) (hpos : 0 < q.expirationInterval) (s timeoutMs now : Int)
    {cs : List Call} (hcs : ∀ c ∈ cs, c.touches s = false) :
    ∀ r ∈ ((q.update s timeoutMs now).2.run cs).1, s ∈ r.2 → now + timeoutMs < r.1 := by
  refine (run_invariant (fun q => After q s (now + timeoutMs)) (fun r => s ∈ r.2 → now + timeoutMs < r.1)
    (fun q c hc hq => ⟨fun k hk => hq k (inBucket_of_step (hcs c hc) hk), fun r hr hs => ?_⟩) _
    (hq.after_update hpos s timeoutMs now)).2
  obtain ⟨hreach, hin⟩ := inBucket_of_mem_step hr hs
  exact Int.lt_of_lt_of_le (hq _ hin) hreach

/-- Calls that do not name an absent session keep it absent and never hand
it over. -/
theorem run_absent (hq : Absent q s) {cs : List Call} (hcs : ∀ c ∈ cs, c.touches s = false) :
    ∀ r ∈ (q.run cs).1, s ∉ r.2 :=
  (run_invariant (fun q => Absent q s) (fun r => s ∉ r.2)
    (fun _ c hc hq => ⟨fun k hk => hq k (inBucket_of_step (hcs c hc) hk),
      fun _ hr hs => hq _ (inBucket_of_mem_step hr hs).2⟩) _ hq).2

/-- **A queue hands no session over early, and none after its removal.** Take
a queue made with a positive interval anywhere by any calls: after
`update(s, T)` at the reading `t`, and calls that do not name the session,
every `getExpiredSessions` that hands it over reads past `t + T`; after
`remove(s)` and such calls, none hands it over. -/
theorem make_run_hands_over_in_time {expirationInterval : Int} (hpos : 0 < expirationInterval) (now : Int)
    (cs₀ : List Call) (s : Int) {cs : List Call} (hcs : ∀ c ∈ cs, c.touches s = false) :
    (∀ timeoutMs t, ∀ r ∈ ((((make expirationInterval now).run cs₀).2.update s timeoutMs t).2.run cs).1,
        s ∈ r.2 → t + timeoutMs < r.1) ∧
      ∀ r ∈ ((((make expirationInterval now).run cs₀).2.remove s).2.run cs).1, s ∉ r.2 := by
  obtain ⟨hplaced, hinterval⟩ := placed_run_make expirationInterval now cs₀
  have hpos' : 0 < ((make expirationInterval now).run cs₀).2.expirationInterval := by
    rw [hinterval]
    exact hpos
  refine ⟨fun timeoutMs t => run_never_early hplaced hpos' s timeoutMs t hcs, ?_⟩
  exact run_removed_never_returned hplaced s hcs

/-- Another session updated first, then `getExpiredSessions` at `20`: a queue of
interval `10` keeps to both. -/
theorem make_run_hands_over_in_time_ten :
    (0 : Int) < 10 ∧ (∀ c ∈ ([.getExpiredSessions 20] : List Call), c.touches 1 = false) ∧
      ((∀ timeoutMs t, ∀ r ∈ ((((make 10 0).run [.update 2 5 0]).2.update 1 timeoutMs t).2.run
          [.getExpiredSessions 20]).1, 1 ∈ r.2 → t + timeoutMs < r.1) ∧
        ∀ r ∈ ((((make 10 0).run [.update 2 5 0]).2.remove 1).2.run [.getExpiredSessions 20]).1, 1 ∉ r.2) :=
  ⟨by decide, by decide, make_run_hands_over_in_time (by decide) 0 [.update 2 5 0] 1 (by decide)⟩

/-- **A session updated after its removal never expires.** With the interval
`10` and the clock at `0`, `update(1, 5)` puts the session in the bucket `10`;
`remove(1)` takes it out of the bucket but leaves it in `session_to_timeout`;
`update(1, 5)` at the reading `1` computes the bucket `10` again and returns
early. From there no `getExpiredSessions`, at whatever readings, hands the
session over, though its last call was the `update`. -/
theorem update_after_remove_never_expires (readings : List Int) :
    ∀ r ∈ ((make 10 0).run ([.update 1 5 0, .remove 1, .update 1 5 1] ++ readings.map .getExpiredSessions)).1,
      1 ∉ r.2 := by
  rw [run_append]
  intro r hr
  rcases List.mem_append.mp hr with hr | hr
  · simp [run, step] at hr
  · -- after the three calls the session is in no bucket
    have hbuckets : ((make 10 0).run [.update 1 5 0, .remove 1, .update 1 5 1]).2.expiryToSessions.entries =
        [⟨10, []⟩] := by decide
    have habsent : Absent ((make 10 0).run [.update 1 5 0, .remove 1, .update 1 5 1]).2 1 := by
      intro k ⟨set, hset, hmem⟩
      have hentry := AList.mem_lookup_iff.mp hset
      rw [hbuckets, List.mem_singleton] at hentry
      cases hentry
      cases hmem
    exact run_absent habsent (fun c hc => by
      obtain ⟨now, -, rfl⟩ := List.mem_map.mp hc
      rfl) r hr

/-- At the reading `10` the bucket `10` is handed over empty. -/
theorem update_after_remove_never_expires_at_ten :
    ((10 : Int), ([] : List Int)) ∈
        ((make 10 0).run ([.update 1 5 0, .remove 1, .update 1 5 1] ++ [10].map .getExpiredSessions)).1 ∧
      1 ∉ ((10 : Int), ([] : List Int)).2 := by
  have hmem : ((10 : Int), ([] : List Int)) ∈
      ((make 10 0).run ([.update 1 5 0, .remove 1, .update 1 5 1] ++ [10].map .getExpiredSessions)).1 := by decide
  exact ⟨hmem, update_after_remove_never_expires [10] _ hmem⟩

end SessionExpiryQueue

end Daisy.Coordination
