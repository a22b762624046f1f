import Daisy.Storages.DistributedMergeTree.StorageDistributedMergeTree
import Daisy.Library.Loops
import Daisy.Library.Faults
import Mathlib.Data.List.Dedup
import Mathlib.Data.Finset.Card

/-!
# The window of idempotent keys

`StorageDistributedMergeTree::dedupBlock` skips a record whose idempotent key
is among the last `max_idempotent_ids` keys the table kept. The keys are kept
twice: in the order they came, in the deque `idempotent_keys`, and as a hash
set of their texts, `idempotent_keys_index`, for the lookup.
`addIdempotentKey` evicts the oldest key, from the set and then from the
deque, once `max_idempotent_ids` keys are kept. At startup
`buildIdempotentKeysIndex` loads the keys that
`StorageMergeTree::populateCommittedSNFromParts` collected from the parts.

## The model

The deque is a list, oldest first, and the set a `Finset` of the keys (its
`StringRef`s point into the deque's strings, and hash and compare by
content). A record's `_idem` header is an `Option` of its bytes. The asserts
of `addIdempotentKey` stop a debug build only.

What the window is for is stated apart, over the keys the records carry
(`specDedup`): a key is a duplicate when it is one of the last `m` distinct
keys admitted before it, the loaded keys admitted first; any other key is
admitted.

## What is proved

* `WindowOf`: the invariant. The set holds the deque's keys, the deque holds
  no key twice and at most `m`, and it is the tail of the keys admitted: all
  of them, or the last `m`;
* `dedupBlock_spec`: one record keeps the invariant and gets the verdict of
  the reference;
* `dedupRun_window`: from loaded keys that are distinct and at most `m`,
  over every sequence of records, the calls return the verdicts of
  `specDedup`, and after each of them the invariant holds with the deque the
  last `m` distinct keys admitted;
* `dedupBlock_refines`: the model of `commit`, where the deque and the set
  are one list, gives the same verdicts and keys.
-/

namespace Daisy.DistributedMergeTree

open Daisy.Library

/-! ### The reference -/

section Reference

variable {K : Type} [DecidableEq K]

/-- The last `m` distinct keys of `admitted`, oldest first: each key at its
last admission, and of those the last `m`. -/
def lastDistinct (m : Nat) (admitted : List K) : List K :=
  admitted.dedup.drop (admitted.dedup.length - m)

/-- Whether a record with the key `key?` is a duplicate after the keys
`admitted`. -/
def specVerdict (m : Nat) (admitted : List K) : Option K → Bool
  | none => false
  | some k => decide (k ∈ lastDistinct m admitted)

/-- The keys admitted once a record with the key `key?` has been seen. -/
def specAdmit (m : Nat) (admitted : List K) : Option K → List K
  | none => admitted
  | some k => if k ∈ lastDistinct m admitted then admitted else admitted ++ [k]

/-- The verdicts on records with the keys `keys`, and the keys admitted
after them, from the keys `loaded`. -/
def specDedup (m : Nat) (loaded : List K) (keys : List (Option K)) : List Bool × List K :=
  keys.foldl (fun acc key => (acc.1 ++ [specVerdict m acc.2 key], specAdmit m acc.2 key)) ([], loaded)

theorem specDedup_append_singleton (m : Nat) (loaded : List K) (keys : List (Option K)) (key : Option K) :
    specDedup m loaded (keys ++ [key]) =
      ((specDedup m loaded keys).1 ++ [specVerdict m (specDedup m loaded keys).2 key],
        specAdmit m (specDedup m loaded keys).2 key) := by
  simp only [specDedup, List.foldl_append, List.foldl_cons, List.foldl_nil]

/-- A tail of distinct keys that holds all the keys or `m` of them is the
last `m` distinct keys. -/
theorem lastDistinct_append {m : Nat} {p w : List K} (hw : w.Nodup) (hle : w.length ≤ m)
    (hp : p = [] ∨ w.length = m) : lastDistinct m (p ++ w) = w := by
  rw [lastDistinct, List.dedup_append, hw.dedup]
  rcases hp with rfl | hm
  · simp [Nat.sub_eq_zero_of_le hle]
  · -- the deduplicated list ends with `w`, of length `m`
    obtain ⟨q, hq⟩ := List.suffix_union_right p w
    rw [← hq, List.length_append, hm, Nat.add_sub_cancel, List.drop_left]

end Reference

/-! ### The code -/

/-- `idempotent_keys` and `idempotent_keys_index`. -/
structure IdempotentKeysWindow (K : Type) where
  /-- `idempotent_keys`, oldest first. -/
  keys : List K
  /-- `idempotent_keys_index`. -/
  index : Finset K

namespace IdempotentKeysWindow

variable {K : Type} [DecidableEq K]

/-- `buildIdempotentKeysIndex(idempotent_keys_)`, on the empty window of a
new table. -/
def buildIdempotentKeysIndex (keys : List K) : IdempotentKeysWindow K :=
  ⟨keys, keys.foldl (fun index key => insert key index) ∅⟩

/-- `addIdempotentKey(key)` with `max_idempotent_ids = m`. -/
def addIdempotentKey (b : Build) (m : Nat) (w : IdempotentKeysWindow K) (key : K) :
    Except Failure (IdempotentKeysWindow K) := do
  let w ← if m ≤ w.keys.length then
      match w.keys with
      | [] => throw .frontOfEmptyDeque
      | front :: rest => do
        assert b (front ∈ w.index) "removed == 1"
        pure ⟨rest, w.index.erase front⟩
    else pure w
  assert b (key ∉ w.index) "inserted"
  let w : IdempotentKeysWindow K := ⟨w.keys ++ [key], insert key w.index⟩
  assert b (w.keys.length == w.index.card) "idempotent_keys.size() == idempotent_keys_index.size()"
  pure w

/-- The idempotent key of a record whose `_idem` header is `header`, where
`hasIdempotentKey()`: the header is there and not empty. -/
def recordIdempotentKey (header : Option (List UInt8)) : Option (List UInt8) :=
  match header with
  | some key => if key = [] then none else some key
  | none => none

/-- `dedupBlock(record)` for a record whose `_idem` header is `header`:
whether it is a duplicate, and the window after it. -/
def dedupBlock (b : Build) (m : Nat) (w : IdempotentKeysWindow (List UInt8)) (header : Option (List UInt8)) :
    Except Failure (Bool × IdempotentKeysWindow (List UInt8)) :=
  match recordIdempotentKey header with
  | none => pure (false, w)
  | some key =>
    if key ∈ w.index then pure (true, w)
    else do pure (false, ← w.addIdempotentKey b m key)

/-- One call of `dedupBlock`, its verdict put after the others. -/
def dedupRunStep (b : Build) (m : Nat) (acc : List Bool × IdempotentKeysWindow (List UInt8))
    (header : Option (List UInt8)) : Except Failure (List Bool × IdempotentKeysWindow (List UInt8)) := do
  let (verdict, w) ← acc.2.dedupBlock b m header
  pure (acc.1 ++ [verdict], w)

/-- The calls of `dedupBlock` for records with the headers `headers`, one
after another: the verdicts, and the window after them. -/
def dedupRun (b : Build) (m : Nat) (w : IdempotentKeysWindow (List UInt8)) (headers : List (Option (List UInt8))) :
    Except Failure (List Bool × IdempotentKeysWindow (List UInt8)) :=
  headers.foldlM (dedupRunStep b m) ([], w)

theorem index_buildIdempotentKeysIndex (keys : List K) : (buildIdempotentKeysIndex keys).index = keys.toFinset := by
  suffices h : ∀ s : Finset K, keys.foldl (fun index key => insert key index) s = s ∪ keys.toFinset by
    simpa [buildIdempotentKeysIndex] using h ∅
  induction keys with
  | nil => simp
  | cons k keys ih =>
    intro s
    rw [List.foldl_cons, ih, List.toFinset_cons, Finset.insert_union, Finset.union_insert]

/-! ### The invariant -/

variable {m : Nat} {admitted : List K} {w : IdempotentKeysWindow K}

/-- The window of the keys `admitted`: the set holds the deque's keys, the
deque holds no key twice and at most `m`, and it is the tail of `admitted`,
all of it or its last `m` keys. -/
structure WindowOf (m : Nat) (admitted : List K) (w : IdempotentKeysWindow K) : Prop where
  index_eq : w.index = w.keys.toFinset
  nodup : w.keys.Nodup
  length_le : w.keys.length ≤ m
  tail : ∃ p, admitted = p ++ w.keys ∧ (p = [] ∨ w.keys.length = m)

theorem WindowOf.lastDistinct_eq (hw : WindowOf m admitted w) : lastDistinct m admitted = w.keys := by
  obtain ⟨p, rfl, hp⟩ := hw.tail
  exact lastDistinct_append hw.nodup hw.length_le hp

/-- The lookup in the set is the membership in the last `m` distinct keys. -/
theorem WindowOf.mem_index (hw : WindowOf m admitted w) {k : K} : k ∈ w.index ↔ k ∈ lastDistinct m admitted := by
  rw [hw.index_eq, hw.lastDistinct_eq, List.mem_toFinset]

theorem buildIdempotentKeysIndex_window {loaded : List K} (hnodup : loaded.Nodup) (hlen : loaded.length ≤ m) :
    WindowOf m loaded (buildIdempotentKeysIndex loaded) :=
  ⟨index_buildIdempotentKeysIndex loaded, hnodup, hlen, ⟨[], rfl, .inl rfl⟩⟩

/-! ### One record -/

/-- A key the deque does not hold, pushed behind its keys: they stay
distinct, and the set with the key is theirs, of as many keys. -/
theorem push_fresh {keys : List K} (hnodup : keys.Nodup) {key : K} (hkey : key ∉ keys) :
    (keys ++ [key]).Nodup ∧ insert key keys.toFinset = (keys ++ [key]).toFinset ∧
      (keys ++ [key]).length = (insert key keys.toFinset).card := by
  have hnodup' : (keys ++ [key]).Nodup := by
    rw [← List.concat_eq_append]
    exact hnodup.concat hkey
  have hindex : insert key keys.toFinset = (keys ++ [key]).toFinset := by
    ext k
    simp
  exact ⟨hnodup', hindex, by rw [hindex, List.toFinset_card_of_nodup hnodup']⟩

/-- A full window: the oldest key leaves before the new one goes in. -/
theorem addIdempotentKey_of_full (b : Build) (hw : WindowOf m admitted w) (hfull : m ≤ w.keys.length)
    {front : K} {rest : List K} (hfr : w.keys = front :: rest) {key : K} (hkey : key ∉ w.index) :
    w.addIdempotentKey b m key = .ok ⟨rest ++ [key], insert key (w.index.erase front)⟩ ∧
      WindowOf m (admitted ++ [key]) ⟨rest ++ [key], insert key (w.index.erase front)⟩ := by
  obtain ⟨p, hadmitted, -⟩ := hw.tail
  have hnodup : (front :: rest).Nodup := hfr ▸ hw.nodup
  have hfront : front ∈ w.index := by simp [hw.index_eq, hfr]
  have hrest : w.index.erase front = rest.toFinset := by
    rw [hw.index_eq, hfr, List.toFinset_cons, Finset.erase_insert (by simpa using (List.nodup_cons.mp hnodup).1)]
  have hkey' : key ∉ rest := by
    intro h
    exact hkey (by simp [hw.index_eq, hfr, h])
  obtain ⟨hnodup', hindex, hcard⟩ := push_fresh (List.nodup_cons.mp hnodup).2 hkey'
  rw [← hrest] at hindex hcard
  have hlen : (rest ++ [key]).length = m := by
    have := hw.length_le
    simp only [hfr, List.length_cons] at hfull this
    simp only [List.length_append, List.length_singleton]
    omega
  refine ⟨?_, hindex, hnodup', hlen.le, p ++ [front], ?_, .inr hlen⟩
  · have hnotin : key ∉ w.index.erase front := fun h => hkey (Finset.mem_of_mem_erase h)
    rw [hfr] at hfull
    simp only [addIdempotentKey, hfr, if_pos hfull, assert_of_true _ (decide_eq_true hfront),
      assert_of_true _ (decide_eq_true hnotin), assert_of_true _ (beq_iff_eq.mpr hcard), ok_bind, pure_eq_ok]
  · rw [hadmitted, hfr]
    simp

/-- A window with room: the key goes in behind the others. -/
theorem addIdempotentKey_of_lt (b : Build) (hw : WindowOf m admitted w) (hlt : w.keys.length < m) {key : K}
    (hkey : key ∉ w.index) :
    w.addIdempotentKey b m key = .ok ⟨w.keys ++ [key], insert key w.index⟩ ∧
      WindowOf m (admitted ++ [key]) ⟨w.keys ++ [key], insert key w.index⟩ := by
  obtain ⟨p, hadmitted, hp⟩ := hw.tail
  -- a window with room holds every key admitted
  have hp : p = [] := hp.resolve_right (by omega)
  have hkey' : key ∉ w.keys := by simpa [hw.index_eq] using hkey
  obtain ⟨hnodup', hindex, hcard⟩ := push_fresh hw.nodup hkey'
  rw [← hw.index_eq] at hindex hcard
  refine ⟨?_, hindex, hnodup', ?_, [], by simp [hadmitted, hp], .inl rfl⟩
  · simp only [addIdempotentKey, if_neg (Nat.not_le.mpr hlt), pure_eq_ok, ok_bind, assert_of_true _ (decide_eq_true hkey),
      assert_of_true _ (beq_iff_eq.mpr hcard)]
  · simp only [List.length_append, List.length_singleton]
    omega

/-- A key the window does not hold is admitted, and the invariant kept. -/
theorem addIdempotentKey_spec (b : Build) (hm : 0 < m) (hw : WindowOf m admitted w) {key : K}
    (hkey : key ∉ w.index) : ∃ w', w.addIdempotentKey b m key = .ok w' ∧ WindowOf m (admitted ++ [key]) w' := by
  by_cases hfull : m ≤ w.keys.length
  · obtain ⟨front, rest, hfr⟩ := List.exists_cons_of_length_pos (by omega : 0 < w.keys.length)
    exact ⟨_, addIdempotentKey_of_full b hw hfull hfr hkey⟩
  · exact ⟨_, addIdempotentKey_of_lt b hw (by omega) hkey⟩

/-- **One record.** `dedupBlock` gives the verdict of the reference and
keeps the invariant for the keys the reference admits. -/
theorem dedupBlock_spec (b : Build) (hm : 0 < m) {admitted : List (List UInt8)} {w : IdempotentKeysWindow (List UInt8)}
    (hw : WindowOf m admitted w) (header : Option (List UInt8)) :
    ∃ w', w.dedupBlock b m header = .ok (specVerdict m admitted (recordIdempotentKey header), w') ∧
      WindowOf m (specAdmit m admitted (recordIdempotentKey header)) w' := by
  unfold dedupBlock
  cases recordIdempotentKey header with
  | none => exact ⟨w, rfl, hw⟩
  | some key =>
    by_cases hkey : key ∈ w.index
    · -- a duplicate: nothing changes
      have hlast := hw.mem_index.mp hkey
      exact ⟨w, by simp [hkey, specVerdict, hlast, pure_eq_ok], by simpa [specAdmit, hlast] using hw⟩
    · have hlast : key ∉ lastDistinct m admitted := fun h => hkey (hw.mem_index.mpr h)
      obtain ⟨w', hadd, hw'⟩ := addIdempotentKey_spec b hm hw hkey
      refine ⟨w', ?_, by simpa [specAdmit, hlast] using hw'⟩
      simp [hkey, hadd, specVerdict, hlast, pure_eq_ok, ok_bind]

/-! ### A run -/

/-- **The window over a run.** From loaded keys that are distinct and at
most `m ≥ 1`, every sequence of records gets the verdicts of the reference:
a record is a duplicate exactly when its key is there, not empty, and one of
the last `m` distinct keys admitted before it. After the records, the set
holds the deque's keys, and the deque holds no key twice, at most `m` keys,
and is the last `m` distinct keys admitted. -/
theorem dedupRun_window (b : Build) {m : Nat} (hm : 0 < m) {loaded : List (List UInt8)} (hnodup : loaded.Nodup)
    (hlen : loaded.length ≤ m) (headers : List (Option (List UInt8))) :
    ∃ w, dedupRun b m (buildIdempotentKeysIndex loaded) headers =
        .ok ((specDedup m loaded (headers.map recordIdempotentKey)).1, w) ∧
      w.index = w.keys.toFinset ∧ w.keys.Nodup ∧ w.keys.length ≤ m ∧
      w.keys = lastDistinct m (specDedup m loaded (headers.map recordIdempotentKey)).2 := by
  -- after the records `done`: the verdicts of the reference, and the window of the keys it admitted
  let P : List (Option (List UInt8)) → List Bool × IdempotentKeysWindow (List UInt8) → Prop := fun done acc =>
    acc.1 = (specDedup m loaded (done.map recordIdempotentKey)).1 ∧
      WindowOf m (specDedup m loaded (done.map recordIdempotentKey)).2 acc.2
  have hstep : ∀ done header rest acc, done ++ header :: rest = headers → P done acc →
      ∃ acc', dedupRunStep b m acc header = .ok acc' ∧ P (done ++ [header]) acc' := by
    rintro done header - acc - ⟨hverdicts, hw⟩
    obtain ⟨w', hblock, hw'⟩ := dedupBlock_spec b hm hw header
    refine ⟨(acc.1 ++ [specVerdict m (specDedup m loaded (done.map recordIdempotentKey)).2 (recordIdempotentKey header)],
      w'), ?_, ?_, ?_⟩
    · simp [dedupRunStep, hblock, ok_bind, pure_eq_ok]
    · simp only [List.map_append, List.map_cons, List.map_nil, specDedup_append_singleton, hverdicts]
    · simp only [List.map_append, List.map_cons, List.map_nil, specDedup_append_singleton]
      exact hw'
  obtain ⟨⟨verdicts, w⟩, hrun, hverdicts, hw⟩ :=
    @foldlM_of_step _ _ _ (dedupRunStep b m) P headers hstep ([], buildIdempotentKeysIndex loaded)
      ⟨rfl, buildIdempotentKeysIndex_window hnodup hlen⟩
  refine ⟨w, ?_, hw.index_eq, hw.nodup, hw.length_le, hw.lastDistinct_eq.symm⟩
  rw [dedupRun, hrun, ← hverdicts]

/-- Keys `a` and `b` loaded into a window of two, then records of keys `b`,
`c`, `a`, `c`, none and the empty key: `b` is a duplicate, `c` goes in and
`a` leaves, so that `a` is admitted again, and then `c` is a duplicate. -/
theorem dedupRun_window_two :
    0 < 2 ∧ [[97], [98]].Nodup ∧ [[97], [98]].length ≤ 2 ∧
      ∃ w, dedupRun .debug 2 (buildIdempotentKeysIndex [[97], [98]])
            [some [98], some [99], some [97], some [99], none, some []] =
          .ok ((specDedup 2 [[97], [98]]
            ([some [98], some [99], some [97], some [99], none, some []].map recordIdempotentKey)).1, w) ∧
        w.index = w.keys.toFinset ∧ w.keys.Nodup ∧ w.keys.length ≤ 2 ∧
        w.keys = lastDistinct 2 (specDedup 2 [[97], [98]]
          ([some [98], some [99], some [97], some [99], none, some []].map recordIdempotentKey)).2 :=
  ⟨by decide, by decide, by decide, dedupRun_window .debug (by decide) (by decide) (by decide) _⟩

example : (specDedup 2 [[97], [98]]
    ([some [98], some [99], some [97], some [99], none, some []].map recordIdempotentKey)).1 =
      [true, false, false, true, false, false] := by
  decide

/-! ### The model of `commit` -/

/-- **The model of `commit` keeps the deque.** Where the invariant holds,
the model of `commit`, whose one list stands for both the deque and the
set, gives the verdict of `dedupBlock` and the deque after it. -/
theorem dedupBlock_refines {D : Daisy.DataStreams.DataTypes} (b : Build) (hm : 0 < m) {admitted : List (List UInt8)}
    {w : IdempotentKeysWindow (List UInt8)} (hw : WindowOf m admitted w) (header : Option (List UInt8))
    (r : CommitRecord D) (hkey : r.idempotentKey = recordIdempotentKey header) :
    ∃ verdict w', w.dedupBlock b m header = .ok (verdict, w') ∧
      DistributedMergeTree.dedupBlock m w.keys r = .ok (verdict, w'.keys) := by
  unfold dedupBlock DistributedMergeTree.dedupBlock
  rw [hkey]
  cases recordIdempotentKey header with
  | none => exact ⟨false, w, rfl, rfl⟩
  | some key =>
    have hmem : key ∈ w.index ↔ key ∈ w.keys := by rw [hw.index_eq, List.mem_toFinset]
    by_cases hin : key ∈ w.index
    · exact ⟨true, w, by simp [hin, pure_eq_ok], by simp [hmem.mp hin]; rfl⟩
    · have hin' : key ∉ w.keys := fun h => hin (hmem.mpr h)
      by_cases hfull : m ≤ w.keys.length
      · -- the oldest key leaves both
        obtain ⟨front, rest, hfr⟩ := List.exists_cons_of_length_pos (by omega : 0 < w.keys.length)
        have hadd := (addIdempotentKey_of_full b hw hfull hfr hin).1
        refine ⟨false, ⟨rest ++ [key], insert key (w.index.erase front)⟩, by simp [hin, hadd, ok_bind, pure_eq_ok], ?_⟩
        have hfull' : m ≤ rest.length + 1 := by simpa [hfr] using hfull
        rw [hfr] at hin'
        simp [hin', DistributedMergeTree.addIdempotentKey, hfull', hfr, ok_bind, pure_eq_ok]
      · have hadd := (addIdempotentKey_of_lt b hw (by omega) hin).1
        refine ⟨false, ⟨w.keys ++ [key], insert key w.index⟩, by simp [hin, hadd, ok_bind, pure_eq_ok], ?_⟩
        simp [hin', DistributedMergeTree.addIdempotentKey, if_neg hfull, ok_bind, pure_eq_ok]

end IdempotentKeysWindow

end Daisy.DistributedMergeTree
