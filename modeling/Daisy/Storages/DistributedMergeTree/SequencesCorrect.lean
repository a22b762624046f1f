import Daisy.Library.InOrder
import Daisy.Storages.DistributedMergeTree.Sequences

/-!
# Out-of-order commits never move the checkpoint past an uncommitted block

The runs considered (`Admissible`): `doCommit` receives blocks in increasing
order past the initial `last_sn`, each block completes once after it was
queued (at once when deduplication emptied it), and `commitSN` and
`commitSNLocal` come at any time. In a release build every such run returns,
and after it (`CheckpointSpec`):

* `last_sn` is the end of the last block of the longest prefix of queued
  blocks that all completed, or the initial `last_sn`;
* `outstanding_sns` is the queued blocks after that prefix, in order;
* `local_committed_sns` holds exactly the completed blocks after it, in
  increasing order;
* the front of `outstanding_sns` is not in `local_committed_sns`;

and no event moves `last_sn` back (`progressSequences_spec`).

The proof follows one invariant, `Tracks`: the queued blocks are a prefix
`done` of completed blocks followed by `outstanding_sns`, whose front has not
completed. Each event keeps it (`Tracks.push`, `Tracks.progress`, ...),
the catch-up loop walking exactly the completed blocks behind the front
(`catchUp_release`); `Daisy.Library.InOrder` turns it into `takeWhile` and
`dropWhile`.

## Honest scope

In a debug build the loop also asserts `p.first == last_sn + 1`: blocks must
be consecutive, which the runs above do not require, so there the statement
is about the release build.
-/

namespace Daisy.DistributedMergeTree

open Daisy.Library

/-! ### What a run queued and completed -/

/-- The blocks `doCommit` queued, in order. -/
def pushed (es : List Event) : List SequencePair :=
  es.filterMap fun
    | .doCommit seq _ => some seq
    | _ => none

/-- The blocks queued with a non-empty block, left for the thread pool. -/
def pushedNonEmpty (es : List Event) : List SequencePair :=
  es.filterMap fun
    | .doCommit seq false => some seq
    | _ => none

/-- The blocks that completed: the empty ones at once, the others by `progressSequences`. -/
def completed (es : List Event) : List SequencePair :=
  es.filterMap fun
    | .doCommit seq true => some seq
    | .progressSequences seq => some seq
    | _ => none

/-- The runs the ingest pipeline makes from `last_sn = L0`: blocks queued in
increasing order past `L0`, each completed once after it was queued. -/
inductive Admissible (L0 : Int) : List Event → Prop where
  | nil : Admissible L0 []
  | doCommit {es : List Event} {seq : SequencePair} (empty : Bool) :
      Admissible L0 es → L0 < seq.1 → seq.1 ≤ seq.2 → (∀ p ∈ pushed es, p.2 < seq.1) →
      Admissible L0 (es ++ [.doCommit seq empty])
  | progressSequences {es : List Event} {seq : SequencePair} :
      Admissible L0 es → seq ∈ pushedNonEmpty es → seq ∉ completed es →
      Admissible L0 (es ++ [.progressSequences seq])
  | commitSN {es : List Event} : Admissible L0 es → Admissible L0 (es ++ [.commitSN])
  | commitSNLocal {es : List Event} (sn : Int) : Admissible L0 es → Admissible L0 (es ++ [.commitSNLocal sn])

/-- The queued blocks of an admissible run: past `L0`, well formed, increasing. -/
structure Pushes (L0 : Int) (P : List SequencePair) : Prop where
  above : ∀ a ∈ P, L0 < a.1
  wf : ∀ a ∈ P, a.1 ≤ a.2
  ordered : P.Pairwise fun a b => a.2 < b.1

theorem Pushes.pairwise_lt {L0 : Int} {P : List SequencePair} (h : Pushes L0 P) : P.Pairwise pairLT :=
  h.ordered.imp_of_mem fun {a b} ha _ hab => Or.inl (by have := h.wf a ha; omega)

theorem Pushes.nodup {L0 : Int} {P : List SequencePair} (h : Pushes L0 P) : P.Nodup :=
  h.pairwise_lt.imp fun {a b} hab => by rintro rfl; rcases hab with h | ⟨-, h⟩ <;> omega

theorem Pushes.concat {L0 : Int} {P : List SequencePair} (h : Pushes L0 P) {seq : SequencePair} (h1 : L0 < seq.1)
    (h2 : seq.1 ≤ seq.2) (h3 : ∀ p ∈ P, p.2 < seq.1) : Pushes L0 (P ++ [seq]) := by
  refine ⟨fun a ha => ?_, fun a ha => ?_, List.pairwise_append.mpr ⟨h.ordered, by simp, fun a ha b hb => ?_⟩⟩
  · rcases List.mem_append.mp ha with ha | ha
    · exact h.above a ha
    · rw [List.mem_singleton.mp ha]; exact h1
  · rcases List.mem_append.mp ha with ha | ha
    · exact h.wf a ha
    · rw [List.mem_singleton.mp ha]; exact h2
  · rw [List.mem_singleton.mp hb]
    exact h3 a ha

section Ghost

variable {es : List Event}

@[simp] theorem pushed_append (es es' : List Event) : pushed (es ++ es') = pushed es ++ pushed es' :=
  List.filterMap_append

@[simp] theorem completed_append (es es' : List Event) : completed (es ++ es') = completed es ++ completed es' :=
  List.filterMap_append

theorem mem_pushed_of_mem_pushedNonEmpty {seq : SequencePair} (h : seq ∈ pushedNonEmpty es) : seq ∈ pushed es := by
  simp only [pushedNonEmpty, List.mem_filterMap] at h
  obtain ⟨e, he, hs⟩ := h
  refine List.mem_filterMap.mpr ⟨e, he, ?_⟩
  rcases e with ⟨_, _ | _⟩ | _ | _ | _ <;> simp_all

/-- What an admissible run queued: increasing blocks past `L0`; it completed only queued blocks. -/
theorem Admissible.ghost {L0 : Int} (h : Admissible L0 es) :
    Pushes L0 (pushed es) ∧ ∀ x ∈ completed es, x ∈ pushed es := by
  induction h with
  | nil => exact ⟨⟨by simp [pushed], by simp [pushed], by simp [pushed]⟩, by simp [completed]⟩
  | doCommit empty _ h1 h2 h3 ih =>
    refine ⟨by simpa [pushed] using ih.1.concat h1 h2 h3, fun x hx => ?_⟩
    simp only [completed_append, pushed_append, List.mem_append] at hx ⊢
    rcases hx with hx | hx
    · exact Or.inl (ih.2 x hx)
    · cases empty <;> simp_all [completed, pushed]
  | progressSequences _ hin _ ih =>
    refine ⟨by simpa [pushed] using ih.1, fun x hx => ?_⟩
    simp only [completed_append, pushed_append, List.mem_append] at hx ⊢
    rcases hx with hx | hx
    · exact Or.inl (ih.2 x hx)
    · simp only [completed, List.filterMap_cons, List.filterMap_nil, List.mem_singleton] at hx
      exact Or.inl (hx ▸ mem_pushed_of_mem_pushedNonEmpty hin)
  | commitSN _ ih => simpa [pushed, completed] using ih
  | commitSNLocal _ _ ih => simpa [pushed, completed] using ih

end Ghost

/-! ### The invariant -/

/-- The value of `last_sn` after the completed prefix `done`. -/
def lastOf (L0 : Int) (done : List SequencePair) : Int := (done.map Prod.snd).getLastD L0

/-- The state after a run that queued `P` and completed `C`: `done`, the
longest completed prefix of `P`, then `outstanding_sns`. -/
structure Tracks (L0 : Int) (P C done : List SequencePair) (s : SnState) : Prop where
  split : P = done ++ s.outstandingSns
  done_completed : ∀ x ∈ done, x ∈ C
  front_pending : ∀ x ∈ s.outstandingSns.head?, x ∉ C
  local_eq : s.localCommittedSns = s.outstandingSns.filter fun x => decide (x ∈ C)
  lastSn_eq : s.lastSn = lastOf L0 done
  prevSn_le : s.prevSn ≤ s.lastSn

theorem lastOf_cons (L0 : Int) (p : SequencePair) (done : List SequencePair) :
    lastOf L0 (p :: done) = lastOf p.2 done :=
  List.getLastD_cons

theorem lastOf_concat (L0 : Int) (done : List SequencePair) (b : SequencePair) :
    lastOf L0 (done ++ [b]) = b.2 := by
  rw [lastOf, List.map_append, List.map_singleton, List.getLastD_concat]

/-- `last_sn` does not move back when the completed prefix grows by blocks
ending above it. -/
theorem lastOf_le_append {L0 : Int} {done extra : List SequencePair}
    (h : ∀ b ∈ extra, L0 ≤ b.2 ∧ ∀ a ∈ done, a.2 ≤ b.2) : lastOf L0 done ≤ lastOf L0 (done ++ extra) := by
  rcases List.eq_nil_or_concat extra with rfl | ⟨l, b, rfl⟩
  · simp
  · rw [List.concat_eq_append] at h ⊢
    have hb := h b (by simp)
    rw [← List.append_assoc, lastOf_concat]
    rcases List.eq_nil_or_concat done with rfl | ⟨l', a, rfl⟩
    · exact hb.1
    · rw [List.concat_eq_append, lastOf_concat]
      exact hb.2 a (by simp)

/-- **The catch-up loop.** From the front's end, the loop pops the completed
blocks behind the front and moves `last_sn` to the end of the last of them. -/
theorem catchUp_release {C : List SequencePair} :
    ∀ {D : List SequencePair}, D.Nodup → ∀ last : Int,
      catchUp .release D (D.filter fun x => decide (x ∈ C)) last =
        .ok (D.dropWhile (fun x => decide (x ∈ C)), (D.dropWhile fun x => decide (x ∈ C)).filter fun x => decide (x ∈ C),
          lastOf last (D.takeWhile fun x => decide (x ∈ C)))
  | [], _, last => rfl
  | p :: ps, hD, last => by
    rw [List.nodup_cons] at hD
    by_cases hp : p ∈ C
    · -- the front committed: pop it and go on from its end
      rw [List.filter_cons_of_pos (by simpa using hp), List.dropWhile_cons_of_pos (by simpa using hp),
        List.takeWhile_cons_of_pos (by simpa using hp)]
      simp only [catchUp, assert, ↓reduceIte, pure_bind, lastOf_cons]
      exact catchUp_release hD.2 p.2
    · -- the front has not committed: the loop stops
      rw [List.filter_cons_of_neg (by simpa using hp), List.dropWhile_cons_of_neg (by simpa using hp),
        List.takeWhile_cons_of_neg (by simpa using hp), List.filter_cons_of_neg (by simpa using hp)]
      cases hf : ps.filter fun x => decide (x ∈ C) with
      | nil => rfl
      | cons c cs =>
        have hc : c ∈ ps := List.mem_of_mem_filter (hf ▸ List.mem_cons_self)
        have hcp : c ≠ p := fun h => hD.1 (h ▸ hc)
        simp only [catchUp, if_neg hcp]
        rfl

theorem lastOf_append (L0 : Int) (l l' : List SequencePair) : lastOf L0 (l ++ l') = lastOf (lastOf L0 l) l' := by
  rw [lastOf, List.map_append, getLastD_append]
  rfl

/-- Behind a prefix of the queued blocks, every block ends above `L0` and above
every block of the prefix. -/
theorem Pushes.le_of_split {L0 : Int} {P done rest : List SequencePair} (hP : Pushes L0 P)
    (hs : P = done ++ rest) : ∀ b ∈ rest, L0 ≤ b.2 ∧ ∀ a ∈ done, a.2 ≤ b.2 := by
  intro b hb
  have hbP : b ∈ P := hs ▸ List.mem_append_right done hb
  have h1 := hP.above b hbP
  have h2 := hP.wf b hbP
  have hord := hs ▸ hP.ordered
  rw [List.pairwise_append] at hord
  exact ⟨by omega, fun a ha => by have := hord.2.2 a ha b hb; omega⟩

/-! ### Each event keeps the invariant -/

section Steps

variable {L0 : Int} {P C done : List SequencePair} {s : SnState}

/-- `doCommit` queues a block past every queued one. -/
theorem Tracks.push (h : Tracks L0 P C done s) {seq : SequencePair} (hseq : seq ∉ C) :
    Tracks L0 (P ++ [seq]) C done { s with outstandingSns := s.outstandingSns ++ [seq] } where
  split := by rw [h.split, List.append_assoc]
  done_completed := h.done_completed
  front_pending x hx := by
    cases ho : s.outstandingSns with
    | nil =>
      rw [ho, List.nil_append, List.head?_singleton, Option.mem_some_iff] at hx
      exact hx ▸ hseq
    | cons y ys =>
      rw [ho, List.cons_append, List.head?_cons, Option.mem_some_iff] at hx
      exact h.front_pending x (by rw [ho, hx]; rfl)
  local_eq := by
    rw [h.local_eq, List.filter_append, List.filter_singleton]
    simp [hseq]
  lastSn_eq := h.lastSn_eq
  prevSn_le := h.prevSn_le

/-- A block that is not the front waits in `local_committed_sns`. -/
theorem Tracks.wait (h : Tracks L0 P C done s) (hP : Pushes L0 P) {seq front : SequencePair}
    {rest : List SequencePair} (ho : s.outstandingSns = front :: rest) (hin : seq ∈ s.outstandingSns)
    (hnot : seq ∉ C) (hne : seq ≠ front) :
    Tracks L0 P (C ++ [seq]) done { s with localCommittedSns := setInsert seq s.localCommittedSns } where
  split := h.split
  done_completed x hx := List.mem_append_left _ (h.done_completed x hx)
  front_pending x hx := by
    have hx' : front = x := by simpa [ho] using hx
    have := h.front_pending x hx
    simp only [List.mem_append, List.mem_singleton, not_or]
    exact ⟨this, hx' ▸ Ne.symm hne⟩
  local_eq := by
    have hsorted : s.outstandingSns.Pairwise pairLT :=
      hP.pairwise_lt.sublist (h.split ▸ List.sublist_append_right done s.outstandingSns)
    have hins := orderedInsert_filter pairLT (fun a b hab hba => by unfold pairLT at hab hba; omega) hsorted
      (fun x => decide (x ∈ C)) hin (by simpa using hnot)
    show setInsert seq s.localCommittedSns = _
    rw [setInsert, if_neg (by rw [h.local_eq]; simp [hnot]), h.local_eq, hins]
    exact List.filter_congr fun a _ => by simp
  lastSn_eq := h.lastSn_eq
  prevSn_le := h.prevSn_le

/-- The front commits: the catch-up loop moves `last_sn` past it and past the
completed blocks behind it. -/
theorem Tracks.advance (h : Tracks L0 P C done s) (hP : Pushes L0 P) {seq : SequencePair}
    {rest : List SequencePair} (ho : s.outstandingSns = seq :: rest) (hnot : seq ∉ C) :
    ∃ s' done', progressSequencesWithoutLock .release seq s = .ok s' ∧ Tracks L0 P (C ++ [seq]) done' s' ∧
      s.lastSn ≤ s'.lastSn := by
  have hnodup : (seq :: rest).Nodup := ho ▸ hP.nodup.sublist (h.split ▸ List.sublist_append_right _ _)
  -- the blocks behind the front that committed, now with the front among the completed ones
  have hlocal : s.localCommittedSns = rest.filter fun x => decide (x ∈ C ++ [seq]) := by
    rw [h.local_eq, ho, List.filter_cons_of_neg (by simpa using hnot)]
    refine List.filter_congr fun a ha => ?_
    have hne : a ≠ seq := fun e => (List.nodup_cons.mp hnodup).1 (e ▸ ha)
    simp [hne]
  have hrun : progressSequencesWithoutLock .release seq s =
      .ok { s with outstandingSns := rest.dropWhile fun x => decide (x ∈ C ++ [seq]),
                   localCommittedSns := (rest.dropWhile fun x => decide (x ∈ C ++ [seq])).filter
                     fun x => decide (x ∈ C ++ [seq]),
                   lastSn := lastOf seq.2 (rest.takeWhile fun x => decide (x ∈ C ++ [seq])) } := by
    simp only [progressSequencesWithoutLock, assert, ho, hlocal, ne_eq, not_true_eq_false, ↓reduceIte,
      catchUp_release (List.nodup_cons.mp hnodup).2, pure_bind, bind_pure_comp]
    rfl
  have hsplit := @List.takeWhile_append_dropWhile _ (fun x => decide (x ∈ C ++ [seq])) rest
  have hbehind : ∀ b ∈ seq :: rest.takeWhile (fun x => decide (x ∈ C ++ [seq])), b ∈ s.outstandingSns := by
    intro b hb
    rw [ho]
    rcases List.mem_cons.mp hb with rfl | hb
    · exact List.mem_cons_self
    · exact List.mem_cons_of_mem _ ((List.takeWhile_sublist _).subset hb)
  have hle : lastOf L0 done ≤ lastOf L0 (done ++ seq :: rest.takeWhile fun x => decide (x ∈ C ++ [seq])) :=
    lastOf_le_append fun b hb => hP.le_of_split h.split b (hbehind b hb)
  have hlast : lastOf seq.2 (rest.takeWhile fun x => decide (x ∈ C ++ [seq])) =
      lastOf L0 (done ++ seq :: rest.takeWhile fun x => decide (x ∈ C ++ [seq])) := by
    rw [lastOf_append, lastOf_cons]
  refine ⟨_, done ++ seq :: rest.takeWhile (fun x => decide (x ∈ C ++ [seq])), hrun, ⟨?_, ?_, ?_, rfl, ?_, ?_⟩, ?_⟩
  · show P = (done ++ seq :: _) ++ _
    rw [List.append_assoc, List.cons_append, hsplit, ← ho, ← h.split]
  · intro x hx
    rcases List.mem_append.mp hx with hx | hx
    · exact List.mem_append_left _ (h.done_completed x hx)
    · rcases List.mem_cons.mp hx with rfl | hx
      · exact List.mem_append_right _ List.mem_cons_self
      · simpa using List.mem_takeWhile_imp hx
  · intro x hx
    simpa using head?_dropWhile _ rest x hx
  · exact hlast
  · show s.prevSn ≤ lastOf seq.2 _
    rw [hlast]
    exact h.prevSn_le.trans (h.lastSn_eq ▸ hle)
  · show s.lastSn ≤ lastOf seq.2 _
    rw [hlast, h.lastSn_eq]
    exact hle

/-- **A block commits**, the front or another one. -/
theorem Tracks.progress (h : Tracks L0 P C done s) (hP : Pushes L0 P) {seq : SequencePair} (hin : seq ∈ P)
    (hnot : seq ∉ C) :
    ∃ s' done', progressSequencesWithoutLock .release seq s = .ok s' ∧ Tracks L0 P (C ++ [seq]) done' s' ∧
      s.lastSn ≤ s'.lastSn := by
  -- the block is still outstanding: what lies before the front completed
  have hout : seq ∈ s.outstandingSns := by
    rw [h.split, List.mem_append] at hin
    exact hin.resolve_left fun hd => hnot (h.done_completed seq hd)
  cases ho : s.outstandingSns with
  | nil => rw [ho] at hout; simp at hout
  | cons front rest =>
    by_cases hfront : seq = front
    · subst hfront
      exact h.advance hP ho hnot
    · refine ⟨_, done, ?_, h.wait hP ho hout hnot hfront, le_rfl⟩
      simp only [progressSequencesWithoutLock, assert, ho, ne_eq, hfront, not_false_eq_true, ↓reduceIte,
        pure_bind]
      rfl

/-- `doCommit` of a block left for the thread pool. -/
theorem Tracks.doCommit_pool (h : Tracks L0 P C done s) {seq : SequencePair} (hseq : seq ∉ C) :
    ∃ s' done', doCommit .release seq false s = .ok s' ∧ Tracks L0 (P ++ [seq]) C done' s' ∧
      s.lastSn ≤ s'.lastSn :=
  ⟨_, done, rfl, h.push hseq, le_rfl⟩

/-- `doCommit` of a block deduplication emptied: queued and committed at once. -/
theorem Tracks.doCommit_empty (h : Tracks L0 P C done s) (hP : Pushes L0 (P ++ [seq])) (hseq : seq ∉ C) :
    ∃ s' done', doCommit .release seq true s = .ok s' ∧ Tracks L0 (P ++ [seq]) (C ++ [seq]) done' s' ∧
      s.lastSn ≤ s'.lastSn :=
  (h.push hseq).progress hP (List.mem_append_right _ List.mem_cons_self) hseq

/-- `commitSN` only moves `prev_sn` up to `last_sn`. -/
theorem Tracks.commitSN (h : Tracks L0 P C done s) : Tracks L0 P C done (commitSN s).1 := by
  unfold DistributedMergeTree.commitSN
  split_ifs
  · exact ⟨h.split, h.done_completed, h.front_pending, h.local_eq, h.lastSn_eq, le_rfl⟩
  · exact h

theorem Tracks.commitSNLocal (h : Tracks L0 P C done s) (sn : Int) :
    Tracks L0 P C done { s with localSn := sn } :=
  ⟨h.split, h.done_completed, h.front_pending, h.local_eq, h.lastSn_eq, h.prevSn_le⟩

end Steps

/-! ### Whole runs -/

theorem run_snoc {s0 s s' : SnState} {es : List Event} (e : Event) (hrun : run .release s0 es = .ok s)
    (hstep : step .release s e = .ok s') (hle : s.lastSn ≤ s'.lastSn) :
    run .release s0 (es ++ [e]) = .ok s' ∧
      ∀ es' e', es ++ [e] = es' ++ [e'] → ∃ s'', run .release s0 es' = .ok s'' ∧ s''.lastSn ≤ s'.lastSn := by
  refine ⟨by rw [run_append_singleton, hrun]; exact hstep, fun es' e' heq => ?_⟩
  obtain ⟨rfl, -⟩ := List.append_inj' heq rfl
  exact ⟨s, hrun, hle⟩

/-- **Every admissible run keeps the invariant**, and no event moves `last_sn`
back. Induction on the run, one step lemma per event. -/
theorem Tracks.run {L0 : Int} {s0 : SnState}
    (h0 : s0.outstandingSns = [] ∧ s0.localCommittedSns = [] ∧ s0.lastSn = L0 ∧ s0.prevSn ≤ L0)
    {es : List Event} (h : Admissible L0 es) :
    ∃ s done, run .release s0 es = .ok s ∧ Tracks L0 (pushed es) (completed es) done s ∧
      ∀ es' e, es = es' ++ [e] → ∃ s', run .release s0 es' = .ok s' ∧ s'.lastSn ≤ s.lastSn := by
  induction h with
  | nil =>
    obtain ⟨ho, hl, hlast, hprev⟩ := h0
    refine ⟨s0, [], rfl, ⟨by simp [pushed, ho], by simp, by simp [ho], by simp [ho, hl], hlast, by omega⟩,
      fun es' e he => ?_⟩
    exact absurd he.symm (by simp)
  | @doCommit es seq empty hadm h1 h2 h3 ih =>
    obtain ⟨s, done, hrun, htr, -⟩ := ih
    obtain ⟨hP, hC⟩ := hadm.ghost
    -- the new block lies past every queued one, so it has not completed
    have hseq : seq ∉ completed es := fun hc => by
      have := h3 seq (hC seq hc)
      have := h2
      omega
    cases empty with
    | false =>
      obtain ⟨s', done', hstep, htr', hle⟩ := htr.doCommit_pool hseq
      obtain ⟨hrun', hmono⟩ := run_snoc (.doCommit seq false) hrun hstep hle
      exact ⟨s', done', hrun', by simpa [pushed, completed] using htr', hmono⟩
    | true =>
      obtain ⟨s', done', hstep, htr', hle⟩ := htr.doCommit_empty (hP.concat h1 h2 h3) hseq
      obtain ⟨hrun', hmono⟩ := run_snoc (.doCommit seq true) hrun hstep hle
      exact ⟨s', done', hrun', by simpa [pushed, completed] using htr', hmono⟩
  | @progressSequences es seq hadm hin hnot ih =>
    obtain ⟨s, done, hrun, htr, -⟩ := ih
    obtain ⟨s', done', hstep, htr', hle⟩ := htr.progress hadm.ghost.1 (mem_pushed_of_mem_pushedNonEmpty hin) hnot
    obtain ⟨hrun', hmono⟩ := run_snoc (.progressSequences seq) hrun hstep hle
    exact ⟨s', done', hrun', by simpa [pushed, completed] using htr', hmono⟩
  | commitSN _ ih =>
    obtain ⟨s, done, hrun, htr, -⟩ := ih
    have hle : s.lastSn ≤ (DistributedMergeTree.commitSN s).1.lastSn := by
      unfold DistributedMergeTree.commitSN
      split_ifs <;> exact le_rfl
    obtain ⟨hrun', hmono⟩ := run_snoc .commitSN hrun rfl hle
    exact ⟨_, done, hrun', by simpa [pushed, completed] using htr.commitSN, hmono⟩
  | commitSNLocal sn _ ih =>
    obtain ⟨s, done, hrun, htr, -⟩ := ih
    obtain ⟨hrun', hmono⟩ := run_snoc (.commitSNLocal sn) hrun rfl le_rfl
    exact ⟨_, done, hrun', by simpa [pushed, completed] using htr.commitSNLocal sn, hmono⟩

/-! ### The checkpoint -/

/-- What the state is after a run that queued `P` and completed `C`, with
`L0` the initial `last_sn`. -/
structure CheckpointSpec (L0 : Int) (P C : List SequencePair) (s : SnState) : Prop where
  /-- `last_sn` ends the longest prefix of `P` that all completed, or is `L0`. -/
  lastSn_eq : s.lastSn = lastOf L0 (P.takeWhile fun x => decide (x ∈ C))
  /-- `outstanding_sns` is the rest of `P`, in order. -/
  outstanding_eq : s.outstandingSns = P.dropWhile fun x => decide (x ∈ C)
  /-- `local_committed_sns` holds the completed blocks of the rest … -/
  local_mem : ∀ x, x ∈ s.localCommittedSns ↔ x ∈ C ∧ x ∈ P.dropWhile fun x => decide (x ∈ C)
  /-- … in increasing order. -/
  local_sorted : s.localCommittedSns.Pairwise pairLT
  /-- The front of `outstanding_sns` is not in `local_committed_sns`. -/
  front_not_mem : ∀ x ∈ s.outstandingSns.head?, x ∉ s.localCommittedSns

theorem Tracks.spec {L0 : Int} {P C done : List SequencePair} {s : SnState} (h : Tracks L0 P C done s)
    (hP : Pushes L0 P) : CheckpointSpec L0 P C s := by
  have hd : ∀ a ∈ done, decide (a ∈ C) = true := fun a ha => by simpa using h.done_completed a ha
  have hp : ∀ a ∈ s.outstandingSns.head?, decide (a ∈ C) = false := fun a ha => by simpa using h.front_pending a ha
  have htake : P.takeWhile (fun x => decide (x ∈ C)) = done := by rw [h.split]; exact takeWhile_append_of_head hd hp
  have hdrop : P.dropWhile (fun x => decide (x ∈ C)) = s.outstandingSns := by
    rw [h.split]; exact dropWhile_append_of_head hd hp
  refine ⟨by rw [htake]; exact h.lastSn_eq, hdrop.symm, fun x => ?_, ?_, fun x hx hmem => ?_⟩
  · rw [hdrop, h.local_eq, List.mem_filter, decide_eq_true_iff, and_comm]
  · rw [h.local_eq]
    exact (hP.pairwise_lt.sublist (h.split ▸ List.sublist_append_right done s.outstandingSns)).filter _
  · rw [h.local_eq, List.mem_filter] at hmem
    exact h.front_pending x hx (by simpa using hmem.2)

theorem progressSequences_spec (s0 : SnState)
    (h0 : s0.outstandingSns = [] ∧ s0.localCommittedSns = [] ∧ s0.prevSn ≤ s0.lastSn) (es : List Event)
    (h : Admissible s0.lastSn es) :
    ∃ s, run .release s0 es = .ok s ∧ CheckpointSpec s0.lastSn (pushed es) (completed es) s ∧
      ∀ es' e, es = es' ++ [e] → ∃ s', run .release s0 es' = .ok s' ∧ s'.lastSn ≤ s.lastSn := by
  obtain ⟨s, done, hrun, htr, hmono⟩ := Tracks.run ⟨h0.1, h0.2.1, rfl, h0.2.2⟩ h
  exact ⟨s, hrun, htr.spec h.ghost.1, hmono⟩

/-- From `committed_sn.txt` at `0`: two blocks, the second committed first,
then a `commitSN`. -/
theorem progressSequences_spec_outOfOrder :
    (SnState.initial 0).outstandingSns = [] ∧ (SnState.initial 0).localCommittedSns = [] ∧
      (SnState.initial 0).prevSn ≤ (SnState.initial 0).lastSn ∧
      Admissible (SnState.initial 0).lastSn [.doCommit (1, 2) false, .doCommit (3, 3) false,
        .progressSequences (3, 3), .progressSequences (1, 2), .commitSN] ∧
      ∃ s, run .release (SnState.initial 0) [.doCommit (1, 2) false, .doCommit (3, 3) false,
          .progressSequences (3, 3), .progressSequences (1, 2), .commitSN] = .ok s ∧
        CheckpointSpec (SnState.initial 0).lastSn (pushed [.doCommit (1, 2) false, .doCommit (3, 3) false,
          .progressSequences (3, 3), .progressSequences (1, 2), .commitSN])
          (completed [.doCommit (1, 2) false, .doCommit (3, 3) false, .progressSequences (3, 3),
            .progressSequences (1, 2), .commitSN]) s ∧
        ∀ es' e, [.doCommit (1, 2) false, .doCommit (3, 3) false, .progressSequences (3, 3),
            .progressSequences (1, 2), .commitSN] = es' ++ [e] →
          ∃ s', run .release (SnState.initial 0) es' = .ok s' ∧ s'.lastSn ≤ s.lastSn := by
  have h1 : Admissible 0 [.doCommit (1, 2) false] :=
    Admissible.doCommit false Admissible.nil (by decide) (by decide) (by simp [pushed])
  have h2 : Admissible 0 [.doCommit (1, 2) false, .doCommit (3, 3) false] :=
    Admissible.doCommit false h1 (by decide) (by decide) (by simp [pushed])
  have h3 : Admissible 0 [.doCommit (1, 2) false, .doCommit (3, 3) false, .progressSequences (3, 3)] :=
    Admissible.progressSequences h2 (by simp [pushedNonEmpty]) (by simp [completed])
  have h4 : Admissible 0 [.doCommit (1, 2) false, .doCommit (3, 3) false, .progressSequences (3, 3),
      .progressSequences (1, 2)] :=
    Admissible.progressSequences h3 (by simp [pushedNonEmpty]) (by simp [completed])
  have h5 : Admissible 0 [.doCommit (1, 2) false, .doCommit (3, 3) false, .progressSequences (3, 3),
      .progressSequences (1, 2), .commitSN] :=
    Admissible.commitSN h4
  have h0 : (SnState.initial 0).outstandingSns = [] ∧ (SnState.initial 0).localCommittedSns = [] ∧
      (SnState.initial 0).prevSn ≤ (SnState.initial 0).lastSn := ⟨rfl, rfl, by decide⟩
  exact ⟨h0.1, h0.2.1, h0.2.2, h5, progressSequences_spec (SnState.initial 0) h0 _ h5⟩

end Daisy.DistributedMergeTree
