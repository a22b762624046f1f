import Daisy.Common.HashTable.Invariant
import Mathlib.Data.Nat.Find

/-!
# `HashTable::resize`

`resize` grows the buffer from `n` cells to `N` and moves the elements in
place. The new cells are empty; each taken cell of the old buffer is
reinserted in the order of the cells (`reinsert`: the element goes to the
first empty cell of the walk from its new home, unless the walk finds it
first), and then the run of taken cells from the old end on is reinserted
once more.

## Why it works

The argument does not use the chains of the old buffer; it uses the count.
With `c` elements, `c ≤ n + 1` and `c < N - n`, a whole chain cannot go
round the end of the new buffer and take all the cells from the old end
(`home_le_of_dist_lt`, `not_wrap_below`). So

* during the first loop, before the cell `i`, every element lies at a cell
  of the old buffer the loop has not reached, or has its chain whole, or lies
  past the old end with its home before it and every cell from the old end
  to it taken (`Phase1`). Only chains of the last kind cross a cell that a
  reinsert empties;
* after it, with `r` the first empty cell past the old end, every element
  whose chain is broken lies in `[n, r)`, and the second loop mends them in
  order (`Phase2`).

## What is proved

* `reinsert_spec`: what one `reinsert` does;
* `Phase1.step`, `reinsertOld_phase1`, `Phase2.step`, `reinsertTail_phase2`:
  the two loops;
* `rehash_spec`: a resize to a larger buffer, from a table whose count is
  within the bounds, keeps the elements and ends with every chain whole;
* `Inv.resize`, with `Rehashed.represents`: every call of `resize` keeps the
  invariant and the map; `resize_overflow`: so does the call that `emplace`
  makes past the fill bound.
-/

namespace Daisy.Common

open Daisy.Library

namespace HashTableGrower

variable {g g' : HashTableGrower}

/-- A buffer larger than another has a degree above zero. -/
theorem sizeDegree_pos_of_lt (h : g.bufSize < g'.bufSize) : 0 < g'.sizeDegree := by
  have hg := g.bufSize_pos
  refine Nat.pos_of_ne_zero fun h0 => ?_
  unfold bufSize at h hg
  rw [h0, Nat.pow_zero] at h
  omega

/-- Buffers are powers of two: a larger one is at least twice as large. -/
theorem two_mul_bufSize_le (h : g.bufSize < g'.bufSize) : 2 * g.bufSize ≤ g'.bufSize := by
  unfold bufSize at h ⊢
  have hd : g.sizeDegree < g'.sizeDegree := (Nat.pow_lt_pow_iff_right (by decide)).mp h
  calc 2 * 2 ^ g.sizeDegree = 2 ^ (g.sizeDegree + 1) := by rw [Nat.pow_succ, Nat.mul_comm]
    _ ≤ 2 ^ g'.sizeDegree := Nat.pow_le_pow_right (by decide) hd

theorem bufSize_increaseSize : g.increaseSize.bufSize = g.bufSize * if g.sizeDegree ≥ 23 then 2 else 4 := by
  unfold increaseSize bufSize
  dsimp only
  split_ifs <;> rw [Nat.pow_add]

theorem lt_bufSize_increaseSize : g.bufSize < g.increaseSize.bufSize := by
  have hg := g.bufSize_pos
  rw [bufSize_increaseSize]
  split_ifs <;> omega

end HashTableGrower

namespace HashTable

variable {K M : Type} [DecidableEq K] {hash : K → Nat} {zeroKey : K}

/-! ### One element -/

/-- **`reinsert`.** The element at `i` stays, its chain whole, or moves to the
first empty cell of the walk from its home, which comes before `i` on that
walk, with its chain whole there. -/
theorem reinsert_spec {t : HashTable K M}
    (hu : ∀ i j y y', t.buf i = some y → t.buf j = some y' → y.1 = y'.1 → i = j)
    (hempty : ∃ e < t.grower.bufSize, t.buf e = none) {i : Nat} {z : K × M} (hz : t.buf i = some z)
    (hi : i < t.grower.bufSize) :
    ((reinsert hash t i).2 = t ∧ ChainWhole t.grower.bufSize (home hash t) t.buf i) ∨
      ∃ p < t.grower.bufSize, t.buf p = none ∧
        cyclicDist t.grower.bufSize (home hash t z) p < cyclicDist t.grower.bufSize (home hash t z) i ∧
        (reinsert hash t i).2 = { t with buf := Function.update (Function.update t.buf p (some z)) i none } ∧
        ChainWhole t.grower.bufSize (home hash t) (Function.update (Function.update t.buf p (some z)) i none) p := by
  obtain ⟨key, mapped⟩ := z
  have hhome : home hash t (key, mapped) = t.grower.place (hash key) := rfl
  rw [hhome]
  unfold reinsert
  rw [hz]
  dsimp only
  by_cases hat : t.grower.place (hash key) = i
  · -- at its home: no cell comes before it on its walk
    rw [if_pos hat]
    refine .inl ⟨rfl, fun y hy j _ hdj => ?_⟩
    rw [hz] at hy
    cases hy
    rw [hhome, hat, cyclicDist_self] at hdj
    exact absurd hdj (Nat.not_lt_zero _)
  rw [if_neg hat]
  obtain ⟨hlt, hstop, hbefore⟩ := findCell_spec hash hempty key
  generalize findCell t key (t.grower.place (hash key)) t.grower.bufSize = p at hlt hstop hbefore ⊢
  have hh := t.grower.place_lt (hash key)
  -- the cells before the stop hold other keys
  have hwalk : ∀ j < t.grower.bufSize, cyclicDist t.grower.bufSize (t.grower.place (hash key)) j <
      cyclicDist t.grower.bufSize (t.grower.place (hash key)) p → ∃ e, t.buf j = some e ∧ e.1 ≠ key := by
    intro j hj hdj
    have hj' := hbefore j hj hdj
    cases hb : t.buf j with
    | none => simp [stopsAt, hb] at hj'
    | some e => exact ⟨e, rfl, by simpa [stopsAt_of_isSome hb] using hj'⟩
  -- `i` holds the key, so the walk stops there or before
  have hle : cyclicDist t.grower.bufSize (t.grower.place (hash key)) p ≤
      cyclicDist t.grower.bufSize (t.grower.place (hash key)) i := by
    by_contra hgt
    obtain ⟨e, he, hek⟩ := hwalk i hi (by omega)
    rw [hz] at he
    cases he
    exact hek rfl
  by_cases hpt : (t.buf p).isSome = true
  · -- the walk finds the element itself
    rw [if_pos hpt]
    have hpi : p = i := by
      rcases stopsAt_iff.mp hstop with hnone | ⟨v, hv⟩
      · rw [hnone] at hpt
        cases hpt
      · exact hu p i _ _ hv hz rfl
    refine .inl ⟨rfl, fun y hy j hj hdj => ?_⟩
    rw [hz] at hy
    cases hy
    obtain ⟨e, he, -⟩ := hwalk j hj (by rw [hpi]; exact hdj)
    simp [he]
  · rw [if_neg hpt]
    have hpnone : t.buf p = none := Option.not_isSome_iff_eq_none.mp hpt
    have hpi : p ≠ i := by
      rintro rfl
      rw [hz] at hpnone
      cases hpnone
    have hdist : cyclicDist t.grower.bufSize (t.grower.place (hash key)) p ≠
        cyclicDist t.grower.bufSize (t.grower.place (hash key)) i := fun h => hpi (cyclicDist_inj hh hlt hi h)
    refine .inr ⟨p, hlt, hpnone, by omega, rfl, fun y hy j hj hdj => ?_⟩
    rw [Function.update_of_ne hpi, Function.update_self] at hy
    cases hy
    obtain ⟨e, he, hek⟩ := hwalk j hj hdj
    have hji : j ≠ i := by
      rintro rfl
      rw [hz] at he
      cases he
      exact hek rfl
    have hjp : j ≠ p := by
      rintro rfl
      exact absurd hdj (Nat.lt_irrefl _)
    rw [Function.update_of_ne hji, Function.update_of_ne hjp, he]
    rfl

/-! ### What the loops keep -/

/-- What the loops of `resize` keep of the table `t₁` they start from: the
grower and the other fields, the elements, one cell for each key, nothing
past the buffer, and the count. -/
structure Rehash (t₁ t : HashTable K M) : Prop where
  grower_eq : t.grower = t₁.grower
  mSize_eq : t.mSize = t₁.mSize
  zeroValue_eq : t.zeroValue = t₁.zeroValue
  mem_iff : ∀ y, (∃ i, t.buf i = some y) ↔ ∃ i, t₁.buf i = some y
  key_unique : ∀ i j y y', t.buf i = some y → t.buf j = some y' → y.1 = y'.1 → i = j
  buf_above : ∀ i, t₁.grower.bufSize ≤ i → t.buf i = none
  count_eq : occupiedCount t₁.grower.bufSize t.buf = occupiedCount t₁.grower.bufSize t₁.buf

section Rehash

variable {t₁ t : HashTable K M}

omit [DecidableEq K] in
/-- Moving an element to an empty cell keeps what the loops keep. -/
theorem Rehash.move (hr : Rehash t₁ t) {i p : Nat} {z : K × M} (hi : i < t₁.grower.bufSize)
    (hp : p < t₁.grower.bufSize) (hz : t.buf i = some z) (hpn : t.buf p = none) :
    Rehash t₁ { t with buf := Function.update (Function.update t.buf p (some z)) i none } where
  grower_eq := hr.grower_eq
  mSize_eq := hr.mSize_eq
  zeroValue_eq := hr.zeroValue_eq
  mem_iff y := by
    rw [← hr.mem_iff]
    exact exists_move_iff hz hpn
  key_unique := unique_move Prod.fst hr.key_unique hz hpn
  buf_above j hj := by
    dsimp only
    rw [Function.update_of_ne (by omega), Function.update_of_ne (by omega)]
    exact hr.buf_above j hj
  count_eq := by
    rw [← hr.count_eq]
    exact occupiedCount_move hi hp hz hpn

omit [DecidableEq K] in
theorem Rehash.refl (hu : ∀ i j y y', t₁.buf i = some y → t₁.buf j = some y' → y.1 = y'.1 → i = j)
    (hb : ∀ i, t₁.grower.bufSize ≤ i → t₁.buf i = none) : Rehash t₁ t₁ :=
  ⟨rfl, rfl, rfl, fun _ => Iff.rfl, hu, hb, rfl⟩

omit [DecidableEq K] in
theorem Rehash.bufSize_eq (hr : Rehash t₁ t) : t.grower.bufSize = t₁.grower.bufSize := by
  rw [hr.grower_eq]

omit [DecidableEq K] in
theorem Rehash.home_eq (hr : Rehash t₁ t) : home hash t = home hash t₁ := by
  funext y
  simp only [home, hr.grower_eq]

omit [DecidableEq K] in
/-- Fewer elements than cells leave an empty cell. -/
theorem Rehash.exists_empty (hr : Rehash t₁ t)
    (hc : occupiedCount t₁.grower.bufSize t₁.buf < t₁.grower.bufSize) :
    ∃ e < t.grower.bufSize, t.buf e = none := by
  rw [hr.bufSize_eq]
  exact exists_empty_of_occupiedCount_lt (by rw [hr.count_eq]; exact hc)

end Rehash

/-! ### The count -/

section Count

variable {N n c h q : Nat}

/-- A whole chain, shorter than the count `c ≤ n + 1`, to a cell past the
old end does not come round the end of the buffer. -/
theorem home_le_of_dist_lt (hh : h < N) (hnq : n ≤ q) (hc : cyclicDist N h q < c) (hc₁ : c ≤ n + 1) :
    h ≤ q := by
  unfold cyclicDist at hc
  split_ifs at hc <;> omega

/-- A whole chain, shorter than the count `c < N - n`, to a cell of the old
buffer does not cross a later cell of the old buffer. -/
theorem not_wrap_below {i : Nat} (hh : h < N) (hqi : q < i) (hin : i < n)
    (hon : cyclicDist N h i < cyclicDist N h q) (hc : cyclicDist N h q < c) (hc₂ : c < N - n) : False := by
  unfold cyclicDist at hon hc
  split_ifs at hon hc <;> omega

/-- A chain from a home before the cell `q` past the old end, crossing a cell
`i` of the old buffer, takes every cell from the old end to `q`. -/
theorem dist_le_of_run {i j : Nat} (hh : h < N) (hq : q < N) (hhq : h ≤ q) (hin : i < n)
    (hon : cyclicDist N h i < cyclicDist N h q) (hnj : n ≤ j) (hjq : j ≤ q) :
    cyclicDist N h j ≤ cyclicDist N h q := by
  unfold cyclicDist at hon ⊢
  split_ifs at hon ⊢ <;> omega

/-- On a walk from `h`, a cell `q` after `j` and before `r`, with `j < r`,
lies between them. -/
theorem lt_of_between {j r : Nat} (hh : h < N) (hq : q < N) (hr : r < N) (hjr : j < r)
    (hjq : cyclicDist N h j < cyclicDist N h q) (hqr : cyclicDist N h q < cyclicDist N h r) : j < q ∧ q < r := by
  unfold cyclicDist at hjq hqr
  split_ifs at hjq hqr <;> omega

/-- On the walk from a home `h ≤ j`, a cell before `j` lies before it. -/
theorem lt_of_dist_lt {j p : Nat} (hhj : h ≤ j)
    (hdp : cyclicDist N h p < cyclicDist N h j) : p < j := by
  unfold cyclicDist at hdp
  split_ifs at hdp <;> omega

end Count

/-! ### The first loop -/

section Loops

variable {t₁ t : HashTable K M} {n : Nat}

/-- The first loop of `resize` from the old buffer of `n` cells, before the
cell `i`: every element lies at a cell the loop has still to reach, or has its
chain whole, or lies past the old end, at or after its home, with every cell
from the old end to it taken. -/
structure Phase1 (hash : K → Nat) (n : Nat) (t₁ : HashTable K M) (i : Nat) (t : HashTable K M) : Prop where
  rehash : Rehash t₁ t
  status : ∀ q < t₁.grower.bufSize, ∀ y, t.buf q = some y →
    (i ≤ q ∧ q < n) ∨ ChainWhole t₁.grower.bufSize (home hash t₁) t.buf q ∨
      (n ≤ q ∧ home hash t₁ y ≤ q ∧ ∀ j, n ≤ j → j ≤ q → (t.buf j).isSome)

variable (hc₁ : occupiedCount t₁.grower.bufSize t₁.buf ≤ n + 1)
  (hc₂ : occupiedCount t₁.grower.bufSize t₁.buf < t₁.grower.bufSize - n)
include hc₁ hc₂

omit [DecidableEq K] in
/-- A move from the cell `i` of the old buffer to an empty cell keeps a whole
chain whole, or leaves its element where the loop has still to go, or past the
old end after a run of taken cells. -/
theorem Phase1.status_move {i p q : Nat} {y : K × M} (z : K × M) (hp : Phase1 hash n t₁ i t) (hin : i < n)
    (hq : q < t₁.grower.bufSize) (hy : t.buf q = some y)
    (hqi : q ≠ i) (hqp : q ≠ p) (hw : ChainWhole t₁.grower.bufSize (home hash t₁) t.buf q) :
    (i + 1 ≤ q ∧ q < n) ∨
      ChainWhole t₁.grower.bufSize (home hash t₁) (Function.update (Function.update t.buf p (some z)) i none) q ∨
      (n ≤ q ∧ home hash t₁ y ≤ q ∧
        ∀ j, n ≤ j → j ≤ q → (Function.update (Function.update t.buf p (some z)) i none j).isSome) := by
  by_cases hon : cyclicDist t₁.grower.bufSize (home hash t₁ y) i < cyclicDist t₁.grower.bufSize (home hash t₁ y) q
  · have hh : home hash t₁ y < t₁.grower.bufSize := home_lt y
    have hcount : cyclicDist t₁.grower.bufSize (home hash t₁ y) q < occupiedCount t₁.grower.bufSize t₁.buf := by
      rw [← hp.rehash.count_eq]
      exact hw.dist_lt_occupiedCount hy hq hh
    rcases Nat.lt_or_ge q n with hqn | hnq
    · rcases Nat.lt_or_ge i q with hiq | hqi'
      · exact .inl ⟨hiq, hqn⟩
      · exact (not_wrap_below hh (by omega) hin hon hcount hc₂).elim
    · have hhq := home_le_of_dist_lt hh hnq hcount hc₁
      refine .inr (.inr ⟨hnq, hhq, fun j hnj hjq => isSome_move_of_ne (by omega) ?_⟩)
      exact hw.taken_of_le hy hq hh j (by omega) (dist_le_of_run hh hq hhq hin hon hnj hjq)
  · exact .inr (.inl (hw.move hy hqi hqp hon))

/-- **One turn of the first loop.** -/
theorem Phase1.step {i : Nat} (hp : Phase1 hash n t₁ i t) (hin : i < n) :
    Phase1 hash n t₁ (i + 1) (if (t.buf i).isSome then (reinsert hash t i).2 else t) := by
  have hr := hp.rehash
  have hiN : i < t₁.grower.bufSize := by omega
  cases hz : t.buf i with
  | none =>
    rw [Option.isSome_none, if_neg Bool.false_ne_true]
    refine ⟨hr, fun q hq y hy => ?_⟩
    have hqi : q ≠ i := by
      rintro rfl
      rw [hz] at hy
      cases hy
    rcases hp.status q hq y hy with ⟨hiq, hqn⟩ | hw | hrun
    · exact .inl ⟨by omega, hqn⟩
    · exact .inr (.inl hw)
    · exact .inr (.inr hrun)
  | some z =>
    rw [Option.isSome_some, if_pos rfl]
    rcases reinsert_spec hr.key_unique (hr.exists_empty (by omega)) hz (by rw [hr.bufSize_eq]; exact hiN) with
      ⟨heq, hw⟩ | ⟨p, hpN, hpn, -, heq, hwp⟩
    · -- the element stays, with its chain whole
      rw [heq]
      rw [hr.bufSize_eq, hr.home_eq] at hw
      refine ⟨hr, fun q hq y hy => ?_⟩
      by_cases hqi : q = i
      · exact .inr (.inl (hqi ▸ hw))
      · rcases hp.status q hq y hy with ⟨hiq, hqn⟩ | hw | hrun
        · exact .inl ⟨by omega, hqn⟩
        · exact .inr (.inl hw)
        · exact .inr (.inr hrun)
    · rw [heq]
      rw [hr.bufSize_eq, hr.home_eq] at hwp
      rw [hr.bufSize_eq] at hpN
      refine ⟨hr.move hiN hpN hz hpn, fun q hq y hy => ?_⟩
      dsimp only at hy ⊢
      rcases move_eq_some_iff.mp hy with ⟨rfl, -, rfl⟩ | ⟨hqi, hqp, hy⟩
      · exact .inr (.inl hwp)
      · rcases hp.status q hq y hy with ⟨hiq, hqn⟩ | hw | ⟨hnq, hhq, hrun⟩
        · exact .inl ⟨by omega, hqn⟩
        · exact hp.status_move hc₁ hc₂ z hin hq hy hqi hqp hw
        · exact .inr (.inr ⟨hnq, hhq, fun j hnj hjq => isSome_move_of_ne (by omega) (hrun j hnj hjq)⟩)

/-- **The first loop**, from a table whose elements all lie in the old buffer. -/
theorem reinsertOld_phase1 (hu : ∀ i j y y', t₁.buf i = some y → t₁.buf j = some y' → y.1 = y'.1 → i = j)
    (habove : ∀ i, n ≤ i → t₁.buf i = none) : Phase1 hash n t₁ n (reinsertOld hash t₁ n) := by
  have hstart : Phase1 hash n t₁ 0 t₁ := by
    refine ⟨.refl hu fun i hi => habove i (by omega), fun q _ y hy => .inl ⟨Nat.zero_le q, ?_⟩⟩
    by_contra hqn
    rw [habove q (by omega)] at hy
    cases hy
  -- the loop over the cells below `i`, by induction on `i`
  have hrun : ∀ i ≤ n, Phase1 hash n t₁ i
      ((List.range i).foldl (fun t i => if (t.buf i).isSome then (reinsert hash t i).2 else t) t₁) := by
    intro i
    induction i with
    | zero => exact fun _ => hstart
    | succ i ih =>
      intro hin
      rw [List.range_succ, List.foldl_append, List.foldl_cons, List.foldl_nil]
      exact (ih (by omega)).step hc₁ hc₂ (by omega)
  exact hrun n le_rfl

/-! ### The second loop -/

/-- The second loop of `resize` at the cell `j`, with `r` the first empty cell
from the old end on: every element has its chain whole, or lies between `j`
and `r`, at or after its home. -/
structure Phase2 (hash : K → Nat) (n r : Nat) (t₁ : HashTable K M) (j : Nat) (t : HashTable K M) : Prop where
  rehash : Rehash t₁ t
  n_le : n ≤ j
  le : j ≤ r
  r_lt : r < t₁.grower.bufSize
  r_empty : t.buf r = none
  run : ∀ q, j ≤ q → q < r → (t.buf q).isSome
  status : ∀ q < t₁.grower.bufSize, ∀ y, t.buf q = some y →
    ChainWhole t₁.grower.bufSize (home hash t₁) t.buf q ∨ (j ≤ q ∧ q < r ∧ home hash t₁ y ≤ q)

omit [DecidableEq K] hc₁ hc₂ in
/-- After the first loop, with `r` the first empty cell from the old end on,
the second loop starts at the old end. -/
theorem Phase1.phase2 {r : Nat} (hp : Phase1 hash n t₁ n t) (hnr : n ≤ r) (hr : r < t₁.grower.bufSize)
    (hrn : t.buf r = none) (hrun : ∀ j, n ≤ j → j < r → (t.buf j).isSome) : Phase2 hash n r t₁ n t := by
  refine ⟨hp.rehash, le_rfl, hnr, hr, hrn, hrun, fun q hq y hy => ?_⟩
  rcases hp.status q hq y hy with ⟨hnq, hqn⟩ | hw | ⟨hnq, hhq, hqrun⟩
  · omega
  · exact .inl hw
  · refine .inr ⟨hnq, ?_, hhq⟩
    by_contra hrq
    simpa [hrn] using hqrun r hnr (by omega)

omit hc₂ in
/-- **One turn of the second loop.** An element whose chain is broken moves
back, to a cell before it. -/
theorem Phase2.step {r j : Nat} (hp : Phase2 hash n r t₁ j t) (hjr : j < r) :
    Phase2 hash n r t₁ (j + 1) (reinsert hash t j).2 := by
  have hr := hp.rehash
  have hjN : j < t₁.grower.bufSize := by have := hp.r_lt; omega
  obtain ⟨z, hz⟩ := Option.isSome_iff_exists.mp (hp.run j le_rfl hjr)
  have hempty : ∃ e < t.grower.bufSize, t.buf e = none := ⟨r, by rw [hr.bufSize_eq]; exact hp.r_lt, hp.r_empty⟩
  rcases reinsert_spec hr.key_unique hempty hz (by rw [hr.bufSize_eq]; exact hjN) with
    ⟨heq, hw⟩ | ⟨p, hpN, hpn, hdp, heq, hwp⟩
  · rw [heq]
    rw [hr.bufSize_eq, hr.home_eq] at hw
    refine ⟨hr, by have := hp.n_le; omega, hjr, hp.r_lt, hp.r_empty, fun q hjq hqr => hp.run q (by omega) hqr,
      fun q hq y hy => ?_⟩
    by_cases hqj : q = j
    · exact .inl (hqj ▸ hw)
    · rcases hp.status q hq y hy with hw | ⟨hjq, hqr, hhq⟩
      · exact .inl hw
      · exact .inr ⟨by omega, hqr, hhq⟩
  · rw [hr.bufSize_eq] at hpN
    rw [hr.bufSize_eq, hr.home_eq] at hdp hwp
    -- the walk found an empty cell before `j`: the chain of `z` was broken
    have hhz : home hash t₁ z ≤ j := by
      rcases hp.status j hjN z hz with hw | ⟨-, -, hhz⟩
      · simpa [hpn] using hw z hz p hpN hdp
      · exact hhz
    have hpj : p < j := lt_of_dist_lt hhz hdp
    rw [heq]
    refine ⟨hr.move hjN hpN hz hpn, by have := hp.n_le; omega, hjr, hp.r_lt, ?_,
      fun q hjq hqr => isSome_move_of_ne (by omega) (hp.run q (by omega) hqr), fun q hq y hy => ?_⟩
    · dsimp only
      rw [Function.update_of_ne (by omega), Function.update_of_ne (by omega)]
      exact hp.r_empty
    dsimp only at hy ⊢
    rcases move_eq_some_iff.mp hy with ⟨rfl, -, rfl⟩ | ⟨hqj, hqp, hy⟩
    · exact .inl hwp
    rcases hp.status q hq y hy with hw | ⟨hjq, hqr, hhq⟩
    · by_cases hon : cyclicDist t₁.grower.bufSize (home hash t₁ y) j < cyclicDist t₁.grower.bufSize (home hash t₁ y) q
      · -- `j` is on the chain of `y`, and the empty `r` is not: `y` lies between them
        have hh : home hash t₁ y < t₁.grower.bufSize := home_lt y
        have hqr : q ≠ r := by
          rintro rfl
          rw [hp.r_empty] at hy
          cases hy
        have hrq : cyclicDist t₁.grower.bufSize (home hash t₁ y) q < cyclicDist t₁.grower.bufSize (home hash t₁ y) r := by
          have hne : cyclicDist t₁.grower.bufSize (home hash t₁ y) q ≠ cyclicDist t₁.grower.bufSize (home hash t₁ y) r :=
            fun h => hqr (cyclicDist_inj hh hq hp.r_lt h)
          have hoff : ¬ cyclicDist t₁.grower.bufSize (home hash t₁ y) r < cyclicDist t₁.grower.bufSize (home hash t₁ y) q :=
            fun h => by simpa [hp.r_empty] using hw y hy r hp.r_lt h
          omega
        obtain ⟨hjq, hqr⟩ := lt_of_between hh hq hp.r_lt hjr hon hrq
        have hcount : cyclicDist t₁.grower.bufSize (home hash t₁ y) q < occupiedCount t₁.grower.bufSize t₁.buf := by
          rw [← hr.count_eq]
          exact hw.dist_lt_occupiedCount hy hq hh
        exact .inr ⟨hjq, hqr, home_le_of_dist_lt hh (by have := hp.n_le; omega) hcount hc₁⟩
      · exact .inl (hw.move hy hqj hqp hon)
    · exact .inr ⟨by omega, hqr, hhq⟩

omit [DecidableEq K] hc₁ hc₂ in
/-- At `r` the second loop is done: every chain is whole. -/
theorem Phase2.done {r : Nat} (hp : Phase2 hash n r t₁ r t) :
    ∀ q < t₁.grower.bufSize, ChainWhole t₁.grower.bufSize (home hash t₁) t.buf q := by
  intro q hq y hy
  rcases hp.status q hq y hy with hw | ⟨hrq, hqr, -⟩
  · exact hw y hy
  · omega

omit hc₂ in
/-- **The second loop**, with fuel for the cells up to `r`. -/
theorem reinsertTail_phase2 {r : Nat} :
    ∀ (fuel j : Nat) (t : HashTable K M), r - j ≤ fuel → Phase2 hash n r t₁ j t →
      Rehash t₁ (reinsertTail hash t j fuel) ∧
        ∀ q < t₁.grower.bufSize, ChainWhole t₁.grower.bufSize (home hash t₁) (reinsertTail hash t j fuel).buf q := by
  intro fuel
  induction fuel with
  | zero =>
    intro j t hfuel hp
    have hjr : j = r := by have := hp.le; omega
    subst hjr
    exact ⟨hp.rehash, hp.done⟩
  | succ fuel ih =>
    intro j t hfuel hp
    rw [reinsertTail]
    by_cases hjr : j < r
    · rw [if_pos ⟨by rw [hp.rehash.bufSize_eq]; have := hp.r_lt; omega, hp.run j le_rfl hjr⟩]
      exact ih (j + 1) _ (by omega) (hp.step hc₁ hjr)
    · have hj : j = r := by have := hp.le; omega
      subst hj
      rw [if_neg fun h => by simp [hp.r_empty] at h]
      exact ⟨hp.rehash, hp.done⟩

end Loops

/-! ### The rehash -/

section Rehashing

variable {t₁ : HashTable K M} {n : Nat}

/-- **The two loops of `resize`.** From a table whose elements lie in the
first `n` cells, one cell for each key, and whose count is within the bounds,
the loops keep the elements and end with every chain whole. -/
theorem rehash_spec (hash : K → Nat) (hu : ∀ i j y y', t₁.buf i = some y → t₁.buf j = some y' → y.1 = y'.1 → i = j)
    (habove : ∀ i, n ≤ i → t₁.buf i = none)
    (hc₁ : occupiedCount t₁.grower.bufSize t₁.buf ≤ n + 1)
    (hc₂ : occupiedCount t₁.grower.bufSize t₁.buf < t₁.grower.bufSize - n) :
    Rehash t₁ (reinsertTail hash (reinsertOld hash t₁ n) n (t₁.grower.bufSize - n)) ∧
      ∀ q < t₁.grower.bufSize, ChainWhole t₁.grower.bufSize (home hash t₁)
        (reinsertTail hash (reinsertOld hash t₁ n) n (t₁.grower.bufSize - n)).buf q := by
  have hp : Phase1 hash n t₁ n (reinsertOld hash t₁ n) := reinsertOld_phase1 hc₁ hc₂ hu habove
  obtain ⟨r, hnr, hrN, hrn, hrun⟩ := exists_first_empty (a := n)
    (by rw [hp.rehash.count_eq]; exact hc₂ : occupiedCount t₁.grower.bufSize (reinsertOld hash t₁ n).buf < _)
  exact reinsertTail_phase2 hc₁ _ n _ (by omega) (hp.phase2 hnr hrN hrn hrun)

/-- `t'` is `t` rehashed: the invariant holds of it, with the elements, the
cell of the zero key and the count of `t`, in a buffer no smaller. -/
structure Rehashed (hash : K → Nat) (zeroKey : K) (t t' : HashTable K M) : Prop where
  inv : Inv hash zeroKey t'
  zeroValue_eq : t'.zeroValue = t.zeroValue
  mSize_eq : t'.mSize = t.mSize
  mem_iff : ∀ y, (∃ i, t'.buf i = some y) ↔ ∃ i, t.buf i = some y
  bufSize_le : t.grower.bufSize ≤ t'.grower.bufSize

omit [DecidableEq K] in
/-- A rehashed table holds the map of the table it was. -/
theorem Rehashed.represents {t t' : HashTable K M} {f : K → Option M} (h : Rehashed hash zeroKey t t')
    (hrep : Represents zeroKey t f) : Represents zeroKey t' f := by
  obtain ⟨hzero, hcells⟩ := hrep
  refine ⟨by rw [h.zeroValue_eq]; exact hzero, fun k hk v => ?_⟩
  rw [hcells k hk v, h.mem_iff]

omit [DecidableEq K] in
theorem Rehashed.refl {t : HashTable K M} (hinv : Inv hash zeroKey t) : Rehashed hash zeroKey t t :=
  ⟨hinv, rfl, rfl, fun _ => Iff.rfl, le_refl _⟩

/-- **The rehash into a larger buffer.** From a well formed table, through
the table `t₁` with the new grower and the old cells, within the bounds on
the count, the two loops give the table rehashed. -/
theorem WellFormed.rehash {t : HashTable K M} (hwf : WellFormed zeroKey t)
    (hgrow : t.grower.bufSize < t₁.grower.bufSize)
    (hbuf : ∀ i, t₁.buf i = if i < t.grower.bufSize then t.buf i else none)
    (hzero : t₁.zeroValue = t.zeroValue) (hsize : t₁.mSize = t.mSize)
    (hc₁ : occupiedCount t.grower.bufSize t.buf ≤ t.grower.bufSize + 1)
    (hc₂ : occupiedCount t.grower.bufSize t.buf < t₁.grower.bufSize - t.grower.bufSize)
    (hfill : occupiedCount t.grower.bufSize t.buf ≤ t₁.grower.maxFill) :
    Rehashed hash zeroKey t
      (reinsertTail hash (reinsertOld hash t₁ t.grower.bufSize) t.grower.bufSize
        (t₁.grower.bufSize - t.grower.bufSize)) := by
  have hbelow : ∀ i y, t₁.buf i = some y → t.buf i = some y := by
    intro i y hy
    rw [hbuf] at hy
    split_ifs at hy
    · exact hy
  have habove : ∀ i, t.grower.bufSize ≤ i → t₁.buf i = none := fun i hi => by
    rw [hbuf, if_neg (by omega)]
  have hcount : occupiedCount t₁.grower.bufSize t₁.buf = occupiedCount t.grower.bufSize t.buf := by
    rw [occupiedCount_of_none_above (by omega) fun j hj _ => habove j hj]
    exact occupiedCount_congr fun i hi => by rw [hbuf, if_pos hi]
  rw [← hcount] at hc₁ hc₂ hfill
  obtain ⟨hr, hchain⟩ := rehash_spec hash
    (fun i j y y' hy hy' => hwf.key_unique i j y y' (hbelow i y hy) (hbelow j y' hy')) habove hc₁ hc₂
  have hmem : ∀ y, (∃ i, t₁.buf i = some y) ↔ ∃ i, t.buf i = some y := by
    intro y
    refine ⟨fun ⟨i, hi⟩ => ⟨i, hbelow i y hi⟩, fun ⟨i, hi⟩ => ⟨i, ?_⟩⟩
    have hin : i < t.grower.bufSize := by
      by_contra hge
      rw [hwf.buf_above i (by omega)] at hi
      cases hi
    rw [hbuf, if_pos hin]
    exact hi
  refine ⟨⟨⟨?_, ?_, ?_, hr.key_unique, ?_⟩, ?_, ?_⟩, by rw [hr.zeroValue_eq, hzero], by rw [hr.mSize_eq, hsize],
    fun y => by rw [hr.mem_iff, hmem], by rw [hr.bufSize_eq]; exact hgrow.le⟩
  · rw [hr.grower_eq]
    exact HashTableGrower.sizeDegree_pos_of_lt hgrow
  · rw [hr.bufSize_eq]
    exact hr.buf_above
  · intro i e he
    obtain ⟨i', hi'⟩ := (hmem e).mp ((hr.mem_iff e).mp ⟨i, he⟩)
    exact hwf.key_ne_zero i' e hi'
  · rw [hr.mSize_eq, hsize, hwf.mSize_eq, hr.bufSize_eq, hr.count_eq, hcount, hr.zeroValue_eq, hzero]
  · rw [hr.bufSize_eq, hr.home_eq]
    exact hchain
  · rw [hr.bufSize_eq, hr.count_eq, hr.grower_eq]
    exact hfill

/-- `resize` keeps the table, where the buffer asked for is not larger, or runs
the two loops from the table with the new grower and the old cells. -/
theorem resize_eq_or (t : HashTable K M) (forNumElems forBufSize : Nat) :
    resize hash t forNumElems forBufSize = t ∨
      ∃ g : HashTableGrower, t.grower.bufSize < g.bufSize ∧
        (forNumElems = 0 → forBufSize = 0 → g = t.grower.increaseSize) ∧
        resize hash t forNumElems forBufSize =
          reinsertTail hash (reinsertOld hash
            { t with buf := fun i => if i < t.grower.bufSize then t.buf i else none, grower := g } t.grower.bufSize)
            t.grower.bufSize (g.bufSize - t.grower.bufSize) := by
  unfold resize
  dsimp only
  split_ifs with hnum hkeep hbuf hkeep hkeep
  · exact .inl rfl
  · exact .inr ⟨_, Nat.lt_of_not_le fun hle => hkeep ⟨.inl hnum, hle⟩, fun h => absurd h hnum, rfl⟩
  · exact .inl rfl
  · exact .inr ⟨_, Nat.lt_of_not_le fun hle => hkeep ⟨.inr hbuf, hle⟩, fun _ h => absurd h hbuf, rfl⟩
  · exact .inl rfl
  · exact .inr ⟨_, HashTableGrower.lt_bufSize_increaseSize, fun _ _ => rfl, rfl⟩

end Rehashing

/-! ### Every call of `resize` -/

/-- `resize(0, 0)`, the call of `emplace`, always grows the buffer by `increaseSize()`. -/
theorem resize_zero_zero (t : HashTable K M) :
    resize hash t 0 0 =
      reinsertTail hash (reinsertOld hash
        { t with buf := fun i => if i < t.grower.bufSize then t.buf i else none, grower := t.grower.increaseSize }
        t.grower.bufSize) t.grower.bufSize (t.grower.increaseSize.bufSize - t.grower.bufSize) := rfl

/-- **Every `resize` keeps the map.** From a table with the invariant, a
call of `resize` with any arguments leaves it as it is or rehashes it into a
larger buffer: the fill bound of the old buffer leaves room in the new one. -/
theorem Inv.resize {t : HashTable K M} (hinv : Inv hash zeroKey t) (forNumElems forBufSize : Nat) :
    Rehashed hash zeroKey t (resize hash t forNumElems forBufSize) := by
  rcases resize_eq_or t forNumElems forBufSize with heq | ⟨g, hgrow, -, heq⟩
  · rw [heq]
    exact Rehashed.refl hinv
  · rw [heq]
    have htwice := HashTableGrower.two_mul_bufSize_le hgrow
    have hhalf := g.two_mul_maxFill (HashTableGrower.sizeDegree_pos_of_lt hgrow)
    have hlt := hinv.occupiedCount_lt
    have hc₂ : occupiedCount t.grower.bufSize t.buf < g.bufSize - t.grower.bufSize := by omega
    have hfill : occupiedCount t.grower.bufSize t.buf ≤ g.maxFill := by omega
    exact hinv.toWellFormed.rehash hgrow (fun _ => rfl) rfl rfl (by omega) hc₂ hfill

/-- **The `resize` of `emplace` past the fill bound.** A well formed table one
element over its fill bound is rehashed into the buffer of `increaseSize()`,
which the element fits. -/
theorem resize_overflow {t : HashTable K M} (hwf : WellFormed zeroKey t)
    (hover : occupiedCount t.grower.bufSize t.buf ≤ t.grower.maxFill + 1) :
    Rehashed hash zeroKey t (resize hash t 0 0) := by
  rw [resize_zero_zero]
  have hgrow : t.grower.bufSize < t.grower.increaseSize.bufSize := HashTableGrower.lt_bufSize_increaseSize
  have hinc : t.grower.increaseSize.bufSize = t.grower.bufSize * if t.grower.sizeDegree ≥ 23 then 2 else 4 :=
    HashTableGrower.bufSize_increaseSize
  have hhalf := t.grower.two_mul_maxFill hwf.sizeDegree_pos
  have hhalf' := t.grower.increaseSize.two_mul_maxFill (HashTableGrower.sizeDegree_pos_of_lt hgrow)
  have hle : occupiedCount t.grower.bufSize t.buf ≤ t.grower.bufSize := occupiedCount_le
  -- a buffer of degree 23 or more doubles, and holds more than two cells
  have hc₂ : occupiedCount t.grower.bufSize t.buf < t.grower.increaseSize.bufSize - t.grower.bufSize := by
    by_cases hdeg : t.grower.sizeDegree ≥ 23
    · have hbig : 2 ^ 2 ≤ t.grower.bufSize := Nat.pow_le_pow_right (by decide) (by omega)
      rw [if_pos hdeg] at hinc
      omega
    · rw [if_neg hdeg] at hinc
      omega
  have hfill : occupiedCount t.grower.bufSize t.buf ≤ t.grower.increaseSize.maxFill := by omega
  exact hwf.rehash hgrow (fun _ => rfl) rfl rfl (by omega) hc₂ hfill

end HashTable

end Daisy.Common
