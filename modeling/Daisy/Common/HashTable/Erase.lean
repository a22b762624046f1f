import Daisy.Common.HashTable.Invariant

/-!
# `HashTable::erase`

`erase` finds the cell of the key, then walks the chain after it and moves
back into the freed cell each element whose home does not lie in the cyclic
interval from the freed cell to where the element is; the cell that element
leaves is freed in its turn. The walk stops at the first empty cell, and the
cell freed last is emptied.

## The invariant of the loop

`Hole hash t₀ x t e q` is the state of the loop at the freed cell `e`,
having looked at the cell `q` last, for the table `t₀` it started from and
the erased key `x`. `memcpy` leaves a copy in the cell an element moves
from, and `setZero` clears the freed cell only after the loop, so the buffer
the loop means is `freed t e`: `t.buf` with `e` emptied. That buffer holds
the elements of `t₀` but the one of `x`, each key once, and every chain is
whole in it but for the freed cell, which only the chain of an element past
`q` on the walk from `e` may cross. The loop empties no cell of `t.buf`, so
that it stops at the first empty cell of `t₀` after the cell of `x`.

## What is proved

* `Hole.stay`, `Hole.move`: an element left where it is, and an element
  moved back, keep the invariant;
* `Hole.close`: at an empty cell no chain crosses the freed cell;
* `eraseLoop_hole`: the loop keeps the invariant to its end;
* `erase_spec`: `erase` keeps `Inv` and takes the key out of the map; it
  returns in a release build, and in a debug build where `m_size` is below
  the size of the buffer, as its `assert` asks.
-/

namespace Daisy.Common

open Daisy.Library
open Daisy.DistributedMergeTree (Build assert_ok)

namespace HashTable

variable {K M : Type} [DecidableEq K] {hash : K → Nat} {zeroKey : K}

/-- The buffer that the loop of `erase` means: the freed cell `e` empty. -/
def freed (t : HashTable K M) (e : Nat) : Nat → Option (K × M) := Function.update t.buf e none

section Freed

variable {t : HashTable K M} {e i : Nat}

omit [DecidableEq K] in
@[simp] theorem freed_self : freed t e e = none := Function.update_self _ _ _

omit [DecidableEq K] in
theorem freed_of_ne (h : i ≠ e) : freed t e i = t.buf i := Function.update_of_ne h _ _

omit [DecidableEq K] in
theorem freed_eq_some_iff {y : K × M} : freed t e i = some y ↔ i ≠ e ∧ t.buf i = some y := by
  by_cases h : i = e
  · subst h
    simp
  · simp [freed_of_ne h, h]

end Freed

/-- The state of the loop of `erase` from the table `t₀` for the key `x`: the
table `t`, the freed cell `e`, and the cell `q` looked at last. -/
structure Hole (hash : K → Nat) (t₀ : HashTable K M) (x : K) (t : HashTable K M) (e q : Nat) : Prop where
  grower_eq : t.grower = t₀.grower
  mSize_eq : t.mSize = t₀.mSize
  zeroValue_eq : t.zeroValue = t₀.zeroValue
  e_lt : e < t₀.grower.bufSize
  q_lt : q < t₀.grower.bufSize
  /-- The freed cell keeps its copy until the end. -/
  e_taken : (t.buf e).isSome
  q_taken : (t.buf q).isSome
  /-- The loop moves elements and empties no cell. -/
  taken_eq : ∀ j, (t.buf j).isSome = (t₀.buf j).isSome
  mem_iff : ∀ y, (∃ i, freed t e i = some y) ↔ (∃ i, t₀.buf i = some y) ∧ y.1 ≠ x
  key_unique : ∀ i j y y', freed t e i = some y → freed t e j = some y' → y.1 = y'.1 → i = j
  /-- Chains are whole but for the freed cell, which only the chains of
  elements past `q` may cross. -/
  chain : ∀ i < t₀.grower.bufSize, ∀ z, freed t e i = some z → ∀ j < t₀.grower.bufSize,
    cyclicDist t₀.grower.bufSize (home hash t₀ z) j < cyclicDist t₀.grower.bufSize (home hash t₀ z) i →
      (freed t e j).isSome ∨ (j = e ∧ cyclicDist t₀.grower.bufSize e q < cyclicDist t₀.grower.bufSize e i)

section Loop

variable {t₀ t : HashTable K M} {x : K} {e q : Nat}

omit [DecidableEq K] in
/-- The loop starts at the cell of the key, freed. -/
theorem Hole.start (hinv : Inv hash zeroKey t₀) {p : Nat} {v : M} (hp : t₀.buf p = some (x, v)) :
    Hole hash t₀ x t₀ p p := by
  have hpn : p < t₀.grower.bufSize := hinv.lt_of_isSome (by simp [hp])
  -- a cell other than `p` holds another key than `x`
  have hother : ∀ i y, t₀.buf i = some y → (i ≠ p ↔ y.1 ≠ x) := by
    intro i y hi
    constructor
    · rintro hip rfl
      exact hip (hinv.key_unique i p y _ hi hp rfl)
    · rintro hyx rfl
      rw [hp] at hi
      cases hi
      exact hyx rfl
  refine ⟨rfl, rfl, rfl, hpn, hpn, by simp [hp], by simp [hp], fun _ => rfl, fun y => ?_, ?_, ?_⟩
  · constructor
    · rintro ⟨i, hi⟩
      obtain ⟨hip, hi⟩ := freed_eq_some_iff.mp hi
      exact ⟨⟨i, hi⟩, (hother i y hi).mp hip⟩
    · rintro ⟨⟨i, hi⟩, hyx⟩
      exact ⟨i, freed_eq_some_iff.mpr ⟨(hother i y hi).mpr hyx, hi⟩⟩
  · intro i j y y' hi hj hyy
    exact hinv.key_unique i j y y' (freed_eq_some_iff.mp hi).2 (freed_eq_some_iff.mp hj).2 hyy
  · intro i hi z hz j hj hdj
    obtain ⟨hip, hz⟩ := freed_eq_some_iff.mp hz
    have htaken := hinv.chain i hi z hz j hj hdj
    by_cases hjp : j = p
    · -- the freed cell, on the chain of an element after it
      refine .inr ⟨hjp, ?_⟩
      rw [cyclicDist_self]
      exact Nat.pos_of_ne_zero fun h => hip ((cyclicDist_eq_zero_iff hpn).mp h).symm
    · exact .inl (by rwa [freed_of_ne hjp])

omit [DecidableEq K] in
/-- An element whose home lies between the freed cell and it stays where it
is, and the loop goes on to the next cell. -/
theorem Hole.stay (hh : Hole hash t₀ x t e q) {y : K × M}
    (hy : t.buf (cyclicNext t₀.grower.bufSize q) = some y) (hne : cyclicNext t₀.grower.bufSize q ≠ e)
    (hin : 0 < cyclicDist t₀.grower.bufSize e (home hash t₀ y) ∧
      cyclicDist t₀.grower.bufSize e (home hash t₀ y) ≤
        cyclicDist t₀.grower.bufSize e (cyclicNext t₀.grower.bufSize q)) :
    Hole hash t₀ x t e (cyclicNext t₀.grower.bufSize q) := by
  have hq' := cyclicNext_lt hh.q_lt
  refine { hh with q_lt := hq', q_taken := by simp [hy], chain := ?_ }
  intro i hi z hz j hj hdj
  rcases hh.chain i hi z hz j hj hdj with htaken | ⟨hje, hd⟩
  · exact .inl htaken
  refine .inr ⟨hje, ?_⟩
  have hnext := cyclicDist_next hh.e_lt hne
  -- the element just looked at does not reach its cell through the freed one
  have hiq : i ≠ cyclicNext t₀.grower.bufSize q := by
    rintro rfl
    rw [freed_of_ne hne, hy] at hz
    cases hz
    rw [hje] at hdj
    have := cyclicDist_lt_of_mem_Ioc hh.e_lt hq' (home_lt y) hin
    omega
  have hdist : cyclicDist t₀.grower.bufSize e i ≠ cyclicDist t₀.grower.bufSize e (cyclicNext t₀.grower.bufSize q) :=
    fun h => hiq (cyclicDist_inj hh.e_lt hi hq' h)
  omega

omit [DecidableEq K] in
/-- An element whose home does not lie between the freed cell and it moves
back into the freed cell, and the cell it leaves is freed. -/
theorem Hole.move (hh : Hole hash t₀ x t e q) {y : K × M}
    (hy : t.buf (cyclicNext t₀.grower.bufSize q) = some y) (hne : cyclicNext t₀.grower.bufSize q ≠ e)
    (hout : ¬ (0 < cyclicDist t₀.grower.bufSize e (home hash t₀ y) ∧
      cyclicDist t₀.grower.bufSize e (home hash t₀ y) ≤
        cyclicDist t₀.grower.bufSize e (cyclicNext t₀.grower.bufSize q))) :
    Hole hash t₀ x { t with buf := Function.update t.buf e (some y) }
      (cyclicNext t₀.grower.bufSize q) (cyclicNext t₀.grower.bufSize q) := by
  set q' := cyclicNext t₀.grower.bufSize q with hq'def
  have hq' : q' < t₀.grower.bufSize := cyclicNext_lt hh.q_lt
  have hyq : freed t e q' = some y := by rw [freed_of_ne hne, hy]
  -- the buffer meant after the move is the one before with `y` moved from `q'` to `e`
  have hmove : freed { t with buf := Function.update t.buf e (some y) } q' =
      Function.update (Function.update (freed t e) e (some y)) q' none := by
    simp only [freed, Function.update_idem]
  have hbuf : ∀ j, j ≠ e → Function.update t.buf e (some y) j = t.buf j := fun j hj =>
    Function.update_of_ne hj _ _
  refine ⟨hh.grower_eq, hh.mSize_eq, hh.zeroValue_eq, hq', hq', ?_, ?_, fun j => ?_, fun w => ?_, ?_, ?_⟩
  · simp [hbuf q' hne, hy]
  · simp [hbuf q' hne, hy]
  · dsimp only
    by_cases hje : j = e
    · subst hje
      simp [← hh.taken_eq j, hh.e_taken]
    · rw [hbuf j hje, hh.taken_eq]
  · rw [hmove, exists_move_iff hyq freed_self, hh.mem_iff]
  · rw [hmove]
    exact unique_move Prod.fst hh.key_unique hyq freed_self
  · intro i hi z hz j hj hdj
    rw [hmove] at hz ⊢
    by_cases hjq : j = q'
    · -- the cell just freed, crossed by chains of elements past it
      refine .inr ⟨hjq, ?_⟩
      have hiq : i ≠ q' := by
        rintro rfl
        simp at hz
      rw [cyclicDist_self]
      exact Nat.pos_of_ne_zero fun h => hiq ((cyclicDist_eq_zero_iff hq').mp h).symm
    refine .inl ?_
    rcases move_eq_some_iff.mp hz with ⟨hie, -, hzy⟩ | ⟨hiq, hie, hz⟩
    · -- `y` in the freed cell: its chain is the front of its chain to `q'`, short of the freed cell
      rw [hie, hzy] at hdj
      have hbefore := cyclicDist_lt_of_not_mem_Ioc hh.e_lt hq' (home_lt y) (Ne.symm hne) hout
      have hje : j ≠ e := by
        rintro rfl
        omega
      rcases hh.chain q' hq' y hyq j hj (by omega) with htaken | ⟨hje', -⟩
      · rw [Function.update_of_ne hjq, Function.update_of_ne hje]
        exact htaken
      · exact absurd hje' hje
    · rcases hh.chain i hi z hz j hj hdj with htaken | ⟨rfl, -⟩
      · by_cases hje : j = e
        · rw [hje, freed_self] at htaken
          cases htaken
        · rw [Function.update_of_ne hjq, Function.update_of_ne hje]
          exact htaken
      · rw [Function.update_of_ne hjq, Function.update_self]
        rfl

omit [DecidableEq K] in
/-- At an empty cell the loop ends: no chain crosses the freed cell. -/
theorem Hole.close (hh : Hole hash t₀ x t e q) (hnone : t.buf (cyclicNext t₀.grower.bufSize q) = none) :
    ∀ i < t₀.grower.bufSize, ChainWhole t₀.grower.bufSize (home hash t₀) (freed t e) i := by
  set q' := cyclicNext t₀.grower.bufSize q
  have hq' : q' < t₀.grower.bufSize := cyclicNext_lt hh.q_lt
  have hq'e : q' ≠ e := by
    rintro h
    have := hh.e_taken
    rw [← h, hnone] at this
    cases this
  intro i hi z hz j hj hdj
  rcases hh.chain i hi z hz j hj hdj with htaken | ⟨hje, hd⟩
  · exact htaken
  -- the chain of `z` crosses the freed cell, so it crosses the empty cell after `q`
  exfalso
  rw [hje] at hdj
  have hiq : q' ≠ i := by
    rintro rfl
    rw [freed_of_ne hq'e, hnone] at hz
    cases hz
  have hnext : cyclicDist t₀.grower.bufSize e q' = cyclicDist t₀.grower.bufSize e q + 1 :=
    cyclicDist_next hh.e_lt hq'e
  have hon := cyclicDist_lt_of_le_between (home_lt z) hh.e_lt hi hq' hdj (by omega) hiq
  rcases hh.chain i hi z hz q' hq' hon with htaken | ⟨h, -⟩
  · rw [freed_of_ne hq'e, hnone] at htaken
    cases htaken
  · exact hq'e h

omit [DecidableEq K] in
theorem Hole.next_eq (hh : Hole hash t₀ x t e q) : t.grower.next q = cyclicNext t₀.grower.bufSize q := by
  rw [hh.grower_eq]
  exact t₀.grower.next_eq hh.q_lt

omit [DecidableEq K] in
/-- One turn of the loop of `erase` at a taken cell: the three tests of the
source are whether the home lies in the cyclic interval from the freed cell
to the cell. -/
theorem eraseLoop_succ_some (hh : Hole hash t₀ x t e q) {y : K × M} {fuel : Nat}
    (hy : t.buf (cyclicNext t₀.grower.bufSize q) = some y) (hne : cyclicNext t₀.grower.bufSize q ≠ e) :
    eraseLoop hash t e q (fuel + 1) =
      if 0 < cyclicDist t₀.grower.bufSize e (home hash t₀ y) ∧
          cyclicDist t₀.grower.bufSize e (home hash t₀ y) ≤
            cyclicDist t₀.grower.bufSize e (cyclicNext t₀.grower.bufSize q) then
        eraseLoop hash t e (cyclicNext t₀.grower.bufSize q) fuel
      else eraseLoop hash { t with buf := Function.update t.buf e (some y) } (cyclicNext t₀.grower.bufSize q)
        (cyclicNext t₀.grower.bufSize q) fuel := by
  obtain ⟨key, mapped⟩ := y
  have hhome : home hash t₀ (key, mapped) < t₀.grower.bufSize := home_lt _
  have hiff := mem_Ioc_iff hh.e_lt (cyclicNext_lt hh.q_lt) hhome (Ne.symm hne)
  rw [eraseLoop, hh.next_eq, hy]
  simp only [home, hh.grower_eq] at hiff ⊢
  rw [← ite_or, ← ite_or]
  exact if_congr (or_assoc.trans hiff) rfl rfl

omit [DecidableEq K] in
/-- **The loop of `erase`.** From a state of the loop, with an empty cell
`z₀` of `t₀` ahead of `q`, within the fuel and not passed, the loop ends in a
state where no chain crosses the freed cell. -/
theorem eraseLoop_hole {z₀ : Nat} (hz₀ : z₀ < t₀.grower.bufSize) (hempty : t₀.buf z₀ = none) :
    ∀ (fuel : Nat) (t : HashTable K M) (e q : Nat), Hole hash t₀ x t e q →
      cyclicDist t₀.grower.bufSize q z₀ ≤ fuel →
      cyclicDist t₀.grower.bufSize e q < cyclicDist t₀.grower.bufSize e z₀ →
      ∃ q', Hole hash t₀ x (eraseLoop hash t e q fuel).1 (eraseLoop hash t e q fuel).2 q' ∧
        ∀ i < t₀.grower.bufSize, ChainWhole t₀.grower.bufSize (home hash t₀)
          (freed (eraseLoop hash t e q fuel).1 (eraseLoop hash t e q fuel).2) i := by
  intro fuel
  induction fuel with
  | zero =>
    intro t e q hh hfuel _
    -- out of fuel only at the empty cell, which the loop never reaches
    have hqz : q = z₀ := (cyclicDist_eq_zero_iff hh.q_lt).mp (Nat.le_zero.mp hfuel)
    have htaken := hh.q_taken
    rw [hh.taken_eq, hqz, hempty] at htaken
    cases htaken
  | succ fuel ih =>
    intro t e q hh hfuel hez
    have hz₀t : t.buf z₀ = none := by
      rw [← Option.not_isSome_iff_eq_none, hh.taken_eq, hempty]
      simp
    have hzq : z₀ ≠ q := by
      rintro rfl
      have htaken := hh.q_taken
      rw [hz₀t] at htaken
      cases htaken
    -- the walk has not come round to the freed cell: the empty cell lies before it
    have hne : cyclicNext t₀.grower.bufSize q ≠ e := by
      intro h
      have hlast := cyclicDist_of_next_eq hh.e_lt h
      have hz := cyclicDist_lt hh.e_lt hz₀
      omega
    have hq' := cyclicNext_lt hh.q_lt
    rcases hy : t.buf (cyclicNext t₀.grower.bufSize q) with _ | y
    · have hend : eraseLoop hash t e q (fuel + 1) = (t, e) := by
        rw [eraseLoop, hh.next_eq, hy]
      rw [hend]
      exact ⟨q, hh, hh.close hy⟩
    · -- the next cell is one step nearer to the empty one
      have hnext := cyclicDist_next hh.e_lt hne
      have hzq' : z₀ ≠ cyclicNext t₀.grower.bufSize q := by
        intro h
        rw [← h, hz₀t] at hy
        cases hy
      have hdist := cyclicDist_of_ne hh.q_lt hz₀ hzq
      have hez' : cyclicDist t₀.grower.bufSize e (cyclicNext t₀.grower.bufSize q) <
          cyclicDist t₀.grower.bufSize e z₀ := by
        have hne' : cyclicDist t₀.grower.bufSize e (cyclicNext t₀.grower.bufSize q) ≠
            cyclicDist t₀.grower.bufSize e z₀ := fun h => hzq' (cyclicDist_inj hh.e_lt hq' hz₀ h).symm
        omega
      rw [eraseLoop_succ_some hh hy hne]
      split_ifs with hin
      · exact ih t e _ (hh.stay hy hne hin) (by omega) hez'
      · refine ih _ _ _ (hh.move hy hne hin) (by omega) ?_
        rw [cyclicDist_self]
        exact Nat.pos_of_ne_zero fun h => hzq' ((cyclicDist_eq_zero_iff hq').mp h).symm

omit [DecidableEq K] in
/-- The table `erase` returns at the end of the loop: the freed cell emptied,
one element fewer. -/
theorem Hole.finish (hinv : Inv hash zeroKey t₀) (hh : Hole hash t₀ x t e q)
    (hchain : ∀ i < t₀.grower.bufSize, ChainWhole t₀.grower.bufSize (home hash t₀) (freed t e) i) :
    Inv hash zeroKey { t with buf := freed t e, mSize := t.mSize - 1 } := by
  have hcount : occupiedCount t₀.grower.bufSize (freed t e) + 1 = occupiedCount t₀.grower.bufSize t₀.buf := by
    rw [← occupiedCount_congr fun i _ => hh.taken_eq i]
    exact occupiedCount_update_none hh.e_lt hh.e_taken
  have hhome : home hash { t with buf := freed t e, mSize := t.mSize - 1 } = home hash t₀ := by
    funext z
    simp only [home, hh.grower_eq]
  refine ⟨⟨?_, fun i hi => ?_, fun i y hy => ?_, hh.key_unique, ?_⟩, ?_, ?_⟩
  · simpa [hh.grower_eq] using hinv.sizeDegree_pos
  · dsimp only at hi ⊢
    rw [hh.grower_eq] at hi
    rw [freed_of_ne (by have := hh.e_lt; omega), ← Option.not_isSome_iff_eq_none, hh.taken_eq,
      hinv.buf_above i hi]
    simp
  · obtain ⟨⟨i', hi'⟩, -⟩ := (hh.mem_iff y).mp ⟨i, hy⟩
    exact hinv.key_ne_zero i' y hi'
  · dsimp only
    rw [hh.mSize_eq, hinv.mSize_eq, hh.grower_eq, hh.zeroValue_eq]
    omega
  · dsimp only
    rw [hhome, hh.grower_eq]
    exact hchain
  · dsimp only
    rw [hh.grower_eq]
    have := hinv.fill_le
    omega

/-- The map the table holds at the end of the loop: the key is out. -/
theorem Hole.represents {f : K → Option M} (hrep : Represents zeroKey t₀ f) (hx : x ≠ zeroKey)
    (hh : Hole hash t₀ x t e q) :
    Represents zeroKey { t with buf := freed t e, mSize := t.mSize - 1 } (Function.update f x none) := by
  refine ⟨?_, fun k hk v => ?_⟩
  · rw [Function.update_of_ne (Ne.symm hx), hrep.1]
    exact hh.zeroValue_eq.symm
  · dsimp only
    rw [hh.mem_iff (k, v)]
    by_cases hkx : k = x
    · subst hkx
      simp
    · rw [Function.update_of_ne hkx, hrep.2 k hk v]
      simp [hkx]

end Loop

/-- **`erase` takes the key out.** From a table that holds the map `f`, in a
release build or where the count is below the size of the buffer, `erase`
returns: it answers whether the map has the key, keeps the invariant and the
grower, and leaves the table holding the map without the key. -/
theorem erase_spec {b : Build} {t : HashTable K M} {f : K → Option M} (hinv : Inv hash zeroKey t)
    (hrep : Represents zeroKey t f) (x : K) (hb : b = .release ∨ t.mSize < t.grower.bufSize) :
    ∃ r, erase hash zeroKey b t x = .ok r ∧ r.1 = (f x).isSome ∧ Inv hash zeroKey r.2 ∧
      Represents zeroKey r.2 (Function.update f x none) ∧ r.2.grower = t.grower := by
  unfold erase
  by_cases hx : x = zeroKey
  · -- the zero key, in its own cell
    subst hx
    rw [if_pos rfl]
    cases hz : t.zeroValue with
    | none =>
      have hf : f x = none := hrep.1.trans hz
      have hupd : Function.update f x none = f := Function.update_eq_self_iff.mpr hf.symm
      simp only [Option.isSome_none, Bool.false_eq_true, if_false]
      rw [hupd]
      exact ⟨_, rfl, by simp [hf], hinv, hrep, rfl⟩
    | some v =>
      have hf : f x = some v := hrep.1.trans hz
      simp only [Option.isSome_some, if_true]
      refine ⟨_, rfl, by simp [hf], { hinv with mSize_eq := ?_ }, ⟨Function.update_self _ _ _, fun k hk w => ?_⟩, rfl⟩
      · have := hinv.mSize_eq
        simp only [hz, Option.isSome_some, if_true] at this
        simp only [Option.isSome_none, Bool.false_eq_true, if_false]
        omega
      · rw [Function.update_of_ne hk]
        exact hrep.2 k hk w
  rw [if_neg hx]
  dsimp only
  obtain ⟨hlt, hstop, -⟩ := findCell_spec hash hinv.exists_empty x
  by_cases hnone : (t.buf (findCell t x (t.grower.place (hash x)) t.grower.bufSize)).isNone
  · -- the walk stops at an empty cell: the key is not there
    rw [if_pos hnone]
    have hf : f x = none := by
      cases hv : f x with
      | none => rfl
      | some v =>
        obtain ⟨i, hi⟩ := (hrep.2 x hx v).mp hv
        rw [findCell_of_mem hinv hi, hi] at hnone
        cases hnone
    have hupd : Function.update f x none = f := Function.update_eq_self_iff.mpr hf.symm
    rw [hupd]
    exact ⟨_, rfl, by simp [hf], hinv, hrep, rfl⟩
  -- the walk stops at the cell of the key: the assert holds and the loop runs from there
  rw [if_neg hnone, assert_ok (hb.imp id decide_eq_true)]
  obtain ⟨v, hp⟩ : ∃ v, t.buf (findCell t x (t.grower.place (hash x)) t.grower.bufSize) = some (x, v) := by
    rcases stopsAt_iff.mp hstop with h | h
    · rw [h] at hnone
      cases hnone rfl
    · exact h
  have hf : f x = some v := (hrep.2 x hx v).mpr ⟨_, hp⟩
  obtain ⟨z₀, hz₀, hempty⟩ := hinv.exists_empty
  have hz₀p : z₀ ≠ findCell t x (t.grower.place (hash x)) t.grower.bufSize := by
    rintro rfl
    rw [hempty] at hp
    cases hp
  obtain ⟨q, hh, hchain⟩ := eraseLoop_hole hz₀ hempty t.grower.bufSize t _ _ (Hole.start hinv hp)
    (Nat.le_of_lt (cyclicDist_lt hlt hz₀))
    (by
      rw [cyclicDist_self]
      exact Nat.pos_of_ne_zero fun h => hz₀p ((cyclicDist_eq_zero_iff hlt).mp h).symm)
  generalize eraseLoop hash t _ _ t.grower.bufSize = r at hh hchain ⊢
  obtain ⟨t', e'⟩ := r
  exact ⟨_, rfl, by simp [hf], hh.finish hinv hchain, hh.represents hrep hx, hh.grower_eq⟩

end HashTable

end Daisy.Common
