import Daisy.Library.Cyclic
import Mathlib.Data.List.Nodup
import Mathlib.Data.Nat.Find
import Mathlib.Logic.Function.Basic

/-!
# Linear probing

A buffer of `n` cells on a cycle, each empty or holding an element, where
each element has a home cell and is put in the first empty cell of the walk
from its home. The buffer is a function from the index of a cell to its
content.

* `probe` is the walk to the first cell where a test holds; `probe_spec`
  says where it stops.
* `ChainWhole` says that no cell on the walk from an element's home to its
  cell is empty, which is what makes the element found by a walk from its
  home. It survives any change that empties no cell (`ChainWhole.mono`), and
  the emptying of a cell past which the cells up to the element are not all
  taken (`ChainWhole.update_none`); `Stretch` names that run of taken cells.
* `occupiedCount` counts the taken cells, with its laws under the update of a
  cell.
-/

namespace Daisy.Library

/-! ### The walk -/

section Probe

variable (n : Nat) (stop : Nat → Bool)

/-- The walk from `start` to the first cell where `stop` holds, within `fuel`
steps. -/
def probe (start : Nat) : Nat → Nat
  | 0 => start
  | fuel + 1 => if stop start then start else probe (cyclicNext n start) fuel

variable {n stop}

/-- The walk stops at the first cell where `stop` holds, when one lies within
the fuel. -/
theorem probe_spec {e : Nat} (he : e < n) (hstop : stop e = true) :
    ∀ (fuel start : Nat), start < n → cyclicDist n start e < fuel →
      probe n stop start fuel < n ∧ stop (probe n stop start fuel) = true ∧
        ∀ j < n, cyclicDist n start j < cyclicDist n start (probe n stop start fuel) → stop j = false := by
  intro fuel
  induction fuel with
  | zero => intro start _ hfuel; omega
  | succ fuel ih =>
    intro start hs hfuel
    by_cases hs' : stop start = true
    · rw [probe, if_pos hs']
      exact ⟨hs, hs', fun j _ hj => by simp at hj⟩
    · -- the walk goes on from the next cell, one step nearer to `e`
      have hne : e ≠ start := fun h => hs' (h ▸ hstop)
      have hnext : cyclicNext n start < n := cyclicNext_lt hs
      have hde := cyclicDist_of_ne hs he hne
      rw [probe, if_neg hs']
      obtain ⟨hlt, hp, hbefore⟩ := ih (cyclicNext n start) hnext (by omega)
      refine ⟨hlt, hp, fun j hj hdj => ?_⟩
      have hps : probe n stop (cyclicNext n start) fuel ≠ start := fun h => hs' (h ▸ hp)
      by_cases hjs : j = start
      · simpa [hjs] using hs'
      · rw [cyclicDist_of_ne hs hj hjs, cyclicDist_of_ne hs hlt hps] at hdj
        exact hbefore j hj (by omega)

end Probe

/-! ### Chains -/

section Chain

variable {α : Type} (n : Nat) (home : α → Nat)

/-- The element at `pos` is in the probe chain of its home: no cell on the
walk from its home to `pos` is empty. -/
def ChainWhole (buf : Nat → Option α) (pos : Nat) : Prop :=
  ∀ x, buf pos = some x → ∀ j < n, cyclicDist n (home x) j < cyclicDist n (home x) pos → (buf j).isSome

/-- The cells after `c` up to `pos` are all taken. -/
def Stretch (buf : Nat → Option α) (c pos : Nat) : Prop :=
  ∀ j < n, 0 < cyclicDist n c j → cyclicDist n c j ≤ cyclicDist n c pos → (buf j).isSome

variable {n home} {buf buf' : Nat → Option α} {pos c : Nat}

/-- A change that empties no cell and keeps the element at `pos` keeps its
chain whole. -/
theorem ChainWhole.mono (hw : ChainWhole n home buf pos) (hocc : ∀ j, (buf j).isSome → (buf' j).isSome)
    (hpos : buf' pos = buf pos) : ChainWhole n home buf' pos := by
  intro x hx j hj hdj
  exact hocc j (hw x (hpos ▸ hx) j hj hdj)

/-- A cell on the chain of the element at `pos` has only taken cells after it,
up to `pos`. -/
theorem ChainWhole.stretch (hhome : ∀ x, home x < n) (hw : ChainWhole n home buf pos) {x : α}
    (hx : buf pos = some x) (hpos : pos < n) (hc : c < n)
    (hon : cyclicDist n (home x) c < cyclicDist n (home x) pos) : Stretch n buf c pos := by
  intro j hj _ hjc
  by_cases hjp : j = pos
  · simp [hjp, hx]
  · exact hw x hx j hj (cyclicDist_lt_of_le_between (hhome x) hc hpos hj hon hjc hjp)

/-- Emptying the cell `c` keeps the chain of the element at `pos` whole, when
the cells after `c` up to `pos` are not all taken: then `c` is not on that
chain. -/
theorem ChainWhole.update_none (hhome : ∀ x, home x < n) (hw : ChainWhole n home buf pos)
    (hpos : pos < n) (hc : c < n) (hne : c ≠ pos) (hgap : ¬ Stretch n buf c pos) :
    ChainWhole n home (Function.update buf c none) pos := by
  intro x hx j hj hdj
  have hx' : buf pos = some x := by rwa [Function.update_of_ne (Ne.symm hne)] at hx
  by_cases hjc : j = c
  · subst hjc
    exact absurd (hw.stretch hhome hx' hpos hj hdj) hgap
  · rw [Function.update_of_ne hjc]
    exact hw x hx' j hj hdj

/-- The cells of a buffer with one cell set, read back. -/
theorem update_some_eq_some_iff {x y : α} {i : Nat} :
    Function.update buf pos (some x) i = some y ↔ (i = pos ∧ x = y) ∨ (i ≠ pos ∧ buf i = some y) := by
  rw [Function.update_apply]
  split_ifs with hip <;> simp [hip]

/-- An element put in an empty cell at the end of a run of taken cells from its
home has its chain whole. -/
theorem chainWhole_update_of_run {x : α} (hp : buf pos = none)
    (hrun : ∀ j < n, cyclicDist n (home x) j < cyclicDist n (home x) pos → (buf j).isSome) :
    ChainWhole n home (Function.update buf pos (some x)) pos := by
  intro y hy j hj hdj
  rw [Function.update_self, Option.some.injEq] at hy
  subst hy
  have hjp : j ≠ pos := by
    rintro rfl
    simpa [hp] using hrun j hj hdj
  rw [Function.update_of_ne hjp]
  exact hrun j hj hdj

/-- An element replaced in its cell by one of the same home keeps every chain
whole. -/
theorem ChainWhole.update_of_home {x y : α} (hw : ∀ i < n, ChainWhole n home buf i) (hx : buf c = some x)
    (hhome : home y = home x) : ∀ i < n, ChainWhole n home (Function.update buf c (some y)) i := by
  have hocc : ∀ j, (buf j).isSome → (Function.update buf c (some y) j).isSome := by
    intro j hj
    by_cases hjc : j = c
    · simp [hjc]
    · rwa [Function.update_of_ne hjc]
  intro i hi
  by_cases hic : i = c
  · subst hic
    intro z hz j hj hdj
    rw [Function.update_self, Option.some.injEq] at hz
    subst hz
    rw [hhome] at hdj
    exact hocc j (hw i hi x hx j hj hdj)
  · exact (hw i hi).mono hocc (Function.update_of_ne hic _ _)

end Chain

/-! ### Moving an element -/

section Move

variable {α : Type} {buf : Nat → Option α} {a b : Nat} {y : α}

/-- The cells of a buffer with the element of `a` moved to `b`, read back. -/
theorem move_eq_some_iff {i : Nat} {w : α} :
    Function.update (Function.update buf b (some y)) a none i = some w ↔
      (i = b ∧ i ≠ a ∧ w = y) ∨ (i ≠ a ∧ i ≠ b ∧ buf i = some w) := by
  rw [Function.update_apply, Function.update_apply]
  by_cases hia : i = a
  · simp [hia]
  · by_cases hib : i = b
    · subst hib
      simp [hia, eq_comm]
    · simp [hia, hib]

/-- Moving an element to an empty cell keeps the elements of the buffer. -/
theorem exists_move_iff (ha : buf a = some y) (hb : buf b = none) {w : α} :
    (∃ i, Function.update (Function.update buf b (some y)) a none i = some w) ↔ ∃ i, buf i = some w := by
  constructor
  · rintro ⟨i, hi⟩
    rcases move_eq_some_iff.mp hi with ⟨-, -, rfl⟩ | ⟨-, -, hi⟩
    · exact ⟨a, ha⟩
    · exact ⟨i, hi⟩
  · rintro ⟨i, hi⟩
    have hab : a ≠ b := by
      rintro rfl
      rw [ha] at hb
      cases hb
    by_cases hia : i = a
    · subst hia
      rw [ha] at hi
      cases hi
      exact ⟨b, move_eq_some_iff.mpr (.inl ⟨rfl, Ne.symm hab, rfl⟩)⟩
    · have hib : i ≠ b := by
        rintro rfl
        rw [hb] at hi
        cases hi
      exact ⟨i, move_eq_some_iff.mpr (.inr ⟨hia, hib, hi⟩)⟩

/-- Moving an element to an empty cell keeps each key in one cell. -/
theorem unique_move {β : Type} (key : α → β)
    (hu : ∀ i j x z, buf i = some x → buf j = some z → key x = key z → i = j)
    (ha : buf a = some y) (hb : buf b = none) :
    ∀ i j x z, Function.update (Function.update buf b (some y)) a none i = some x →
      Function.update (Function.update buf b (some y)) a none j = some z → key x = key z → i = j := by
  -- each cell of the moved buffer stands for a cell of `buf`: `b` for `a`, the others for themselves
  have hback : ∀ i x, Function.update (Function.update buf b (some y)) a none i = some x →
      buf (if i = b then a else i) = some x := by
    intro i x hi
    rcases move_eq_some_iff.mp hi with ⟨rfl, -, rfl⟩ | ⟨-, hib, hi⟩
    · simpa using ha
    · simpa [hib] using hi
  intro i j x z hi hj hxz
  have hij := hu _ _ x z (hback i x hi) (hback j z hj) hxz
  rcases move_eq_some_iff.mp hi with ⟨rfl, hia, -⟩ | ⟨hia, hib, -⟩ <;>
    rcases move_eq_some_iff.mp hj with ⟨rfl, hja, -⟩ | ⟨hja, hjb, -⟩ <;> simp_all

/-- A taken cell other than the one left stays taken. -/
theorem isSome_move_of_ne {j : Nat} (hja : j ≠ a) (hj : (buf j).isSome) :
    (Function.update (Function.update buf b (some y)) a none j).isSome := by
  rw [Function.update_of_ne hja]
  by_cases hjb : j = b
  · rw [hjb, Function.update_self]
    rfl
  · rwa [Function.update_of_ne hjb]

/-- A move keeps the chain of another element whole when the cell it leaves
is not on that chain. -/
theorem ChainWhole.move {n : Nat} {home : α → Nat} {q : Nat} {w : α} (hw : ChainWhole n home buf q)
    (hq : buf q = some w) (hqa : q ≠ a) (hqb : q ≠ b)
    (hoff : ¬ cyclicDist n (home w) a < cyclicDist n (home w) q) :
    ChainWhole n home (Function.update (Function.update buf b (some y)) a none) q := by
  intro w' hw' j hj hdj
  rw [Function.update_of_ne hqa, Function.update_of_ne hqb, hq] at hw'
  cases hw'
  have hja : j ≠ a := by
    rintro rfl
    exact hoff hdj
  exact isSome_move_of_ne hja (hw w hq j hj hdj)

end Move

/-! ### Counting the taken cells -/

section Count

variable {α : Type}

/-- The elements of the cells below `n`, in the order of the cells. -/
def cellsBelow (n : Nat) (buf : Nat → Option α) : List α := (List.range n).filterMap buf

/-- The number of taken cells below `n`. -/
def occupiedCount (n : Nat) (buf : Nat → Option α) : Nat := (cellsBelow n buf).length

variable {n : Nat} {buf : Nat → Option α}

theorem occupiedCount_succ :
    occupiedCount (n + 1) buf = occupiedCount n buf + if (buf n).isSome then 1 else 0 := by
  simp only [occupiedCount, cellsBelow, List.range_succ, List.filterMap_append, List.length_append]
  cases h : buf n <;> simp [h]

theorem mem_cellsBelow {x : α} : x ∈ cellsBelow n buf ↔ ∃ i < n, buf i = some x := by
  simp [cellsBelow]

theorem occupiedCount_le : occupiedCount n buf ≤ n := by
  induction n with
  | zero => exact Nat.le_refl 0
  | succ n ih =>
    rw [occupiedCount_succ]
    split_ifs <;> omega

/-- Two buffers that agree below `n` have as many taken cells there. -/
theorem occupiedCount_congr {buf' : Nat → Option α} (h : ∀ i < n, (buf i).isSome = (buf' i).isSome) :
    occupiedCount n buf = occupiedCount n buf' := by
  induction n with
  | zero => rfl
  | succ n ih =>
    rw [occupiedCount_succ, occupiedCount_succ, ih (fun i hi => h i (by omega)), h n (by omega)]

/-- Filling an empty cell takes one cell more. -/
theorem occupiedCount_update_some {q : Nat} {x : α} (hq : q < n) (hempty : buf q = none) :
    occupiedCount n (Function.update buf q (some x)) = occupiedCount n buf + 1 := by
  induction n with
  | zero => omega
  | succ n ih =>
    rw [occupiedCount_succ, occupiedCount_succ]
    by_cases hqn : q = n
    · subst hqn
      have hbelow : occupiedCount q (Function.update buf q (some x)) = occupiedCount q buf :=
        occupiedCount_congr fun i hi => by rw [Function.update_of_ne (by omega)]
      simp [hbelow, hempty]
    · rw [ih (by omega), Function.update_of_ne (Ne.symm hqn)]
      omega

/-- Emptying a taken cell takes one cell less. -/
theorem occupiedCount_update_none {q : Nat} (hq : q < n) (htaken : (buf q).isSome) :
    occupiedCount n (Function.update buf q none) + 1 = occupiedCount n buf := by
  obtain ⟨x, hx⟩ := Option.isSome_iff_exists.mp htaken
  have hfill := @occupiedCount_update_some _ n (Function.update buf q none) q x hq (by simp)
  rw [Function.update_idem, ← hx, Function.update_eq_self] at hfill
  omega

/-- Fewer taken cells than cells leave an empty one. -/
theorem exists_empty_of_occupiedCount_lt (h : occupiedCount n buf < n) : ∃ e < n, buf e = none := by
  induction n with
  | zero => omega
  | succ n ih =>
    rw [occupiedCount_succ] at h
    by_cases hn : (buf n).isSome
    · obtain ⟨e, he, hbuf⟩ := ih (by simp [hn] at h; omega)
      exact ⟨e, by omega, hbuf⟩
    · exact ⟨n, by omega, Option.not_isSome_iff_eq_none.mp hn⟩

/-- All the cells from `a` up to `n` taken are `n - a` taken cells. -/
theorem sub_le_occupiedCount {a : Nat} (h : ∀ j, a ≤ j → j < n → (buf j).isSome) :
    n - a ≤ occupiedCount n buf := by
  induction n with
  | zero => omega
  | succ n ih =>
    rw [occupiedCount_succ]
    have ih' := ih fun j hj hjn => h j hj (by omega)
    by_cases han : a ≤ n
    · simp [h n han (by omega)]
      omega
    · omega

/-- Fewer taken cells than the `n - a` cells from `a` on: a first empty cell
from `a` on. -/
theorem exists_first_empty {a : Nat} (h : occupiedCount n buf < n - a) :
    ∃ r, a ≤ r ∧ r < n ∧ buf r = none ∧ ∀ j, a ≤ j → j < r → (buf j).isSome := by
  classical
  have hex : ∃ e, a ≤ e ∧ e < n ∧ buf e = none := by
    by_contra hall
    refine absurd (sub_le_occupiedCount fun j haj hjn => ?_) (Nat.not_le.mpr h)
    cases hb : buf j with
    | none => exact absurd ⟨j, haj, hjn, hb⟩ hall
    | some _ => rfl
  obtain ⟨har, hrn, hr⟩ := Nat.find_spec hex
  refine ⟨Nat.find hex, har, hrn, hr, fun j haj hjr => ?_⟩
  cases hb : buf j with
  | none => exact absurd ⟨haj, by omega, hb⟩ (Nat.find_min hex hjr)
  | some _ => rfl

/-- Empty cells from `n` to `m` add nothing to the count. -/
theorem occupiedCount_of_none_above {m : Nat} (hnm : n ≤ m) (h : ∀ j, n ≤ j → j < m → buf j = none) :
    occupiedCount m buf = occupiedCount n buf := by
  induction m with
  | zero => rw [Nat.le_zero.mp hnm]
  | succ m ih =>
    by_cases hn : n = m + 1
    · rw [hn]
    · rw [occupiedCount_succ, ih (by omega) fun j hj hjm => h j hj (by omega), h m (by omega) (by omega)]
      simp

/-- A walk of `d` steps from `h` over taken cells only: `d + 1` taken cells. -/
theorem le_occupiedCount_of_walk {h : Nat} (hh : h < n) :
    ∀ (d : Nat) (buf : Nat → Option α), d < n → (∀ j < n, cyclicDist n h j ≤ d → (buf j).isSome) →
      d + 1 ≤ occupiedCount n buf := by
  intro d
  induction d with
  | zero =>
    intro buf _ hall
    have hcount := occupiedCount_update_none hh (hall h hh (by simp))
    omega
  | succ d ih =>
    intro buf hd hall
    -- the cell `d + 1` steps on is taken; without it, the walk of `d` steps still is
    obtain ⟨q, hq, hdq⟩ := exists_cyclicDist_eq hh hd
    have hrest := ih (Function.update buf q none) (by omega) fun j hj hdj => by
      rw [Function.update_of_ne (by rintro rfl; omega)]
      exact hall j hj (by omega)
    have hcount := occupiedCount_update_none hq (hall q hq (Nat.le_of_eq hdq))
    omega

/-- The cells of the walk from an element's home to its cell, its own
included, are taken. -/
theorem ChainWhole.taken_of_le {home : α → Nat} {pos : Nat} (hw : ChainWhole n home buf pos) {x : α}
    (hx : buf pos = some x) (hpos : pos < n) (hhome : home x < n) :
    ∀ j < n, cyclicDist n (home x) j ≤ cyclicDist n (home x) pos → (buf j).isSome := by
  intro j hj hdj
  rcases Nat.lt_or_eq_of_le hdj with hlt | heq
  · exact hw x hx j hj hlt
  · rw [cyclicDist_inj hhome hj hpos heq, hx]
    rfl

/-- An element whose chain is whole is fewer steps from its home than there
are taken cells. -/
theorem ChainWhole.dist_lt_occupiedCount {home : α → Nat} {pos : Nat} (hw : ChainWhole n home buf pos) {x : α}
    (hx : buf pos = some x) (hpos : pos < n) (hhome : home x < n) :
    cyclicDist n (home x) pos < occupiedCount n buf :=
  le_occupiedCount_of_walk hhome _ buf (cyclicDist_lt hhome hpos) (hw.taken_of_le hx hpos hhome)

/-- Moving an element to an empty cell keeps the count. -/
theorem occupiedCount_move {a b : Nat} {y : α} (ha : a < n) (hb : b < n) (hya : buf a = some y)
    (hnone : buf b = none) : occupiedCount n (Function.update (Function.update buf b (some y)) a none) =
      occupiedCount n buf := by
  have hab : a ≠ b := by
    rintro rfl
    rw [hya] at hnone
    cases hnone
  have hfill := occupiedCount_update_some (x := y) hb hnone
  have hfree : occupiedCount n (Function.update (Function.update buf b (some y)) a none) + 1 =
      occupiedCount n (Function.update buf b (some y)) :=
    occupiedCount_update_none ha (by rw [Function.update_of_ne hab, hya]; rfl)
  omega

/-- Keys that name one cell each are distinct in the list of the cells. -/
theorem nodup_map_cellsBelow {β : Type} (key : α → β)
    (h : ∀ i j x y, buf i = some x → buf j = some y → key x = key y → i = j) :
    ((cellsBelow n buf).map key).Nodup := by
  refine List.Nodup.map_on ?_ (List.Nodup.filterMap ?_ List.nodup_range)
  · intro x hx y hy hxy
    obtain ⟨i, -, hi⟩ := mem_cellsBelow.mp hx
    obtain ⟨j, -, hj⟩ := mem_cellsBelow.mp hy
    have hij := h i j x y hi hj hxy
    subst hij
    rw [hi] at hj
    exact Option.some.inj hj
  · intro i j x hi hj
    exact h i j x x hi hj rfl

end Count

end Daisy.Library
