import Mathlib.Order.Basic
import Mathlib.Tactic.SplitIfs

/-!
# Positions on a cycle

The positions `0, …, n - 1` of a buffer that is walked one step at a time,
the step after the last position going back to the first. `cyclicNext`
is the step; `cyclicDist n a b` is the number of steps from `a` to `b`. An
interval of the walk from `a` is read through the distance from `a`: the
position `j` lies before `b` on the walk from `a` when
`cyclicDist n a j < cyclicDist n a b`. Both are written without `%`, so that
their facts are linear and `omega` closes them once the `if` is split.
-/

namespace Daisy.Library

/-- The position after `a` on a cycle of `n` positions. -/
def cyclicNext (n a : Nat) : Nat := if a + 1 = n then 0 else a + 1

/-- The number of steps from `a` to `b` on a cycle of `n` positions. -/
def cyclicDist (n a b : Nat) : Nat := if a ≤ b then b - a else b + n - a

section Cyclic

variable {n a b c : Nat}

theorem cyclicNext_lt (ha : a < n) : cyclicNext n a < n := by
  unfold cyclicNext
  split_ifs <;> omega

theorem cyclicDist_lt (ha : a < n) (hb : b < n) : cyclicDist n a b < n := by
  unfold cyclicDist
  split_ifs <;> omega

@[simp] theorem cyclicDist_self : cyclicDist n a a = 0 := by
  simp [cyclicDist]

theorem cyclicDist_eq_zero_iff (ha : a < n) : cyclicDist n a b = 0 ↔ a = b := by
  unfold cyclicDist
  split_ifs <;> omega

/-- Positions at the same distance from `a` are the same. -/
theorem cyclicDist_inj (ha : a < n) (hb : b < n) (hc : c < n) (h : cyclicDist n a b = cyclicDist n a c) :
    b = c := by
  unfold cyclicDist at h
  split_ifs at h <;> omega

/-- A step forward from `b` is one more step from `a`, unless it comes back
to `a`. -/
theorem cyclicDist_next (ha : a < n) (hne : cyclicNext n b ≠ a) :
    cyclicDist n a (cyclicNext n b) = cyclicDist n a b + 1 := by
  unfold cyclicDist cyclicNext at *
  split_ifs at * <;> omega

/-- A walk from `a` that does not stop at `a` is one step longer than the walk
from the step after `a`. -/
theorem cyclicDist_of_ne (ha : a < n) (hb : b < n) (hne : b ≠ a) :
    cyclicDist n a b = cyclicDist n (cyclicNext n a) b + 1 := by
  unfold cyclicDist cyclicNext
  split_ifs <;> omega

/-- A position between `b` and `c`, on a walk from `a` that meets `b` before
`c`, lies before `c` on the walk from `a`. -/
theorem cyclicDist_lt_of_le_between (ha : a < n) (hb : b < n) (hc : c < n) {j : Nat} (hj : j < n)
    (hab : cyclicDist n a b < cyclicDist n a c) (hbj : cyclicDist n b j ≤ cyclicDist n b c) (hjc : j ≠ c) :
    cyclicDist n a j < cyclicDist n a c := by
  unfold cyclicDist at *
  split_ifs at * <;> omega

/-- Every distance below `n` is the distance from `a` to some position. -/
theorem exists_cyclicDist_eq (ha : a < n) {d : Nat} (hd : d < n) : ∃ b < n, cyclicDist n a b = d := by
  by_cases hwrap : a + d < n
  · exact ⟨a + d, hwrap, by unfold cyclicDist; split_ifs <;> omega⟩
  · exact ⟨a + d - n, by omega, by unfold cyclicDist; split_ifs <;> omega⟩

/-- The position before `a` is the last one of the walk from `a`. -/
theorem cyclicDist_of_next_eq (ha : a < n) (h : cyclicNext n b = a) : cyclicDist n a b = n - 1 := by
  unfold cyclicDist cyclicNext at *
  split_ifs at * <;> omega

/-- A home `h` lies in the cyclic interval `(e, q]` exactly when one of the
three comparisons that read it on the line holds. -/
theorem mem_Ioc_iff {e q h : Nat} (he : e < n) (hq : q < n) (hh : h < n) (hne : e ≠ q) :
    (h = q ∨ (q > e ∧ h > e ∧ h < q) ∨ (q < e ∧ (h > e ∨ h < q))) ↔
      0 < cyclicDist n e h ∧ cyclicDist n e h ≤ cyclicDist n e q := by
  unfold cyclicDist
  split_ifs <;> omega

/-- A home outside `(e, q]` lies before `e` on the walk to `q`. -/
theorem cyclicDist_lt_of_not_mem_Ioc {e q h : Nat} (he : e < n) (hq : q < n) (hh : h < n) (hne : e ≠ q)
    (hout : ¬ (0 < cyclicDist n e h ∧ cyclicDist n e h ≤ cyclicDist n e q)) :
    cyclicDist n h e < cyclicDist n h q := by
  unfold cyclicDist at *
  split_ifs at * <;> omega

/-- A home in `(e, q]` reaches `q` before `e`. -/
theorem cyclicDist_lt_of_mem_Ioc {e q h : Nat} (he : e < n) (hq : q < n) (hh : h < n)
    (hin : 0 < cyclicDist n e h ∧ cyclicDist n e h ≤ cyclicDist n e q) :
    cyclicDist n h q < cyclicDist n h e := by
  unfold cyclicDist at *
  split_ifs at * <;> omega

end Cyclic

end Daisy.Library
