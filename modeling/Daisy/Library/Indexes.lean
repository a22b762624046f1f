import Mathlib.Order.Interval.Finset.Defs
import Mathlib.Data.Int.Interval
import Mathlib.Data.List.Nodup
import Mathlib.Data.Finset.Card

/-!
# Indexes below a bound

A strictly increasing list of indexes in `[0, n)` has `n` elements exactly when
it holds every index of `[0, n)`: counting the elements of a group of parts is
a complete check of which parts are there.
-/

namespace Daisy.Library

/-- **Counting decides presence.** For strictly increasing indexes below `n`,
having `n` of them is having all of `[0, n)`. -/
theorem length_eq_iff_forall_mem {l : List ℤ} {n : ℤ} (hn : 0 ≤ n) (hs : l.Pairwise (· < ·))
    (hb : ∀ x ∈ l, 0 ≤ x ∧ x < n) : (l.length : ℤ) = n ↔ ∀ i, 0 ≤ i → i < n → i ∈ l := by
  have hnd : l.Nodup := hs.imp ne_of_lt
  have hsub : l.toFinset ⊆ Finset.Ico 0 n := fun x hx => by
    rw [List.mem_toFinset] at hx
    exact Finset.mem_Ico.mpr (hb x hx)
  have hcard : l.toFinset.card = l.length := List.toFinset_card_of_nodup hnd
  have hle : l.length ≤ (n - 0).toNat := by
    rw [← hcard, ← Int.card_Ico]
    exact Finset.card_le_card hsub
  constructor
  · intro hlen i hi0 hin
    have heq : l.toFinset = Finset.Ico 0 n :=
      Finset.eq_of_subset_of_card_le hsub (by rw [Int.card_Ico, hcard]; omega)
    have hi : i ∈ Finset.Ico 0 n := Finset.mem_Ico.mpr ⟨hi0, hin⟩
    rw [← heq, List.mem_toFinset] at hi
    exact hi
  · intro hall
    have hsup : Finset.Ico 0 n ⊆ l.toFinset := fun x hx => by
      obtain ⟨h0, hn⟩ := Finset.mem_Ico.mp hx
      exact List.mem_toFinset.mpr (hall x h0 hn)
    have hge := Finset.card_le_card hsup
    rw [Int.card_Ico, hcard] at hge
    omega

end Daisy.Library
