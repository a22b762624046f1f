import Mathlib.Data.List.Basic

/-!
# Loops over a list that may throw

A `for` loop over the elements of a container, whose body may throw, is
`List.foldlM` in `Except`. Its rule: an invariant indexed by the elements
done so far, which the body keeps at each element and never throws from,
holds at the end of the loop, and the loop returns.

* `foldlM_of_step`: the loop rule, where the body may use where the element
  stands in the list (what is done before it, what is left after it).
* `rel_of_mem_done`: what a list's elements pairwise satisfy holds between
  each element done and the one at hand.
-/

namespace Daisy.Library

variable {α σ ε : Type*}

/-- **The loop rule.** -/
theorem foldlM_of_step {f : σ → α → Except ε σ} (P : List α → σ → Prop) (l : List α)
    (hstep : ∀ done x rest s, done ++ x :: rest = l → P done s → ∃ s', f s x = .ok s' ∧ P (done ++ [x]) s')
    {s : σ} (h0 : P [] s) : ∃ s', l.foldlM f s = .ok s' ∧ P l s' := by
  suffices h : ∀ rest done s, done ++ rest = l → P done s → ∃ s', rest.foldlM f s = .ok s' ∧ P l s' from
    h l [] s rfl h0
  intro rest
  induction rest with
  | nil =>
    intro done s hl hs
    rw [List.append_nil] at hl
    exact ⟨s, rfl, hl ▸ hs⟩
  | cons x rest ih =>
    intro done s hl hs
    obtain ⟨s', hf, hs'⟩ := hstep done x rest s hl hs
    obtain ⟨s'', hrest, hP⟩ := ih (done ++ [x]) s' (by rw [List.append_assoc]; exact hl) hs'
    refine ⟨s'', ?_, hP⟩
    rw [List.foldlM_cons, hf]
    exact hrest

/-- An element done before `x` is related to it, in a pairwise related list. -/
theorem rel_of_mem_done {R : α → α → Prop} {l done rest : List α} {x : α} (h : l.Pairwise R)
    (hl : done ++ x :: rest = l) : ∀ y ∈ done, R y x := by
  subst hl
  intro y hy
  exact (List.pairwise_append.mp h).2.2 y hy x List.mem_cons_self

end Daisy.Library
