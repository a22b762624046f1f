import Mathlib

/-!
# Runs of equal keys

A list cut into its maximal runs of consecutive elements with one key, each run
given by its first element and the others. A scan that settles a run when the
key changes is proved correct against this cut: the run's elements share its
key, the runs flatten back to the list, and when the list is sorted by the key
every element of a run lies strictly below every element of a later run.
-/

namespace Daisy.Library

variable {α β : Type*}

section Runs

variable [DecidableEq β] (key : α → β)

/-- The maximal runs of `l` with one key: each as its first element and the rest. -/
def runs : List α → List (α × List α)
  | [] => []
  | a :: l =>
    match runs l with
    | [] => [(a, [])]
    | (h, os) :: rs => if key a = key h then (a, h :: os) :: rs else (a, []) :: (h, os) :: rs

/-- A run as the list it stands for. -/
def runList (r : α × List α) : List α := r.1 :: r.2

@[simp] theorem runList_mk (a : α) (os : List α) : runList (a, os) = a :: os := rfl

@[simp] theorem runs_nil : runs key ([] : List α) = [] := rfl

theorem runs_cons_of_runs_nil {a : α} {l : List α} (h : runs key l = []) :
    runs key (a :: l) = [(a, [])] := by
  simp [runs, h]

theorem runs_cons_of_runs_cons {a h : α} {l os : List α} {rs : List (α × List α)}
    (hr : runs key l = (h, os) :: rs) :
    runs key (a :: l) = if key a = key h then (a, h :: os) :: rs else (a, []) :: (h, os) :: rs := by
  simp [runs, hr]

/-- The runs flatten back to the list. -/
theorem flatten_runs (l : List α) : ((runs key l).map runList).flatten = l := by
  induction l with
  | nil => rfl
  | cons a l ih =>
    rcases hr : runs key l with _ | ⟨⟨h, os⟩, rs⟩
    · rw [hr] at ih
      rw [runs_cons_of_runs_nil key hr]
      simpa using ih
    · rw [hr] at ih
      simp only [List.map_cons, List.flatten_cons, runList_mk] at ih
      rw [runs_cons_of_runs_cons key hr]
      split_ifs <;> simp [ih]

/-- Every element of a run has the run's key. -/
theorem key_eq_of_mem_runs {l : List α} {r : α × List α} (hr : r ∈ runs key l) :
    ∀ x ∈ r.2, key x = key r.1 := by
  induction l generalizing r with
  | nil => simp at hr
  | cons a l ih =>
    rcases hl : runs key l with _ | ⟨⟨h, os⟩, rs⟩
    · rw [runs_cons_of_runs_nil key hl, List.mem_singleton] at hr
      simp [hr]
    · rw [runs_cons_of_runs_cons key hl] at hr
      rw [hl] at ih
      split_ifs at hr with hk
      · rcases List.mem_cons.mp hr with rfl | hr
        · intro x hx
          rcases List.mem_cons.mp hx with rfl | hx
          · exact hk.symm
          · rw [ih (List.mem_cons_self) x hx, hk]
        · exact ih (List.mem_cons_of_mem _ hr)
      · rcases List.mem_cons.mp hr with rfl | hr
        · simp
        · exact ih hr

/-- A run is a sublist of the list. -/
theorem runList_sublist {l : List α} {r : α × List α} (hr : r ∈ runs key l) : (runList r).Sublist l := by
  have h := flatten_runs key l
  rw [← h]
  exact List.sublist_flatten_of_mem (List.mem_map_of_mem hr)

/-- **Sorted runs.** When the list is sorted by the key, every element of a run
has a smaller key than every element of a later run. -/
theorem runs_pairwise_key_lt [LinearOrder β] {l : List α} (hl : l.Pairwise fun a b => key a ≤ key b) :
    (runs key l).Pairwise fun r r' => ∀ x ∈ runList r, ∀ y ∈ runList r', key x < key y := by
  induction l with
  | nil => simp
  | cons a l ih =>
    rw [List.pairwise_cons] at hl
    have ih := ih hl.2
    have hmem : ∀ r ∈ runs key l, ∀ y ∈ runList r, y ∈ l := fun r hr y hy =>
      (runList_sublist key hr).subset hy
    rcases hr : runs key l with _ | ⟨⟨h, os⟩, rs⟩
    · simp [runs_cons_of_runs_nil key hr]
    · rw [hr] at ih hmem
      rw [runs_cons_of_runs_cons key hr]
      have hh : ∀ y ∈ h :: os, key y = key h := by
        intro y hy
        rcases List.mem_cons.mp hy with rfl | hy
        · rfl
        · exact key_eq_of_mem_runs key (hr ▸ List.mem_cons_self) y hy
      rw [List.pairwise_cons] at ih
      split_ifs with hk
      · refine List.pairwise_cons.mpr ⟨fun r' hr' x hx y hy => ?_, ih.2⟩
        rcases List.mem_cons.mp hx with rfl | hx
        · rw [hk]
          exact ih.1 r' hr' h (by simp) y hy
        · exact ih.1 r' hr' x hx y hy
      · have hah : key a < key h :=
          lt_of_le_of_ne (hl.1 h (hmem _ List.mem_cons_self h (by simp))) hk
        refine List.pairwise_cons.mpr ⟨fun r' hr' x hx y hy => ?_, List.pairwise_cons.mpr ih⟩
        have hxa : x = a := by simpa using hx
        subst hxa
        rcases List.mem_cons.mp hr' with rfl | hr'
        · rw [hh y hy]
          exact hah
        · exact lt_trans hah (ih.1 _ hr' h (by simp) y hy)

/-- When the list is sorted by the key, elements with one key lie in one run. -/
theorem eq_of_mem_runs_of_key_eq [LinearOrder β] {l : List α} (hl : l.Pairwise fun a b => key a ≤ key b)
    {r r' : α × List α} (hr : r ∈ runs key l) (hr' : r' ∈ runs key l) {x y : α}
    (hx : x ∈ runList r) (hy : y ∈ runList r') (hxy : key x = key y) : r = r' := by
  have hp := runs_pairwise_key_lt key hl
  have hsame : ∀ ⦃r⦄, r ∈ runs key l → ∀ ⦃r'⦄, r' ∈ runs key l →
      (∃ x ∈ runList r, ∃ y ∈ runList r', key x = key y) → r = r' :=
    List.Pairwise.forall_of_forall_of_flip (fun _ _ _ => rfl)
      (hp.imp fun hlt ⟨x, hx, y, hy, hxy⟩ => absurd hxy (ne_of_lt (hlt x hx y hy)))
      (hp.imp fun hlt ⟨x, hx, y, hy, hxy⟩ => absurd hxy.symm (ne_of_lt (hlt y hy x hx)))
  exact hsame hr hr' ⟨x, hx, y, hy, hxy⟩

end Runs

end Daisy.Library
