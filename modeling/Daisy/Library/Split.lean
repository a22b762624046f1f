import Mathlib.Data.List.Basic

/-!
# Cutting a list at a separator

Two scans of a text reader that searches for a separator with `find`:

* `breakAt c l`: the text before the first `c` and the text after it;
* `pieces sep l`: the loop `lpos := l.find(sep, lpos) + 1` that hands each
  piece between separators to a parser and stops when `lpos` reaches the end,
  so a last empty piece is never handed over.

Joining pieces with the separator and cutting them again gives them back when
no piece holds the separator and none is empty.
-/

namespace Daisy.Library

variable {α : Type*} [DecidableEq α]

/-- The text before the first `c` and the text after it, if `c` occurs. -/
def breakAt (c : α) : List α → Option (List α × List α)
  | [] => none
  | a :: l => if a = c then some ([], l) else (breakAt c l).map fun r => (a :: r.1, r.2)

/-- The pieces of `l` between the separators `sep`; a last empty piece is dropped. -/
def pieces (sep : α) : List α → List (List α)
  | [] => []
  | a :: l =>
    if a = sep then [] :: pieces sep l
    else
      match pieces sep l with
      | [] => [[a]]
      | p :: ps => (a :: p) :: ps

theorem breakAt_append {c : α} {p : List α} (hp : c ∉ p) (l : List α) :
    breakAt c (p ++ c :: l) = some (p, l) := by
  induction p with
  | nil => simp [breakAt]
  | cons a p ih =>
    rw [List.mem_cons, not_or] at hp
    simp [breakAt, Ne.symm hp.1, ih hp.2]

/-- Text without the separator joins the first piece of what follows it. -/
theorem pieces_append_of_not_mem {sep : α} {p : List α} (hp : sep ∉ p) {l q : List α}
    {qs : List (List α)} (hl : pieces sep l = q :: qs) : pieces sep (p ++ l) = (p ++ q) :: qs := by
  induction p with
  | nil => exact hl
  | cons a p ih =>
    rw [List.mem_cons, not_or] at hp
    simp only [List.cons_append, pieces, if_neg (Ne.symm hp.1), ih hp.2]

theorem pieces_of_not_mem {sep : α} {p : List α} (hp : sep ∉ p) (hne : p ≠ []) : pieces sep p = [p] := by
  induction p with
  | nil => exact absurd rfl hne
  | cons a p ih =>
    rw [List.mem_cons, not_or] at hp
    rcases p with _ | ⟨b, p⟩
    · simp [pieces, Ne.symm hp.1]
    · rw [pieces, if_neg (Ne.symm hp.1), ih hp.2 (List.cons_ne_nil b p)]

/-- **Cutting undoes joining** when no piece holds the separator or is empty. -/
theorem pieces_intercalate {sep : α} :
    ∀ ps : List (List α), (∀ p ∈ ps, sep ∉ p ∧ p ≠ []) → pieces sep ([sep].intercalate ps) = ps
  | [], _ => rfl
  | [p], h => by
    rw [List.intercalate_singleton]
    exact pieces_of_not_mem (h p List.mem_cons_self).1 (h p List.mem_cons_self).2
  | p :: q :: qs, h => by
    have hrest := pieces_intercalate (q :: qs) fun x hx => h x (List.mem_cons_of_mem _ hx)
    have hsep : pieces sep (sep :: [sep].intercalate (q :: qs)) = [] :: q :: qs := by
      rw [pieces, if_pos rfl, hrest]
    rw [List.intercalate_cons_cons, List.append_assoc, List.singleton_append,
      pieces_append_of_not_mem (h p List.mem_cons_self).1 hsep, List.append_nil]

omit [DecidableEq α] in
theorem mem_intercalate {sep : α} {x : α} :
    ∀ {ps : List (List α)}, x ∈ [sep].intercalate ps → x = sep ∨ ∃ p ∈ ps, x ∈ p
  | [], h => absurd h List.not_mem_nil
  | [p], h => Or.inr ⟨p, List.mem_cons_self, by rwa [List.intercalate_singleton] at h⟩
  | p :: q :: qs, h => by
    rw [List.intercalate_cons_cons, List.mem_append, List.mem_append, List.mem_singleton] at h
    rcases h with (h | h) | h
    · exact Or.inr ⟨p, List.mem_cons_self, h⟩
    · exact Or.inl h
    · rcases mem_intercalate h with h | ⟨r, hr, hx⟩
      · exact Or.inl h
      · exact Or.inr ⟨r, List.mem_cons_of_mem _ hr, hx⟩

omit [DecidableEq α] in
theorem intercalate_eq_nil {sep : α} {ps : List (List α)} (hne : ∀ p ∈ ps, p ≠ []) :
    [sep].intercalate ps = [] ↔ ps = [] := by
  rcases ps with _ | ⟨p, _ | ⟨q, qs⟩⟩
  · simp
  · simpa using hne p List.mem_cons_self
  · simp

end Daisy.Library
