import Mathlib.Data.List.Sort
import Mathlib.Data.List.TakeWhile

/-!
# Completing taken items in order

Items are taken in order and complete in any order; a checkpoint stands after
the longest prefix of completed items, and the items completed past it are
kept in an ordered set. These are the list facts such a checkpoint is proved
with:

* an ordered set is a sorted list, and inserting one more element of a sorted
  list into the sublist a predicate picks gives the sublist of the larger
  predicate (`orderedInsert_filter`);
* a list cut as a prefix of completed items and the rest, whose head is not
  completed, is cut so by `takeWhile` and `dropWhile`
  (`takeWhile_append_of_head`, `dropWhile_append_of_head`);
* the last value of a growing prefix (`getLastD_append`);
* an element put in the middle of a list related pairwise
  (`pairwise_insert_middle`).
-/

namespace Daisy.Library

variable {α β : Type*}

section Insert

variable (lt : α → α → Prop) [DecidableRel lt]

/-- **Inserting into a sorted sublist.** In a list sorted by an asymmetric
`lt`, inserting an element `x` of the list into the sublist `p` picks, at the
first place where the next element is not below it, gives the sublist that
`p` or `= x` picks. -/
theorem orderedInsert_filter [DecidableEq α] (hasymm : ∀ a b, lt a b → ¬lt b a) {l : List α}
    (hl : l.Pairwise lt) (p : α → Bool) {x : α} (hx : x ∈ l) (hpx : p x = false) :
    (l.filter p).orderedInsert (fun a b => ¬lt b a) x = l.filter fun a => p a || decide (a = x) := by
  induction l with
  | nil => simp at hx
  | cons b l ih =>
    rw [List.pairwise_cons] at hl
    by_cases hbx : b = x
    · -- `x` is the head: everything after it is above it, so it goes first
      subst hbx
      have hrest : l.filter (fun a => p a || decide (a = b)) = l.filter p :=
        List.filter_congr fun a ha => by simp [(ne_of_rel_of_pairwise hl.1 ha).symm]
      rw [List.filter_cons_of_neg (by simp [hpx]), List.filter_cons_of_pos (by simp), hrest]
      cases hf : l.filter p with
      | nil => rfl
      | cons c cs =>
        have hc : c ∈ l := List.mem_of_mem_filter (hf ▸ List.mem_cons_self)
        simp [List.orderedInsert, hasymm _ _ (hl.1 c hc)]
    · -- `x` lies further on, above `b`
      have hx' : x ∈ l := (List.mem_cons.mp hx).resolve_left (Ne.symm hbx)
      have hbx' : lt b x := hl.1 x hx'
      by_cases hpb : p b = true
      · rw [List.filter_cons_of_pos hpb, List.filter_cons_of_pos (by simp [hpb]), List.orderedInsert,
          if_neg (by simpa using hbx'), ih hl.2 hx']
      · rw [List.filter_cons_of_neg hpb, List.filter_cons_of_neg (by simp [hpb, hbx]), ih hl.2 hx']
where
  ne_of_rel_of_pairwise {b a : α} {l : List α} (h : ∀ a ∈ l, lt b a) (ha : a ∈ l) : b ≠ a := by
    rintro rfl
    exact hasymm _ _ (h b ha) (h b ha)

/-- An element put between the two parts of a list related pairwise, related
to each element before it and after it, keeps the list related pairwise. -/
theorem pairwise_insert_middle {R : α → α → Prop} {pre suf : List α} {x : α} (hpair : (pre ++ suf).Pairwise R)
    (hleft : ∀ a ∈ pre, R a x) (hright : ∀ b ∈ suf, R x b) : (pre ++ x :: suf).Pairwise R := by
  obtain ⟨hpre, hsuf, hacross⟩ := List.pairwise_append.mp hpair
  refine List.pairwise_append.mpr ⟨hpre, List.pairwise_cons.mpr ⟨hright, hsuf⟩, fun a ha b hb => ?_⟩
  rcases List.mem_cons.mp hb with rfl | hb
  · exact hleft a ha
  · exact hacross a ha b hb

end Insert

section Prefix

variable {q : α → Bool} {done pending : List α}

theorem takeWhile_append_of_head (hd : ∀ a ∈ done, q a = true) (hp : ∀ a ∈ pending.head?, q a = false) :
    (done ++ pending).takeWhile q = done := by
  rw [List.takeWhile_append_of_pos hd]
  rcases pending with _ | ⟨b, pending⟩
  · simp
  · simp [hp b rfl]

theorem dropWhile_append_of_head (hd : ∀ a ∈ done, q a = true) (hp : ∀ a ∈ pending.head?, q a = false) :
    (done ++ pending).dropWhile q = pending := by
  rw [List.dropWhile_append_of_pos hd]
  rcases pending with _ | ⟨b, pending⟩
  · rfl
  · simp [hp b rfl]

/-- What `dropWhile` leaves starts with an item `q` rejects. -/
theorem head?_dropWhile (q : α → Bool) (l : List α) : ∀ x ∈ (l.dropWhile q).head?, q x = false := by
  intro x hx
  have h := List.head?_dropWhile_not q l
  rw [Option.mem_def] at hx
  rw [hx] at h
  exact h

end Prefix

theorem getLastD_append (l l' : List α) (a : α) : (l ++ l').getLastD a = l'.getLastD (l.getLastD a) := by
  simp only [List.getLastD_eq_getLast?, List.getLast?_append]
  cases l'.getLast? <;> rfl

end Daisy.Library
