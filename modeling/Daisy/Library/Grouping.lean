import Mathlib.Data.List.Induction
import Mathlib.Data.List.Sort

/-!
# Grouping a list by a key, and the order a hash map iterates in

A loop `groups[key(x)].push_back(x)` over a list fills a hash map with a
group for each key, each group in list order; the map then iterates its
entries in an order that the C++ standard leaves open.

## The model

`groupByKey key l` is the map as a list of entries, a key's entry made where
the key first comes and appended to after (`pushGroup`). An `IterationOrder`
is an order a map may iterate its entries in: a permutation of them.
`IterationOrder.lastFirst` is the reverse of the order the keys came in (a
map of `libc++` iterates so when every key went into an empty bucket);
`IterationOrder.byKey` is increasing key order.

## What is proved

* `groupByKey_eq`: the entries of `groupByKey key l` are `(k, l.filter (key · = k))`
  for distinct keys `k`, and these are the keys of `l`.
* `keys_byKey`: a map whose keys are the members of a strictly increasing
  list `ks`, iterated in key order, gives its keys as `ks`.
* `foldl_pushNew`: a loop that pushes each element unless it is there already
  (`std::find`, then `push_back`) adds the new ones once each, in the order
  they first come (`List.eraseDups`).
-/

namespace Daisy.Library

section Grouping

variable {α κ : Type*} [DecidableEq κ] (key : α → κ)

/-- `groups[key(x)].push_back(x)`: `x` goes at the end of the group of its
key, or in a new group after the others. -/
def pushGroup : List (κ × List α) → α → List (κ × List α)
  | [], x => [(key x, [x])]
  | (k, xs) :: groups, x => if k = key x then (k, xs ++ [x]) :: groups else (k, xs) :: pushGroup groups x

/-- The groups of `l` by `key`, filled in list order. -/
def groupByKey (l : List α) : List (κ × List α) := l.foldl (pushGroup key) []

/-- The groups of `l` for the keys `ks`, in that order. -/
def groupsOf (l : List α) (ks : List κ) : List (κ × List α) :=
  ks.map fun k => (k, l.filter fun x => key x = k)

variable {key}

theorem keys_groupsOf (l : List α) (ks : List κ) : (groupsOf key l ks).map Prod.fst = ks := by
  simp [groupsOf, Function.comp_def]

theorem snd_of_mem_groupsOf {l : List α} {ks : List κ} {g : κ × List α} (hg : g ∈ groupsOf key l ks) :
    g.2 = l.filter fun x => key x = g.1 := by
  obtain ⟨k, -, rfl⟩ := List.mem_map.mp hg
  rfl

/-- A key's group is unchanged by an element of another key. -/
theorem filter_append_singleton_of_ne (l : List α) {x : α} {k : κ} (hk : k ≠ key x) :
    ((l ++ [x]).filter fun y => key y = k) = l.filter fun y => key y = k := by
  simp [List.filter_append, Ne.symm hk]

/-- **One step of the grouping loop.** Pushing `x` into the groups of `l` for
distinct keys `ks` gives the groups of `l ++ [x]`, with `key x` added at the
end if it is new. -/
theorem pushGroup_groupsOf (l : List α) (x : α) :
    ∀ ks : List κ, ks.Nodup → (key x ∉ ks → ∀ y ∈ l, key y ≠ key x) →
      pushGroup key (groupsOf key l ks) x =
        groupsOf key (l ++ [x]) (if key x ∈ ks then ks else ks ++ [key x])
  | [], _, hnew => by
    have hfilter : (l.filter fun y => key y = key x) = [] :=
      List.filter_eq_nil_iff.mpr fun y hy => by simpa using hnew List.not_mem_nil y hy
    simp [groupsOf, pushGroup, List.filter_append, hfilter]
  | k :: ks, hnodup, hnew => by
    obtain ⟨hk, hks⟩ := List.nodup_cons.mp hnodup
    by_cases hkx : k = key x
    · -- the group of `x`'s key comes first: it alone changes
      subst hkx
      have htail : groupsOf key l ks = groupsOf key (l ++ [x]) ks :=
        List.map_congr_left fun k' hk' => by
          rw [filter_append_singleton_of_ne l fun h => hk (by rw [← h]; exact hk')]
      simp [groupsOf, pushGroup, List.filter_append] at htail ⊢
      exact htail
    · have hnew' : key x ∉ ks → ∀ y ∈ l, key y ≠ key x := fun h =>
        hnew (by simp [Ne.symm hkx, h])
      have ih := pushGroup_groupsOf l x ks hks hnew'
      simp only [groupsOf, List.map_cons, pushGroup, hkx, if_false] at ih ⊢
      rw [ih]
      by_cases hmem : key x ∈ ks <;> simp [hmem, Ne.symm hkx, List.filter_append]

variable (key) in
/-- **The grouping loop.** `groupByKey key l` is the groups of `l` for a list
of distinct keys, which are the keys of `l`. -/
theorem groupByKey_eq (l : List α) :
    ∃ ks : List κ, ks.Nodup ∧ (∀ k, k ∈ ks ↔ ∃ x ∈ l, key x = k) ∧ groupByKey key l = groupsOf key l ks := by
  induction l using List.reverseRecOn with
  | nil => exact ⟨[], List.nodup_nil, by simp, rfl⟩
  | append_singleton l x ih =>
    obtain ⟨ks, hnodup, hmem, heq⟩ := ih
    have hnew : key x ∉ ks → ∀ y ∈ l, key y ≠ key x := fun h y hy hyx => h ((hmem _).mpr ⟨y, hy, hyx⟩)
    refine ⟨if key x ∈ ks then ks else ks ++ [key x], ?_, fun k => ?_, ?_⟩
    · split_ifs with h
      · exact hnodup
      · exact List.nodup_append.mpr ⟨hnodup, List.nodup_singleton _, fun a ha b hb => by
          rw [List.mem_singleton.mp hb]
          exact fun hab => h (hab ▸ ha)⟩
    · split_ifs with h
      · rw [hmem]
        constructor
        · rintro ⟨y, hy, rfl⟩
          exact ⟨y, List.mem_append_left _ hy, rfl⟩
        · rintro ⟨y, hy, rfl⟩
          rcases List.mem_append.mp hy with hy | hy
          · exact ⟨y, hy, rfl⟩
          · rw [List.mem_singleton.mp hy]
            exact (hmem _).mp h
      · simp [hmem, or_and_right, exists_or, eq_comm]
    · rw [groupByKey, List.foldl_append, ← groupByKey, heq]
      exact pushGroup_groupsOf l x ks hnodup hnew

end Grouping

/-! ### Iteration orders -/

/-- An order a hash map may iterate its entries in: the standard fixes none,
so any permutation of them. -/
structure IterationOrder (κ β : Type*) where
  /-- The entries, in the order they are visited. -/
  order : List (κ × β) → List (κ × β)
  /-- Each entry is visited once. -/
  perm : ∀ entries, (order entries).Perm entries

namespace IterationOrder

variable {κ β : Type*}

/-- The entries last made first. -/
def lastFirst : IterationOrder κ β := ⟨List.reverse, List.reverse_perm⟩

/-- The entries by increasing key. -/
def byKey [LinearOrder κ] : IterationOrder κ β :=
  ⟨fun entries => entries.mergeSort fun a b => decide (a.1 ≤ b.1), fun entries => List.mergeSort_perm entries _⟩

theorem mem_order (ord : IterationOrder κ β) {entries : List (κ × β)} {e : κ × β} :
    e ∈ ord.order entries ↔ e ∈ entries :=
  (ord.perm entries).mem_iff

theorem keys_perm (ord : IterationOrder κ β) (entries : List (κ × β)) :
    ((ord.order entries).map Prod.fst).Perm (entries.map Prod.fst) :=
  (ord.perm entries).map Prod.fst

/-- Visiting the groups of `l` in any order, each group is read off its key. -/
theorem map_order_groupsOf {α γ : Type*} [DecidableEq κ] {key : α → κ} (ord : IterationOrder κ (List α))
    (l : List α) (ks : List κ) (f : List α → γ) :
    (ord.order (groupsOf key l ks)).map (fun g => f g.2) =
      ((ord.order (groupsOf key l ks)).map Prod.fst).map fun k => f (l.filter fun x => key x = k) := by
  rw [List.map_map]
  refine List.map_congr_left fun g hg => ?_
  rw [Function.comp_apply, snd_of_mem_groupsOf (ord.mem_order.mp hg)]

/-- The keys of the entries in key order are increasing. -/
theorem keys_byKey_pairwise_le [LinearOrder κ] (entries : List (κ × β)) :
    ((byKey.order entries).map Prod.fst).Pairwise (· ≤ ·) := by
  have h : (byKey.order entries).Pairwise fun a b => decide (a.1 ≤ b.1) :=
    List.pairwise_mergeSort (fun a b c hab hbc => by simp only [decide_eq_true_eq] at *; exact hab.trans hbc)
      (fun a b => by simpa using le_total a.1 b.1) entries
  exact List.pairwise_map.mpr (h.imp fun hab => by simpa using hab)

/-- **Iterating in key order.** A map of distinct keys, which are the members
of the strictly increasing list `ks`, gives its keys as `ks` in key order. -/
theorem keys_byKey [LinearOrder κ] {ks : List κ} (hks : ks.Pairwise (· < ·)) {entries : List (κ × β)}
    (hnodup : (entries.map Prod.fst).Nodup) (hmem : ∀ k, k ∈ entries.map Prod.fst ↔ k ∈ ks) :
    (byKey.order entries).map Prod.fst = ks := by
  have hperm := byKey.keys_perm entries
  have hnodup' : ((byKey.order entries).map Prod.fst).Nodup := hperm.nodup_iff.mpr hnodup
  have hlt : ((byKey.order entries).map Prod.fst).Pairwise (· < ·) :=
    ((keys_byKey_pairwise_le entries).and hnodup').imp fun h => lt_of_le_of_ne h.1 h.2
  exact hlt.eq_of_mem_iff hks fun k => by rw [hperm.mem_iff, hmem]

end IterationOrder

/-! ### Collecting each element once -/

section Collect

variable {α : Type*} [DecidableEq α]

/-- `std::find` and `push_back`: `x` after the others, unless it is there
already. -/
def pushNew (acc : List α) (x : α) : List α := if x ∈ acc then acc else acc ++ [x]

/-- **The collecting loop keeps first occurrences.** Pushing the elements of
`l` in turn adds, after `acc`, those not in it, each once, in the order they
first come. -/
theorem foldl_pushNew (l acc : List α) :
    l.foldl pushNew acc = acc ++ (l.filter fun x => x ∉ acc).eraseDups := by
  induction l generalizing acc with
  | nil => simp
  | cons a l ih =>
    rw [List.foldl_cons, ih]
    by_cases ha : a ∈ acc
    · simp [pushNew, ha]
    · -- `a` goes in, and its later copies are left out with it
      have hfilter : ((l.filter fun x => x ∉ acc).filter fun x => !x == a) = l.filter fun x => x ∉ acc ++ [a] := by
        rw [List.filter_filter]
        apply List.filter_congr
        intro x _
        by_cases hx : x = a <;> simp [hx, ha]
      have hcons : ((a :: l).filter fun x => x ∉ acc) = a :: l.filter fun x => x ∉ acc :=
        List.filter_cons_of_pos (by simpa using ha)
      have hpush : pushNew acc a = acc ++ [a] := if_neg ha
      rw [hcons, List.eraseDups_cons, hfilter, hpush]
      simp

/-- A loop that pushes only the elements `p` picks pushes the list of them. -/
theorem foldl_pushNew_if (p : α → Prop) [DecidablePred p] (l acc : List α) :
    l.foldl (fun acc x => if p x then pushNew acc x else acc) acc = (l.filter fun x => p x).foldl pushNew acc := by
  induction l generalizing acc with
  | nil => rfl
  | cons a l ih =>
    by_cases ha : p a <;> simp [ha, ih]

end Collect

end Daisy.Library
