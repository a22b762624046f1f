import Mathlib.Data.List.AList
import Daisy.Coordination.SnapshotableHashTable

/-!
# `SnapshotableHashTable` with its index

`Coordination/SnapshotableHashTable.h` keeps two structures: the list of
elements `(key, value, active_in_map)` and `map`, an `unordered_map` from a
key to the iterator of a list element. Every operation finds the key in the
map and works on the element the iterator names: outside snapshot mode in
place, in snapshot mode by marking it inactive and appending the new version.

## The model

An iterator of the list is a number that names one element for as long as it
is in the list; a new element gets `nextIterator`, which grows, so that an
iterator is never reused. The list holds each element with its iterator, and
`map` is an `AList` from key to iterator. Dereferencing an iterator the list
does not hold, or the `end()` that `updateValue` and `getValue` get for a key
the map does not hold (their `assert` is gone in a release build), is
undefined: the model returns `none`.

The list model of `SnapshotableHashTable` (the list without iterators, and the
mode) is what this one refines: `toTable` forgets the iterators and the map.

## What is proved

* `IndexOk`: the iterators are distinct and below `nextIterator`, the map
  points every key to an active element with that key, and every active
  element is the one the map points its key to. Every operation keeps it.
* `toTable_step`, `toTable_run`: under `IndexOk` each operation does to the
  list what the list model's operation does, so the map view (`view`, the
  value of the element the map points to) is the list model's `find?`, and it
  changes as a plain map does (`view_run`).
* `size_eq_countP`: `size()`, the size of the map, is the number of active
  elements, and `oneActive`: no two active elements have one key.
* `Keeps.run`: while snapshot mode stays on, an element that stays in the
  list keeps its key and value; without `clearOutdatedNodes` and `clear` the
  list as it stood is a prefix of the list after (`prefix_run`), which is what
  a snapshot reads: `snapshotSize()` elements from `begin()`.

`clearOutdatedNodes` is called by `clearGarbageAfterSnapshot` once the
snapshot is written and while it still exists, so in snapshot mode: it drops
the inactive elements, the snapshot's among them, and keeps the view
(`view_clearOutdatedNodes`).
-/

namespace Daisy.Coordination.Indexed

open Daisy.Coordination.SnapshotableHashTable (Op IsHeld mapRun)

/-- `SnapshotableHashTable<V>`: the list, each element with its iterator, the
index from key to iterator, the mode, and the iterator the next element gets. -/
structure SnapshotableHashTable (V : Type) where
  list : List (Nat × ListNode V)
  map : AList fun _ : List Char => Nat
  snapshotMode : Bool
  nextIterator : Nat

namespace SnapshotableHashTable

variable {V : Type}

/-- The table of the default constructor. -/
def empty : SnapshotableHashTable V := ⟨[], ∅, false, 0⟩

/-- `*it`: the element the iterator names. -/
def deref (it : Nat) (l : List (Nat × ListNode V)) : Option (ListNode V) :=
  (l.find? fun p => p.1 = it).map (·.2)

/-- `list_itr->active_in_map = false`. -/
def deactivateAt (it : Nat) (l : List (Nat × ListNode V)) : List (Nat × ListNode V) :=
  l.map fun p => if p.1 = it then (p.1, { p.2 with activeInMap := false }) else p

/-- `list_itr->value = value`. -/
def setValueAt (it : Nat) (value : V) (l : List (Nat × ListNode V)) : List (Nat × ListNode V) :=
  l.map fun p => if p.1 = it then (p.1, { p.2 with value := value }) else p

/-- `list.insert(list.end(), elem)` and `map.emplace(itr->key, itr)`. -/
def pushBack (t : SnapshotableHashTable V) (elem : ListNode V) : SnapshotableHashTable V :=
  { t with
    list := t.list ++ [(t.nextIterator, elem)]
    map := t.map.insert elem.key t.nextIterator
    nextIterator := t.nextIterator + 1 }

/-- `insert(key, value)`. -/
def insert (t : SnapshotableHashTable V) (key : List Char) (value : V) : SnapshotableHashTable V × Bool :=
  match t.map.lookup key with
  | none => (t.pushBack ⟨key, value, true⟩, true)
  | some _ => (t, false)

/-- `insertOrReplace(key, value)`. -/
def insertOrReplace (t : SnapshotableHashTable V) (key : List Char) (value : V) : SnapshotableHashTable V :=
  match t.map.lookup key with
  | none => t.pushBack ⟨key, value, true⟩
  | some it =>
    if t.snapshotMode then
      { t with list := deactivateAt it t.list, map := t.map.erase key }.pushBack ⟨key, value, true⟩
    else { t with list := setValueAt it value t.list }

/-- `erase(key)`. -/
def erase (t : SnapshotableHashTable V) (key : List Char) : SnapshotableHashTable V × Bool :=
  match t.map.lookup key with
  | none => (t, false)
  | some it =>
    if t.snapshotMode then ({ t with list := deactivateAt it t.list, map := t.map.erase key }, true)
    else ({ t with list := t.list.filter (·.1 != it), map := t.map.erase key }, true)

/-- `contains(key)`. -/
def contains (t : SnapshotableHashTable V) (key : List Char) : Bool := (t.map.lookup key).isSome

/-- `updateValue(key, updater)`: in snapshot mode a copy of the element,
taken before it is marked inactive, is updated and appended. -/
def updateValue (t : SnapshotableHashTable V) (key : List Char) (updater : V → V) :
    Option (SnapshotableHashTable V) := do
  let it ← t.map.lookup key
  let elemCopy ← deref it t.list
  if t.snapshotMode then
    pure ({ t with list := deactivateAt it t.list, map := t.map.erase key }.pushBack
      { elemCopy with value := updater elemCopy.value })
  else pure { t with list := setValueAt it (updater elemCopy.value) t.list }

/-- `find(key)`: the element the map points the key to. -/
def find (t : SnapshotableHashTable V) (key : List Char) : Option (ListNode V) := do
  let it ← t.map.lookup key
  deref it t.list

/-- `getValue(key)`. -/
def getValue (t : SnapshotableHashTable V) (key : List Char) : Option V := (t.find key).map (·.value)

/-- `clearOutdatedNodes()`. -/
def clearOutdatedNodes (t : SnapshotableHashTable V) : SnapshotableHashTable V :=
  { t with list := t.list.filter (·.2.activeInMap) }

/-- `clear()`. -/
def clear (t : SnapshotableHashTable V) : SnapshotableHashTable V := { t with list := [], map := ∅ }

def enableSnapshotMode (t : SnapshotableHashTable V) : SnapshotableHashTable V := { t with snapshotMode := true }

def disableSnapshotMode (t : SnapshotableHashTable V) : SnapshotableHashTable V := { t with snapshotMode := false }

/-- `size()`: the size of the map. -/
def size (t : SnapshotableHashTable V) : Nat := t.map.entries.length

/-- `snapshotSize()`: the length of the list. -/
def snapshotSize (t : SnapshotableHashTable V) : Nat := t.list.length

/-- One operation; `none` where it is undefined. -/
def step (t : SnapshotableHashTable V) : Op V → Option (SnapshotableHashTable V)
  | .insert key value => some (t.insert key value).1
  | .insertOrReplace key value => some (t.insertOrReplace key value)
  | .erase key => some (t.erase key).1
  | .updateValue key updater => t.updateValue key updater
  | .enableSnapshotMode => some t.enableSnapshotMode
  | .disableSnapshotMode => some t.disableSnapshotMode
  | .clearOutdatedNodes => some t.clearOutdatedNodes
  | .clear => some t.clear

/-- The operations in turn. -/
def run (t : SnapshotableHashTable V) : List (Op V) → Option (SnapshotableHashTable V)
  | [] => some t
  | op :: ops => (t.step op).bind fun t => t.run ops

/-- The list model of the table: the elements without their iterators. -/
def toTable (t : SnapshotableHashTable V) : Coordination.SnapshotableHashTable V :=
  ⟨t.list.map (·.2), t.snapshotMode⟩

/-- The map the table stands for: the value of the element the map points
each key to. -/
def view (t : SnapshotableHashTable V) (key : List Char) : Option V := t.getValue key

/-! ### What one operation does -/

@[simp] theorem nextIterator_pushBack (t : SnapshotableHashTable V) (elem : ListNode V) :
    (t.pushBack elem).nextIterator = t.nextIterator + 1 := rfl

@[simp] theorem snapshotMode_pushBack (t : SnapshotableHashTable V) (elem : ListNode V) :
    (t.pushBack elem).snapshotMode = t.snapshotMode := rfl

/-- What `updateValue` does where it is defined. -/
theorem updateValue_eq_some {t t' : SnapshotableHashTable V} {key : List Char} {updater : V → V}
    (h : t.updateValue key updater = some t') :
    ∃ it e, t.map.lookup key = some it ∧ deref it t.list = some e ∧
      t' = if t.snapshotMode then
          { t with list := deactivateAt it t.list, map := t.map.erase key }.pushBack { e with value := updater e.value }
        else { t with list := setValueAt it (updater e.value) t.list } := by
  simp only [updateValue] at h
  obtain ⟨it, hit, h⟩ := Option.bind_eq_some_iff.mp h
  obtain ⟨e, he, h⟩ := Option.bind_eq_some_iff.mp h
  refine ⟨it, e, hit, he, ?_⟩
  split at h <;> cases h <;> simp [*]

/-- The index and the list agree: the iterators are distinct and below
`nextIterator`, the map points each key to an active element with that key,
and each active element is the one the map points its key to. -/
structure IndexOk (t : SnapshotableHashTable V) : Prop where
  nodup : (t.list.map (·.1)).Nodup
  lt_next : ∀ p ∈ t.list, p.1 < t.nextIterator
  points : ∀ key it, t.map.lookup key = some it → ∃ e, (it, e) ∈ t.list ∧ e.activeInMap = true ∧ e.key = key
  indexed : ∀ it e, (it, e) ∈ t.list → e.activeInMap = true → t.map.lookup e.key = some it

section IndexOk

variable {t : SnapshotableHashTable V} (ht : t.IndexOk)
include ht

/-- An iterator names one element. -/
theorem IndexOk.eq_of_mem {it : Nat} {e e' : ListNode V} (h : (it, e) ∈ t.list) (h' : (it, e') ∈ t.list) :
    e = e' := by
  have hpair := List.inj_on_of_nodup_map ht.nodup h h' rfl
  simpa using hpair

theorem IndexOk.deref_eq {it : Nat} {e : ListNode V} (h : (it, e) ∈ t.list) : deref it t.list = some e := by
  obtain ⟨p, hp, hpit⟩ : ∃ p, t.list.find? (fun p => p.1 = it) = some p ∧ p.1 = it := by
    cases hfind : t.list.find? (fun p => p.1 = it) with
    | none => exact absurd h (by simpa using List.find?_eq_none.mp hfind (it, e))
    | some p => exact ⟨p, rfl, by simpa using List.find?_some hfind⟩
  have hmem : (it, p.2) ∈ t.list := by
    rw [← hpit]
    exact List.mem_of_find?_eq_some hp
  rw [deref, hp, Option.map_some, ht.eq_of_mem hmem h]

/-- Two keys the map points to different iterators. -/
theorem IndexOk.ne_of_lookup {key key' : List Char} {it it' : Nat} (h : t.map.lookup key = some it)
    (h' : t.map.lookup key' = some it') (hne : key' ≠ key) : it' ≠ it := by
  rintro rfl
  obtain ⟨e, he, -, hkey⟩ := ht.points key it' h
  obtain ⟨e', he', -, hkey'⟩ := ht.points key' it' h'
  exact hne (by rw [← hkey, ← hkey', ht.eq_of_mem he' he])

/-- An active element other than the one the map points `key` to has another
key. -/
theorem IndexOk.key_ne {key : List Char} {it i : Nat} {e : ListNode V} (h : t.map.lookup key = some it)
    (hmem : (i, e) ∈ t.list) (hactive : e.activeInMap = true) (hi : i ≠ it) : e.key ≠ key := by
  intro hkey
  have hindexed := ht.indexed i e hmem hactive
  rw [hkey, h] at hindexed
  exact hi (Option.some.inj hindexed).symm

/-- The element held for `key` is the one the map points `key` to. -/
theorem IndexOk.isHeld_iff {key : List Char} {it i : Nat} {e : ListNode V} (h : t.map.lookup key = some it)
    (hmem : (i, e) ∈ t.list) : Coordination.SnapshotableHashTable.IsHeld key e = true ↔ i = it := by
  rw [Coordination.SnapshotableHashTable.isHeld_eq_true]
  constructor
  · rintro ⟨hactive, hkey⟩
    by_contra hi
    exact ht.key_ne h hmem hactive hi hkey
  · rintro rfl
    obtain ⟨e₀, he₀, hactive, hkey⟩ := ht.points key i h
    rw [ht.eq_of_mem hmem he₀]
    exact ⟨hactive, hkey⟩

/-- No element is held for a key the map does not hold. -/
theorem IndexOk.not_isHeld {key : List Char} (h : t.map.lookup key = none) {p : Nat × ListNode V} (hp : p ∈ t.list) :
    Coordination.SnapshotableHashTable.IsHeld key p.2 = false := by
  by_contra hheld
  obtain ⟨hactive, hkey⟩ := (Coordination.SnapshotableHashTable.isHeld_eq_true key).mp (by simpa using hheld)
  have hindexed := ht.indexed p.1 p.2 hp hactive
  rw [hkey, h] at hindexed
  cases hindexed

end IndexOk

/-- A new active element under a key the map does not hold. -/
theorem IndexOk.pushBack {t : SnapshotableHashTable V} (ht : t.IndexOk) {elem : ListNode V}
    (hkey : t.map.lookup elem.key = none) (hactive : elem.activeInMap = true) : (t.pushBack elem).IndexOk := by
  simp only [SnapshotableHashTable.pushBack]
  refine ⟨?_, fun p hp => ?_, fun key it h => ?_, fun it e hmem he => ?_⟩
  · rw [List.map_append, List.nodup_append]
    refine ⟨ht.nodup, List.nodup_singleton _, fun a ha b hb => ?_⟩
    obtain ⟨p, hp, rfl⟩ := List.mem_map.mp ha
    rw [List.map_singleton, List.mem_singleton] at hb
    have := ht.lt_next p hp
    omega
  · show p.1 < t.nextIterator + 1
    rcases List.mem_append.mp hp with hp | hp
    · have := ht.lt_next p hp
      omega
    · rw [List.mem_singleton] at hp
      simp [hp]
  · by_cases hk : key = elem.key
    · subst hk
      rw [AList.lookup_insert, Option.some.injEq] at h
      exact ⟨elem, by simp [h], hactive, rfl⟩
    · rw [AList.lookup_insert_ne hk] at h
      obtain ⟨e, he, hact, hek⟩ := ht.points key it h
      exact ⟨e, List.mem_append_left _ he, hact, hek⟩
  · rcases List.mem_append.mp hmem with hmem | hmem
    · have hindexed := ht.indexed it e hmem he
      have hne : e.key ≠ elem.key := fun hk => by rw [hk, hkey] at hindexed; cases hindexed
      rwa [AList.lookup_insert_ne hne]
    · simp only [List.mem_singleton, Prod.mk.injEq] at hmem
      obtain ⟨rfl, rfl⟩ := hmem
      exact AList.lookup_insert _

/-- The element the map points `key` to marked inactive, and `key` out of the
map. -/
theorem IndexOk.deactivateErase {t : SnapshotableHashTable V} (ht : t.IndexOk) {key : List Char} {it : Nat}
    (h : t.map.lookup key = some it) :
    ({ t with list := deactivateAt it t.list, map := t.map.erase key } : SnapshotableHashTable V).IndexOk := by
  refine ⟨?_, fun p hp => ?_, fun key' it' h' => ?_, fun i e hmem he => ?_⟩
  · simpa [deactivateAt, List.map_map, Function.comp_def, apply_ite] using ht.nodup
  · obtain ⟨q, hq, rfl⟩ := List.mem_map.mp hp
    have := ht.lt_next q hq
    split <;> simpa
  · have hk : key' ≠ key := fun hk => by subst hk; simp at h'
    rw [AList.lookup_erase_ne hk] at h'
    obtain ⟨e, he, hact, hek⟩ := ht.points key' it' h'
    have hit : it' ≠ it := ht.ne_of_lookup h h' hk
    exact ⟨e, List.mem_map.mpr ⟨(it', e), he, by simp [hit]⟩, hact, hek⟩
  · obtain ⟨⟨i', e'⟩, hq, hqe⟩ := List.mem_map.mp hmem
    by_cases hqit : i' = it
    · simp only [hqit, if_true, Prod.mk.injEq] at hqe
      rw [← hqe.2] at he
      cases he
    · simp only [hqit, if_false, Prod.mk.injEq] at hqe
      obtain ⟨rfl, rfl⟩ := hqe
      have hne := ht.key_ne h hq he hqit
      rw [AList.lookup_erase_ne hne]
      exact ht.indexed i' e' hq he

/-- The element the map points `key` to out of the list, and `key` out of the
map. -/
theorem IndexOk.filterErase {t : SnapshotableHashTable V} (ht : t.IndexOk) {key : List Char} {it : Nat}
    (h : t.map.lookup key = some it) :
    ({ t with list := t.list.filter (·.1 != it), map := t.map.erase key } : SnapshotableHashTable V).IndexOk := by
  refine ⟨(List.filter_sublist.map _).nodup ht.nodup, fun p hp => ht.lt_next p (List.mem_filter.mp hp).1,
    fun key' it' h' => ?_, fun i e hmem he => ?_⟩
  · have hk : key' ≠ key := fun hk => by subst hk; simp at h'
    rw [AList.lookup_erase_ne hk] at h'
    obtain ⟨e, he, hact, hek⟩ := ht.points key' it' h'
    exact ⟨e, List.mem_filter.mpr ⟨he, by simpa using ht.ne_of_lookup h h' hk⟩, hact, hek⟩
  · obtain ⟨hmem, hi⟩ := List.mem_filter.mp hmem
    have hne := ht.key_ne h hmem he (by simpa using hi)
    rw [AList.lookup_erase_ne hne]
    exact ht.indexed i e hmem he

/-- A change of the elements that keeps their iterators, keys and activity. -/
theorem IndexOk.mapElements {t : SnapshotableHashTable V} (ht : t.IndexOk) {g : Nat × ListNode V → Nat × ListNode V}
    (hfst : ∀ p, (g p).1 = p.1) (hkey : ∀ p, (g p).2.key = p.2.key)
    (hactive : ∀ p, (g p).2.activeInMap = p.2.activeInMap) :
    ({ t with list := t.list.map g } : SnapshotableHashTable V).IndexOk := by
  refine ⟨?_, fun p hp => ?_, fun key it h => ?_, fun i e hmem he => ?_⟩
  · simpa [List.map_map, Function.comp_def, hfst] using ht.nodup
  · obtain ⟨q, hq, rfl⟩ := List.mem_map.mp hp
    rw [hfst]
    exact ht.lt_next q hq
  · obtain ⟨e, he, hact, hek⟩ := ht.points key it h
    refine ⟨(g (it, e)).2, List.mem_map.mpr ⟨(it, e), he, ?_⟩, by rw [hactive]; exact hact, by rw [hkey]; exact hek⟩
    ext
    · exact hfst _
    · rfl
  · obtain ⟨q, hq, hqe⟩ := List.mem_map.mp hmem
    have hi : q.1 = i := by rw [← hfst q, hqe]
    have he' : e = (g q).2 := by rw [hqe]
    subst he'
    rw [hkey, ← hi]
    exact ht.indexed q.1 q.2 hq (by rwa [← hactive])

theorem IndexOk.clearOutdatedNodes {t : SnapshotableHashTable V} (ht : t.IndexOk) : t.clearOutdatedNodes.IndexOk := by
  refine ⟨(List.filter_sublist.map _).nodup ht.nodup, fun p hp => ht.lt_next p (List.mem_filter.mp hp).1,
    fun key it h => ?_, fun i e hmem he => ht.indexed i e (List.mem_filter.mp hmem).1 he⟩
  obtain ⟨e, he, hact, hek⟩ := ht.points key it h
  exact ⟨e, List.mem_filter.mpr ⟨he, hact⟩, hact, hek⟩

/-- The element the map points `key` to: active, with that key. -/
theorem IndexOk.deref_lookup {t : SnapshotableHashTable V} (ht : t.IndexOk) {key : List Char} {it : Nat}
    (h : t.map.lookup key = some it) :
    ∃ e, deref it t.list = some e ∧ (it, e) ∈ t.list ∧ e.activeInMap = true ∧ e.key = key := by
  obtain ⟨e, he, hact, hkey⟩ := ht.points key it h
  exact ⟨e, ht.deref_eq he, he, hact, hkey⟩

/-- **Every operation keeps the index right.** -/
theorem IndexOk.step {t t' : SnapshotableHashTable V} (ht : t.IndexOk) {op : Op V} (h : t.step op = some t') :
    t'.IndexOk := by
  cases op with
  | insert key value =>
    cases h
    unfold SnapshotableHashTable.insert
    split
    · exact ht.pushBack ‹_› rfl
    · exact ht
  | insertOrReplace key value =>
    cases h
    unfold SnapshotableHashTable.insertOrReplace
    split
    · exact ht.pushBack ‹_› rfl
    · rename_i it hit
      split
      · exact (ht.deactivateErase hit).pushBack (AList.lookup_erase _ _) rfl
      · exact ht.mapElements (fun p => by split <;> rfl) (fun p => by split <;> rfl) (fun p => by split <;> rfl)
  | erase key =>
    cases h
    unfold SnapshotableHashTable.erase
    split
    · exact ht
    · rename_i it hit
      split
      · exact ht.deactivateErase hit
      · exact ht.filterErase hit
  | updateValue key updater =>
    obtain ⟨it, e, hit, he, rfl⟩ := updateValue_eq_some h
    obtain ⟨e₀, he₀, -, hact, hkey⟩ := ht.deref_lookup hit
    rw [he₀, Option.some.injEq] at he
    subst he
    split
    · exact (ht.deactivateErase hit).pushBack (by rw [hkey]; exact AList.lookup_erase _ _) hact
    · exact ht.mapElements (fun p => by split <;> rfl) (fun p => by split <;> rfl) (fun p => by split <;> rfl)
  | enableSnapshotMode => cases h; exact ⟨ht.nodup, ht.lt_next, ht.points, ht.indexed⟩
  | disableSnapshotMode => cases h; exact ⟨ht.nodup, ht.lt_next, ht.points, ht.indexed⟩
  | clearOutdatedNodes => cases h; exact ht.clearOutdatedNodes
  | clear => cases h; exact ⟨List.nodup_nil, fun _ h => absurd h List.not_mem_nil,
      fun _ _ h => by simp [SnapshotableHashTable.clear] at h,
      fun _ _ h => absurd h List.not_mem_nil⟩

theorem indexOk_empty : (empty : SnapshotableHashTable V).IndexOk :=
  ⟨List.nodup_nil, fun _ h => absurd h List.not_mem_nil, fun _ _ h => by simp [empty] at h,
    fun _ _ h => absurd h List.not_mem_nil⟩

theorem IndexOk.run {t t' : SnapshotableHashTable V} (ht : t.IndexOk) {ops : List (Op V)} (h : t.run ops = some t') :
    t'.IndexOk := by
  induction ops generalizing t with
  | nil => cases h; exact ht
  | cons op ops ih =>
    obtain ⟨t₁, h₁, h⟩ := Option.bind_eq_some_iff.mp h
    exact ih (ht.step h₁) h

/-! ### The list model -/

theorem find?_congr_of_mem {α : Type} {p q : α → Bool} : ∀ {l : List α}, (∀ x ∈ l, p x = q x) → l.find? p = l.find? q
  | [], _ => rfl
  | a :: l, h => by
    rw [List.find?_cons, List.find?_cons, h a List.mem_cons_self,
      find?_congr_of_mem fun x hx => h x (List.mem_cons_of_mem _ hx)]

section Refinement

variable {t : SnapshotableHashTable V} (ht : t.IndexOk)
include ht

theorem IndexOk.contains_toTable (key : List Char) : (toTable t).contains key = (t.map.lookup key).isSome := by
  rw [Coordination.SnapshotableHashTable.contains_eq_isSome]
  cases h : t.map.lookup key with
  | none =>
    simp only [Coordination.SnapshotableHashTable.find?, toTable, List.find?_map, Option.isSome_map,
      Option.isSome_none]
    rw [List.find?_eq_none.mpr fun p hp => by simpa using ht.not_isHeld h hp]
    rfl
  | some it =>
    obtain ⟨e, -, he, hact, hkey⟩ := ht.deref_lookup h
    simp only [Coordination.SnapshotableHashTable.find?, toTable, List.find?_map, Option.isSome_map,
      Option.isSome_some, List.find?_isSome]
    exact ⟨(it, e), he, by simpa using (ht.isHeld_iff h he).mpr rfl⟩

/-- What the list model finds for a key is the value of the element the map
points the key to. -/
theorem IndexOk.find?_toTable (key : List Char) : (toTable t).find? key = t.view key := by
  simp only [Coordination.SnapshotableHashTable.find?, toTable, List.find?_map, Option.map_map, view, getValue,
    find]
  cases h : t.map.lookup key with
  | none =>
    rw [List.find?_eq_none.mpr fun p hp => by simpa using ht.not_isHeld h hp]
    rfl
  | some it =>
    -- the element held for `key` is the one with the iterator
    have hsame : t.list.find? (IsHeld key ∘ fun p => p.2) = t.list.find? (fun p => p.1 = it) :=
      find?_congr_of_mem fun p hp => Bool.eq_iff_iff.mpr (by simpa using ht.isHeld_iff h hp)
    show _ = Option.map (·.value) (deref it t.list)
    rw [hsame, deref, Option.map_map]

theorem IndexOk.deactivateAt_toTable {key : List Char} {it : Nat} (h : t.map.lookup key = some it) :
    (deactivateAt it t.list).map (·.2) = Coordination.SnapshotableHashTable.deactivate key (t.list.map (·.2)) := by
  rw [deactivateAt, List.map_map, Coordination.SnapshotableHashTable.deactivate, List.map_map]
  apply List.map_congr_left
  rintro ⟨i, e⟩ hp
  by_cases hi : i = it
  · simp [hi, (ht.isHeld_iff h hp).mpr hi]
  · have hheld : IsHeld key e = false := by simpa using mt (ht.isHeld_iff h hp).mp hi
    simp [hi, hheld]

theorem IndexOk.setValueAt_toTable {key : List Char} {it : Nat} (h : t.map.lookup key = some it) (g : V → V)
    {value : V} (hvalue : ∀ e, (it, e) ∈ t.list → value = g e.value) :
    (setValueAt it value t.list).map (·.2) = Coordination.SnapshotableHashTable.modify key g (t.list.map (·.2)) := by
  rw [setValueAt, List.map_map, Coordination.SnapshotableHashTable.modify, List.map_map]
  apply List.map_congr_left
  rintro ⟨i, e⟩ hp
  by_cases hi : i = it
  · subst hi
    simp [(ht.isHeld_iff h hp).mpr rfl, hvalue e hp]
  · have hheld : IsHeld key e = false := by simpa using mt (ht.isHeld_iff h hp).mp hi
    simp [hi, hheld]

theorem IndexOk.filter_toTable {key : List Char} {it : Nat} (h : t.map.lookup key = some it) :
    (t.list.filter (·.1 != it)).map (·.2) = (t.list.map (·.2)).filter fun e => !IsHeld key e := by
  rw [List.filter_map]
  congr 1
  apply List.filter_congr
  rintro ⟨i, e⟩ hp
  by_cases hi : i = it
  · simp [hi, (ht.isHeld_iff h hp).mpr hi]
  · have hheld : IsHeld key e = false := by simpa using mt (ht.isHeld_iff h hp).mp hi
    simp [hi, hheld]

/-- **Each operation does to the list what the list model's does.** -/
theorem IndexOk.toTable_step (op : Op V) : (t.step op).map toTable = (toTable t).step op := by
  cases op with
  | insert key value =>
    simp only [SnapshotableHashTable.step, Coordination.SnapshotableHashTable.step, Option.map_some, Option.some.injEq]
    unfold SnapshotableHashTable.insert Coordination.SnapshotableHashTable.insert
    rw [ht.contains_toTable]
    cases t.map.lookup key <;> simp [toTable, SnapshotableHashTable.pushBack]
  | insertOrReplace key value =>
    simp only [SnapshotableHashTable.step, Coordination.SnapshotableHashTable.step, Option.map_some, Option.some.injEq]
    unfold SnapshotableHashTable.insertOrReplace Coordination.SnapshotableHashTable.insertOrReplace
    rw [ht.contains_toTable]
    cases h : t.map.lookup key with
    | none => simp [toTable, SnapshotableHashTable.pushBack]
    | some it =>
      cases hmode : t.snapshotMode
      · simp [toTable, hmode, ht.setValueAt_toTable h (fun _ => value) (fun _ _ => rfl)]
      · simp [toTable, hmode, SnapshotableHashTable.pushBack, ht.deactivateAt_toTable h]
  | erase key =>
    simp only [SnapshotableHashTable.step, Coordination.SnapshotableHashTable.step, Option.map_some, Option.some.injEq]
    unfold SnapshotableHashTable.erase Coordination.SnapshotableHashTable.erase
    rw [ht.contains_toTable]
    cases h : t.map.lookup key with
    | none => rfl
    | some it =>
      cases hmode : t.snapshotMode
      · simp [toTable, hmode, ht.filter_toTable h]
      · simp [toTable, hmode, ht.deactivateAt_toTable h]
  | updateValue key updater =>
    simp only [SnapshotableHashTable.step, Coordination.SnapshotableHashTable.step]
    unfold SnapshotableHashTable.updateValue Coordination.SnapshotableHashTable.updateValue
    rw [ht.find?_toTable]
    simp only [view, getValue, find]
    cases h : t.map.lookup key with
    | none => rfl
    | some it =>
      obtain ⟨e, he, hmem, hact, hkey⟩ := ht.deref_lookup h
      simp only [Option.bind_eq_bind, Option.bind_some, he, Option.map_some]
      cases hmode : t.snapshotMode
      · have hset : (setValueAt it (updater e.value) t.list).map (·.2) =
            Coordination.SnapshotableHashTable.modify key updater (t.list.map (·.2)) :=
          ht.setValueAt_toTable h updater fun e' he' => by rw [ht.eq_of_mem hmem he']
        simp [toTable, hmode, hset]
      · obtain ⟨k, v, a⟩ := e
        simp only at hkey hact
        subst hkey hact
        simp [toTable, hmode, SnapshotableHashTable.pushBack, ht.deactivateAt_toTable h]
  | enableSnapshotMode => rfl
  | disableSnapshotMode => rfl
  | clearOutdatedNodes =>
    simp [SnapshotableHashTable.step, Coordination.SnapshotableHashTable.step, toTable, SnapshotableHashTable.clearOutdatedNodes,
      Coordination.SnapshotableHashTable.clearOutdatedNodes, List.filter_map, Function.comp_def]
  | clear => rfl

theorem IndexOk.view_eq : t.view = (toTable t).find? := funext fun key => (ht.find?_toTable key).symm

/-- **The table with its index refines the list model** over whole runs:
the same operations are undefined, and the lists are the same. -/
theorem IndexOk.toTable_run (ops : List (Op V)) : (t.run ops).map toTable = (toTable t).run ops := by
  induction ops generalizing t with
  | nil => rfl
  | cons op ops ih =>
    have hstep := ht.toTable_step op
    simp only [SnapshotableHashTable.run, Coordination.SnapshotableHashTable.run]
    cases hs : t.step op with
    | none =>
      rw [hs] at hstep
      rw [← hstep]
      rfl
    | some t' =>
      rw [hs, Option.map_some] at hstep
      rw [← hstep, Option.bind_some, Option.bind_some, ih (ht.step hs)]

/-- The map view changes as a plain map does. -/
theorem IndexOk.view_run (ops : List (Op V)) : (t.run ops).map view = mapRun t.view ops := by
  rw [ht.view_eq, ← Coordination.SnapshotableHashTable.run_find?, ← ht.toTable_run, Option.map_map]
  cases h : t.run ops with
  | none => rfl
  | some t' => exact congrArg some (ht.run h).view_eq

end Refinement

/-! ### The size -/

section Size

variable {t : SnapshotableHashTable V} (ht : t.IndexOk)
include ht

/-- The keys of the active elements, in list order. -/
theorem IndexOk.activeKeys_nodup : ((t.list.filter (·.2.activeInMap)).map (·.2.key)).Nodup := by
  refine List.Nodup.map_on ?_ ((List.Nodup.of_map _ ht.nodup).filter _)
  rintro ⟨i, e⟩ hi ⟨j, e'⟩ hj hkey
  simp only [List.mem_filter] at hi hj
  have hij : i = j := by
    have hl := ht.indexed i e hi.1 hi.2
    rw [show e.key = e'.key from hkey, ht.indexed j e' hj.1 hj.2, Option.some.injEq] at hl
    exact hl.symm
  subst hij
  rw [ht.eq_of_mem hi.1 hj.1]

/-- The list model of the table holds one active element per key. -/
theorem IndexOk.oneActive : (toTable t).OneActive := by
  unfold Coordination.SnapshotableHashTable.OneActive Coordination.SnapshotableHashTable.activeKeys
  simpa [toTable, List.filter_map, Function.comp_def] using ht.activeKeys_nodup

/-- **`size()` counts the active elements**: the map holds exactly their keys. -/
theorem IndexOk.size_eq_countP : t.size = t.list.countP (·.2.activeInMap) := by
  have hperm : t.map.keys.Perm ((t.list.filter (·.2.activeInMap)).map (·.2.key)) := by
    refine (List.perm_ext_iff_of_nodup t.map.keys_nodup ht.activeKeys_nodup).mpr fun key => ?_
    rw [← AList.mem_keys, ← AList.lookup_isSome, Option.isSome_iff_exists]
    constructor
    · rintro ⟨it, h⟩
      obtain ⟨e, he, hact, hkey⟩ := ht.points key it h
      exact List.mem_map.mpr ⟨(it, e), List.mem_filter.mpr ⟨he, hact⟩, hkey⟩
    · intro h
      obtain ⟨⟨it, e⟩, he, rfl⟩ := List.mem_map.mp h
      rw [List.mem_filter] at he
      exact ⟨it, ht.indexed it e he.1 he.2⟩
  calc t.size = t.map.keys.length := (List.length_map _).symm
    _ = ((t.list.filter (·.2.activeInMap)).map (·.2.key)).length := hperm.length_eq
    _ = t.list.countP (·.2.activeInMap) := by rw [List.length_map, List.countP_eq_length_filter]

end Size

/-! ### Snapshot mode -/

/-- The elements as a snapshot reads them, key and value, each with its iterator. -/
def frozen (l : List (Nat × ListNode V)) : List (Nat × List Char × V) := l.map fun p => (p.1, p.2.key, p.2.value)

/-- Every element of `t'` that `t` already had (its iterator is below
`t.nextIterator`) is in `t` with the same key and value. -/
def Keeps (t t' : SnapshotableHashTable V) : Prop :=
  ∀ x ∈ frozen t'.list, x.1 < t.nextIterator → x ∈ frozen t.list

/-- The operations that in snapshot mode only mark elements inactive and append. -/
def appendsOnly : Op V → Bool
  | .disableSnapshotMode | .clearOutdatedNodes | .clear => false
  | _ => true

@[simp] theorem frozen_deactivateAt (it : Nat) (l : List (Nat × ListNode V)) :
    frozen (deactivateAt it l) = frozen l := by
  rw [frozen, frozen, deactivateAt, List.map_map]
  apply List.map_congr_left
  intro p _
  simp only [Function.comp_apply]
  split <;> rfl

@[simp] theorem frozen_pushBack (t : SnapshotableHashTable V) (elem : ListNode V) :
    frozen (t.pushBack elem).list = frozen t.list ++ [(t.nextIterator, elem.key, elem.value)] := by
  simp [pushBack, frozen]

theorem nextIterator_le_step {t t' : SnapshotableHashTable V} {op : Op V} (h : t.step op = some t') :
    t.nextIterator ≤ t'.nextIterator := by
  cases op with
  | insert key value =>
    cases h
    unfold SnapshotableHashTable.insert
    split <;> simp
  | insertOrReplace key value =>
    cases h
    unfold SnapshotableHashTable.insertOrReplace
    split
    · simp
    · split <;> simp
  | erase key =>
    cases h
    unfold SnapshotableHashTable.erase
    split
    · exact le_rfl
    · split <;> exact le_rfl
  | updateValue key updater =>
    obtain ⟨it, e, -, -, rfl⟩ := updateValue_eq_some h
    split <;> simp
  | enableSnapshotMode | disableSnapshotMode | clearOutdatedNodes | clear => cases h; exact le_rfl

theorem snapshotMode_step {t t' : SnapshotableHashTable V} (hmode : t.snapshotMode = true) {op : Op V}
    (hop : op ≠ .disableSnapshotMode) (h : t.step op = some t') : t'.snapshotMode = true := by
  cases op with
  | insert key value =>
    cases h
    unfold SnapshotableHashTable.insert
    split <;> simpa using hmode
  | insertOrReplace key value =>
    cases h
    unfold SnapshotableHashTable.insertOrReplace
    split
    · simpa using hmode
    · split <;> simpa using hmode
  | erase key =>
    cases h
    unfold SnapshotableHashTable.erase
    split
    · exact hmode
    · split <;> exact hmode
  | updateValue key updater =>
    obtain ⟨it, e, -, -, rfl⟩ := updateValue_eq_some h
    split <;> simpa using hmode
  | enableSnapshotMode => cases h; rfl
  | disableSnapshotMode => exact absurd rfl hop
  | clearOutdatedNodes | clear => cases h; exact hmode

/-- **In snapshot mode an operation that removes nothing only appends**:
what it marks inactive keeps its key and value, and what it adds has a new
iterator. -/
theorem frozen_step {t t' : SnapshotableHashTable V} (hmode : t.snapshotMode = true) {op : Op V}
    (hop : appendsOnly op = true) (h : t.step op = some t') :
    ∃ new, frozen t'.list = frozen t.list ++ new ∧ ∀ x ∈ new, t.nextIterator ≤ x.1 := by
  cases op with
  | insert key value =>
    cases h
    unfold SnapshotableHashTable.insert
    split
    · exact ⟨_, frozen_pushBack _ _, by simp⟩
    · exact ⟨[], by simp, by simp⟩
  | insertOrReplace key value =>
    cases h
    unfold SnapshotableHashTable.insertOrReplace
    split
    · exact ⟨_, frozen_pushBack _ _, by simp⟩
    · rw [if_pos hmode]
      exact ⟨[(t.nextIterator, key, value)], by simp, by simp⟩
  | erase key =>
    cases h
    unfold SnapshotableHashTable.erase
    split
    · exact ⟨[], by simp, by simp⟩
    · rw [if_pos hmode]
      exact ⟨[], by simp, by simp⟩
  | updateValue key updater =>
    obtain ⟨it, e, -, -, rfl⟩ := updateValue_eq_some h
    rw [if_pos hmode]
    exact ⟨[(t.nextIterator, e.key, updater e.value)], by simp, by simp⟩
  | enableSnapshotMode => cases h; exact ⟨[], (List.append_nil _).symm, by simp⟩
  | disableSnapshotMode | clearOutdatedNodes | clear => cases hop

theorem Keeps.refl (t : SnapshotableHashTable V) : Keeps t t := fun _ hx _ => hx

theorem Keeps.trans {t₁ t₂ t₃ : SnapshotableHashTable V} (h₁ : Keeps t₁ t₂) (h₂ : Keeps t₂ t₃)
    (hle : t₁.nextIterator ≤ t₂.nextIterator) : Keeps t₁ t₃ :=
  fun x hx hlt => h₁ x (h₂ x hx (lt_of_lt_of_le hlt hle)) hlt

theorem Keeps.step {t t' : SnapshotableHashTable V} (hmode : t.snapshotMode = true) {op : Op V}
    (hop : op ≠ .disableSnapshotMode) (h : t.step op = some t') : Keeps t t' := by
  cases happ : appendsOnly op
  · -- what removes elements: `clearOutdatedNodes` keeps a part of the list, `clear` none of it
    cases op with
    | clearOutdatedNodes =>
      cases h
      exact fun x hx _ => List.map_subset _ List.filter_sublist.subset hx
    | clear =>
      cases h
      intro x hx
      simp [frozen, SnapshotableHashTable.clear] at hx
    | disableSnapshotMode => exact absurd rfl hop
    | insert | insertOrReplace | erase | updateValue | enableSnapshotMode => cases happ
  · obtain ⟨new, hfrozen, hnew⟩ := frozen_step hmode happ h
    intro x hx hlt
    rw [hfrozen, List.mem_append] at hx
    exact hx.resolve_right fun hx' => absurd (hnew x hx') (not_le.mpr hlt)

/-- **While snapshot mode stays on, an element keeps its key and value** for
as long as it is in the list. -/
theorem Keeps.run {t t' : SnapshotableHashTable V} (hmode : t.snapshotMode = true) {ops : List (Op V)}
    (hops : .disableSnapshotMode ∉ ops) (h : t.run ops = some t') : Keeps t t' := by
  induction ops generalizing t with
  | nil => cases h; exact Keeps.refl _
  | cons op ops ih =>
    obtain ⟨t₁, h₁, h⟩ := Option.bind_eq_some_iff.mp h
    have hop : op ≠ .disableSnapshotMode := fun hop => hops (hop ▸ List.mem_cons_self)
    have hrest : .disableSnapshotMode ∉ ops := fun hm => hops (List.mem_cons_of_mem _ hm)
    exact (Keeps.step hmode hop h₁).trans (ih (snapshotMode_step hmode hop h₁) hrest h) (nextIterator_le_step h₁)

/-- **The snapshot's part of the list is frozen**: without `clearOutdatedNodes`
and `clear`, the list as it stood stays a prefix of the list, key for key and
value for value. -/
theorem prefix_run {t t' : SnapshotableHashTable V} (hmode : t.snapshotMode = true) {ops : List (Op V)}
    (hops : ∀ op ∈ ops, appendsOnly op = true) (h : t.run ops = some t') : frozen t.list <+: frozen t'.list := by
  induction ops generalizing t with
  | nil => cases h; exact List.prefix_refl _
  | cons op ops ih =>
    obtain ⟨t₁, h₁, h⟩ := Option.bind_eq_some_iff.mp h
    have happ := hops op List.mem_cons_self
    have hop : op ≠ .disableSnapshotMode := by rintro rfl; cases happ
    obtain ⟨new, hfrozen, -⟩ := frozen_step hmode happ h₁
    have hrest := ih (snapshotMode_step hmode hop h₁) (fun op' hm => hops op' (List.mem_cons_of_mem _ hm)) h
    exact (hfrozen ▸ List.prefix_append _ _).trans hrest

/-- Under `IndexOk`, an element of `t` that `t'` still holds has the same key and value there. -/
theorem IndexOk.key_value_of_keeps {t t' : SnapshotableHashTable V} (ht : t.IndexOk) (hk : Keeps t t') {it : Nat}
    {e e' : ListNode V} (he : (it, e) ∈ t.list) (he' : (it, e') ∈ t'.list) : e.key = e'.key ∧ e.value = e'.value := by
  have hx : (it, e'.key, e'.value) ∈ frozen t.list := hk _ (List.mem_map_of_mem he') (ht.lt_next _ he)
  obtain ⟨⟨i, e₀⟩, he₀, heq⟩ := List.mem_map.mp hx
  simp only [Prod.mk.injEq] at heq
  obtain ⟨rfl, hkey, hvalue⟩ := heq
  rw [← ht.eq_of_mem he₀ he]
  exact ⟨hkey, hvalue⟩

theorem IndexOk.view_clearOutdatedNodes {t : SnapshotableHashTable V} (ht : t.IndexOk) :
    t.clearOutdatedNodes.view = t.view :=
  Option.some.inj (ht.view_run [.clearOutdatedNodes])

/-- From a table whose index agrees with its list, any run of operations
changes the map view as a plain map; the table it reaches has its index
right, one active element per key and `size()` the number of active ones,
and `clearOutdatedNodes` there drops the inactive elements and keeps the
view. From a table in snapshot mode, a run without `disableSnapshotMode`
keeps the key and value of every element that stays, and one that removes
nothing keeps the list as a prefix. -/
theorem run_is_map_with_frozen_snapshot {t : SnapshotableHashTable V} (ht : t.IndexOk) (ops : List (Op V)) :
    (t.run ops).map view = mapRun t.view ops ∧
      ∀ t', t.run ops = some t' →
        t'.IndexOk ∧ (toTable t').OneActive ∧ t'.size = t'.list.countP (·.2.activeInMap) ∧
        (t'.clearOutdatedNodes.list = t'.list.filter (·.2.activeInMap) ∧ t'.clearOutdatedNodes.view = t'.view) ∧
        ∀ ops' t'', t'.snapshotMode = true → .disableSnapshotMode ∉ ops' → t'.run ops' = some t'' →
          (∀ it e e', (it, e) ∈ t'.list → (it, e') ∈ t''.list → e.key = e'.key ∧ e.value = e'.value) ∧
          ((∀ op ∈ ops', appendsOnly op = true) → frozen t'.list <+: frozen t''.list) := by
  refine ⟨ht.view_run ops, fun t' h => ?_⟩
  have ht' := ht.run h
  refine ⟨ht', ht'.oneActive, ht'.size_eq_countP, ⟨rfl, ht'.view_clearOutdatedNodes⟩, ?_⟩
  intro ops' t'' hmode hops h'
  exact ⟨fun it e e' he he' => ht'.key_value_of_keeps (Keeps.run hmode hops h') he he',
    fun happ => prefix_run hmode happ h'⟩

/-- The gtest `SnapshotableHashMapTrySnapshot`: after `/hello` is inserted and
snapshot mode is on, its update to 554 leaves the first element at 7. -/
theorem run_is_map_with_frozen_snapshot_trySnapshot :
    (empty : SnapshotableHashTable Int).IndexOk ∧
      ∀ t'', ((empty : SnapshotableHashTable Int).run
          [.insert "/hello".toList 7, .insert "/hello".toList 145, .enableSnapshotMode]).bind
          (·.run [.insert "/hello".toList 145, .updateValue "/hello".toList fun _ => 554]) = some t'' →
        ∀ e', (0, e') ∈ t''.list → e'.key = "/hello".toList ∧ e'.value = 7 := by
  refine ⟨indexOk_empty, fun t'' h e' he' => ?_⟩
  have hempty : (empty : SnapshotableHashTable Int).IndexOk := indexOk_empty
  obtain ⟨-, -, -, -, hsnap⟩ := (run_is_map_with_frozen_snapshot hempty
    [.insert "/hello".toList 7, .insert "/hello".toList 145, .enableSnapshotMode]).2 _ rfl
  obtain ⟨hkey, hvalue⟩ := (hsnap _ t'' rfl (by simp) h).1 0 ⟨"/hello".toList, 7, true⟩ e' (by decide) he'
  exact ⟨hkey.symm, hvalue.symm⟩

end SnapshotableHashTable

end Daisy.Coordination.Indexed
