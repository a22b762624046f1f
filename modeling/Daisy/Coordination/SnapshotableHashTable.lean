import Mathlib.Data.List.Basic

/-!
# `SnapshotableHashTable`: a map that keeps old versions while a snapshot is read

Keeper's tree (`Coordination/SnapshotableHashTable.h`) is a hash map from
keys to iterators into a list of elements `(key, value, active_in_map)`.
Outside snapshot mode it is an ordinary map over the list. In snapshot mode
nothing in the list is changed or removed: an update marks the element the
map holds inactive and appends the new version, so that a snapshot can walk
a prefix of the list as it stood when it was taken.

## The model

The table is the list and the mode. The map is not kept apart: it holds,
for each key, the one active element with that key, so a lookup finds the
active element (`find?`). `updateValue` on a key the map does not hold
dereferences `end()`, which is undefined: the model returns `none`.

## What is proved

* `find?_insert`, `find?_erase`, `find?_updateValue` and the others: the
  map the table stands for changes as a map does, in both modes;
* `OneActive`: at most one active element per key, which every operation
  keeps;
* `step_find?`, `run_find?`: every run changes the values `find` gives as it
  changes a plain map (`mapStep`), and is undefined where that is.
-/

namespace Daisy.Coordination

/-- `ListNode`: a key, its value, and whether the map holds this element. -/
structure ListNode (V : Type) where
  key : List Char
  value : V
  activeInMap : Bool
  deriving DecidableEq, Repr

/-- `SnapshotableHashTable<V>`: its list, and whether it is in snapshot mode. -/
structure SnapshotableHashTable (V : Type) where
  list : List (ListNode V)
  snapshotMode : Bool
  deriving DecidableEq, Repr

namespace SnapshotableHashTable

variable {V : Type}

/-- The element the map holds for `key`. -/
def IsHeld (key : List Char) (e : ListNode V) : Bool := e.activeInMap && e.key == key

/-- An empty table, not in snapshot mode. -/
def empty : SnapshotableHashTable V := ⟨[], false⟩

/-- `find(key)`: the value the map holds for `key`. -/
def find? (t : SnapshotableHashTable V) (key : List Char) : Option V :=
  (t.list.find? (IsHeld key)).map (·.value)

/-- `contains(key)`. -/
def contains (t : SnapshotableHashTable V) (key : List Char) : Bool := t.list.any (IsHeld key)

/-- The element the map holds for `key`, marked inactive. -/
def deactivate (key : List Char) (l : List (ListNode V)) : List (ListNode V) :=
  l.map fun e => if IsHeld key e then { e with activeInMap := false } else e

/-- The element the map holds for `key`, its value changed by `f`. -/
def modify (key : List Char) (f : V → V) (l : List (ListNode V)) : List (ListNode V) :=
  l.map fun e => if IsHeld key e then { e with value := f e.value } else e

/-- `insert(key, value)`: a new key goes at the end of the list; a key the
map holds is left as it is, and `false` says so. -/
def insert (t : SnapshotableHashTable V) (key : List Char) (value : V) : SnapshotableHashTable V × Bool :=
  if t.contains key then (t, false) else ({ t with list := t.list ++ [⟨key, value, true⟩] }, true)

/-- `insertOrReplace(key, value)`. -/
def insertOrReplace (t : SnapshotableHashTable V) (key : List Char) (value : V) : SnapshotableHashTable V :=
  if t.contains key then
    if t.snapshotMode then { t with list := deactivate key t.list ++ [⟨key, value, true⟩] }
    else { t with list := modify key (fun _ => value) t.list }
  else { t with list := t.list ++ [⟨key, value, true⟩] }

/-- `erase(key)`: in snapshot mode the element stays in the list, inactive. -/
def erase (t : SnapshotableHashTable V) (key : List Char) : SnapshotableHashTable V × Bool :=
  if t.contains key then
    if t.snapshotMode then ({ t with list := deactivate key t.list }, true)
    else ({ t with list := t.list.filter fun e => !IsHeld key e }, true)
  else (t, false)

/-- `updateValue(key, updater)`: in snapshot mode the updated copy goes at
the end of the list. -/
def updateValue (t : SnapshotableHashTable V) (key : List Char) (updater : V → V) : Option (SnapshotableHashTable V) :=
  match t.find? key with
  | none => none
  | some value =>
    if t.snapshotMode then some { t with list := deactivate key t.list ++ [⟨key, updater value, true⟩] }
    else some { t with list := modify key updater t.list }

/-- `clearOutdatedNodes()`: the inactive elements out of the list. -/
def clearOutdatedNodes (t : SnapshotableHashTable V) : SnapshotableHashTable V :=
  { t with list := t.list.filter (·.activeInMap) }

/-- `clear()`. -/
def clear (t : SnapshotableHashTable V) : SnapshotableHashTable V := { t with list := [] }

def enableSnapshotMode (t : SnapshotableHashTable V) : SnapshotableHashTable V := { t with snapshotMode := true }

def disableSnapshotMode (t : SnapshotableHashTable V) : SnapshotableHashTable V := { t with snapshotMode := false }

/-- `snapshotSize()`: the length of the list. -/
def snapshotSize (t : SnapshotableHashTable V) : Nat := t.list.length

/-- `size()`: the number of keys the map holds. -/
def size (t : SnapshotableHashTable V) : Nat := t.list.countP (·.activeInMap)

/-- The operations of the table that change it. -/
inductive Op (V : Type) where
  | insert (key : List Char) (value : V)
  | insertOrReplace (key : List Char) (value : V)
  | erase (key : List Char)
  | updateValue (key : List Char) (updater : V → V)
  | enableSnapshotMode
  | disableSnapshotMode
  | clearOutdatedNodes
  | clear

/-- One operation; `none` where it is undefined. -/
def step (t : SnapshotableHashTable V) : Op V → Option (SnapshotableHashTable V)
  | .insert key value => some (t.insert key value).1
  | .insertOrReplace key value => some (t.insertOrReplace key value)
  | .erase key => some (t.erase key).1
  | .updateValue key updater => t.updateValue key updater
  | .enableSnapshotMode => some t.enableSnapshotMode
  | .disableSnapshotMode => some t.disableSnapshotMode
  | .clearOutdatedNodes => some t.clearOutdatedNodes
  | .clear => some t.clear

/-- The operations in turn. -/
def run (t : SnapshotableHashTable V) : List (Op V) → Option (SnapshotableHashTable V)
  | [] => some t
  | op :: ops => (t.step op).bind fun t => t.run ops

/-- What the operations are meant to do to the map: `insert` does not
overwrite, `updateValue` needs the key, and the mode and the clean-up change
nothing. -/
def mapStep (m : List Char → Option V) : Op V → Option (List Char → Option V)
  | .insert key value => some (if m key = none then Function.update m key (some value) else m)
  | .insertOrReplace key value => some (Function.update m key (some value))
  | .erase key => some (Function.update m key none)
  | .updateValue key updater => (m key).map fun value => Function.update m key (some (updater value))
  | .clear => some fun _ => none
  | _ => some m

/-- The map after the operations in turn. -/
def mapRun (m : List Char → Option V) : List (Op V) → Option (List Char → Option V)
  | [] => some m
  | op :: ops => (mapStep m op).bind fun m => mapRun m ops

/-! ### The map the table stands for -/

section Lookup

variable (key key' : List Char)

theorem isHeld_eq_true {e : ListNode V} : IsHeld key e = true ↔ e.activeInMap = true ∧ e.key = key := by
  simp [IsHeld]

theorem contains_eq_isSome (t : SnapshotableHashTable V) : t.contains key = (t.find? key).isSome := by
  simp [contains, find?, List.isSome_find?]

/-- A map over the list that keeps what `IsHeld key` reads, and leaves the
element held for `key` alone, does not change what `key` finds. -/
theorem find?_map_of_fix {f : ListNode V → ListNode V} (hheld : ∀ e, IsHeld key (f e) = IsHeld key e)
    (hfix : ∀ e, IsHeld key e = true → f e = e) (l : List (ListNode V)) :
    (l.map f).find? (IsHeld key) = l.find? (IsHeld key) := by
  induction l with
  | nil => rfl
  | cons e l ih =>
    by_cases h : IsHeld key e = true
    · simp [h, hfix e h]
    · simp [hheld, h, ih]

theorem isHeld_of_ne {e : ListNode V} (he : IsHeld key e = true) (hne : key' ≠ key) : IsHeld key' e = false := by
  rw [isHeld_eq_true] at he
  simp [IsHeld, he.2, Ne.symm hne]

theorem find?_modify_of_ne (hne : key' ≠ key) (g : V → V) (l : List (ListNode V)) :
    (modify key g l).find? (IsHeld key') = l.find? (IsHeld key') := by
  refine find?_map_of_fix key' (fun e => ?_) (fun e he => ?_) l
  · split <;> rfl
  · simp [isHeld_of_ne key' key he (Ne.symm hne)]

theorem find?_deactivate_of_ne (hne : key' ≠ key) (l : List (ListNode V)) :
    (deactivate key l).find? (IsHeld key') = l.find? (IsHeld key') := by
  refine find?_map_of_fix key' (fun e => ?_) (fun e he => ?_) l
  · split
    · rename_i h
      rw [isHeld_of_ne key key' h hne]
      rfl
    · rfl
  · simp [isHeld_of_ne key' key he (Ne.symm hne)]

theorem find?_modify (g : V → V) (l : List (ListNode V)) :
    (modify key g l).find? (IsHeld key) = (l.find? (IsHeld key)).map fun e => { e with value := g e.value } := by
  induction l with
  | nil => rfl
  | cons e l ih =>
    have hcons : modify key g (e :: l) = (if IsHeld key e then { e with value := g e.value } else e) :: modify key g l :=
      rfl
    by_cases h : IsHeld key e = true
    · -- the element found is the first held one, before and after
      have h' : IsHeld key { e with value := g e.value } = true := h
      rw [hcons, if_pos h, List.find?_cons_of_pos h', List.find?_cons_of_pos h]
      rfl
    · rw [hcons, if_neg h, List.find?_cons_of_neg h, List.find?_cons_of_neg h, ih]

theorem find?_deactivate (l : List (ListNode V)) : (deactivate key l).find? (IsHeld key) = none := by
  induction l with
  | nil => rfl
  | cons e l ih =>
    have hcons : deactivate key (e :: l) =
        (if IsHeld key e then { e with activeInMap := false } else e) :: deactivate key l := rfl
    -- no element is held for `key` after: the held one is now inactive
    have hnot : IsHeld key (if IsHeld key e then { e with activeInMap := false } else e) = false := by
      split
      · rfl
      · simpa using ‹¬IsHeld key e = true›
    rw [hcons, List.find?_cons_of_neg (by simp [hnot]), ih]

/-- An element appended for `key` is found for `key` only, and only if no
element before it is. -/
theorem find?_append_new (v : V) (l : List (ListNode V)) :
    (l ++ [ListNode.mk key v true]).find? (IsHeld key') =
      (l.find? (IsHeld key')).or (if key' = key then some (ListNode.mk key v true) else none) := by
  rw [List.find?_append]
  by_cases h : key' = key
  · subst h
    simp [IsHeld]
  · simp [IsHeld, Ne.symm h, h]

theorem find?_filter_not_held (l : List (ListNode V)) :
    (l.filter fun e => !IsHeld key e).find? (IsHeld key') = if key' = key then none else l.find? (IsHeld key') := by
  rw [List.find?_filter]
  split
  · subst key'
    simp
  · rename_i hne
    -- an element held for `key'` is not held for `key`
    congr 1
    funext e
    by_cases he : IsHeld key' e = true
    · simp [he, isHeld_of_ne key' key he (Ne.symm hne)]
    · simp [he]

end Lookup

section Table

variable (t : SnapshotableHashTable V) (key key' : List Char)

theorem find?_list_eq_none (h : t.contains key = false) : t.list.find? (IsHeld key) = none := by
  simpa [contains] using h

theorem exists_find?_list (h : t.contains key = true) : ∃ e, t.list.find? (IsHeld key) = some e :=
  Option.isSome_iff_exists.1 (by simpa [contains, List.isSome_find?] using h)

/-- A new key appended to the list is found with its value. -/
theorem find?_append_of_contains_eq_false (h : t.contains key = false) (v : V) :
    ((t.list ++ [ListNode.mk key v true]).find? (IsHeld key')).map (·.value) =
      if key' = key then some v else t.find? key' := by
  rw [find?_append_new]
  split
  · subst key'
    simp [find?_list_eq_none t key h]
  · simp [find?]

/-- `insert` keeps the value of a key the map holds. -/
theorem find?_insert (v : V) :
    (t.insert key v).1.find? key' = if key' = key then some ((t.find? key).getD v) else t.find? key' := by
  unfold insert
  by_cases hc : t.contains key = true
  · obtain ⟨e, he⟩ := exists_find?_list t key hc
    rw [if_pos hc]
    split
    · subst key'
      simp [find?, he]
    · rfl
  · have hc' : t.contains key = false := by simpa using hc
    rw [if_neg hc]
    show ((t.list ++ [ListNode.mk key v true]).find? (IsHeld key')).map (·.value) = _
    rw [find?_append_of_contains_eq_false t key key' hc']
    split
    · simp [find?, find?_list_eq_none t key hc']
    · rfl

theorem find?_insertOrReplace (v : V) :
    (t.insertOrReplace key v).find? key' = if key' = key then some v else t.find? key' := by
  unfold insertOrReplace
  by_cases hc : t.contains key = true
  · obtain ⟨e, he⟩ := exists_find?_list t key hc
    rw [if_pos hc]
    split
    · -- in snapshot mode the old element is made inactive and the new one appended
      show (((deactivate key t.list) ++ [ListNode.mk key v true]).find? (IsHeld key')).map (·.value) = _
      rw [find?_append_new]
      split
      · subst key'
        simp [find?_deactivate]
      · rename_i hne
        simp [find?_deactivate_of_ne key key' hne, find?]
    · show ((modify key (fun _ => v) t.list).find? (IsHeld key')).map (·.value) = _
      split
      · subst key'
        simp [find?_modify, he]
      · rename_i hne
        rw [find?_modify_of_ne key key' hne]
        rfl
  · rw [if_neg hc]
    exact find?_append_of_contains_eq_false t key key' (by simpa using hc) v

theorem find?_erase : (t.erase key).1.find? key' = if key' = key then none else t.find? key' := by
  unfold erase
  by_cases hc : t.contains key = true
  · rw [if_pos hc]
    split
    · show ((deactivate key t.list).find? (IsHeld key')).map (·.value) = _
      split
      · subst key'
        simp [find?_deactivate]
      · rename_i hne
        rw [find?_deactivate_of_ne key key' hne]
        rfl
    · show ((t.list.filter fun e => !IsHeld key e).find? (IsHeld key')).map (·.value) = _
      rw [find?_filter_not_held]
      split <;> rfl
  · rw [if_neg hc]
    split
    · subst key'
      simp [find?, find?_list_eq_none t key (by simpa using hc)]
    · rfl

theorem updateValue_eq_none_iff (g : V → V) : t.updateValue key g = none ↔ t.find? key = none := by
  unfold SnapshotableHashTable.updateValue
  split
  · simp_all
  · split <;> simp_all

/-- `updateValue` changes the value of its key, and no other. -/
theorem find?_updateValue {g : V → V} {t' : SnapshotableHashTable V} (h : t.updateValue key g = some t') :
    t'.find? key' = if key' = key then (t.find? key).map g else t.find? key' := by
  unfold updateValue at h
  split at h
  · cases h
  · rename_i w hw
    rw [hw]
    split at h <;> cases h
    · show (((deactivate key t.list) ++ [ListNode.mk key (g w) true]).find? (IsHeld key')).map (·.value) = _
      rw [find?_append_new]
      split
      · subst key'
        simp [find?_deactivate]
      · rename_i hne
        simp [find?_deactivate_of_ne key key' hne, find?]
    · show ((modify key g t.list).find? (IsHeld key')).map (·.value) = _
      split
      · subst key'
        simp only [find?, Option.map_eq_some_iff] at hw
        obtain ⟨e, he, rfl⟩ := hw
        simp [find?_modify, he]
      · rename_i hne
        rw [find?_modify_of_ne key key' hne]
        rfl

theorem find?_clearOutdatedNodes : t.clearOutdatedNodes.find? key = t.find? key := by
  simp only [clearOutdatedNodes, find?, List.find?_filter]
  congr 2
  funext e
  by_cases he : IsHeld key e = true
  · simp [he, ((isHeld_eq_true key).1 he).1]
  · simp [he]

@[simp] theorem find?_enableSnapshotMode : t.enableSnapshotMode.find? key = t.find? key := rfl

@[simp] theorem find?_disableSnapshotMode : t.disableSnapshotMode.find? key = t.find? key := rfl

end Table

/-! ### One element held per key -/

/-- The keys of the elements the map holds, in list order. -/
def activeKeys (l : List (ListNode V)) : List (List Char) := (l.filter (·.activeInMap)).map (·.key)

/-- The map of the source holds one element per key: no two active
elements of the list have the same key. -/
def OneActive (t : SnapshotableHashTable V) : Prop := (activeKeys t.list).Nodup

section OneActive

variable (t : SnapshotableHashTable V) (key : List Char)

theorem activeKeys_append (l l' : List (ListNode V)) : activeKeys (l ++ l') = activeKeys l ++ activeKeys l' := by
  simp [activeKeys]

theorem mem_activeKeys : key ∈ activeKeys t.list ↔ t.contains key = true := by
  simp only [activeKeys, contains, IsHeld, List.mem_map, List.mem_filter, List.any_eq_true, Bool.and_eq_true,
    beq_iff_eq]
  exact ⟨fun ⟨e, ⟨he, ha⟩, hk⟩ => ⟨e, he, ha, hk⟩, fun ⟨e, he, ha, hk⟩ => ⟨e, ⟨he, ha⟩, hk⟩⟩

/-- A map over the list that keeps every key and activity keeps the keys held. -/
theorem activeKeys_map {f : ListNode V → ListNode V} (hact : ∀ e, (f e).activeInMap = e.activeInMap)
    (hkey : ∀ e, (f e).key = e.key) (l : List (ListNode V)) : activeKeys (l.map f) = activeKeys l := by
  induction l with
  | nil => rfl
  | cons e l ih =>
    by_cases h : e.activeInMap = true
    · simp_all [activeKeys]
    · simp_all [activeKeys]

theorem activeKeys_modify (g : V → V) (l : List (ListNode V)) : activeKeys (modify key g l) = activeKeys l :=
  activeKeys_map (fun e => by split <;> rfl) (fun e => by split <;> rfl) l

/-- Marking the element held for `key` inactive drops `key` from the keys held. -/
theorem activeKeys_deactivate (l : List (ListNode V)) :
    activeKeys (deactivate key l) = (activeKeys l).filter (· != key) := by
  induction l with
  | nil => rfl
  | cons e l ih =>
    by_cases h : IsHeld key e = true
    · have he := (isHeld_eq_true key).1 h
      simp_all [activeKeys, deactivate]
    · by_cases ha : e.activeInMap = true
      · have hk : e.key ≠ key := fun hk => h ((isHeld_eq_true key).2 ⟨ha, hk⟩)
        simp_all [activeKeys, deactivate]
      · simp_all [activeKeys, deactivate]

theorem activeKeys_filter_not_held (l : List (ListNode V)) :
    activeKeys (l.filter fun e => !IsHeld key e) = (activeKeys l).filter (· != key) := by
  induction l with
  | nil => rfl
  | cons e l ih =>
    by_cases h : IsHeld key e = true
    · have he := (isHeld_eq_true key).1 h
      simp_all [activeKeys]
    · by_cases ha : e.activeInMap = true
      · have hk : e.key ≠ key := fun hk => h ((isHeld_eq_true key).2 ⟨ha, hk⟩)
        simp_all [activeKeys]
      · simp_all [activeKeys]

/-- A key appended where the map holds none keeps one element per key. -/
theorem OneActive.append_new {t : SnapshotableHashTable V} {key : List Char} (ht : t.OneActive)
    (hc : key ∉ activeKeys t.list) (v : V) : (activeKeys (t.list ++ [ListNode.mk key v true])).Nodup := by
  rw [activeKeys_append]
  exact List.nodup_append.2 ⟨ht, by simp [activeKeys], fun a ha b hb => by
    simp only [activeKeys, List.filter_cons_of_pos, List.filter_nil, List.map_cons, List.map_nil,
      List.mem_singleton] at hb
    rintro rfl
    exact hc (hb ▸ ha)⟩

theorem OneActive.insert {t : SnapshotableHashTable V} (ht : t.OneActive) (key : List Char) (v : V) :
    (t.insert key v).1.OneActive := by
  unfold SnapshotableHashTable.insert
  split
  · exact ht
  · rename_i hc
    exact ht.append_new (fun h => hc ((mem_activeKeys t key).1 h)) v

theorem OneActive.insertOrReplace {t : SnapshotableHashTable V} (ht : t.OneActive) (key : List Char) (v : V) :
    (t.insertOrReplace key v).OneActive := by
  unfold SnapshotableHashTable.insertOrReplace
  split
  · split
    · show (activeKeys (deactivate key t.list ++ [ListNode.mk key v true])).Nodup
      rw [activeKeys_append, activeKeys_deactivate]
      refine List.nodup_append.2 ⟨ht.filter _, by simp [activeKeys], fun a ha b hb => ?_⟩
      simp [activeKeys] at hb
      rintro rfl
      simp_all
    · show (activeKeys (modify key (fun _ => v) t.list)).Nodup
      rw [activeKeys_modify]
      exact ht
  · rename_i hc
    exact ht.append_new (fun h => hc ((mem_activeKeys t key).1 h)) v

theorem OneActive.erase {t : SnapshotableHashTable V} (ht : t.OneActive) (key : List Char) :
    (t.erase key).1.OneActive := by
  unfold SnapshotableHashTable.erase
  split
  · split
    · show (activeKeys (deactivate key t.list)).Nodup
      rw [activeKeys_deactivate]
      exact ht.filter _
    · show (activeKeys (t.list.filter fun e => !IsHeld key e)).Nodup
      rw [activeKeys_filter_not_held]
      exact ht.filter _
  · exact ht

theorem OneActive.updateValue {t t' : SnapshotableHashTable V} (ht : t.OneActive) {key : List Char} {g : V → V}
    (h : t.updateValue key g = some t') : t'.OneActive := by
  unfold SnapshotableHashTable.updateValue at h
  split at h
  · cases h
  · split at h <;> cases h
    · show (activeKeys (deactivate key t.list ++ [ListNode.mk key _ true])).Nodup
      rw [activeKeys_append, activeKeys_deactivate]
      refine List.nodup_append.2 ⟨ht.filter _, by simp [activeKeys], fun a ha b hb => ?_⟩
      simp [activeKeys] at hb
      rintro rfl
      simp_all
    · show (activeKeys (modify key g t.list)).Nodup
      rw [activeKeys_modify]
      exact ht

theorem OneActive.clearOutdatedNodes {t : SnapshotableHashTable V} (ht : t.OneActive) :
    t.clearOutdatedNodes.OneActive := by
  unfold OneActive at ht
  show (activeKeys (t.list.filter (·.activeInMap))).Nodup
  simpa [activeKeys, List.filter_filter] using ht

end OneActive

/-! ### Runs -/

/-- **The table changes as a map does.** Each operation changes the values
`find` gives as `mapStep` says, and is undefined exactly where `mapStep` is. -/
theorem step_find? (t : SnapshotableHashTable V) (op : Op V) : (t.step op).map (·.find?) = mapStep t.find? op := by
  cases op with
  | insert key value =>
    simp only [step, mapStep, Option.map_some, Option.some.injEq]
    funext key'
    rw [find?_insert]
    cases hv : t.find? key <;> by_cases hk : key' = key <;> simp [hk, hv]
  | insertOrReplace key value =>
    simp only [step, mapStep, Option.map_some, Option.some.injEq]
    funext key'
    rw [find?_insertOrReplace, Function.update_apply]
  | erase key =>
    simp only [step, mapStep, Option.map_some, Option.some.injEq]
    funext key'
    rw [find?_erase, Function.update_apply]
  | updateValue key updater =>
    simp only [step, mapStep]
    cases hv : t.find? key with
    | none => simp [(updateValue_eq_none_iff t key updater).mpr hv]
    | some value =>
      obtain ⟨t', ht'⟩ : ∃ t', t.updateValue key updater = some t' := Option.ne_none_iff_exists'.mp
        (fun h => by simp [(updateValue_eq_none_iff t key updater).mp h] at hv)
      simp only [ht', Option.map_some, Option.some.injEq]
      funext key'
      rw [find?_updateValue t key key' ht', hv, Function.update_apply]
      rfl
  | enableSnapshotMode => rfl
  | disableSnapshotMode => rfl
  | clearOutdatedNodes =>
    simp only [step, mapStep, Option.map_some, Option.some.injEq]
    funext key
    exact find?_clearOutdatedNodes t key
  | clear => rfl

theorem run_find? (t : SnapshotableHashTable V) (ops : List (Op V)) :
    (t.run ops).map (·.find?) = mapRun t.find? ops := by
  induction ops generalizing t with
  | nil => rfl
  | cons op ops ih =>
    have hstep := step_find? t op
    simp only [run, mapRun]
    cases hs : t.step op with
    | none =>
      rw [hs] at hstep
      rw [← hstep]
      rfl
    | some t' =>
      rw [hs, Option.map_some] at hstep
      rw [← hstep, Option.bind_some, Option.bind_some, ih]

theorem OneActive.step {t t' : SnapshotableHashTable V} (ht : t.OneActive) {op : Op V} (h : t.step op = some t') :
    t'.OneActive := by
  cases op with
  | insert key value => cases h; exact ht.insert key value
  | insertOrReplace key value => cases h; exact ht.insertOrReplace key value
  | erase key => cases h; exact ht.erase key
  | updateValue key updater => exact ht.updateValue h
  | enableSnapshotMode => cases h; exact ht
  | disableSnapshotMode => cases h; exact ht
  | clearOutdatedNodes => cases h; exact ht.clearOutdatedNodes
  | clear => cases h; exact List.nodup_nil

end SnapshotableHashTable

end Daisy.Coordination
