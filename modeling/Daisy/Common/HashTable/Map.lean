import Daisy.Common.HashTable.Resize
import Daisy.Common.HashTable.Erase

/-!
# `HashTable` is a finite map

The calls of `HashTable` that change it, over any run from a new table:
`emplace` (and `insert`, which is `emplace` of a pair), the assignment
`map[key] = mapped` that `HashMap::operator[]` gives the caller, `erase`,
and `resize` and `reserve` with any arguments. Between two calls `find`,
`has`, `size()` and the iterator answer as the map the calls have built, and
every key lies in the chain of the cell its hash places it at.

## What is proved

* `emplace_spec`: `emplace` answers whether the key is new, keeps the
  invariant, adds a new key to the map, and returns the key's cell, found
  again after the rehash past the fill bound (`resize_overflow`);
* `setMapped_spec`: a value set through that cell is the key's new value;
* `length_iterate`, `nodup_iterate`, `mem_iterate`: `size()` is the number
  of elements the iterator visits, each key once, and they are the map;
* `Inv.step`, `Inv.run`: every call keeps `Inv` and changes the map as
  `mapStep` says;
* `run_is_finite_map`: any run from a new table of degree above zero returns
  in a release build, and in a debug build from degree two on, and the table
  answers as the map `mapRun` builds (`Implements`).

The build (`Build`) matters to `erase` alone: a debug build stops at its
`assert(m_size < grower.bufSize())`. From four cells on the fill bound keeps
`m_size` below the size of the buffer (`Inv.mSize_lt`), and the buffer never
shrinks. With two cells the assert fails where the zero key fills the last
cell it counts: one key in the buffer and the zero key make `m_size` `2`, the
case at the end.
-/

namespace Daisy.Common

open Daisy.Library
open Daisy.DistributedMergeTree (Build Failure)

namespace HashTable

variable {K M : Type} [DecidableEq K] {hash : K → Nat} {zeroKey : K}

/-! ### `emplace` -/

/-- What `emplace` is meant to do to the map: a new key gets the value, and a
key the map has keeps its own. -/
def emplaceMap (f : K → Option M) (k : K) (v : M) : K → Option M :=
  if (f k).isNone then Function.update f k (some v) else f

theorem emplaceMap_self (f : K → Option M) (k : K) (v : M) : (emplaceMap f k v k).isSome := by
  unfold emplaceMap
  cases hk : f k <;> simp [hk]

section Emplace

variable {t : HashTable K M} {f : K → Option M}

/-- **`emplace` of a key other than the zero key.** It answers whether the
key is new, keeps the invariant, adds a new key to the map, and returns the
cell of the key: the one the walk found, or after a rehash the one the walk
finds again. -/
theorem emplaceNonZero_spec (hinv : Inv hash zeroKey t) (hrep : Represents zeroKey t f) {k : K}
    (hk : k ≠ zeroKey) (v : M) :
    (emplaceNonZero hash t k v).1.2 = (f k).isNone ∧ Inv hash zeroKey (emplaceNonZero hash t k v).2 ∧
      Represents zeroKey (emplaceNonZero hash t k v).2 (emplaceMap f k v) ∧
      getValue zeroKey (emplaceNonZero hash t k v).2 (emplaceNonZero hash t k v).1.1 =
        ((emplaceMap f k v k).map fun w => (k, w)) ∧
      t.grower.bufSize ≤ (emplaceNonZero hash t k v).2.grower.bufSize := by
  cases hv : f k with
  | some w =>
    -- the walk finds the key, and nothing changes
    obtain ⟨i, hi⟩ := (hrep.2 k hk w).mp hv
    have heq : emplaceNonZero hash t k v = ((.cell i, false), t) := by
      unfold emplaceNonZero emplaceNonZeroImpl
      rw [findCell_of_mem hinv hi, hi]
      rfl
    have hmap : emplaceMap f k v = f := by simp [emplaceMap, hv]
    rw [heq, hmap]
    exact ⟨rfl, hinv, hrep, by simp [getValue, hi, hv], le_refl _⟩
  | none =>
    have hx := hrep.not_mem hk hv
    obtain ⟨hlt, -, -⟩ := findCell_spec hash hinv.exists_empty k
    obtain ⟨hnone, -⟩ := findCell_of_not_mem hash hinv.exists_empty hx
    have hmap : emplaceMap f k v = Function.update f k (some v) := by simp [emplaceMap, hv]
    rw [hmap]
    unfold emplaceNonZero emplaceNonZeroImpl
    generalize hp : findCell t k (t.grower.place (hash k)) t.grower.bufSize = p at hlt hnone ⊢
    have hwf₁ : WellFormed zeroKey { t with buf := Function.update t.buf p (some (k, v)), mSize := t.mSize + 1 } :=
      hinv.toWellFormed.insertAt hlt hnone hk hx
    have hrep₁ : Represents zeroKey { t with buf := Function.update t.buf p (some (k, v)), mSize := t.mSize + 1 }
        (Function.update f k (some v)) := hrep.insertAt hnone hk hx
    have hcount : occupiedCount t.grower.bufSize (Function.update t.buf p (some (k, v))) =
        occupiedCount t.grower.bufSize t.buf + 1 := occupiedCount_update_some hlt hnone
    rw [hnone]
    simp only [Option.isSome_none, Bool.false_eq_true, if_false]
    split
    · -- past the fill bound: the rehashed table finds the key again
      have hover : occupiedCount t.grower.bufSize (Function.update t.buf p (some (k, v))) ≤ t.grower.maxFill + 1 := by
        have := hinv.fill_le
        omega
      have hre : Rehashed hash zeroKey { t with buf := Function.update t.buf p (some (k, v)), mSize := t.mSize + 1 }
          (resize hash { t with buf := Function.update t.buf p (some (k, v)), mSize := t.mSize + 1 } 0 0) :=
        resize_overflow hwf₁ hover
      have hrep₂ := hre.represents hrep₁
      obtain ⟨i, hi⟩ := (hrep₂.2 k hk v).mp (Function.update_self _ _ _)
      refine ⟨rfl, hre.inv, hrep₂, ?_, hre.bufSize_le⟩
      rw [findCell_of_mem hre.inv hi]
      simp [getValue, hi]
    · rename_i hfit
      have hchain : ∀ i < t.grower.bufSize,
          ChainWhole t.grower.bufSize (home hash t) (Function.update t.buf p (some (k, v))) i :=
        hp ▸ insertAt_chain hinv hx
      have hsize := hinv.mSize_eq
      simp only [HashTableGrower.overflow, decide_eq_true_eq, not_lt] at hfit
      refine ⟨rfl, ⟨hwf₁, hchain, ?_⟩, hrep₁, by simp [getValue], le_refl _⟩
      dsimp only
      split at hsize <;> omega

/-- **`emplace`.** The zero key goes to its own cell, any other key to the
buffer; either way the result answers whether the key is new, the invariant
holds, the map gets a new key, and the result points to the key's cell. -/
theorem emplace_spec (hinv : Inv hash zeroKey t) (hrep : Represents zeroKey t f) (k : K) (v : M) :
    (emplace hash zeroKey t k v).1.2 = (f k).isNone ∧ Inv hash zeroKey (emplace hash zeroKey t k v).2 ∧
      Represents zeroKey (emplace hash zeroKey t k v).2 (emplaceMap f k v) ∧
      getValue zeroKey (emplace hash zeroKey t k v).2 (emplace hash zeroKey t k v).1.1 =
        ((emplaceMap f k v k).map fun w => (k, w)) ∧
      t.grower.bufSize ≤ (emplace hash zeroKey t k v).2.grower.bufSize := by
  unfold emplace
  by_cases hk : k = zeroKey
  · subst hk
    rw [if_pos rfl]
    cases hz : t.zeroValue with
    | some w =>
      have hmap : emplaceMap f k v = f := by simp [emplaceMap, hrep.1, hz]
      rw [hmap]
      exact ⟨by simp [hrep.1, hz], hinv, hrep, by simp [getValue, hz, hrep.1], le_refl _⟩
    | none =>
      have hmap : emplaceMap f k v = Function.update f k (some v) := by simp [emplaceMap, hrep.1, hz]
      rw [hmap]
      simp only [Option.isSome_none, Bool.false_eq_true, if_false]
      refine ⟨by simp [hrep.1, hz], { hinv with mSize_eq := ?_ }, ⟨by simp, fun k' hk' w => ?_⟩, by simp [getValue],
        le_refl _⟩
      · have := hinv.mSize_eq
        simp only [hz, Option.isSome_none, Bool.false_eq_true, if_false] at this
        simp only [Option.isSome_some, if_true]
        omega
      · rw [Function.update_of_ne hk']
        exact hrep.2 k' hk' w
  · rw [if_neg hk]
    exact emplaceNonZero_spec hinv hrep hk v

/-- **The mapped value set through a `LookupResult`** that points to a key
is the map's new value for the key. -/
theorem setMapped_spec (hinv : Inv hash zeroKey t) (hrep : Represents zeroKey t f) {it : LookupResult} {k : K}
    {w : M} (hit : getValue zeroKey t it = some (k, w)) (v : M) :
    Inv hash zeroKey (setMapped t it v) ∧ Represents zeroKey (setMapped t it v) (Function.update f k (some v)) := by
  cases it with
  | zeroValue =>
    obtain ⟨w', hz, hw⟩ := Option.map_eq_some_iff.mp hit
    simp only [Prod.mk.injEq] at hw
    obtain ⟨rfl, rfl⟩ := hw
    simp only [setMapped, hz, Option.isSome_some, if_true]
    refine ⟨{ hinv with mSize_eq := by simpa [hz] using hinv.mSize_eq }, by simp, fun k' hk' v' => ?_⟩
    rw [Function.update_of_ne hk']
    exact hrep.2 k' hk' v'
  | cell p =>
    simp only [getValue] at hit
    simp only [setMapped, hit]
    exact ⟨hinv.setAt hit v, hrep.setAt hinv.toWellFormed hit v⟩

omit [DecidableEq K] in
theorem grower_setMapped (t : HashTable K M) (it : LookupResult) (v : M) :
    (setMapped t it v).grower = t.grower := by
  unfold setMapped
  split
  · split <;> rfl
  · split <;> rfl

end Emplace

/-! ### What the iterator visits -/

section Iterate

variable {t : HashTable K M} {f : K → Option M}

omit [DecidableEq K] in
/-- **`size()` counts what the iterator visits.** -/
theorem length_iterate (hwf : WellFormed zeroKey t) : (iterate zeroKey t).length = size t := by
  unfold iterate size
  rw [List.length_append, hwf.mSize_eq]
  cases t.zeroValue <;> simp [occupiedCount, cellsBelow]
  omega

omit [DecidableEq K] in
/-- **The iterator visits each key once.** -/
theorem nodup_iterate (hwf : WellFormed zeroKey t) : ((iterate zeroKey t).map Prod.fst).Nodup := by
  have hcells : ((cellsBelow t.grower.bufSize t.buf).map Prod.fst).Nodup :=
    nodup_map_cellsBelow Prod.fst hwf.key_unique
  unfold iterate
  cases t.zeroValue with
  | none => simpa [cellsBelow] using hcells
  | some w =>
    simp only [Option.map_some, Option.toList_some, List.singleton_append, List.map_cons]
    refine List.nodup_cons.mpr ⟨fun hmem => ?_, hcells⟩
    obtain ⟨⟨k, v⟩, hkv, rfl⟩ := List.mem_map.mp hmem
    obtain ⟨i, -, hi⟩ := mem_cellsBelow.mp hkv
    exact hwf.key_ne_zero i _ hi rfl

omit [DecidableEq K] in
/-- **The iterator visits the map.** -/
theorem mem_iterate (hwf : WellFormed zeroKey t) (hrep : Represents zeroKey t f) (k : K) (v : M) :
    (k, v) ∈ iterate zeroKey t ↔ f k = some v := by
  have hcells : (k, v) ∈ cellsBelow t.grower.bufSize t.buf ↔ ∃ i, t.buf i = some (k, v) := by
    rw [mem_cellsBelow]
    refine ⟨fun ⟨i, _, hi⟩ => ⟨i, hi⟩, fun ⟨i, hi⟩ => ⟨i, ?_, hi⟩⟩
    by_contra hge
    rw [hwf.buf_above i (Nat.le_of_not_lt hge)] at hi
    cases hi
  unfold iterate
  rw [List.mem_append]
  show _ ∨ (k, v) ∈ cellsBelow t.grower.bufSize t.buf ↔ _
  by_cases hk : k = zeroKey
  · subst hk
    have hnot : ¬ ∃ i, t.buf i = some (k, v) := fun ⟨i, hi⟩ => hwf.key_ne_zero i _ hi rfl
    rw [hcells, hrep.1, or_iff_left hnot]
    cases t.zeroValue <;> simp [eq_comm]
  · have hzero : (k, v) ∉ (t.zeroValue.map fun mapped => (zeroKey, mapped)).toList := by
      cases t.zeroValue <;> simp [hk]
    rw [hcells, hrep.2 k hk v]
    simp [hzero]

end Iterate

/-! ### Runs of calls -/

/-- A call that changes the table. `find` and `has` change nothing: what they
answer is read off the table between two calls. -/
inductive Op (K M : Type) where
  | emplace (key : K) (mapped : M)
  | insert (x : K × M)
  /-- `map[key] = mapped`: `emplace`, then the mapped value set through the
  `LookupResult` it returns (`HashMap::operator[]`). -/
  | assign (key : K) (mapped : M)
  | erase (key : K)
  | resize (forNumElems forBufSize : Nat)
  | reserve (numElements : Nat)

variable (hash zeroKey) in
/-- One call, in the build `b`: only `erase` can stop at an `assert`. -/
def step (b : Build) (t : HashTable K M) : Op K M → Except Failure (HashTable K M)
  | .emplace key mapped => pure (emplace hash zeroKey t key mapped).2
  | .insert x => pure (insert hash zeroKey t x).2
  | .assign key mapped =>
    pure (setMapped (emplace hash zeroKey t key mapped).2 (emplace hash zeroKey t key mapped).1.1 mapped)
  | .erase key => return (← erase hash zeroKey b t key).2
  | .resize forNumElems forBufSize => pure (resize hash t forNumElems forBufSize)
  | .reserve numElements => pure (reserve hash t numElements)

variable (hash zeroKey) in
/-- The calls in turn. -/
def run (b : Build) (t : HashTable K M) : List (Op K M) → Except Failure (HashTable K M)
  | [] => pure t
  | op :: ops => do run b (← step hash zeroKey b t op) ops

/-- What a call is meant to do to the map: `emplace` and `insert` do not
overwrite, `map[key] = mapped` does, and `resize` changes nothing. -/
def mapStep (f : K → Option M) : Op K M → K → Option M
  | .emplace key mapped => emplaceMap f key mapped
  | .insert x => emplaceMap f x.1 x.2
  | .assign key mapped => Function.update f key (some mapped)
  | .erase key => Function.update f key none
  | .resize _ _ | .reserve _ => f

def mapRun (f : K → Option M) : List (Op K M) → K → Option M
  | [] => f
  | op :: ops => mapRun (mapStep f op) ops

theorem update_emplaceMap (f : K → Option M) (k : K) (v v' : M) :
    Function.update (emplaceMap f k v) k (some v') = Function.update f k (some v') := by
  unfold emplaceMap
  split <;> simp

section Runs

variable {t : HashTable K M} {f : K → Option M}

omit [DecidableEq K] in
/-- A new table holds the empty map. -/
theorem inv_make {d : Nat} (hd : 0 < d) :
    Inv hash zeroKey (make d : HashTable K M) ∧ Represents zeroKey (make d : HashTable K M) fun _ => none := by
  have hempty : ∀ i e, (make d : HashTable K M).buf i ≠ some e := fun _ _ h => by cases h
  have hcount : occupiedCount (make d : HashTable K M).grower.bufSize (make d : HashTable K M).buf = 0 := by
    simp [make, occupiedCount, cellsBelow]
  refine ⟨⟨⟨hd, fun _ _ => rfl, fun i e h => absurd h (hempty i e), fun i _ e _ h => absurd h (hempty i e), ?_⟩,
    fun i _ e h => absurd h (hempty i e), by rw [hcount]; exact Nat.zero_le _⟩, rfl, fun k _ v => ?_⟩
  · rw [hcount]
    rfl
  · constructor
    · intro h
      cases h
    · rintro ⟨i, h⟩
      exact absurd h (hempty i _)

omit [DecidableEq K] in
/-- With four cells or more, the count stays below the size of the buffer:
the fill bound is half of it, and the zero key adds one. -/
theorem Inv.mSize_lt (hinv : Inv hash zeroKey t) (h4 : 4 ≤ t.grower.bufSize) : t.mSize < t.grower.bufSize := by
  have hhalf := t.grower.two_mul_maxFill hinv.sizeDegree_pos
  have hfill := hinv.fill_le
  have hsize := hinv.mSize_eq
  split at hsize <;> omega

/-- **Every call keeps the invariant** and changes the map as `mapStep` says.
It returns in a release build, and in a debug build from a buffer of four
cells or more; the buffer does not shrink. -/
theorem Inv.step {b : Build} (hinv : Inv hash zeroKey t) (hrep : Represents zeroKey t f)
    (hb : b = .release ∨ 4 ≤ t.grower.bufSize) (op : Op K M) :
    ∃ t', step hash zeroKey b t op = .ok t' ∧ Inv hash zeroKey t' ∧ Represents zeroKey t' (mapStep f op) ∧
      t.grower.bufSize ≤ t'.grower.bufSize := by
  cases op with
  | emplace key mapped =>
    obtain ⟨-, hinv', hrep', -, hle⟩ := emplace_spec hinv hrep key mapped
    exact ⟨_, rfl, hinv', hrep', hle⟩
  | insert x =>
    obtain ⟨-, hinv', hrep', -, hle⟩ := emplace_spec hinv hrep x.1 x.2
    exact ⟨_, rfl, hinv', hrep', hle⟩
  | assign key mapped =>
    obtain ⟨-, hinv', hrep', hit, hle⟩ := emplace_spec hinv hrep key mapped
    obtain ⟨w, hw⟩ := Option.isSome_iff_exists.mp (emplaceMap_self f key mapped)
    rw [hw, Option.map_some] at hit
    have hset := setMapped_spec hinv' hrep' hit mapped
    rw [update_emplaceMap] at hset
    exact ⟨_, rfl, hset.1, hset.2, by rw [grower_setMapped]; exact hle⟩
  | erase key =>
    -- the `assert` of a debug build holds: the count is below the size
    obtain ⟨r, her, -, hinv', hrep', hgrower⟩ := erase_spec hinv hrep key (hb.imp id hinv.mSize_lt)
    refine ⟨r.2, ?_, hinv', hrep', by rw [hgrower]⟩
    simp only [HashTable.step, her]
    rfl
  | resize forNumElems forBufSize =>
    have hre := hinv.resize forNumElems forBufSize
    exact ⟨_, rfl, hre.inv, hre.represents hrep, hre.bufSize_le⟩
  | reserve numElements =>
    have hre := hinv.resize numElements 0
    exact ⟨_, rfl, hre.inv, hre.represents hrep, hre.bufSize_le⟩

/-- **A run keeps the invariant**, by `Inv.step` at each call: the buffer
never shrinks, so a debug build that starts with four cells keeps them. -/
theorem Inv.run {b : Build} (hinv : Inv hash zeroKey t) (hrep : Represents zeroKey t f)
    (hb : b = .release ∨ 4 ≤ t.grower.bufSize) (ops : List (Op K M)) :
    ∃ t', run hash zeroKey b t ops = .ok t' ∧ Inv hash zeroKey t' ∧ Represents zeroKey t' (mapRun f ops) := by
  induction ops generalizing t f with
  | nil => exact ⟨t, rfl, hinv, hrep⟩
  | cons op ops ih =>
    obtain ⟨t₁, hstep, hinv₁, hrep₁, hle⟩ := hinv.step hrep hb op
    obtain ⟨t', hrun, hinv', hrep'⟩ := ih hinv₁ hrep₁ (hb.imp id fun h => le_trans h hle)
    refine ⟨t', ?_, hinv', hrep'⟩
    rw [run, hstep]
    exact hrun

end Runs

/-- What the table answers as the map `f`: `has` and `find` of every key,
`size()` and the iterator; and every key in the chain of the cell its hash
places it at. -/
structure Implements (hash : K → Nat) (zeroKey : K) (t : HashTable K M) (f : K → Option M) : Prop where
  has_eq : ∀ k, has hash zeroKey t k = (f k).isSome
  find_some : ∀ k v, f k = some v → ∃ it, find hash zeroKey t k = some it ∧ getValue zeroKey t it = some (k, v)
  find_none : ∀ k, f k = none → find hash zeroKey t k = none
  size_eq : size t = (iterate zeroKey t).length
  nodup_iterate : ((iterate zeroKey t).map Prod.fst).Nodup
  mem_iterate : ∀ k v, (k, v) ∈ iterate zeroKey t ↔ f k = some v
  chain : ∀ i < t.grower.bufSize, ChainWhole t.grower.bufSize (home hash t) t.buf i

theorem Inv.implements {t : HashTable K M} {f : K → Option M} (hinv : Inv hash zeroKey t)
    (hrep : Represents zeroKey t f) : Implements hash zeroKey t f where
  has_eq := has_eq hinv hrep
  find_some _ _ hv := find_of_some hinv hrep hv
  find_none _ hv := find_of_none hinv hrep hv
  size_eq := (length_iterate hinv.toWellFormed).symm
  nodup_iterate := nodup_iterate hinv.toWellFormed
  mem_iterate := mem_iterate hinv.toWellFormed hrep
  chain := hinv.chain

theorem run_is_finite_map (hash : K → Nat) (zeroKey : K) (b : Build) {d : Nat} (hd : 0 < d)
    (hb : b = .release ∨ 2 ≤ d) (ops : List (Op K M)) :
    ∃ t, run hash zeroKey b (make d) ops = .ok t ∧ Implements hash zeroKey t (mapRun (fun _ => none) ops) := by
  obtain ⟨hinv, hrep⟩ := inv_make hd
  -- a debug build starts with `2^d ≥ 4` cells
  have hb' : b = .release ∨ 4 ≤ (make d : HashTable K M).grower.bufSize :=
    hb.imp id fun h => (Nat.pow_le_pow_right (by decide : 0 < 2) h : 2 ^ 2 ≤ 2 ^ d)
  obtain ⟨t, hrun, hinv', hrep'⟩ := hinv.run hrep hb' ops
  exact ⟨t, hrun, hinv'.implements hrep'⟩

/-- The gtest `HashTable.Erase`: `HashSet<int, DummyHash<int>, HashTableGrower<4>>`,
`14`, `15`, `16` and `30` inserted and `16` erased, in a debug build. -/
theorem run_is_finite_map_erase_wrapped :
    0 < 4 ∧ (Build.debug = .release ∨ 2 ≤ 4) ∧
      ∃ t, run id 0 .debug (make 4)
          [.insert (14, ()), .insert (15, ()), .insert (16, ()), .insert (30, ()), .erase 16] = .ok t ∧
        Implements (id : Nat → Nat) 0 t
          (mapRun (fun _ => none) [.insert (14, ()), .insert (15, ()), .insert (16, ()), .insert (30, ()), .erase 16]) :=
  ⟨by decide, .inr (by decide), run_is_finite_map id 0 .debug (by decide) (.inr (by decide)) _⟩

/-- With two cells, a debug build stops at the `assert` of `erase`: after
`insert(1)` and `insert(0)`, `m_size` is `2`, the size of the buffer. -/
example : (run (id : Nat → Nat) 0 .debug (make 1 : HashTable Nat Unit) [.insert (1, ()), .insert (0, ()), .erase 1]).toBool = false := by
  decide

example : (run (id : Nat → Nat) 0 .release (make 1 : HashTable Nat Unit) [.insert (1, ()), .insert (0, ()), .erase 1]).toBool = true := by
  decide

end HashTable

end Daisy.Common
