import Daisy.Common.HashTable.HashTable
import Daisy.Library.LinearProbing

/-!
# The invariant of `HashTable`

What holds of a table between two calls of its methods, and what the table
stands for.

* `WellFormed` is what a rehash needs of the table it starts from: keys in
  at most one cell each, no zero key in the buffer, nothing past the end of
  the buffer, and `m_size` counting the elements.
* `Inv` adds that every element is found by the walk from its home
  (`ChainWhole` of `Daisy.Library.LinearProbing`), and the fill bound that
  leaves an empty cell for every walk to stop at.
* `Represents t f` says that the table holds the map `f`.

The walk of `findCell` is `probe` of the library (`findCell_eq_probe`), so
that `findCell_spec` says where it stops. From it `find` and `has` are read
off, and the first half of `emplace`: the new element in the empty cell
where the walk stopped keeps the chains whole (`insertAt_chain`).
-/

namespace Daisy.Common

open Daisy.Library

namespace HashTableGrower

variable (g : HashTableGrower)

theorem bufSize_pos : 0 < g.bufSize := Nat.two_pow_pos _

theorem place_eq (x : Nat) : g.place x = x % g.bufSize := Nat.and_two_pow_sub_one_eq_mod x _

theorem place_lt (x : Nat) : g.place x < g.bufSize := by
  rw [place_eq]
  exact Nat.mod_lt _ g.bufSize_pos

/-- Below the size of the buffer, `next` is the step on the cycle of its cells. -/
theorem next_eq {pos : Nat} (h : pos < g.bufSize) : g.next pos = cyclicNext g.bufSize pos := by
  have hmod : g.next pos = (pos + 1) % g.bufSize := Nat.and_two_pow_sub_one_eq_mod (pos + 1) _
  rw [hmod, cyclicNext]
  split_ifs with hlast
  · rw [hlast, Nat.mod_self]
  · exact Nat.mod_eq_of_lt (by omega)

/-- A buffer of at least two cells is twice its fill bound. -/
theorem two_mul_maxFill (h : 0 < g.sizeDegree) : 2 * g.maxFill = g.bufSize := by
  rw [maxFill, bufSize, ← Nat.pow_succ']
  congr 1
  omega

theorem maxFill_lt (h : 0 < g.sizeDegree) : g.maxFill < g.bufSize := by
  have h2 := g.two_mul_maxFill h
  have hpos : 0 < g.maxFill := Nat.two_pow_pos _
  omega

end HashTableGrower

namespace HashTable

variable {K M : Type} [DecidableEq K] (hash : K → Nat) (zeroKey : K)

/-- The cell where the walk for an element starts: `place` of the hash of its
key. -/
def home (t : HashTable K M) (e : K × M) : Nat := t.grower.place (hash e.1)

/-- What a rehash needs of the table it starts from. -/
structure WellFormed (t : HashTable K M) : Prop where
  sizeDegree_pos : 0 < t.grower.sizeDegree
  buf_above : ∀ i, t.grower.bufSize ≤ i → t.buf i = none
  key_ne_zero : ∀ i e, t.buf i = some e → e.1 ≠ zeroKey
  key_unique : ∀ i j e e', t.buf i = some e → t.buf j = some e' → e.1 = e'.1 → i = j
  mSize_eq : t.mSize = occupiedCount t.grower.bufSize t.buf + if t.zeroValue.isSome then 1 else 0

/-- The invariant of the table between two calls of its methods. -/
structure Inv (t : HashTable K M) : Prop extends WellFormed zeroKey t where
  chain : ∀ i < t.grower.bufSize, ChainWhole t.grower.bufSize (home hash t) t.buf i
  fill_le : occupiedCount t.grower.bufSize t.buf ≤ t.grower.maxFill

/-- The table holds the map `f`: the zero key's value in its own cell, the
value of every other key in the cell of the buffer that holds that key. -/
def Represents (t : HashTable K M) (f : K → Option M) : Prop :=
  f zeroKey = t.zeroValue ∧ ∀ k, k ≠ zeroKey → ∀ v, f k = some v ↔ ∃ i, t.buf i = some (k, v)

/-- Where the walk of `findCell` for `x` stops: an empty cell, or a cell of
`x`. -/
def stopsAt (t : HashTable K M) (x : K) (i : Nat) : Bool := (t.buf i).all fun e => decide (e.1 = x)

variable {hash zeroKey} {t : HashTable K M} {f : K → Option M}

omit [DecidableEq K] in
theorem home_lt (e : K × M) : home hash t e < t.grower.bufSize := t.grower.place_lt _

theorem stopsAt_iff {x : K} {i : Nat} :
    stopsAt t x i = true ↔ t.buf i = none ∨ ∃ v, t.buf i = some (x, v) := by
  unfold stopsAt
  cases hb : t.buf i with
  | none => simp
  | some e => obtain ⟨k, v⟩ := e; simp [eq_comm]

theorem stopsAt_of_isSome {x : K} {i : Nat} {e : K × M} (hb : t.buf i = some e) :
    stopsAt t x i = decide (e.1 = x) := by
  simp [stopsAt, hb]

/-- The walk of `findCell` is the library's `probe`, stopping at `stopsAt`. -/
theorem findCell_eq_probe (t : HashTable K M) (x : K) :
    ∀ fuel p, p < t.grower.bufSize → findCell t x p fuel = probe t.grower.bufSize (stopsAt t x) p fuel
  | 0, _, _ => rfl
  | fuel + 1, p, hp => by
    rw [findCell, probe]
    cases hb : t.buf p with
    | none => simp [stopsAt, hb]
    | some e =>
      obtain ⟨k, v⟩ := e
      by_cases hk : k = x
      · simp [stopsAt, hb, hk]
      · simp only [stopsAt, hb, hk, Option.all_some, decide_false, Bool.false_eq_true, if_false]
        rw [t.grower.next_eq hp]
        exact findCell_eq_probe t x fuel _ (cyclicNext_lt hp)

/-- Where the walk of `findCell` from the home of `x` stops, when some cell is
empty: at an empty cell or a cell of `x`, after cells of other keys. -/
theorem findCell_spec (hash : K → Nat) (hempty : ∃ e < t.grower.bufSize, t.buf e = none) (x : K) :
    findCell t x (t.grower.place (hash x)) t.grower.bufSize < t.grower.bufSize ∧
      stopsAt t x (findCell t x (t.grower.place (hash x)) t.grower.bufSize) = true ∧
      ∀ j < t.grower.bufSize, cyclicDist t.grower.bufSize (t.grower.place (hash x)) j <
          cyclicDist t.grower.bufSize (t.grower.place (hash x))
            (findCell t x (t.grower.place (hash x)) t.grower.bufSize) →
        stopsAt t x j = false := by
  obtain ⟨e, he, hnone⟩ := hempty
  have hstop : stopsAt t x e = true := stopsAt_iff.mpr (.inl hnone)
  rw [findCell_eq_probe t x _ _ (t.grower.place_lt _)]
  exact probe_spec he hstop _ _ (t.grower.place_lt _) (cyclicDist_lt (t.grower.place_lt _) he)

omit [DecidableEq K] in
theorem Inv.occupiedCount_lt (hinv : Inv hash zeroKey t) : occupiedCount t.grower.bufSize t.buf < t.grower.bufSize :=
  Nat.lt_of_le_of_lt hinv.fill_le (t.grower.maxFill_lt hinv.sizeDegree_pos)

omit [DecidableEq K] in
theorem Inv.exists_empty (hinv : Inv hash zeroKey t) : ∃ e < t.grower.bufSize, t.buf e = none :=
  exists_empty_of_occupiedCount_lt hinv.occupiedCount_lt

omit [DecidableEq K] in
theorem Inv.lt_of_isSome (hinv : Inv hash zeroKey t) {i : Nat} (hi : (t.buf i).isSome) :
    i < t.grower.bufSize := by
  by_contra h
  rw [hinv.buf_above i (Nat.le_of_not_lt h)] at hi
  exact Bool.false_ne_true hi

/-- A key in the buffer is found by the walk from its home. -/
theorem findCell_of_mem (hinv : Inv hash zeroKey t) {i : Nat} {x : K} {v : M}
    (hi : t.buf i = some (x, v)) : findCell t x (t.grower.place (hash x)) t.grower.bufSize = i := by
  obtain ⟨hlt, hstop, hbefore⟩ := findCell_spec hash hinv.exists_empty x
  set p := findCell t x (t.grower.place (hash x)) t.grower.bufSize
  set n := t.grower.bufSize
  have hin : i < n := hinv.lt_of_isSome (by simp [hi])
  have hh : t.grower.place (hash x) < n := t.grower.place_lt _
  rcases Nat.lt_trichotomy (cyclicDist n (t.grower.place (hash x)) i)
      (cyclicDist n (t.grower.place (hash x)) p) with hip | hip | hpi
  · -- the walk would have stopped at the cell of `x`
    have := hbefore i hin hip
    simp [stopsAt_of_isSome hi] at this
  · exact (cyclicDist_inj hh hin hlt hip).symm
  · -- the cell of the walk's stop lies on the chain of `x`, so it is taken by `x`
    have htaken := hinv.chain i hin (x, v) hi p hlt hpi
    obtain ⟨e', he'⟩ := Option.isSome_iff_exists.mp htaken
    rcases stopsAt_iff.mp hstop with hnone | ⟨v', hv'⟩
    · rw [hnone] at he'; cases he'
    · have := hinv.key_unique p i _ _ hv' hi rfl
      omega

/-- A key not in the buffer: the walk from its home stops at an empty cell,
after taken cells only. -/
theorem findCell_of_not_mem (hash : K → Nat) (hempty : ∃ e < t.grower.bufSize, t.buf e = none) {x : K}
    (hx : ∀ i v, t.buf i ≠ some (x, v)) :
    t.buf (findCell t x (t.grower.place (hash x)) t.grower.bufSize) = none ∧
      ∀ j < t.grower.bufSize, cyclicDist t.grower.bufSize (t.grower.place (hash x)) j <
          cyclicDist t.grower.bufSize (t.grower.place (hash x))
            (findCell t x (t.grower.place (hash x)) t.grower.bufSize) →
        (t.buf j).isSome := by
  obtain ⟨_, hstop, hbefore⟩ := findCell_spec hash hempty x
  refine ⟨?_, fun j hj hdj => ?_⟩
  · rcases stopsAt_iff.mp hstop with hnone | ⟨v, hv⟩
    · exact hnone
    · exact absurd hv (hx _ v)
  · have hj' := hbefore j hj hdj
    cases hb : t.buf j with
    | none => simp [stopsAt, hb] at hj'
    | some e => rfl

/-! ### What the table holds -/

omit [DecidableEq K] in
/-- A key other than the zero key is in the buffer exactly when the map has it. -/
theorem Represents.not_mem (hrep : Represents zeroKey t f) {k : K} (hk : k ≠ zeroKey) (hv : f k = none) :
    ∀ i v, t.buf i ≠ some (k, v) := by
  intro i v hi
  have := (hrep.2 k hk v).mpr ⟨i, hi⟩
  rw [hv] at this
  cases this

/-- `has` answers whether `find` finds a cell. -/
theorem has_eq_isSome_find (t : HashTable K M) (k : K) :
    has hash zeroKey t k = (find hash zeroKey t k).isSome := by
  unfold has find
  by_cases hk : k = zeroKey
  · simp only [hk, if_true]
    split <;> simp_all
  · simp only [hk, if_false]
    split <;> simp_all

/-- `find` finds a key that the map has, in the cell that holds it with its
value. -/
theorem find_of_some (hinv : Inv hash zeroKey t) (hrep : Represents zeroKey t f) {k : K} {v : M}
    (hv : f k = some v) : ∃ it, find hash zeroKey t k = some it ∧ getValue zeroKey t it = some (k, v) := by
  by_cases hk : k = zeroKey
  · subst hk
    have hz : t.zeroValue = some v := hrep.1 ▸ hv
    exact ⟨.zeroValue, by simp [find, hz], by simp [getValue, hz]⟩
  · obtain ⟨i, hi⟩ := (hrep.2 k hk v).mp hv
    have hp := findCell_of_mem hinv hi
    refine ⟨.cell i, ?_, hi⟩
    simp [find, hk, hp, hi]

/-- `find` finds nothing for a key that the map does not have. -/
theorem find_of_none (hinv : Inv hash zeroKey t) (hrep : Represents zeroKey t f) {k : K}
    (hv : f k = none) : find hash zeroKey t k = none := by
  by_cases hk : k = zeroKey
  · subst hk
    have hz : t.zeroValue = none := hrep.1 ▸ hv
    simp [find, hz]
  · have hp := (findCell_of_not_mem hash hinv.exists_empty (hrep.not_mem hk hv)).1
    simp [find, hk, hp]

/-- `has` answers whether the map has the key. -/
theorem has_eq (hinv : Inv hash zeroKey t) (hrep : Represents zeroKey t f) (k : K) :
    has hash zeroKey t k = (f k).isSome := by
  rw [has_eq_isSome_find]
  cases hv : f k with
  | none => simp [find_of_none hinv hrep hv]
  | some v =>
    obtain ⟨it, hit, -⟩ := find_of_some hinv hrep hv
    simp [hit]

/-! ### A new element, and a new value -/

section Update

variable {p : Nat} {x : K} {v : M}

omit [DecidableEq K] in
/-- A new element in an empty cell, counted: the table stays well formed. -/
theorem WellFormed.insertAt (hwf : WellFormed zeroKey t) (hp : p < t.grower.bufSize) (hnone : t.buf p = none)
    (hx0 : x ≠ zeroKey) (hx : ∀ i v, t.buf i ≠ some (x, v)) :
    WellFormed zeroKey { t with buf := Function.update t.buf p (some (x, v)), mSize := t.mSize + 1 } where
  sizeDegree_pos := hwf.sizeDegree_pos
  buf_above i hi := by
    dsimp only at hi ⊢
    rw [Function.update_of_ne (by omega)]
    exact hwf.buf_above i hi
  key_ne_zero i e he := by
    dsimp only at he
    rw [Function.update_apply] at he
    split_ifs at he with hip
    · cases he
      exact hx0
    · exact hwf.key_ne_zero i e he
  key_unique i j e e' hi hj hee := by
    dsimp only at hi hj
    rw [Function.update_apply] at hi hj
    split_ifs at hi hj with hip hjp hjp
    · rw [hip, hjp]
    · cases hi
      obtain ⟨k', v'⟩ := e'
      cases hee
      exact absurd hj (hx j v')
    · cases hj
      obtain ⟨k', v'⟩ := e
      cases hee
      exact absurd hi (hx i v')
    · exact hwf.key_unique i j e e' hi hj hee
  mSize_eq := by
    dsimp only
    rw [occupiedCount_update_some hp hnone, hwf.mSize_eq]
    omega

/-- A new element in the empty cell where the walk from its home stopped
keeps every chain whole. -/
theorem insertAt_chain (hinv : Inv hash zeroKey t) (hx : ∀ i v, t.buf i ≠ some (x, v)) :
    ∀ i < t.grower.bufSize, ChainWhole t.grower.bufSize (home hash t)
      (Function.update t.buf (findCell t x (t.grower.place (hash x)) t.grower.bufSize) (some (x, v))) i := by
  obtain ⟨hnone, hrun⟩ := findCell_of_not_mem hash hinv.exists_empty hx
  intro i hi
  by_cases hip : i = findCell t x (t.grower.place (hash x)) t.grower.bufSize
  · subst hip
    exact chainWhole_update_of_run hnone hrun
  · refine (hinv.chain i hi).mono (fun j hj => ?_) (Function.update_of_ne hip _ _)
    rw [Function.update_apply]
    split_ifs <;> simp [hj]

/-- A new element in an empty cell adds its key to the map. -/
theorem Represents.insertAt (hrep : Represents zeroKey t f) (hnone : t.buf p = none) (hx0 : x ≠ zeroKey)
    (hx : ∀ i v, t.buf i ≠ some (x, v)) :
    Represents zeroKey { t with buf := Function.update t.buf p (some (x, v)), mSize := t.mSize + 1 }
      (Function.update f x (some v)) := by
  refine ⟨by rw [Function.update_of_ne (Ne.symm hx0)]; exact hrep.1, fun k hk v' => ?_⟩
  dsimp only
  by_cases hkx : k = x
  · subst hkx
    rw [Function.update_self]
    constructor
    · rintro ⟨⟩
      exact ⟨p, by simp⟩
    · rintro ⟨i, hi⟩
      rcases update_some_eq_some_iff.mp hi with ⟨-, hy⟩ | ⟨-, hi⟩
      · cases hy
        rfl
      · exact absurd hi (hx i v')
  · rw [Function.update_of_ne hkx, hrep.2 k hk v']
    constructor
    · rintro ⟨i, hi⟩
      refine ⟨i, update_some_eq_some_iff.mpr (.inr ⟨?_, hi⟩)⟩
      rintro rfl
      rw [hnone] at hi
      cases hi
    · rintro ⟨i, hi⟩
      rcases update_some_eq_some_iff.mp hi with ⟨-, hy⟩ | ⟨-, hi⟩
      · cases hy
        exact absurd rfl hkx
      · exact ⟨i, hi⟩

omit [DecidableEq K] in
/-- A new value in the cell of a key: the invariant holds on. -/
theorem Inv.setAt (hinv : Inv hash zeroKey t) {k : K} {v₀ : M} (hp : t.buf p = some (k, v₀)) (v : M) :
    Inv hash zeroKey { t with buf := Function.update t.buf p (some (k, v)) } := by
  have hocc : ∀ i, (Function.update t.buf p (some (k, v)) i).isSome = (t.buf i).isSome := by
    intro i
    rw [Function.update_apply]
    split_ifs with hip <;> simp [hip, hp]
  have hcount : occupiedCount t.grower.bufSize (Function.update t.buf p (some (k, v))) =
      occupiedCount t.grower.bufSize t.buf := occupiedCount_congr fun i _ => hocc i
  -- each cell holds the key it held in `t`
  have hkey : ∀ i e, Function.update t.buf p (some (k, v)) i = some e →
      ∃ e₀, t.buf i = some e₀ ∧ e₀.1 = e.1 := by
    intro i e he
    rcases update_some_eq_some_iff.mp he with ⟨rfl, rfl⟩ | ⟨-, he⟩
    · exact ⟨_, hp, rfl⟩
    · exact ⟨e, he, rfl⟩
  refine ⟨⟨hinv.sizeDegree_pos, fun i hi => ?_, fun i e he => ?_, fun i j e e' hi hj hee => ?_, ?_⟩,
    ChainWhole.update_of_home hinv.chain hp rfl, by simpa [hcount] using hinv.fill_le⟩
  · have hnone := hinv.buf_above i hi
    dsimp only
    rw [← Option.not_isSome_iff_eq_none, hocc i, Option.not_isSome_iff_eq_none]
    exact hnone
  · obtain ⟨e₀, he₀, hk₀⟩ := hkey i e he
    rw [← hk₀]
    exact hinv.key_ne_zero i e₀ he₀
  · obtain ⟨e₀, hi₀, hk₀⟩ := hkey i e hi
    obtain ⟨e₀', hj₀, hk₀'⟩ := hkey j e' hj
    exact hinv.key_unique i j e₀ e₀' hi₀ hj₀ (by rw [hk₀, hk₀', hee])
  · dsimp only
    rw [hcount]
    exact hinv.mSize_eq

/-- A new value in the cell of a key is the map's new value for the key. -/
theorem Represents.setAt (hwf : WellFormed zeroKey t) (hrep : Represents zeroKey t f) {k : K} {v₀ : M}
    (hp : t.buf p = some (k, v₀)) (v : M) :
    Represents zeroKey { t with buf := Function.update t.buf p (some (k, v)) } (Function.update f k (some v)) := by
  have hk0 : k ≠ zeroKey := hwf.key_ne_zero p _ hp
  refine ⟨by rw [Function.update_of_ne (Ne.symm hk0)]; exact hrep.1, fun k' hk' v' => ?_⟩
  dsimp only
  by_cases hkk : k' = k
  · subst hkk
    rw [Function.update_self]
    constructor
    · rintro ⟨⟩
      exact ⟨p, by simp⟩
    · rintro ⟨i, hi⟩
      rcases update_some_eq_some_iff.mp hi with ⟨-, hy⟩ | ⟨hip, hi⟩
      · cases hy
        rfl
      · exact absurd (hwf.key_unique i p _ _ hi hp rfl) hip
  · rw [Function.update_of_ne hkk, hrep.2 k' hk' v']
    constructor
    · rintro ⟨i, hi⟩
      refine ⟨i, update_some_eq_some_iff.mpr (.inr ⟨?_, hi⟩)⟩
      rintro rfl
      rw [hp] at hi
      cases hi
      exact hkk rfl
    · rintro ⟨i, hi⟩
      rcases update_some_eq_some_iff.mp hi with ⟨-, hy⟩ | ⟨-, hi⟩
      · cases hy
        exact absurd rfl hkk
      · exact ⟨i, hi⟩

end Update

end HashTable

end Daisy.Common
