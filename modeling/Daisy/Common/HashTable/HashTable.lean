import Daisy.Library.Cyclic
import Daisy.Storages.DistributedMergeTree.Sequences
import Mathlib.Algebra.Group.Nat.Defs
import Mathlib.Data.List.Basic
import Mathlib.Logic.Function.Basic

/-!
# `HashTable`

`Common/HashTable/HashTable.h`: an open-addressing hash table with linear
probing by single steps. The buffer has `2 ^ size_degree` cells; a key goes
to the cell `hash & mask` or, where that is taken, to the first empty cell
after it, going round the buffer. The zero key is not put in the buffer,
whose empty cells hold it, but in a cell of its own. Past half full, the
buffer grows and its elements are moved in place (`resize`, `reinsert`).
`erase` keeps the chains of the other keys whole without tombstones, by
moving back into the freed cell each later element of the chain whose own
cell does not lie between the freed cell and where it is.

## The model

The buffer is a function from the index of a cell to its content, `none`
for an empty cell, so that `memcpy`, `setZero` and `realloc` are updates of
it. A cell holds its key and mapped value; the hash a cell may save is the
hash of its key, so `getHash` is `hash` of the key. The hash function and the
zero key are parameters, as are the types of keys and values. A
`LookupResult` is the zero cell or the index of a cell. The mapped value
that the caller constructs in a new cell is an argument of `emplace`. Each
loop of the source runs on fuel: the buffer's size for the walks of
`findCell` and `erase`, which stop at an empty cell, and the cells of the
new buffer for the last loop of `resize`.

## Scope

`findEmptyCell` and `insertUniqueNonZero`, used to merge tables, are not
modelled, nor is the table's serialization. `set` takes `log2` as the floor
of the base-two logarithm, which the source computes in floating point. A
failed allocation in `resize` is not modelled. The `assert` of `erase` stops a
debug build (`Build`, as for the other asserts of the code).
-/

namespace Daisy.Common

open Daisy.Library
open Daisy.DistributedMergeTree (Build Failure assert)

/-- `HashTableGrower<initial_size_degree>`. -/
structure HashTableGrower where
  /-- `initial_size_degree`, the template parameter. -/
  initialSizeDegree : Nat
  /-- `size_degree`. -/
  sizeDegree : Nat

namespace HashTableGrower

/-- The grower of a new table. -/
def make (initialSizeDegree : Nat) : HashTableGrower := ⟨initialSizeDegree, initialSizeDegree⟩

/-- `bufSize()`. -/
def bufSize (g : HashTableGrower) : Nat := 2 ^ g.sizeDegree

/-- `maxFill()`. -/
def maxFill (g : HashTableGrower) : Nat := 2 ^ (g.sizeDegree - 1)

/-- `mask()`. -/
def mask (g : HashTableGrower) : Nat := g.bufSize - 1

/-- `place(x)`: the cell of a hash value. -/
def place (g : HashTableGrower) (x : Nat) : Nat := x &&& g.mask

/-- `next(pos)`: the next cell of a collision resolution chain. -/
def next (g : HashTableGrower) (pos : Nat) : Nat := (pos + 1) &&& g.mask

/-- `overflow(elems)`. -/
def overflow (g : HashTableGrower) (elems : Nat) : Bool := decide (elems > g.maxFill)

/-- `increaseSize()`. -/
def increaseSize (g : HashTableGrower) : HashTableGrower :=
  { g with sizeDegree := g.sizeDegree + if g.sizeDegree ≥ 23 then 1 else 2 }

/-- `set(num_elems)`. -/
def set (g : HashTableGrower) (numElems : Nat) : HashTableGrower :=
  { g with sizeDegree :=
      if numElems ≤ 1 then g.initialSizeDegree
      else if g.initialSizeDegree > Nat.log2 (numElems - 1) + 2 then g.initialSizeDegree
      else Nat.log2 (numElems - 1) + 2 }

/-- `setBufSize(buf_size)`. -/
def setBufSize (g : HashTableGrower) (bufSize : Nat) : HashTableGrower :=
  { g with sizeDegree := Nat.log2 (bufSize - 1) + 1 }

end HashTableGrower

/-- `HashTable` with cells of keys `K` and mapped values `M`. -/
structure HashTable (K M : Type) where
  /-- `m_size`: the number of elements, the zero key's included. -/
  mSize : Nat
  /-- `buf`: the content of each cell. -/
  buf : Nat → Option (K × M)
  /-- `grower`. -/
  grower : HashTableGrower
  /-- The cell of the zero key: its mapped value, where `hasZero()`. -/
  zeroValue : Option M

/-- A `LookupResult`. -/
inductive LookupResult where
  /-- `zeroValue()`. -/
  | zeroValue
  /-- `&buf[place]`. -/
  | cell (place : Nat)
  deriving DecidableEq

namespace HashTable

variable {K M : Type} [DecidableEq K] (hash : K → Nat) (zeroKey : K)

/-- `HashTable()`: an empty buffer of the initial size. -/
def make (initialSizeDegree : Nat) : HashTable K M :=
  ⟨0, fun _ => none, HashTableGrower.make initialSizeDegree, none⟩

/-- `findCell(x, hash_value, place_value)`: from the cell, the first cell of
the key or the first empty one, within `fuel` steps. -/
def findCell (t : HashTable K M) (x : K) (placeValue : Nat) : Nat → Nat
  | 0 => placeValue
  | fuel + 1 =>
    match t.buf placeValue with
    | none => placeValue
    | some (key, _) => if key = x then placeValue else findCell t x (t.grower.next placeValue) fuel

/-- `reinsert(x, hash_value)` for the cell at `i`: its element goes to its
cell in the buffer now, or to the first empty cell after that one, unless
the walk from there finds it where it is. It returns the cell where the
element is. -/
def reinsert (t : HashTable K M) (i : Nat) : Nat × HashTable K M :=
  match t.buf i with
  | none => (i, t)
  | some (key, mapped) =>
    let placeValue := t.grower.place (hash key)
    if placeValue = i then (placeValue, t)
    else
      let placeValue := findCell t key placeValue t.grower.bufSize
      if (t.buf placeValue).isSome then (placeValue, t)
      else (placeValue, { t with buf := Function.update (Function.update t.buf placeValue (some (key, mapped))) i none })

/-- The first loop of `resize`: each element of the old buffer reinserted,
in the order of the cells. -/
def reinsertOld (t : HashTable K M) (oldSize : Nat) : HashTable K M :=
  (List.range oldSize).foldl (fun t i => if (t.buf i).isSome then (reinsert hash t i).2 else t) t

/-- The second loop of `resize`: the elements from the cell `i` on, up to the
first empty cell, reinserted. -/
def reinsertTail (t : HashTable K M) (i : Nat) : Nat → HashTable K M
  | 0 => t
  | fuel + 1 =>
    if i < t.grower.bufSize ∧ (t.buf i).isSome then reinsertTail (reinsert hash t i).2 (i + 1) fuel else t

/-- `resize(for_num_elems, for_buf_size)`: the buffer grows, to the size of
`set(for_num_elems)` or `setBufSize(for_buf_size)` where they are given and
larger, or by `increaseSize()` where neither is given; the new cells are
empty and the elements are moved in place. -/
def resize (t : HashTable K M) (forNumElems forBufSize : Nat) : HashTable K M :=
  let oldSize := t.grower.bufSize
  let newGrower :=
    if forNumElems ≠ 0 then t.grower.set forNumElems
    else if forBufSize ≠ 0 then t.grower.setBufSize forBufSize
    else t.grower.increaseSize
  if (forNumElems ≠ 0 ∨ forBufSize ≠ 0) ∧ newGrower.bufSize ≤ oldSize then t
  else
    let t := { t with buf := fun i => if i < oldSize then t.buf i else none, grower := newGrower }
    let t := reinsertOld hash t oldSize
    reinsertTail hash t oldSize (newGrower.bufSize - oldSize)

/-- `reserve(num_elements)`. -/
def reserve (t : HashTable K M) (numElements : Nat) : HashTable K M := resize hash t numElements 0

/-- `emplaceNonZeroImpl(place_value, key, it, inserted, hash_value)`: a new
element in the empty cell, and the buffer grown where it is past half full. -/
def emplaceNonZeroImpl (t : HashTable K M) (placeValue : Nat) (key : K) (mapped : M) :
    (LookupResult × Bool) × HashTable K M :=
  if (t.buf placeValue).isSome then ((.cell placeValue, false), t)
  else
    let t := { t with buf := Function.update t.buf placeValue (some (key, mapped)), mSize := t.mSize + 1 }
    if t.grower.overflow t.mSize then
      let t := resize hash t 0 0
      -- the table was rehashed, so the key is found again
      ((.cell (findCell t key (t.grower.place (hash key)) t.grower.bufSize), true), t)
    else ((.cell placeValue, true), t)

/-- `emplaceNonZero(key, it, inserted, hash_value)`. -/
def emplaceNonZero (t : HashTable K M) (key : K) (mapped : M) : (LookupResult × Bool) × HashTable K M :=
  emplaceNonZeroImpl hash t (findCell t key (t.grower.place (hash key)) t.grower.bufSize) key mapped

/-- `emplace(key, it, inserted)`, with the mapped value the caller constructs
in a new cell: the zero key in its own cell (`emplaceIfZero`), any other in
the buffer. -/
def emplace (t : HashTable K M) (key : K) (mapped : M) : (LookupResult × Bool) × HashTable K M :=
  if key = zeroKey then
    if t.zeroValue.isSome then ((.zeroValue, false), t)
    else ((.zeroValue, true), { t with mSize := t.mSize + 1, zeroValue := some mapped })
  else emplaceNonZero hash t key mapped

/-- `insert(x)`: `emplace`, the mapped value set where the key is new. -/
def insert (t : HashTable K M) (x : K × M) : (LookupResult × Bool) × HashTable K M :=
  emplace hash zeroKey t x.1 x.2

/-- The mapped value of a `LookupResult` set, as the caller of `emplace` does
through it. -/
def setMapped (t : HashTable K M) (it : LookupResult) (mapped : M) : HashTable K M :=
  match it with
  | .zeroValue => if t.zeroValue.isSome then { t with zeroValue := some mapped } else t
  | .cell p =>
    match t.buf p with
    | some (key, _) => { t with buf := Function.update t.buf p (some (key, mapped)) }
    | none => t

/-- `find(x)`. -/
def find (t : HashTable K M) (x : K) : Option LookupResult :=
  if x = zeroKey then if t.zeroValue.isSome then some .zeroValue else none
  else
    let placeValue := findCell t x (t.grower.place (hash x)) t.grower.bufSize
    if (t.buf placeValue).isSome then some (.cell placeValue) else none

/-- `has(x)`. -/
def has (t : HashTable K M) (x : K) : Bool :=
  if x = zeroKey then t.zeroValue.isSome
  else (t.buf (findCell t x (t.grower.place (hash x)) t.grower.bufSize)).isSome

/-- The key and mapped value a `LookupResult` points to. -/
def getValue (t : HashTable K M) : LookupResult → Option (K × M)
  | .zeroValue => t.zeroValue.map fun mapped => (zeroKey, mapped)
  | .cell p => t.buf p

/-- The loop of `erase` to the right of the freed cell: each element of the
chain after it whose own cell does not lie between the freed cell and where
it is moves into the freed cell, whose place it takes. It returns the
buffer and the cell freed last. -/
def eraseLoop (t : HashTable K M) (erasedKeyPosition nextPosition : Nat) : Nat → HashTable K M × Nat
  | 0 => (t, erasedKeyPosition)
  | fuel + 1 =>
    let nextPosition := t.grower.next nextPosition
    match t.buf nextPosition with
    | none => (t, erasedKeyPosition)
    | some (key, mapped) =>
      let optimalPosition := t.grower.place (hash key)
      if optimalPosition = nextPosition then eraseLoop t erasedKeyPosition nextPosition fuel
      -- the case of the non overlapping part of the chain
      else if nextPosition > erasedKeyPosition ∧ optimalPosition > erasedKeyPosition ∧
          optimalPosition < nextPosition then eraseLoop t erasedKeyPosition nextPosition fuel
      -- the case of the overlapping chain
      else if nextPosition < erasedKeyPosition ∧
          (optimalPosition > erasedKeyPosition ∨ optimalPosition < nextPosition) then
        eraseLoop t erasedKeyPosition nextPosition fuel
      else
        eraseLoop { t with buf := Function.update t.buf erasedKeyPosition (some (key, mapped)) } nextPosition
          nextPosition fuel

/-- `erase(x)`: whether the key was there, and the table without it. A debug
build stops at `assert(m_size < grower.bufSize())` before the loop. -/
def erase (b : Build) (t : HashTable K M) (x : K) : Except Failure (Bool × HashTable K M) :=
  if x = zeroKey then
    if t.zeroValue.isSome then pure (true, { t with mSize := t.mSize - 1, zeroValue := none }) else pure (false, t)
  else
    let erasedKeyPosition := findCell t x (t.grower.place (hash x)) t.grower.bufSize
    if (t.buf erasedKeyPosition).isNone then pure (false, t)
    else do
      -- We need to guarantee loop termination because there will be empty position
      assert b (decide (t.mSize < t.grower.bufSize)) "m_size < grower.bufSize()"
      let (t, erasedKeyPosition) := eraseLoop hash t erasedKeyPosition erasedKeyPosition t.grower.bufSize
      pure (true, { t with buf := Function.update t.buf erasedKeyPosition none, mSize := t.mSize - 1 })

/-- `size()`. -/
def size (t : HashTable K M) : Nat := t.mSize

/-- The elements the iterator visits from `begin()` to `end()`: the zero key
first, where it is there, then the cells of the buffer in order. -/
def iterate (t : HashTable K M) : List (K × M) :=
  (t.zeroValue.map fun mapped => (zeroKey, mapped)).toList ++ (List.range t.grower.bufSize).filterMap t.buf

end HashTable

end Daisy.Common
