import Daisy.Compression.ICompressionCodec

/-!
# `T64`

`Compression/CompressionCodecT64.cpp` compresses integers of 1, 2, 4 or 8
bytes by blocks of 64. It writes the least and the greatest value, widened to
64 bits, and keeps of each value only the bits in which they differ
(`getValuableBitsNumber`), with one bit more for the sign when a signed range
crosses zero. A block is the 64 values' bytes as a matrix, one row for each
byte of the values: the `Byte` variant writes the whole rows it keeps and
turns the row of the last bits into bit planes (`transpose64x8`); the `Bit`
variant turns every row kept into bit planes. The decoder puts the dropped
upper bits back from the least and the greatest value.

## The model

A value is a `BitVec` of its width, signed or not as its base type
(`BaseType`); the least and the greatest are `BitVec 64`s, sign-extended
for the signed types (`MinMaxType`). The matrix of `UInt64[64]` is its bytes
in memory, eight rows of 64. For an empty source `findMinMax` starts from a
value read past its end; with no other value the least and the greatest are
that one, and nothing else depends on it: the model reads `0`.
`getCompressedReserveSize` is in `UInt32`, as `getMaxCompressedDataSize`.

## What is proved

* `transpose_length`: a block takes eight bytes for each bit kept;
  `compressData_length`, the bytes of a whole source.
* `le_findMinMax`: the least and the greatest bound every value.
* `compress_overruns_reserve`: for every type, both variants and every
  source of at least `2^32 - 538` bytes whose first two values differ, the
  block `compress` writes is longer than `getCompressedReserveSize`, which
  wraps.
-/

namespace Daisy.Compression.CompressionCodecT64

open Daisy.IO Daisy.Library

/-- The types `T64` takes (`typeIdx`). -/
inductive TypeIndex where
  | uInt8 | uInt16 | uInt32 | uInt64 | int8 | int16 | int32 | int64
  | date | dateTime | dateTime64 | enum8 | enum16 | decimal32 | decimal64
  deriving DecidableEq, Repr

/-- `serializeTypeId`: the type's `MagicNumber`. -/
def serializeTypeId : TypeIndex → UInt8
  | .uInt8 => 1 | .uInt16 => 2 | .uInt32 => 3 | .uInt64 => 4
  | .int8 => 6 | .int16 => 7 | .int32 => 8 | .int64 => 9
  | .date => 13 | .dateTime => 14 | .dateTime64 => 15 | .enum8 => 17 | .enum16 => 18
  | .decimal32 => 19 | .decimal64 => 20

/-- `deserializeTypeId`: the type of a `MagicNumber`, or "Bad magic number in
T64 codec". -/
def deserializeTypeId (magic : UInt8) : Except CodecError TypeIndex :=
  match magic with
  | 1 => pure .uInt8 | 2 => pure .uInt16 | 3 => pure .uInt32 | 4 => pure .uInt64
  | 6 => pure .int8 | 7 => pure .int16 | 8 => pure .int32 | 9 => pure .int64
  | 13 => pure .date | 14 => pure .dateTime | 15 => pure .dateTime64 | 17 => pure .enum8 | 18 => pure .enum16
  | 19 => pure .decimal32 | 20 => pure .decimal64
  | _ => throw (.badMagicNumber magic.toNat)

/-- The types `compressData` and `decompressData` are instantiated with. -/
inductive BaseType where
  | int8 | int16 | int32 | int64 | uInt8 | uInt16 | uInt32 | uInt64
  deriving DecidableEq, Repr

namespace BaseType

/-- `sizeof(T)`. -/
def width : BaseType → Nat
  | .int8 | .uInt8 => 1
  | .int16 | .uInt16 => 2
  | .int32 | .uInt32 => 4
  | .int64 | .uInt64 => 8

/-- `is_signed_v<T>`. -/
def isSigned : BaseType → Bool
  | .int8 | .int16 | .int32 | .int64 => true
  | _ => false

theorem width_pos (t : BaseType) : 0 < t.width := by cases t <;> decide

theorem width_le (t : BaseType) : t.width ≤ 8 := by cases t <;> decide

end BaseType

/-- `baseType(type_idx)`. -/
def baseType : TypeIndex → BaseType
  | .int8 => .int8
  | .int16 => .int16
  | .int32 | .decimal32 => .int32
  | .int64 | .decimal64 | .dateTime64 => .int64
  | .uInt8 | .enum8 => .uInt8
  | .uInt16 | .enum16 | .date => .uInt16
  | .uInt32 | .dateTime => .uInt32
  | .uInt64 => .uInt64

/-- `CompressionCodecT64::Variant`. -/
inductive Variant where
  | byte | bit
  deriving DecidableEq, Repr

section Values

variable (t : BaseType)

/-- `T`'s `<`. -/
def lt (a b : BitVec (8 * t.width)) : Bool := if t.isSigned then a.slt b else a.ult b

/-- A value as `MinMaxType`: `Int64` for a signed `T`, `UInt64` for another. -/
def toMinMaxType (v : BitVec (8 * t.width)) : BitVec 64 := if t.isSigned then v.signExtend 64 else v.setWidth 64

/-- One turn of the loop of `findMinMax`. -/
def minMaxStep (acc : BitVec (8 * t.width) × BitVec (8 * t.width)) (current : BitVec (8 * t.width)) :
    BitVec (8 * t.width) × BitVec (8 * t.width) :=
  (if lt t current acc.1 then current else acc.1, if lt t acc.2 current then current else acc.2)

/-- `findMinMax<T>(src, src_size, min, max)`: from the first value, the least
and the greatest of all. -/
def findMinMax (first : BitVec (8 * t.width)) (values : List (BitVec (8 * t.width))) :
    BitVec (8 * t.width) × BitVec (8 * t.width) :=
  values.foldl (minMaxStep t) (first, first)

/-- The least and the greatest value of a source, as `MinMaxType`. -/
def minMax (source : List UInt8) : BitVec 64 × BitVec 64 :=
  let (min, max) := findMinMax t (loadValue t.width source) (loadValues t.width (source.length / t.width) source)
  (toMinMaxType t min, toMinMaxType t max)

/-- The place of a value in `T`'s order. -/
def key (v : BitVec (8 * t.width)) : Int := if t.isSigned then v.toInt else v.toNat

theorem lt_eq_decide (a b : BitVec (8 * t.width)) : lt t a b = decide (key t a < key t b) := by
  unfold lt key
  split
  · exact BitVec.slt_eq_decide
  · rw [BitVec.ult_eq_decide]; simp

theorem key_injective {a b : BitVec (8 * t.width)} (h : key t a = key t b) : a = b := by
  unfold key at h
  split at h
  · exact BitVec.eq_of_toInt_eq h
  · exact BitVec.eq_of_toNat_eq (by exact_mod_cast h)

theorem minMaxStep_key (acc : BitVec (8 * t.width) × BitVec (8 * t.width)) (current : BitVec (8 * t.width)) :
    key t (minMaxStep t acc current).1 = min (key t current) (key t acc.1) ∧
      key t (minMaxStep t acc current).2 = max (key t acc.2) (key t current) := by
  simp only [minMaxStep, lt_eq_decide]
  constructor
  · split <;> rename_i h <;> simp at h <;> omega
  · split <;> rename_i h <;> simp at h <;> omega

/-- The loop of `findMinMax` keeps a least and a greatest below and above
every value it has seen. -/
theorem foldl_minMaxStep : ∀ (values : List (BitVec (8 * t.width))) (acc : BitVec (8 * t.width) × BitVec (8 * t.width)),
    key t (values.foldl (minMaxStep t) acc).1 ≤ key t acc.1 ∧ key t acc.2 ≤ key t (values.foldl (minMaxStep t) acc).2 ∧
      ∀ v ∈ values, key t (values.foldl (minMaxStep t) acc).1 ≤ key t v ∧ key t v ≤ key t (values.foldl (minMaxStep t) acc).2
  | [], acc => by simp
  | current :: values, acc => by
    obtain ⟨hmin, hmax, hall⟩ := foldl_minMaxStep values (minMaxStep t acc current)
    obtain ⟨hstep₁, hstep₂⟩ := minMaxStep_key t acc current
    simp only [List.foldl_cons, List.mem_cons, forall_eq_or_imp]
    refine ⟨by omega, by omega, ⟨by omega, by omega⟩, hall⟩

/-- The least and the greatest bound every value. -/
theorem le_findMinMax (first : BitVec (8 * t.width)) (values : List (BitVec (8 * t.width))) {v : BitVec (8 * t.width)}
    (hv : v ∈ values) : key t (findMinMax t first values).1 ≤ key t v ∧ key t v ≤ key t (findMinMax t first values).2 :=
  (foldl_minMaxStep t values (first, first)).2.2 v hv

/-- Two values that differ make the least and the greatest differ. -/
theorem findMinMax_ne {first a b : BitVec (8 * t.width)} {values : List (BitVec (8 * t.width))}
    (ha : a ∈ values) (hb : b ∈ values) (hab : a ≠ b) : (findMinMax t first values).1 ≠ (findMinMax t first values).2 := by
  intro heq
  have hka := le_findMinMax t first values ha
  have hkb := le_findMinMax t first values hb
  rw [heq] at hka hkb
  exact hab (key_injective t (by omega))

theorem toMinMaxType_injective {a b : BitVec (8 * t.width)} (h : toMinMaxType t a = toMinMaxType t b) : a = b := by
  have hw : 8 * t.width ≤ 64 := by have := t.width_le; omega
  unfold toMinMaxType at h
  split at h
  · apply BitVec.eq_of_toInt_eq
    have := congrArg BitVec.toInt h
    rwa [BitVec.toInt_signExtend_of_le hw, BitVec.toInt_signExtend_of_le hw] at this
  · apply BitVec.eq_of_toNat_eq
    have := congrArg BitVec.toNat h
    rwa [BitVec.toNat_setWidth_of_le hw, BitVec.toNat_setWidth_of_le hw] at this

/-- A source whose first two values differ has a least and a greatest that
differ. -/
theorem minMax_ne {source : List UInt8} (htwo : 2 * t.width ≤ source.length)
    (hne : loadValue t.width source ≠ loadValue t.width (source.drop t.width)) : (minMax t source).1 ≠ (minMax t source).2 := by
  obtain ⟨k, hk⟩ : ∃ k, source.length / t.width = k + 2 :=
    ⟨source.length / t.width - 2, by have := (Nat.le_div_iff_mul_le t.width_pos).mpr (by omega : 2 * t.width ≤ source.length); omega⟩
  have hmem₁ : loadValue t.width source ∈ loadValues t.width (source.length / t.width) source := by
    simp [hk, loadValues]
  have hmem₂ : loadValue t.width (source.drop t.width) ∈ loadValues t.width (source.length / t.width) source := by
    simp [hk, loadValues]
  intro heq
  exact findMinMax_ne t hmem₁ hmem₂ hne (toMinMaxType_injective t heq)

end Values

/-- `getValuableBitsNumber(UInt64 min, UInt64 max)`: `64 - __builtin_clzll` of
the bits in which they differ. -/
def getValuableBitsNumberUnsigned (min max : BitVec 64) : Nat :=
  let diffBits := min ^^^ max
  if diffBits ≠ 0 then diffBits.toNat.log2 + 1 else 0

/-- `getValuableBitsNumber(Int64 min, Int64 max)`: a range that crosses zero
keeps one bit more than the greater of its ends needs. -/
def getValuableBitsNumberSigned (min max : BitVec 64) : Nat :=
  if min.toInt < 0 ∧ 0 ≤ max.toInt then
    if 0 ≤ min.toInt + max.toInt then getValuableBitsNumberUnsigned 0 max + 1
    else getValuableBitsNumberUnsigned 0 (~~~min) + 1
  else getValuableBitsNumberUnsigned min max

/-- The overload of `getValuableBitsNumber` for `MinMaxType`. -/
def getValuableBitsNumber (t : BaseType) (min max : BitVec 64) : Nat :=
  if t.isSigned then getValuableBitsNumberSigned min max else getValuableBitsNumberUnsigned min max

theorem getValuableBitsNumberUnsigned_le {a b : BitVec 64} {k : Nat} (h : (a ^^^ b).toNat < 2 ^ k) :
    getValuableBitsNumberUnsigned a b ≤ k := by
  dsimp only [getValuableBitsNumberUnsigned]
  split
  · rename_i hne
    have hne' : (a ^^^ b).toNat ≠ 0 := fun h0 => hne (BitVec.eq_of_toNat_eq (by simpa using h0))
    have := (Nat.log2_lt hne').mpr h
    omega
  · omega

theorem getValuableBitsNumberUnsigned_pos {a b : BitVec 64} (h : a ≠ b) : 0 < getValuableBitsNumberUnsigned a b := by
  dsimp only [getValuableBitsNumberUnsigned]
  rw [if_pos (fun h0 => h (xor_eq_zero_iff.mp h0))]
  omega

/-- A value below `2^63`, the greater end of a range across zero or its
complement, takes at most 63 bits. -/
theorem getValuableBitsNumberUnsigned_zero_le {x : BitVec 64} (h : x.toNat < 2 ^ 63) :
    getValuableBitsNumberUnsigned 0 x ≤ 63 :=
  getValuableBitsNumberUnsigned_le (by simpa using h)

/-- At most 64 bits are kept, also with the bit for the sign. -/
theorem getValuableBitsNumber_le (t : BaseType) (a b : BitVec 64) : getValuableBitsNumber t a b ≤ 64 := by
  unfold getValuableBitsNumber getValuableBitsNumberSigned
  split
  · split
    · rename_i hcross
      split
      · -- the greater end is not negative: it holds in 63 bits
        have hmax : b.toNat < 2 ^ 63 := by
          have := b.toInt_eq_toNat_cond; split at this <;> omega
        have := getValuableBitsNumberUnsigned_zero_le hmax
        omega
      · have hmin : (~~~a).toNat < 2 ^ 63 := by
          have := a.toInt_eq_toNat_cond; rw [BitVec.toNat_not]; split at this <;> omega
        have := getValuableBitsNumberUnsigned_zero_le hmin
        omega
    · exact getValuableBitsNumberUnsigned_le (BitVec.isLt _)
  · exact getValuableBitsNumberUnsigned_le (BitVec.isLt _)

/-- A least and a greatest that differ keep a bit at least. -/
theorem getValuableBitsNumber_pos (t : BaseType) {a b : BitVec 64} (h : a ≠ b) : 0 < getValuableBitsNumber t a b := by
  unfold getValuableBitsNumber getValuableBitsNumberSigned
  split
  · split
    · split <;> omega
    · exact getValuableBitsNumberUnsigned_pos h
  · exact getValuableBitsNumberUnsigned_pos h

/-! ### The matrix -/

/-- `transpose64x8`: from a row of 64 bytes, the eight words whose bit `i` of
word `b` is bit `b` of byte `i`. -/
def transpose64x8 (row : List UInt8) : List UInt8 :=
  (List.range 8).flatMap fun b =>
    writeLE 8 ((List.range 64).foldl (fun dst i => dst ||| ((((row.getD i 0).toNat >>> b) % 2) <<< i)) 0)

@[simp] theorem length_transpose64x8 (row : List UInt8) : (transpose64x8 row).length = 64 := by
  simp [transpose64x8]

/-- `reverseTranspose64x8`: from eight words, the row of 64 bytes whose bit `b`
of byte `i` is bit `i` of word `b`. -/
def reverseTranspose64x8 (row : List UInt8) : List UInt8 :=
  (List.range 64).map fun i =>
    ((List.range 8).foldl (fun dst b => dst ||| (((readLE ((row.drop (8 * b)).take 8) >>> i) % 2) <<< b)) 0).toUInt8

section Matrix

variable (t : BaseType) (full : Bool)

/-- The rows of the matrix after `transposeBytes` of each value: row `j` holds
byte `j` of each, and zeroes past the values and past their width. -/
def matrixRows (values : List (BitVec (8 * t.width))) : List (List UInt8) :=
  (List.range 8).map fun j => (List.range 64).map fun col => (storeValue (values.getD col 0)).getD j 0

/-- `transpose<T, full>(src, dst, num_bits, tail)`: the whole rows of the
bits kept, as bit planes if `full`, then the bit planes of the last bits. -/
def transpose (values : List (BitVec (8 * t.width))) (numBits : Nat) : List UInt8 :=
  let fullBytes := numBits / 8
  let partBits := numBits % 8
  let rows := (matrixRows t values).mapIdx fun j row => if full ∧ j < fullBytes then transpose64x8 row else row
  (rows.take fullBytes).flatten ++
    if partBits ≠ 0 then (transpose64x8 ((matrixRows t values).getD fullBytes [])).take (8 * partBits) else []

/-- `reverseTranspose<T, full>(src, buf, num_bits, tail)`: the `tail` values
of a block, with zeroes for the bits it drops. -/
def reverseTranspose (block : List UInt8) (numBits tail : Nat) : List (BitVec (8 * t.width)) :=
  let fullBytes := numBits / 8
  let partBits := numBits % 8
  let matrix := block.take (8 * numBits) ++ List.replicate (512 - 8 * numBits) 0
  let rows := (List.range 8).map fun j =>
    let row := (matrix.drop (64 * j)).take 64
    if (full ∧ j < fullBytes) ∨ (partBits ≠ 0 ∧ j = fullBytes) then reverseTranspose64x8 row else row
  (List.range tail).map fun col => BitVec.ofNat (8 * t.width) (readLE ((List.range t.width).map fun j => (rows.getD j []).getD col 0))

/-- The blocks `compressData` writes: `numFull` of 64 values, then the rest, if
any. -/
def transposeBlocks (numBits : Nat) : Nat → List (BitVec (8 * t.width)) → List UInt8
  | 0, values => if values = [] then [] else transpose t full values numBits
  | k + 1, values => transpose t full (values.take 64) numBits ++ transposeBlocks numBits k (values.drop 64)

/-- `restoreUpperBits`: the upper bits of the least value put back, or of the
greatest for a value without the sign bit in a range across zero. -/
def restoreUpperBits (upperMin upperMax signBit value : BitVec (8 * t.width)) : BitVec (8 * t.width) :=
  if t.isSigned ∧ signBit ≠ 0 then
    if value &&& signBit ≠ 0 then value ||| upperMin else value ||| upperMax
  else value ||| upperMin

/-- The blocks `decompressData` reads: `numFull` of 64 values, then one of
`tail` values, if any. -/
def reverseBlocks (numBits tail : Nat) : Nat → List UInt8 → List (BitVec (8 * t.width))
  | 0, block => if tail ≠ 0 then reverseTranspose t full (block.take (8 * numBits)) numBits tail else []
  | k + 1, blocks => reverseTranspose t full (blocks.take (8 * numBits)) numBits 64 ++
      reverseBlocks numBits tail k (blocks.drop (8 * numBits))

theorem length_matrixRows (values : List (BitVec (8 * t.width))) : (matrixRows t values).length = 8 := by
  simp [matrixRows]

theorem length_of_mem_matrixRows {values : List (BitVec (8 * t.width))} {row : List UInt8}
    (h : row ∈ matrixRows t values) : row.length = 64 := by
  simp only [matrixRows, List.mem_map, List.mem_range] at h
  obtain ⟨j, -, rfl⟩ := h
  simp

/-- A block takes eight bytes for each bit kept: a row of 64 bytes for each
whole byte, and a word for each bit of the last. -/
theorem transpose_length (values : List (BitVec (8 * t.width))) {numBits : Nat} (hbits : numBits ≤ 64) :
    (transpose t full values numBits).length = 8 * numBits := by
  have hrows : ∀ row ∈ ((matrixRows t values).mapIdx fun j row => if full ∧ j < numBits / 8 then transpose64x8 row else row).take (numBits / 8),
      row.length = 64 := by
    intro row hrow
    obtain ⟨i, hi, rfl⟩ := List.mem_iff_getElem.mp (List.mem_of_mem_take hrow)
    simp only [List.getElem_mapIdx]
    split
    · simp
    · exact length_of_mem_matrixRows t (List.getElem_mem _)
  simp only [transpose, List.length_append, List.length_flatten, List.map_congr_left hrows, List.map_const',
    List.sum_replicate, smul_eq_mul, List.length_take, List.length_mapIdx, length_matrixRows]
  split <;> simp <;> omega

/-- The blocks of `k` times 64 values and of the rest, each of the same size. -/
theorem transposeBlocks_length {numBits : Nat} (hlen : ∀ values, (transpose t full values numBits).length = 8 * numBits) :
    ∀ (k : Nat) (values : List (BitVec (8 * t.width))),
      (transposeBlocks t full numBits k values).length = 8 * numBits * (k + if values.length ≤ 64 * k then 0 else 1)
  | 0, values => by
    by_cases h : values = []
    · simp [transposeBlocks, h]
    · have hpos : ¬ values.length ≤ 0 := by simpa [List.length_eq_zero_iff] using h
      simp [transposeBlocks, h, hlen, hpos]
  | k + 1, values => by
    have hrest := transposeBlocks_length hlen k (values.drop 64)
    have hiff : (values.drop 64).length ≤ 64 * k ↔ values.length ≤ 64 * (k + 1) := by
      simp only [List.length_drop]; omega
    simp only [transposeBlocks, List.length_append, hlen, hrest, hiff]
    split <;> ring

end Matrix

/-! ### The codec -/

section Codec

variable (t : BaseType) (full : Bool)

/-- `compressData<T, full>(src, bytes_size, dst)`: what it writes and the size
it returns. -/
def compressData (source : List UInt8) : Except CodecError (List UInt8 × UInt32) := do
  if source.length % t.width ≠ 0 then throw (.notMultiplier source.length t.width)
  let srcSize := source.length / t.width
  let numFull := srcSize / 64
  let tail := srcSize % 64
  let (min, max) := minMax t source
  let header := writeLE 8 min.toNat ++ writeLE 8 max.toNat
  let numBits := getValuableBitsNumber t min max
  if numBits = 0 then return (header, 16)
  let dstBytes := numFull * (8 * numBits) + if tail ≠ 0 then 8 * numBits else 0
  pure (header ++ transposeBlocks t full numBits numFull (loadValues t.width srcSize source), (16 + dstBytes).toUInt32)

/-- An aligned source is compressed into the header and eight bytes for each
bit kept of each block, and the size returned is the size written, in
`UInt32`. -/
theorem compressData_length {source : List UInt8} (haligned : source.length % t.width = 0) :
    ∃ data size, compressData t full source = .ok (data, size) ∧
      data.length = 16 + 8 * getValuableBitsNumber t (minMax t source).1 (minMax t source).2 * ((source.length / t.width + 63) / 64) ∧
      size.toNat = data.length % 2 ^ 32 := by
  unfold compressData
  simp only [haligned, ne_eq, not_true_eq_false, if_false]
  have hle := getValuableBitsNumber_le t (minMax t source).1 (minMax t source).2
  generalize getValuableBitsNumber t (minMax t source).1 (minMax t source).2 = numBits at hle ⊢
  generalize hsrc : source.length / t.width = srcSize
  -- a block for each 64 values, and one for the rest
  have hblocks : srcSize / 64 + (if srcSize ≤ 64 * (srcSize / 64) then 0 else 1) = (srcSize + 63) / 64 := by
    split <;> omega
  have htail : (if srcSize % 64 ≠ 0 then 8 * numBits else 0) = 8 * numBits * (if srcSize ≤ 64 * (srcSize / 64) then 0 else 1) := by
    have hiff : srcSize ≤ 64 * (srcSize / 64) ↔ srcSize % 64 = 0 := by omega
    by_cases hmod : srcSize % 64 = 0 <;> simp [hmod, hiff]
  split
  · rename_i hzero
    exact ⟨_, _, rfl, by simp [hzero], rfl⟩
  · have hlen : (transposeBlocks t full numBits (srcSize / 64) (loadValues t.width srcSize source)).length =
        8 * numBits * (srcSize / 64 + if srcSize ≤ 64 * (srcSize / 64) then 0 else 1) := by
      rw [transposeBlocks_length t full (fun v => transpose_length t full v hle), length_loadValues]
    refine ⟨_, _, rfl, ?_, ?_⟩
    · simp only [List.length_append, length_writeLE, hlen, hblocks]
    · simp only [List.length_append, length_writeLE, hlen, Nat.toUInt32_eq, UInt32.toNat_ofNat', htail]
      congr 1
      ring

/-- `decompressData<T, full>(src, bytes_size, dst, uncompressed_size)`: the
bytes it writes. -/
def decompressData (source : List UInt8) (uncompressedSize : UInt32) : Except CodecError (List UInt8) := do
  if source.length < 16 then throw (.lessThanT64Header source.length)
  if uncompressedSize.toNat % t.width ≠ 0 then throw (.unexpectedUncompressedSize uncompressedSize.toNat)
  let numElements := uncompressedSize.toNat / t.width
  let min : BitVec 64 := BitVec.ofNat 64 (readLE (source.take 8))
  let max : BitVec 64 := BitVec.ofNat 64 (readLE ((source.drop 8).take 8))
  let blocks := source.drop 16
  let numBits := getValuableBitsNumber t min max
  if numBits = 0 then return (List.replicate numElements (storeValue (min.setWidth (8 * t.width)))).flatten
  let srcShift := 8 * numBits
  if blocks.length = 0 ∨ blocks.length % srcShift ≠ 0 then
    throw (.notMultiplierOfShift blocks.length srcShift)
  let tail := numElements % 64
  let numFull := blocks.length / srcShift - if tail ≠ 0 then 1 else 0
  let upperMin : BitVec (8 * t.width) := if numBits < 64 then BitVec.ofNat _ ((min.toNat >>> numBits) <<< numBits) else 0
  let (upperMax, signBit) : BitVec (8 * t.width) × BitVec (8 * t.width) :=
    if t.isSigned ∧ min.toInt < 0 ∧ 0 ≤ max.toInt ∧ numBits < 64 then
      (BitVec.ofNat _ ((max.toNat >>> numBits) <<< numBits), BitVec.ofNat _ (1 <<< (numBits - 1)))
    else (0, 0)
  pure ((reverseBlocks t full numBits tail numFull blocks).flatMap fun value =>
    storeValue (restoreUpperBits t upperMin upperMax signBit value))

end Codec

/-- `CompressionCodecT64::doCompressData`: the cookie, the type's magic number
with the variant in its high bit, then the data. -/
def doCompressData (type : TypeIndex) (variant : Variant) (source : List UInt8) : Except CodecError (List UInt8 × UInt32) := do
  let cookie := serializeTypeId type ||| (if variant = .bit then 0x80 else 0)
  let (data, size) ← compressData (baseType type) (variant = .bit) source
  pure (cookie :: data, 1 + size)

/-- `CompressionCodecT64::doDecompressData`: the type and the variant the
cookie gives. -/
def doDecompressData (source : List UInt8) (uncompressedSize : UInt32) : Except CodecError (List UInt8) := do
  if source.length = 0 then throw .cannotDecompressWithT64
  let cookie := source.headD 0
  let savedType ← deserializeTypeId (cookie &&& 0x7F)
  decompressData (baseType savedType) (cookie >>> 7 = 1) (source.drop 1) uncompressedSize

/-- `MAX_COMPRESSED_BLOCK_SIZE`. -/
def maxCompressedBlockSize : UInt32 := 8 * 64

/-- `HEADER_SIZE`: the cookie, the least and the greatest value. -/
def headerSize : UInt32 := 1 + 2 * 8

/-- `CompressionCodecT64::getMaxCompressedDataSize`. -/
def getMaxCompressedDataSize (uncompressedSize : UInt32) : UInt32 := uncompressedSize + maxCompressedBlockSize + headerSize

/-- `CompressionCodecT64(type_idx, variant)`. -/
def make (type : TypeIndex) (variant : Variant) : Codec Unit where
  methodByte := 0x93
  getMaxCompressedDataSize uncompressedSize _ := (getMaxCompressedDataSize uncompressedSize, ())
  doCompressData source _ := (doCompressData type variant source, ())
  doDecompressData := doDecompressData

/-- A source of four gibibytes, less at most 538 bytes, has a reserve that
wraps past `2^32` to less than 538 bytes; once two of its values differ, a bit
at least is kept of each of its millions of blocks, and `compress` writes
megabytes past the reserve. -/
theorem compress_overruns_reserve (type : TypeIndex) (variant : Variant) {source : List UInt8}
    (hlarge : 2 ^ 32 - 538 ≤ source.length) (hsmall : source.length < 2 ^ 32)
    (haligned : source.length % (baseType type).width = 0)
    (hne : loadValue (baseType type).width source ≠ loadValue (baseType type).width (source.drop (baseType type).width)) :
    ∃ encoded size, (make type variant).compress source () = (.ok (encoded, size), ()) ∧
      ((make type variant).getCompressedReserveSize source.length.toUInt32 ()).1.toNat < encoded.length := by
  obtain ⟨data, size, hdata, hlen, -⟩ := compressData_length (baseType type) (variant = .bit) haligned
  have hwidth := (baseType type).width_le
  have hbits := getValuableBitsNumber_pos (baseType type) (minMax_ne (baseType type) (by omega) hne)
  refine ⟨_, _, by simp only [Codec.compress, make, doCompressData, hdata]; rfl, ?_⟩
  -- `uncompressed_size + MAX_COMPRESSED_BLOCK_SIZE + HEADER_SIZE`, and the 9 of the block header, in `UInt32`
  have hreserve : ((make type variant).getCompressedReserveSize source.length.toUInt32 ()).1.toNat =
      source.length + 538 - 2 ^ 32 := by
    simp only [Codec.getCompressedReserveSize, make, getMaxCompressedDataSize, UInt32.toNat_add, Compression.headerSize,
      headerSize, maxCompressedBlockSize, Nat.toUInt32_eq, UInt32.toNat_ofNat', UInt32.reduceToNat, UInt32.reduceMul,
      UInt32.reduceAdd]
    omega
  have hdiv : source.length / 8 ≤ source.length / (baseType type).width :=
    Nat.div_le_div_left hwidth (baseType type).width_pos
  generalize getValuableBitsNumber (baseType type) (minMax (baseType type) source).1 (minMax (baseType type) source).2 = numBits
    at hbits hlen
  have hmul := Nat.le_mul_of_pos_left ((source.length / (baseType type).width + 63) / 64) (by omega : 0 < 8 * numBits)
  simp only [List.length_cons, List.length_append, length_writeLE, hlen, hreserve]
  omega

/-- `UInt64`s, a zero and then ones, four gibibytes less eight bytes: the
reserve is 530 bytes. -/
theorem compress_overruns_reserve_uInt64 :
    ∃ encoded size, (make .uInt64 .byte).compress (writeLE 8 0 ++ (List.replicate (2 ^ 29 - 2) (writeLE 8 1)).flatten) () =
        (.ok (encoded, size), ()) ∧
      ((make .uInt64 .byte).getCompressedReserveSize
        (writeLE 8 0 ++ (List.replicate (2 ^ 29 - 2) (writeLE 8 1)).flatten).length.toUInt32 ()).1.toNat < encoded.length := by
  -- the list is never built: its length and first values are read off by rewriting
  have hlen : (writeLE 8 0 ++ (List.replicate (2 ^ 29 - 2) (writeLE 8 1)).flatten).length = 2 ^ 32 - 8 := by
    simp only [List.length_append, List.length_flatten, List.map_replicate, List.sum_replicate, length_writeLE, smul_eq_mul]
    norm_num
  have hrest : (List.replicate (2 ^ 29 - 2) (writeLE 8 1)).flatten =
      writeLE 8 1 ++ (List.replicate (2 ^ 29 - 3) (writeLE 8 1)).flatten := by
    rw [show 2 ^ 29 - 2 = (2 ^ 29 - 3) + 1 by norm_num, List.replicate_succ, List.flatten_cons]
  have hne : loadValue (baseType .uInt64).width (writeLE 8 0 ++ (List.replicate (2 ^ 29 - 2) (writeLE 8 1)).flatten) ≠
      loadValue (baseType .uInt64).width ((writeLE 8 0 ++ (List.replicate (2 ^ 29 - 2) (writeLE 8 1)).flatten).drop
        (baseType .uInt64).width) := by
    rw [hrest]
    simp only [loadValue, baseType, BaseType.width, List.take_left' (length_writeLE 8 _), List.drop_left' (length_writeLE 8 _),
      readLE_writeLE]
    decide
  exact compress_overruns_reserve .uInt64 .byte (by rw [hlen]; norm_num) (by rw [hlen]; norm_num) (by rw [hlen]; rfl) hne

end Daisy.Compression.CompressionCodecT64
