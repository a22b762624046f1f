import Daisy.Compression.CompressionCodecT64
import Daisy.Library.Bits

/-!
# `T64` decodes what it encodes

The decoder of `Compression/CompressionCodecT64.cpp` gives back every source
the encoder takes, for each of its types and both variants.

The proof goes through three layers, each read off the source:

* the bit planes: `transpose64x8` and `reverseTranspose64x8` move bit `b` of
  byte `i` to bit `i` of word `b` and back; the `Byte` and `Bit` variants
  lay the matrix out so or so, and `reverseTranspose` reads, whatever the
  layout, bit `k` of each value below `num_bits` and zero above
  (`reverseTranspose_transpose`); the blocks follow by induction
  (`reverseBlocks_transposeBlocks`);
* the upper bits: a value between the least and the greatest has their bits
  from `num_bits` up, and `restoreUpperBits` puts them back; in a signed
  range across zero the bit below `num_bits` tells a negative value from the
  others, which take the greatest's, all zero
  (`restoreUpperBits_of_not_crossing`, `restoreUpperBits_of_crossing`);
* the header and the cookie: the least and the greatest read back, the type
  and the variant from the cookie (`decompressData_compressData`,
  `decompress_of_compress_t64`).

Bytes are compared bit by bit through `testBit_readLE`.
-/

namespace Daisy.Compression.CompressionCodecT64

open Daisy.IO Daisy.Library

/-! ### Bit planes -/

section Planes

theorem getD_map_range {α : Type} (f : Nat → α) {n j : Nat} (d : α) (hj : j < n) :
    ((List.range n).map f).getD j d = f j := by
  rw [List.getD_eq_getElem?_getD, List.getElem?_map, List.getElem?_range hj]
  rfl

/-- Bit `k` of the eight words of `transpose64x8`: bit `k % 64` of word
`k / 64` is bit `k / 64` of byte `k % 64`. -/
theorem testBit_transpose64x8 (row : List UInt8) (k : Nat) :
    (readLE (transpose64x8 row)).testBit k = (decide (k < 512) && (row.getD (k % 64) 0).toNat.testBit (k / 64)) := by
  have hwords : ∀ word ∈ (List.range 8).map (fun b => writeLE 8 ((List.range 64).foldl
      (fun dst i => dst ||| ((((row.getD i 0).toNat >>> b) % 2) <<< i)) 0)), word.length = 8 := by
    simp
  rw [transpose64x8, List.flatMap_def, testBit_readLE_flatten (by decide) _ hwords k]
  by_cases hk : k < 512
  · have hb : k / 64 < 8 := by omega
    have hlt := foldl_or_shiftLeft_lt (fun i => (row.getD i 0).toNat >>> (k / 64)) 64
    rw [getD_map_range _ _ hb, readLE_writeLE, show (256 : Nat) ^ 8 = 2 ^ 64 by norm_num, Nat.mod_eq_of_lt hlt,
      testBit_foldl_or_shiftLeft (fun i => (row.getD i 0).toNat >>> (k / 64)), Nat.testBit_shiftRight]
    simp [hk, show k % 64 < 64 by omega]
  · have hb : ¬ k / 64 < 8 := by omega
    simp [List.getD_eq_getElem?_getD, hb, hk, readLE]

/-- Bit `i` of byte `c` of `reverseTranspose64x8` is bit `c` of word `i`. -/
theorem testBit_reverseTranspose64x8 (words : List UInt8) (c : Nat) {i : Nat} (hi : i < 8) :
    ((reverseTranspose64x8 words).getD c 0).toNat.testBit i = (decide (c < 64) && (readLE words).testBit (64 * i + c)) := by
  by_cases hc : c < 64
  · have hlt := foldl_or_shiftLeft_lt (fun b => readLE ((words.drop (8 * b)).take 8) >>> c) 8
    rw [reverseTranspose64x8, getD_map_range _ _ hc, Nat.toUInt8_eq, UInt8.toNat_ofNat', Nat.mod_eq_of_lt hlt,
      testBit_foldl_or_shiftLeft (fun b => readLE ((words.drop (8 * b)).take 8) >>> c), Nat.testBit_shiftRight,
      testBit_readLE_take, testBit_readLE_drop]
    simp [hi, hc, show 8 * (8 * i) + c = 64 * i + c by omega]
  · simp [reverseTranspose64x8, List.getD_eq_getElem?_getD, hc]

end Planes

/-! ### The matrix -/

section Matrix

variable (t : BaseType) (full : Bool)

theorem testBit_toNat_of_le {n k : Nat} (v : BitVec n) (h : n ≤ k) : v.toNat.testBit k = false := by
  rw [BitVec.testBit_toNat, BitVec.getLsbD_of_ge _ _ h]

/-- Bit `i` of the byte in row `j` and column `c` of the matrix is bit
`8 * j + i` of value `c`; past the 64 columns and the 8 rows, zero. -/
theorem testBit_matrixRows (values : List (BitVec (8 * t.width))) (j c : Nat) {i : Nat} (hi : i < 8) :
    (((matrixRows t values).getD j []).getD c 0).toNat.testBit i =
      (decide (j < 8) && decide (c < 64) && (values.getD c 0).toNat.testBit (8 * j + i)) := by
  by_cases hj : j < 8
  · by_cases hc : c < 64
    · rw [matrixRows, getD_map_range _ _ hj, getD_map_range _ _ hc, storeValue, testBit_getD_writeLE _ _ _ hi]
      by_cases hw : j < t.width
      · simp [hj, hc, hw]
      · simp [hj, hc, hw, testBit_toNat_of_le _ (show 8 * t.width ≤ 8 * j + i by omega)]
    · simp [matrixRows, List.getD_eq_getElem?_getD, hc, hj]
  · simp [matrixRows, List.getD_eq_getElem?_getD, hj]

/-- The rows `transpose` writes whole: as bit planes where `full`. -/
theorem getD_transposedRows (values : List (BitVec (8 * t.width))) (fullBytes : Nat) {j : Nat} (hj : j < 8) :
    ((matrixRows t values).mapIdx fun j row => if full ∧ j < fullBytes then transpose64x8 row else row).getD j [] =
      if full ∧ j < fullBytes then transpose64x8 ((matrixRows t values).getD j []) else (matrixRows t values).getD j [] := by
  have hlen : j < (matrixRows t values).length := by rw [length_matrixRows]; exact hj
  simp [List.getD_eq_getElem?_getD, List.getElem?_mapIdx, List.getElem?_eq_getElem hlen]

theorem length_of_mem_transposedRows {values : List (BitVec (8 * t.width))} {fullBytes : Nat} {row : List UInt8}
    (h : row ∈ (matrixRows t values).mapIdx fun j row => if full ∧ j < fullBytes then transpose64x8 row else row) :
    row.length = 64 := by
  obtain ⟨j, hj, rfl⟩ := List.mem_iff_getElem.mp h
  simp only [List.getElem_mapIdx]
  split
  · simp
  · exact length_of_mem_matrixRows t (List.getElem_mem _)

/-- Bit `k` of a block: in row `k / 512`, byte `k % 64` and bit `k % 512 / 64`
of it for the bit planes (of every row if `full`, and of the last, partial,
one), byte `k % 512 / 8` and bit `k % 8` for a row written as it is. -/
theorem testBit_transpose (values : List (BitVec (8 * t.width))) {numBits : Nat} (hbits : numBits ≤ 64) (k : Nat) :
    (readLE (transpose t full values numBits)).testBit k =
      (decide (k < 64 * numBits) &&
        if full || k / 512 = numBits / 8 then (values.getD (k % 64) 0).toNat.testBit (8 * (k / 512) + k % 512 / 64)
        else (values.getD (k % 512 / 8) 0).toNat.testBit (8 * (k / 512) + k % 8)) := by
  have hrows := fun row (h : row ∈ ((matrixRows t values).mapIdx fun j row =>
      if full ∧ j < numBits / 8 then transpose64x8 row else row).take (numBits / 8)) =>
    length_of_mem_transposedRows t full (List.mem_of_mem_take h)
  have hlen : (((matrixRows t values).mapIdx fun j row =>
      if full ∧ j < numBits / 8 then transpose64x8 row else row).take (numBits / 8)).flatten.length = 64 * (numBits / 8) := by
    rw [List.length_flatten, List.map_congr_left hrows, List.map_const', List.sum_replicate, smul_eq_mul,
      List.length_take, List.length_mapIdx, length_matrixRows]
    omega
  rw [transpose, testBit_readLE_append, hlen]
  split
  · -- a whole row
    rename_i hk
    have hj : k / 512 < numBits / 8 := by omega
    rw [testBit_readLE_flatten (by decide) _ hrows, show 8 * 64 = 512 by rfl, List.getD_eq_getElem?_getD,
      List.getElem?_take, if_pos hj, ← List.getD_eq_getElem?_getD, getD_transposedRows t full values _ (by omega)]
    have hrow : k / 512 < 8 := by omega
    have hlt : k < 64 * numBits := by omega
    cases full
    · simp only [Bool.false_eq_true, false_and, if_false, testBit_readLE, testBit_matrixRows t values _ _ (Nat.mod_lt _ (by decide))]
      simp [hrow, hlt, show k % 512 / 8 < 64 by omega, show k / 512 ≠ numBits / 8 by omega, show k % 512 % 8 = k % 8 by omega]
    · have hi : k % 512 / 64 < 8 := by omega
      simp only [true_and, if_pos hj, testBit_transpose64x8, testBit_matrixRows t values _ _ hi]
      simp [hrow, hlt, show k % 512 < 512 by omega, show k % 512 % 64 = k % 64 by omega, show k % 64 < 64 by omega]
  · -- the row of the last bits, as bit planes
    rename_i hk
    by_cases hpart : numBits % 8 ≠ 0
    · have hrow : numBits / 8 < 8 := by omega
      rw [if_pos hpart, testBit_readLE_take, testBit_transpose64x8]
      by_cases hlt : k < 64 * numBits
      · have hrowk : k / 512 = numBits / 8 := by omega
        have hi : (k - 8 * (64 * (numBits / 8))) / 64 < 8 := by omega
        rw [testBit_matrixRows t values _ _ hi]
        simp [hlt, hrow, hrowk, show k - 8 * (64 * (numBits / 8)) < 8 * (8 * (numBits % 8)) by omega,
          show k - 8 * (64 * (numBits / 8)) < 512 by omega, show (k - 8 * (64 * (numBits / 8))) % 64 = k % 64 by omega,
          show (k - 8 * (64 * (numBits / 8))) / 64 = k % 512 / 64 by omega, show k % 64 < 64 by omega]
      · simp [hlt, show ¬ k - 8 * (64 * (numBits / 8)) < 8 * (8 * (numBits % 8)) by omega]
    · rw [if_neg hpart]
      simp [readLE, show ¬ k < 64 * numBits by omega]

/-- The matrix `reverseTranspose` reads: the block, then zeroes. -/
theorem testBit_readLE_padded (block : List UInt8) (numBits m k : Nat) :
    (readLE (block.take (8 * numBits) ++ List.replicate m 0)).testBit k = (decide (k < 64 * numBits) && (readLE block).testBit k) := by
  rw [readLE_append, readLE_replicate_zero, Nat.mul_zero, Nat.add_zero, testBit_readLE_take,
    show 8 * (8 * numBits) = 64 * numBits by omega]

/-- `reverseTranspose` of a block reads each value back below `num_bits`,
with zeroes above, whether the variant wrote its whole rows as bit planes or
not. -/
theorem reverseTranspose_transpose (values : List (BitVec (8 * t.width))) (hlen : values.length ≤ 64) {numBits : Nat}
    (hbits : numBits ≤ 64) :
    reverseTranspose t full (transpose t full values numBits) numBits values.length =
      values.map fun v => BitVec.ofNat (8 * t.width) (v.toNat % 2 ^ numBits) := by
  apply List.ext_getElem (by simp [reverseTranspose])
  intro col h₁ h₂
  have hcol : col < 64 := by simp [reverseTranspose] at h₁; omega
  simp only [reverseTranspose, List.getElem_map, List.getElem_range]
  congr 1
  apply Nat.eq_of_testBit_eq
  intro k
  have hv : col < values.length := by simpa using h₂
  rw [testBit_readLE, Nat.testBit_mod_two_pow, ← List.getD_eq_getElem _ 0 hv]
  have hi : k % 8 < 8 := Nat.mod_lt _ (by decide)
  by_cases hkw : k / 8 < t.width
  · have hj : k / 8 < 8 := by have := t.width_le; omega
    rw [getD_map_range _ _ hkw, getD_map_range _ _ hj]
    split
    · -- a row read back from bit planes: byte `col`, bit `k % 8` is bit `col` of word `k % 8`
      rename_i hplanes
      rw [testBit_reverseTranspose64x8 _ _ hi, testBit_readLE_take, testBit_readLE_drop, testBit_readLE_padded,
        testBit_transpose t full values hbits]
      have hrow : (8 * (64 * (k / 8)) + (64 * (k % 8) + col)) / 512 = k / 8 := by omega
      have hlayout : (full || decide ((8 * (64 * (k / 8)) + (64 * (k % 8) + col)) / 512 = numBits / 8)) = true := by
        rw [hrow]
        rcases hplanes with ⟨hfull, -⟩ | ⟨-, heq⟩ <;> simp [*]
      rw [if_pos hlayout, hrow]
      have hlt : decide (8 * (64 * (k / 8)) + (64 * (k % 8) + col) < 64 * numBits) = decide (k < numBits) :=
        decide_eq_decide.mpr (by omega)
      simp [hcol, show 64 * (k % 8) + col < 8 * 64 by omega, hlt, show (8 * (64 * (k / 8)) + (64 * (k % 8) + col)) % 64 = col by omega,
        show (8 * (64 * (k / 8)) + (64 * (k % 8) + col)) % 512 / 64 = k % 8 by omega, show 8 * (k / 8) + k % 8 = k by omega]
    · -- a row read back as it was written
      rename_i hplain
      rw [testBit_getD _ _ hi, testBit_readLE_take, testBit_readLE_drop, testBit_readLE_padded,
        testBit_transpose t full values hbits]
      have hrow : (8 * (64 * (k / 8)) + (8 * col + k % 8)) / 512 = k / 8 := by omega
      by_cases hlt : k < numBits
      · -- a bit kept: the row is a whole one, and `full` is not set
        have hjb : k / 8 < numBits / 8 := by
          by_contra hge
          exact hplain (Or.inr ⟨by omega, by omega⟩)
        have hfull : full = false := by
          cases full
          · rfl
          · exact absurd (Or.inl ⟨rfl, hjb⟩) hplain
        simp [hfull, hrow, hlt, show k / 8 ≠ numBits / 8 by omega, show 8 * col + k % 8 < 8 * 64 by omega,
          show 8 * (64 * (k / 8)) + (8 * col + k % 8) < 64 * numBits by omega,
          show (8 * (64 * (k / 8)) + (8 * col + k % 8)) % 512 / 8 = col by omega,
          show (8 * (64 * (k / 8)) + (8 * col + k % 8)) % 8 = k % 8 by omega, show 8 * (k / 8) + k % 8 = k by omega]
      · -- a bit dropped: past the block
        have hpast : ¬ 8 * (64 * (k / 8)) + (8 * col + k % 8) < 64 * numBits := by
          intro hin
          exact hplain (Or.inr ⟨by omega, by omega⟩)
        simp [hlt, hpast]
  · have hw : ¬ k / 8 < t.width := hkw
    simp [List.getD_eq_getElem?_getD, hkw, testBit_toNat_of_le _ (show 8 * t.width ≤ k by omega)]

/-- The blocks read back: `numFull` blocks of 64 values, then the `tail`
values of the last. -/
theorem reverseBlocks_transposeBlocks {numBits tail : Nat} (hbits : numBits ≤ 64) (htail : tail < 64) :
    ∀ (k : Nat) (values : List (BitVec (8 * t.width))), values.length = 64 * k + tail →
      reverseBlocks t full numBits tail k (transposeBlocks t full numBits k values) =
        values.map fun v => BitVec.ofNat (8 * t.width) (v.toNat % 2 ^ numBits)
  | 0, values, hlen => by
    by_cases hzero : tail = 0
    · obtain rfl : values = [] := List.eq_nil_of_length_eq_zero (by omega)
      simp [reverseBlocks, hzero]
    · have hne : values ≠ [] := by
        rintro rfl
        simp at hlen
        omega
      have hblock := transpose_length t full values hbits
      rw [transposeBlocks, if_neg hne, reverseBlocks, if_pos hzero, List.take_of_length_le (by omega),
        show tail = values.length by omega]
      exact reverseTranspose_transpose t full values (by omega) hbits
  | k + 1, values, hlen => by
    have hfirst := transpose_length t full (values.take 64) hbits
    have h64 : (values.take 64).length = 64 := by simp; omega
    have hblock := reverseTranspose_transpose t full (values.take 64) (by omega) hbits
    rw [h64] at hblock
    rw [transposeBlocks, reverseBlocks, List.take_left' hfirst, List.drop_left' hfirst,
      reverseBlocks_transposeBlocks hbits htail k (values.drop 64) (by simp; omega), hblock, ← List.map_append,
      List.take_append_drop]

end Matrix

/-! ### The upper bits -/

section Restore

variable (t : BaseType)

/-- A value widened to `MinMaxType` and cut back to its width is itself. -/
theorem setWidth_toMinMaxType (v : BitVec (8 * t.width)) : (toMinMaxType t v).setWidth (8 * t.width) = v := by
  have hw : 8 * t.width ≤ 64 := by have := t.width_le; omega
  apply BitVec.eq_of_getLsbD_eq
  intro i hi
  unfold toMinMaxType
  split
  · rw [BitVec.getLsbD_setWidth, BitVec.getLsbD_signExtend]
    simp [hi, show i < 64 by omega]
  · simp [hi, show i < 64 by omega]

theorem testBit_toMinMaxType (v : BitVec (8 * t.width)) {i : Nat} (hi : i < 8 * t.width) :
    (toMinMaxType t v).toNat.testBit i = v.toNat.testBit i := by
  conv_rhs => rw [← setWidth_toMinMaxType t v]
  rw [BitVec.toNat_setWidth, Nat.testBit_mod_two_pow]
  simp [hi]

/-- `T`'s order is the order of `MinMaxType`: `Int64` for a signed `T`,
`UInt64` for another. -/
theorem key_eq_toMinMaxType (v : BitVec (8 * t.width)) :
    key t v = if t.isSigned then (toMinMaxType t v).toInt else ((toMinMaxType t v).toNat : Int) := by
  have hw : 8 * t.width ≤ 64 := by have := t.width_le; omega
  unfold key toMinMaxType
  split
  · rw [BitVec.toInt_signExtend_of_le hw]
  · rw [BitVec.toNat_setWidth_of_le hw]

/-- `value | upper`: the bits of a value below `num_bits`, and those of `M`
from `num_bits` up, give the value back when it has `M`'s upper bits. -/
theorem truncate_or_upperBits (v : BitVec (8 * t.width)) (M : BitVec 64) {numBits : Nat}
    (h : (toMinMaxType t v).toNat >>> numBits = M.toNat >>> numBits) :
    BitVec.ofNat (8 * t.width) (v.toNat % 2 ^ numBits) ||| BitVec.ofNat (8 * t.width) ((M.toNat >>> numBits) <<< numBits) = v := by
  apply BitVec.eq_of_toNat_eq
  rw [BitVec.toNat_or, BitVec.toNat_ofNat, BitVec.toNat_ofNat, ← h]
  apply Nat.eq_of_testBit_eq
  intro i
  simp only [Nat.testBit_or, Nat.testBit_mod_two_pow, Nat.testBit_shiftLeft, Nat.testBit_shiftRight]
  by_cases hi : i < 8 * t.width
  · by_cases hn : i < numBits
    · simp [hi, hn]
    · simp [hi, hn, show numBits + (i - numBits) = i by omega, show numBits ≤ i by omega, testBit_toMinMaxType t v hi]
  · simp [hi, testBit_toNat_of_le v (show 8 * t.width ≤ i by omega)]

/-- `if (num_bits < 64) upper_min = UInt64(min) >> num_bits << num_bits`:
from 64 bits up there is nothing to shift. -/
theorem upperBits_eq (n : Nat) (M : BitVec 64) (numBits : Nat) :
    (if numBits < 64 then BitVec.ofNat n ((M.toNat >>> numBits) <<< numBits) else 0) =
      BitVec.ofNat n ((M.toNat >>> numBits) <<< numBits) := by
  split
  · rfl
  · have hzero : M.toNat >>> numBits = 0 := by
      rw [Nat.shiftRight_eq_div_pow]
      exact Nat.div_eq_of_lt (lt_of_lt_of_le M.isLt (Nat.pow_le_pow_right (by decide) (by omega)))
    rw [hzero, Nat.zero_shiftLeft]
    rfl

theorem xor_lt_getValuableBitsNumberUnsigned (a b : BitVec 64) : (a ^^^ b).toNat < 2 ^ getValuableBitsNumberUnsigned a b := by
  dsimp only [getValuableBitsNumberUnsigned]
  split
  · exact Nat.lt_log2_self
  · rename_i hzero
    simp only [ne_eq, Decidable.not_not] at hzero
    simp [hzero]

/-- `UInt64` order follows `Int64` order between values of one sign. -/
theorem toNat_le_toNat_of_toInt_le {a b : BitVec 64} (h : a.toInt ≤ b.toInt) (hsign : 0 ≤ a.toInt ∨ b.toInt < 0) :
    a.toNat ≤ b.toNat := by
  have ha := a.toInt_eq_toNat_cond
  have hb := b.toInt_eq_toNat_cond
  split at ha <;> split at hb <;> omega

/-- `value & sign_bit`, for `sign_bit = 1ull << m`, tests bit `m`. -/
theorem and_signBit_ne_zero_iff {n m : Nat} (x : BitVec n) (hm : m < n) :
    x &&& BitVec.ofNat n (1 <<< m) ≠ 0 ↔ x.toNat.testBit m = true := by
  have htwo : BitVec.ofNat n (1 <<< m) = BitVec.twoPow n m := by
    apply BitVec.eq_of_toNat_eq
    rw [BitVec.toNat_ofNat, BitVec.toNat_twoPow, Nat.shiftLeft_eq, Nat.one_mul]
  have hne : BitVec.twoPow n m ≠ 0 := by
    intro h
    have := congrArg BitVec.toNat h
    rw [BitVec.toNat_twoPow, Nat.mod_eq_of_lt (Nat.pow_lt_pow_right (by decide) hm)] at this
    simp at this
  rw [htwo, BitVec.and_twoPow, BitVec.testBit_toNat]
  split <;> simp_all

/-- In a signed range across zero, `num_bits` is one more than the bits of
the greater end and of the complement of the least. -/
theorem getValuableBitsNumberSigned_of_crossing {a b : BitVec 64} (ha : a.toInt < 0) (hb : 0 ≤ b.toInt) :
    0 < getValuableBitsNumberSigned a b ∧ b.toNat < 2 ^ (getValuableBitsNumberSigned a b - 1) ∧
      (~~~a).toNat < 2 ^ (getValuableBitsNumberSigned a b - 1) := by
  have hta := a.toInt_eq_toNat_cond
  have htb := b.toInt_eq_toNat_cond
  have hnot : (~~~a).toNat = 2 ^ 64 - 1 - a.toNat := BitVec.toNat_not
  unfold getValuableBitsNumberSigned
  rw [if_pos ⟨ha, hb⟩]
  split
  · -- the greater end is the wider: its complement, the least, is below it
    have hlt := xor_lt_getValuableBitsNumberUnsigned 0 b
    rw [show (0 : BitVec 64) ^^^ b = b by simp] at hlt
    refine ⟨by omega, by simpa using hlt, ?_⟩
    rw [Nat.add_sub_cancel]
    split at hta <;> split at htb <;> omega
  · have hlt := xor_lt_getValuableBitsNumberUnsigned 0 (~~~a)
    rw [show (0 : BitVec 64) ^^^ ~~~a = ~~~a by simp] at hlt
    refine ⟨by omega, ?_, by simpa using hlt⟩
    rw [Nat.add_sub_cancel]
    split at hta <;> split at htb <;> omega

theorem getValuableBitsNumberSigned_le_of_crossing {a b : BitVec 64} (ha : a.toInt < 0) (hb : 0 ≤ b.toInt) {k : Nat}
    (hbk : b.toNat < 2 ^ k) (hak : (~~~a).toNat < 2 ^ k) : getValuableBitsNumberSigned a b ≤ k + 1 := by
  unfold getValuableBitsNumberSigned
  rw [if_pos ⟨ha, hb⟩]
  split
  · exact Nat.add_le_add_right (getValuableBitsNumberUnsigned_le (by simpa using hbk)) 1
  · exact Nat.add_le_add_right (getValuableBitsNumberUnsigned_le (by simpa using hak)) 1

section Range

variable {t} {vmin vmax v : BitVec (8 * t.width)} {min max : BitVec 64}
variable (hmin : toMinMaxType t vmin = min) (hmax : toMinMaxType t vmax = max)
variable (hlo : key t vmin ≤ key t v) (hhi : key t v ≤ key t vmax)
include hmin hmax hlo hhi

/-- Outside a signed range across zero, `restoreUpperBits` puts back the
least value's bits from `num_bits` up, which every value between the least
and the greatest shares. -/
theorem restoreUpperBits_of_not_crossing
    (hcross : ¬ (t.isSigned ∧ min.toInt < 0 ∧ 0 ≤ max.toInt ∧ getValuableBitsNumber t min max < 64)) :
    restoreUpperBits t (if getValuableBitsNumber t min max < 64 then
        BitVec.ofNat _ ((min.toNat >>> getValuableBitsNumber t min max) <<< getValuableBitsNumber t min max) else 0) 0 0
      (BitVec.ofNat _ (v.toNat % 2 ^ getValuableBitsNumber t min max)) = v := by
  rw [upperBits_eq]
  simp only [restoreUpperBits, ne_eq, not_true_eq_false, and_false, if_false]
  apply truncate_or_upperBits
  by_cases h64 : getValuableBitsNumber t min max < 64
  · -- the bits kept are those in which the least and the greatest differ
    have hunsigned : getValuableBitsNumber t min max = getValuableBitsNumberUnsigned min max := by
      unfold getValuableBitsNumber getValuableBitsNumberSigned
      split
      · rename_i hsigned
        rw [if_neg fun h => hcross ⟨hsigned, h.1, h.2, h64⟩]
      · rfl
    have hxor := xor_lt_getValuableBitsNumberUnsigned min max
    rw [← hunsigned, BitVec.toNat_xor] at hxor
    rw [key_eq_toMinMaxType, key_eq_toMinMaxType, hmin] at hlo
    rw [key_eq_toMinMaxType, key_eq_toMinMaxType, hmax] at hhi
    have hord : min.toNat ≤ (toMinMaxType t v).toNat ∧ (toMinMaxType t v).toNat ≤ max.toNat := by
      by_cases hsigned : t.isSigned
      · simp only [hsigned, if_true] at hlo hhi
        have hsign : 0 ≤ min.toInt ∨ max.toInt < 0 := by
          by_contra hboth
          exact hcross ⟨hsigned, by omega, by omega, h64⟩
        rcases hsign with hpos | hneg
        · exact ⟨toNat_le_toNat_of_toInt_le hlo (.inl hpos), toNat_le_toNat_of_toInt_le hhi (.inl (by omega))⟩
        · exact ⟨toNat_le_toNat_of_toInt_le hlo (.inr (by omega)), toNat_le_toNat_of_toInt_le hhi (.inr hneg)⟩
      · simp only [hsigned, Bool.false_eq_true, if_false] at hlo hhi
        exact ⟨by exact_mod_cast hlo, by exact_mod_cast hhi⟩
    exact shiftRight_eq_of_le_of_le hord.1 hord.2 hxor
  · -- from 64 bits up there is nothing
    have hzero : ∀ x : BitVec 64, x.toNat >>> getValuableBitsNumber t min max = 0 := fun x => by
      rw [Nat.shiftRight_eq_div_pow]
      exact Nat.div_eq_of_lt (lt_of_lt_of_le x.isLt (Nat.pow_le_pow_right (by decide) (by omega)))
    rw [hzero, hzero]

/-- In a signed range across zero, the bit below `num_bits` tells the
negative values, which take the least's upper bits, all ones, from the
others, which take the greatest's, all zero. -/
theorem restoreUpperBits_of_crossing
    (hcross : t.isSigned ∧ min.toInt < 0 ∧ 0 ≤ max.toInt ∧ getValuableBitsNumber t min max < 64) :
    restoreUpperBits t (if getValuableBitsNumber t min max < 64 then
        BitVec.ofNat _ ((min.toNat >>> getValuableBitsNumber t min max) <<< getValuableBitsNumber t min max) else 0)
      (BitVec.ofNat _ ((max.toNat >>> getValuableBitsNumber t min max) <<< getValuableBitsNumber t min max))
      (BitVec.ofNat _ (1 <<< (getValuableBitsNumber t min max - 1)))
      (BitVec.ofNat _ (v.toNat % 2 ^ getValuableBitsNumber t min max)) = v := by
  obtain ⟨hsigned, hneg, hnonneg, h64⟩ := hcross
  have hsignedBits : getValuableBitsNumber t min max = getValuableBitsNumberSigned min max := by
    simp [getValuableBitsNumber, hsigned]
  obtain ⟨hpos, hmaxlt, hnotlt⟩ := getValuableBitsNumberSigned_of_crossing hneg hnonneg
  rw [← hsignedBits] at hpos hmaxlt hnotlt
  have hkey : ∀ x : BitVec (8 * t.width), key t x = (toMinMaxType t x).toInt ∧ key t x = x.toInt := fun x =>
    ⟨by rw [key_eq_toMinMaxType, if_pos hsigned], by rw [key, if_pos hsigned]⟩
  -- the sign bit is one of `T`'s: both ends hold in `8 * sizeof(T) - 1` bits
  have hwidth : getValuableBitsNumber t min max - 1 < 8 * t.width := by
    have hpow : ((2 ^ (8 * t.width - 1) : Nat) : Int) = (2 : Int) ^ (8 * t.width - 1) := by norm_cast
    have hmaxT : max.toNat < 2 ^ (8 * t.width - 1) := by
      have htop := (hkey vmax).1.symm.trans (hkey vmax).2
      have hlt := BitVec.toInt_lt (x := vmax)
      have hnat := max.toInt_eq_toNat_cond
      rw [hmax] at htop
      split at hnat <;> omega
    have hminT : (~~~min).toNat < 2 ^ (8 * t.width - 1) := by
      have hbot := (hkey vmin).1.symm.trans (hkey vmin).2
      have hle := BitVec.le_toInt vmin
      have hnat := min.toInt_eq_toNat_cond
      have hnot : (~~~min).toNat = 2 ^ 64 - 1 - min.toNat := BitVec.toNat_not
      rw [hmin] at hbot
      split at hnat <;> omega
    have := getValuableBitsNumberSigned_le_of_crossing hneg hnonneg hmaxT hminT
    have hw := t.width_pos
    omega
  rw [(hkey v).1, (hkey vmin).1, hmin] at hlo
  rw [(hkey v).1, (hkey vmax).1, hmax] at hhi
  generalize getValuableBitsNumber t min max = numBits at *
  have hvalueBit : (BitVec.ofNat (8 * t.width) (v.toNat % 2 ^ numBits)).toNat.testBit (numBits - 1) =
      (toMinMaxType t v).toNat.testBit (numBits - 1) := by
    rw [BitVec.toNat_ofNat, Nat.testBit_mod_two_pow, Nat.testBit_mod_two_pow, testBit_toMinMaxType t v hwidth]
    simp [hwidth, show numBits - 1 < numBits by omega]
  have hsignBit : BitVec.ofNat (8 * t.width) (1 <<< (numBits - 1)) ≠ 0 := by
    have := (and_signBit_ne_zero_iff (BitVec.allOnes (8 * t.width)) hwidth).mpr (by simp [BitVec.toNat_allOnes, hwidth])
    intro hzero
    rw [hzero] at this
    simp at this
  rw [upperBits_eq]
  unfold restoreUpperBits
  rw [if_pos ⟨hsigned, hsignBit⟩]
  by_cases hX : 0 ≤ (toMinMaxType t v).toInt
  · -- not negative: below `2 ^ (num_bits - 1)`, as the greatest
    have hXle := toNat_le_toNat_of_toInt_le hhi (.inl hX)
    have hbit : (toMinMaxType t v).toNat.testBit (numBits - 1) = false := Nat.testBit_lt_two_pow (by omega)
    have hclear : ¬ (BitVec.ofNat (8 * t.width) (v.toNat % 2 ^ numBits) &&& BitVec.ofNat (8 * t.width) (1 <<< (numBits - 1)) ≠ 0) :=
      fun h => by
        have hset := (and_signBit_ne_zero_iff _ hwidth).mp h
        rw [hvalueBit, hbit] at hset
        exact Bool.false_ne_true hset
    rw [if_neg hclear]
    apply truncate_or_upperBits
    have hzero : ∀ x, x < 2 ^ (numBits - 1) → x >>> numBits = 0 := fun x hx => by
      rw [Nat.shiftRight_eq_div_pow]
      exact Nat.div_eq_of_lt (lt_of_lt_of_le hx (Nat.pow_le_pow_right (by decide) (by omega)))
    rw [hzero _ (by omega), hzero _ hmaxlt]
  · -- negative: from `num_bits - 1` up all ones, as the least
    have hXge := toNat_le_toNat_of_toInt_le hlo (.inr (by omega))
    have hXle : (toMinMaxType t v).toNat ≤ (BitVec.allOnes 64).toNat := by
      rw [BitVec.toNat_allOnes]
      have := (toMinMaxType t v).isLt
      omega
    have hxor : min.toNat ^^^ (BitVec.allOnes 64).toNat < 2 ^ (numBits - 1) := by
      rwa [← BitVec.toNat_xor, BitVec.xor_allOnes]
    have hbit : (toMinMaxType t v).toNat.testBit (numBits - 1) = true := by
      have hones := congrArg (Nat.testBit · 0) ((shiftRight_eq_of_le_of_le hXge hXle hxor).trans (shiftRight_eq_of_xor_lt hxor))
      simp only [Nat.testBit_shiftRight, Nat.add_zero, BitVec.toNat_allOnes, Nat.testBit_two_pow_sub_one] at hones
      rw [hones]
      simp
      omega
    rw [if_pos ((and_signBit_ne_zero_iff _ hwidth).mpr (hvalueBit ▸ hbit))]
    apply truncate_or_upperBits
    exact shiftRight_eq_of_le_of_le hXge hXle (lt_of_lt_of_le hxor (Nat.pow_le_pow_right (by decide) (by omega)))

end Range

end Restore

/-! ### The codec -/

section Codec

variable (t : BaseType) (full : Bool)

/-- What `compressData` writes: the least and the greatest value, then the
blocks, if a bit at least is kept. -/
theorem compressData_eq_ok {source data : List UInt8} {size : UInt32} (h : compressData t full source = .ok (data, size)) :
    source.length % t.width = 0 ∧
      data = writeLE 8 (minMax t source).1.toNat ++ writeLE 8 (minMax t source).2.toNat ++
        if getValuableBitsNumber t (minMax t source).1 (minMax t source).2 = 0 then []
        else transposeBlocks t full (getValuableBitsNumber t (minMax t source).1 (minMax t source).2)
          (source.length / t.width / 64) (loadValues t.width (source.length / t.width) source) := by
  unfold compressData at h
  by_cases haligned : source.length % t.width = 0
  · simp only [haligned, ne_eq, not_true_eq_false, if_false] at h
    refine ⟨haligned, ?_⟩
    split at h <;> rename_i hbits <;> obtain ⟨⟨rfl, -⟩⟩ := h
    · simp [hbits]
    · simp [hbits]
  · rw [if_pos haligned] at h
    cases h

theorem ofNat_readLE_writeLE (x : BitVec 64) (rest : List UInt8) :
    BitVec.ofNat 64 (readLE ((writeLE 8 x.toNat ++ rest).take 8)) = x := by
  rw [List.take_left' (length_writeLE 8 _), readLE_writeLE, Nat.mod_eq_of_lt (by simpa using x.isLt), BitVec.ofNat_toNat,
    BitVec.setWidth_eq]

theorem getValuableBitsNumber_self (a : BitVec 64) : getValuableBitsNumber t a a = 0 := by
  have hself : getValuableBitsNumberUnsigned a a = 0 := by simp [getValuableBitsNumberUnsigned]
  unfold getValuableBitsNumber getValuableBitsNumberSigned
  split
  · rw [if_neg (by omega), hself]
  · exact hself

/-- No bit kept: the least and the greatest are one value. -/
theorem eq_of_getValuableBitsNumber_eq_zero {a b : BitVec 64} (h : getValuableBitsNumber t a b = 0) : a = b := by
  have hunsigned : getValuableBitsNumberUnsigned a b = 0 → a = b := fun hzero => by
    dsimp only [getValuableBitsNumberUnsigned] at hzero
    split at hzero
    · omega
    · rename_i hxor
      exact xor_eq_zero_iff.mp (not_not.mp hxor)
  unfold getValuableBitsNumber getValuableBitsNumberSigned at h
  split at h
  · split at h
    · split at h <;> omega
    · exact hunsigned h
  · exact hunsigned h

/-- `decompressData` of what `compressData` wrote, at the size of the source,
is the source. -/
theorem decompressData_compressData {source data : List UInt8} {size : UInt32} (hsmall : source.length < 2 ^ 32)
    (h : compressData t full source = .ok (data, size)) : decompressData t full data source.length.toUInt32 = .ok source := by
  obtain ⟨haligned, rfl⟩ := compressData_eq_ok t full h
  have hsize : source.length.toUInt32.toNat = source.length := by simp; omega
  have hsource := flatMap_storeValue_loadValues t.width (source.length / t.width) source
    (Nat.div_mul_cancel (Nat.dvd_of_mod_eq_zero haligned)).symm
  have hbounds := fun v (hv : v ∈ loadValues t.width (source.length / t.width) source) =>
    le_findMinMax t (loadValue t.width source) _ hv
  have hminmax : minMax t source = (toMinMaxType t (findMinMax t (loadValue t.width source)
      (loadValues t.width (source.length / t.width) source)).1, toMinMaxType t (findMinMax t (loadValue t.width source)
      (loadValues t.width (source.length / t.width) source)).2) := rfl
  have hlength : (loadValues t.width (source.length / t.width) source).length = source.length / t.width :=
    length_loadValues _ _ _
  rw [hminmax]
  generalize loadValues t.width (source.length / t.width) source = values at hsource hbounds hlength
  generalize hsrc : source.length / t.width = srcSize at hlength
  -- an empty source has one least and greatest value
  have hempty : values = [] → (findMinMax t (loadValue t.width source) values).1 = (findMinMax t (loadValue t.width source) values).2 :=
    fun hnil => by rw [hnil]; rfl
  generalize findMinMax t (loadValue t.width source) values = range at hbounds hempty
  obtain ⟨vmin, vmax⟩ := range
  generalize hmin : toMinMaxType t vmin = min
  generalize hmax : toMinMaxType t vmax = max
  have hdrop : (writeLE 8 min.toNat ++ (writeLE 8 max.toNat ++ (if getValuableBitsNumber t min max = 0 then []
      else transposeBlocks t full (getValuableBitsNumber t min max) (srcSize / 64) values))).drop 16 =
      if getValuableBitsNumber t min max = 0 then [] else transposeBlocks t full (getValuableBitsNumber t min max) (srcSize / 64) values := by
    rw [← List.append_assoc, List.drop_left' (by simp)]
  dsimp only at hbounds hempty
  simp only [decompressData]
  rw [if_neg (by simp only [List.length_append, length_writeLE]; omega), List.append_assoc, ofNat_readLE_writeLE,
    List.drop_left' (length_writeLE 8 _), ofNat_readLE_writeLE, hsize, if_neg (by omega), hsrc, hdrop]
  by_cases hzero : getValuableBitsNumber t min max = 0
  · -- no bit kept: every value is the least
    rw [if_pos hzero]
    have hvEq : vmin = vmax :=
      toMinMaxType_injective t (hmin.trans ((eq_of_getValuableBitsNumber_eq_zero t hzero).trans hmax.symm))
    have hall : values = List.replicate srcSize vmin := List.eq_replicate_iff.mpr ⟨hlength, fun v hv => by
      obtain ⟨hlo, hhi⟩ := hbounds v hv
      rw [← hvEq] at hhi
      exact key_injective t (by omega)⟩
    rw [← hmin, setWidth_toMinMaxType, ← hsource, hall, List.flatMap_replicate]
    rfl
  · rw [if_neg hzero, if_neg hzero]
    have hnonempty : 0 < srcSize := by
      rcases Nat.eq_zero_or_pos srcSize with hnil | hpos
      · have hvEq := hempty (List.eq_nil_of_length_eq_zero (hlength.trans hnil))
        rw [← hmin, ← hmax, hvEq, getValuableBitsNumber_self] at hzero
        exact absurd rfl hzero
      · exact hpos
    have hbits := getValuableBitsNumber_le t min max
    have hblocks := transposeBlocks_length t full (fun v => transpose_length t full v hbits) (srcSize / 64) values
    rw [hlength] at hblocks
    -- a block for each 64 values and one for the rest, `8 * num_bits` bytes each
    have hcount : 0 < srcSize / 64 + (if srcSize ≤ 64 * (srcSize / 64) then 0 else 1) := by split <;> omega
    have hshift : 0 < 8 * getValuableBitsNumber t min max := by omega
    rw [if_neg (by
      rw [hblocks, Nat.mul_mod_right, not_or]
      exact ⟨Nat.pos_iff_ne_zero.mp (Nat.mul_pos hshift hcount), fun h => h rfl⟩)]
    have hnumFull : (transposeBlocks t full (getValuableBitsNumber t min max) (srcSize / 64) values).length /
        (8 * getValuableBitsNumber t min max) - (if srcSize % 64 ≠ 0 then 1 else 0) = srcSize / 64 := by
      rw [hblocks, Nat.mul_div_cancel_left _ hshift]
      split <;> split <;> omega
    rw [hnumFull, reverseBlocks_transposeBlocks t full hbits (Nat.mod_lt _ (by decide)) (srcSize / 64) values (by omega),
      List.flatMap_map, ← hsource]
    congr 1
    apply List.flatMap_congr
    intro v hv
    congr 1
    by_cases hcross : t.isSigned ∧ min.toInt < 0 ∧ 0 ≤ max.toInt ∧ getValuableBitsNumber t min max < 64
    · rw [if_pos hcross]
      exact restoreUpperBits_of_crossing hmin hmax (hbounds v hv).1 (hbounds v hv).2 hcross
    · rw [if_neg hcross]
      exact restoreUpperBits_of_not_crossing hmin hmax (hbounds v hv).1 (hbounds v hv).2 hcross

end Codec

/-- The cookie gives back the type's base type and the variant. -/
theorem doDecompressData_cookie (type : TypeIndex) (variant : Variant) (data : List UInt8) (size : UInt32) :
    doDecompressData ((serializeTypeId type ||| if variant = .bit then 0x80 else 0) :: data) size =
      decompressData (baseType type) (variant = .bit) data size := by
  have htype : deserializeTypeId ((serializeTypeId type ||| if variant = .bit then 0x80 else 0) &&& 0x7F) = .ok type := by
    cases type <;> cases variant <;> rfl
  have hvariant : decide ((serializeTypeId type ||| if variant = .bit then 0x80 else 0) >>> 7 = 1) = decide (variant = .bit) := by
    cases type <;> cases variant <;> rfl
  simp only [doDecompressData, List.length_cons, Nat.add_one_ne_zero, if_false, List.headD_cons, htype, List.drop_succ_cons,
    List.drop_zero]
  exact congrArg (fun full => decompressData (baseType type) full data size) hvariant

/-- Whatever `compress` writes with `T64`, of any type and either variant,
for a source that a `UInt32` measures, `decompress` gives the source back, at
the size the header declares. -/
theorem decompress_of_compress_t64 (type : TypeIndex) (variant : Variant) {source block : List UInt8} {size : UInt32}
    (hsmall : source.length < 2 ^ 32) (h : (make type variant).compress source () = (.ok (block, size), ())) :
    (make type variant).decompress block = .ok (source.length.toUInt32, source) := by
  obtain ⟨data, written, hdo, rfl, -⟩ := Codec.compress_eq_ok h
  simp only [make, doCompressData, Prod.mk.injEq] at hdo
  obtain ⟨⟨values, valuesSize⟩, hvalues, hdo⟩ := bind_eq_ok hdo.1
  cases hdo
  rw [Codec.decompress_header_length _ _ hsmall]
  simp only [make]
  rw [doDecompressData_cookie, decompressData_compressData _ _ hsmall hvalues]
  rfl

/-- `Int8`s `-2, 3, 1, -1` in the `Bit` variant: a range across zero, three
bit planes kept, `-2` and `-1` given the least's upper bits and the others
the greatest's. -/
theorem decompress_of_compress_t64_across_zero :
    ([0xFE, 0x03, 0x01, 0xFF] : List UInt8).length < 2 ^ 32 ∧
      (make .int8 .bit).compress [0xFE, 0x03, 0x01, 0xFF] () =
        (.ok ([0x93, 50, 0, 0, 0, 4, 0, 0, 0, 0x86] ++ writeLE 8 (2 ^ 64 - 2) ++ writeLE 8 3 ++
          writeLE 8 0b1110 ++ writeLE 8 0b1011 ++ writeLE 8 0b1001, 50), ()) ∧
      (make .int8 .bit).decompress ([0x93, 50, 0, 0, 0, 4, 0, 0, 0, 0x86] ++ writeLE 8 (2 ^ 64 - 2) ++ writeLE 8 3 ++
          writeLE 8 0b1110 ++ writeLE 8 0b1011 ++ writeLE 8 0b1001) =
        .ok (([0xFE, 0x03, 0x01, 0xFF] : List UInt8).length.toUInt32, [0xFE, 0x03, 0x01, 0xFF]) := by
  have hsmall : ([0xFE, 0x03, 0x01, 0xFF] : List UInt8).length < 2 ^ 32 := by decide
  have hcompress : (make .int8 .bit).compress [0xFE, 0x03, 0x01, 0xFF] () =
      (.ok ([0x93, 50, 0, 0, 0, 4, 0, 0, 0, 0x86] ++ writeLE 8 (2 ^ 64 - 2) ++ writeLE 8 3 ++
        writeLE 8 0b1110 ++ writeLE 8 0b1011 ++ writeLE 8 0b1001, 50), ()) := by
    decide +kernel
  exact ⟨hsmall, hcompress, decompress_of_compress_t64 .int8 .bit hsmall hcompress⟩

end Daisy.Compression.CompressionCodecT64
