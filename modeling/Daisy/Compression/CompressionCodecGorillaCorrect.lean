import Daisy.Compression.CompressionCodecGorilla
import Daisy.Compression.CompressionCodecDelta
import Daisy.IO.BitStream

/-!
# `Gorilla` decodes what it encodes

The loop of `compressDataForType` writes each value after the first as a code
of the `xor` with the value before: `0` when they are equal; `10` and the bits
of the `xor` in the window of the last `11` block, when they lie in it; or
`11`, the leading zeroes, the number of data bits and the data bits
(`xorBits`). The window is the `BinaryValueInfo` of a nonzero `xor`: its
leading zeroes, its data bits and its trailing zeroes make up the bits of the
`xor`'s type, and the `xor` lies between them (`IsWindow`).

The decoder keeps a window of its own. Its leading zeroes come from
`LEADING_ZEROES_BIT_LENGTH` bits, which keep the encoder's count modulo a power
of two; for values of one and two bytes the `xor` is an `int`, whose leading
zeroes exceed the values' own by a multiple of that power. So its trailing
zeroes, recomputed from the width of the values, are the encoder's, and so
are its data bits (`SameWindow`), which is all the decoder reads them for.

## What is proved

* `decompressDataForType_compressDataForType`: whatever
  `compressDataForType` returns, `decompressDataForType` decodes back to the
  source.
* `decompress_of_compress_gorilla`: at the level of the codec, for every
  state of the process and every source a `UInt32` measures, aligned or not.
-/

namespace Daisy.Compression.CompressionCodecGorilla

open Daisy.IO Daisy.Library
open Daisy.Compression.CompressionCodecDelta (width_pos val_ne_zero ofByte?_val)

/-! ### The window of a nonzero value -/

section Window

variable {B x : Nat}

/-- `getTrailingZeroBits` of a nonzero value: a bit that is set, with every
bit below it clear. -/
theorem getTrailingZeroBits_spec (hx : 0 < x) (hxB : x < 2 ^ B) :
    x.testBit (getTrailingZeroBits B x) = true ∧ ∀ i < getTrailingZeroBits B x, x.testBit i = false := by
  have hne : x ≠ 0 := Nat.pos_iff_ne_zero.mp hx
  have hlog : x.log2 < B := (Nat.log2_lt hne).mpr hxB
  unfold getTrailingZeroBits
  cases hfind : (List.range B).find? x.testBit with
  | none =>
    exact absurd (Nat.testBit_log2 hne) (List.find?_eq_none.mp hfind x.log2 (List.mem_range.mpr hlog))
  | some t =>
    obtain ⟨ht, -, hbelow⟩ := List.find?_range_eq_some.mp hfind
    refine ⟨ht, fun j hj => ?_⟩
    simpa using hbelow j hj

/-- The trailing zeroes of a nonzero value divide it. -/
theorem two_pow_getTrailingZeroBits_dvd (hx : 0 < x) (hxB : x < 2 ^ B) : 2 ^ getTrailingZeroBits B x ∣ x := by
  obtain ⟨-, hbelow⟩ := getTrailingZeroBits_spec hx hxB
  apply Nat.dvd_of_mod_eq_zero
  apply Nat.eq_of_testBit_eq
  intro i
  rw [Nat.testBit_mod_two_pow, Nat.zero_testBit]
  by_cases hi : i < getTrailingZeroBits B x
  · simp [hi, hbelow i hi]
  · simp [hi]

/-- The lowest bit set of a nonzero value is at most its highest. -/
theorem getTrailingZeroBits_le_log2 (hx : 0 < x) (hxB : x < 2 ^ B) : getTrailingZeroBits B x ≤ x.log2 :=
  (Nat.le_log2 (Nat.pos_iff_ne_zero.mp hx)).mpr (Nat.ge_two_pow_of_testBit (getTrailingZeroBits_spec hx hxB).1)

/-- The leading zeroes of a nonzero value of `B` bits. -/
theorem getLeadingZeroBits_of_pos (hx : 0 < x) : getLeadingZeroBits B x = B - x.log2 - 1 := by
  rw [getLeadingZeroBits, if_neg (Nat.pos_iff_ne_zero.mp hx)]

/-- What `getLeadingAndTrailingBits` says of a nonzero value of `B` bits: its
leading zeroes, data bits and trailing zeroes make up the `B` bits, and the
value lies between the two runs of zeroes. -/
structure IsWindow (B x : Nat) (info : BinaryValueInfo) : Prop where
  sum_eq : info.leadingZeroBits.toNat + info.dataBits.toNat + info.trailingZeroBits.toNat = B
  dataBits_pos : 0 < info.dataBits.toNat
  lt_two_pow : x < 2 ^ (B - info.leadingZeroBits.toNat)
  two_pow_dvd : 2 ^ info.trailingZeroBits.toNat ∣ x

theorem leadingZeroBits_toNat (hB : B < 256) (hx : 0 < x) (hxB : x < 2 ^ B) :
    (getLeadingAndTrailingBits B x).leadingZeroBits.toNat = B - x.log2 - 1 := by
  have hlog : x.log2 < B := (Nat.log2_lt (Nat.pos_iff_ne_zero.mp hx)).mpr hxB
  simp only [getLeadingAndTrailingBits, getLeadingZeroBits_of_pos hx, Nat.toUInt8_eq]
  exact UInt8.toNat_ofNat_of_lt' (show _ < 256 by omega)

theorem isWindow_getLeadingAndTrailingBits (hB : B < 256) (hx : 0 < x) (hxB : x < 2 ^ B) :
    IsWindow B x (getLeadingAndTrailingBits B x) := by
  have hlog : x.log2 < B := (Nat.log2_lt (Nat.pos_iff_ne_zero.mp hx)).mpr hxB
  have htz := getTrailingZeroBits_le_log2 hx hxB
  have hlz := leadingZeroBits_toNat hB hx hxB
  have hdata : (getLeadingAndTrailingBits B x).dataBits.toNat = B - (B - x.log2 - 1) - getTrailingZeroBits B x := by
    simp only [getLeadingAndTrailingBits, getLeadingZeroBits_of_pos hx, if_neg (Nat.pos_iff_ne_zero.mp hx),
      Nat.toUInt8_eq]
    exact UInt8.toNat_ofNat_of_lt' (show _ < 256 by omega)
  have hdataTz : (getLeadingAndTrailingBits B x).trailingZeroBits.toNat = getTrailingZeroBits B x := by
    simp only [getLeadingAndTrailingBits, Nat.toUInt8_eq]
    exact UInt8.toNat_ofNat_of_lt' (show _ < 256 by omega)
  refine ⟨?_, ?_, ?_, ?_⟩
  · rw [hlz, hdata, hdataTz]
    omega
  · rw [hdata]
    omega
  · rw [hlz, show B - (B - x.log2 - 1) = x.log2 + 1 by omega]
    exact Nat.lt_log2_self
  · rw [hdataTz]
    exact two_pow_getTrailingZeroBits_dvd hx hxB

end Window

/-! ### The widths of a `11` block -/

section Widths

variable (w : DataBytesSize)

/-- The widths of each data width: the `xor`'s type is at least as wide as
the values and at most 64 bits; `LEADING_ZEROES_BIT_LENGTH` bits count the
values' leading zeroes, and the surplus of the type's is a multiple of what
they count to; `DATA_BIT_LENGTH` bits count the values' data bits. -/
theorem blockWidths :
    8 * w.width ≤ xorBitSize w ∧ xorBitSize w ≤ 64 ∧ 8 * w.width ≤ 2 ^ (leadingZeroesBitLength w).toNat ∧
      2 ^ (leadingZeroesBitLength w).toNat ∣ xorBitSize w - 8 * w.width ∧
      8 * w.width < 2 ^ (dataBitLength w).toNat ∧ (leadingZeroesBitLength w).toNat ≤ 64 ∧
      (dataBitLength w).toNat ≤ 64 := by
  obtain ⟨val, valid⟩ := w
  rcases valid with h | h | h | h <;> subst h <;> decide

/-- The leading zeroes of an `xor` of the width's values, counted in its type
and kept in `LEADING_ZEROES_BIT_LENGTH` bits: those in the width's own bits. -/
theorem leadingZeroes_mod {x : Nat} (hx : 0 < x) (hxw : x < 2 ^ (8 * w.width)) :
    (xorBitSize w - x.log2 - 1) % 2 ^ (leadingZeroesBitLength w).toNat = 8 * w.width - x.log2 - 1 := by
  obtain ⟨hle, -, hcount, hdvd, -⟩ := blockWidths w
  have hlog : x.log2 < 8 * w.width := (Nat.log2_lt (Nat.pos_iff_ne_zero.mp hx)).mpr hxw
  obtain ⟨k, hk⟩ := hdvd
  have hsplit : xorBitSize w - x.log2 - 1 = (8 * w.width - x.log2 - 1) + 2 ^ (leadingZeroesBitLength w).toNat * k := by
    omega
  rw [hsplit, Nat.add_mul_mod_self_left, Nat.mod_eq_of_lt (by omega)]

end Widths

/-! ### The code of a value -/

section Code

variable (w : DataBytesSize)

/-- The bits `compressDataForType` writes for a value whose `xor` with the
one before is `x`, after the window `prev`; and the window it keeps. -/
def xorBits (prev : BinaryValueInfo) (x : Nat) : List Bool × BinaryValueInfo :=
  let curr := getLeadingAndTrailingBits (xorBitSize w) x
  if x = 0 then (bitsOf 1 0, prev)
  else if prev.dataBits ≠ 0 ∧ prev.leadingZeroBits ≤ curr.leadingZeroBits ∧
      prev.trailingZeroBits ≤ curr.trailingZeroBits then
    (bitsOf 2 0b10 ++ bitsOf prev.dataBits.toNat (x >>> prev.trailingZeroBits.toNat), prev)
  else
    (bitsOf 2 0b11 ++ bitsOf (leadingZeroesBitLength w).toNat curr.leadingZeroBits.toNat ++
      bitsOf (dataBitLength w).toNat curr.dataBits.toNat ++ bitsOf curr.dataBits.toNat (x >>> curr.trailingZeroBits.toNat),
      curr)

/-- The bits of the values after the first, from the value and the window
before them. -/
def xorCodes : BitVec (8 * w.width) → BinaryValueInfo → List (BitVec (8 * w.width)) → List Bool
  | _, _, [] => []
  | prevValue, prev, v :: vs =>
    (xorBits w prev (v ^^^ prevValue).toNat).1 ++ xorCodes v (xorBits w prev (v ^^^ prevValue).toNat).2 vs

/-- The window the loop keeps: none yet, with no data bits, or one whose runs
make up the bits of the `xor`'s type; its data bits fit the values' width. -/
structure WindowOk (info : BinaryValueInfo) : Prop where
  sum_eq : info.dataBits ≠ 0 →
    info.leadingZeroBits.toNat + info.dataBits.toNat + info.trailingZeroBits.toNat = xorBitSize w
  dataBits_le : info.dataBits.toNat ≤ 8 * w.width

theorem windowOk_zero : WindowOk w ⟨0, 0, 0⟩ := ⟨fun h => absurd rfl h, Nat.zero_le _⟩

/-- The window of a nonzero `xor` of the width's values, in the bits of its
type: its data bits fit the width. -/
theorem isWindow_xor {x : Nat} (hx : 0 < x) (hxw : x < 2 ^ (8 * w.width)) :
    IsWindow (xorBitSize w) x (getLeadingAndTrailingBits (xorBitSize w) x) ∧
      (getLeadingAndTrailingBits (xorBitSize w) x).dataBits.toNat ≤ 8 * w.width := by
  obtain ⟨hle, h64, -⟩ := blockWidths w
  have hxB : x < 2 ^ xorBitSize w := Nat.lt_of_lt_of_le hxw (Nat.pow_le_pow_right (by decide) hle)
  have hcurr := isWindow_getLeadingAndTrailingBits (by omega) hx hxB
  have hlz := leadingZeroBits_toNat (by omega) hx hxB
  have hlog : x.log2 < 8 * w.width := (Nat.log2_lt (Nat.pos_iff_ne_zero.mp hx)).mpr hxw
  have hsum := hcurr.sum_eq
  exact ⟨hcurr, by omega⟩

theorem WindowOk.xorBits {prev : BinaryValueInfo} (hprev : WindowOk w prev) {x : Nat} (hx : x < 2 ^ (8 * w.width)) :
    WindowOk w (xorBits w prev x).2 := by
  unfold CompressionCodecGorilla.xorBits
  dsimp only
  split
  · exact hprev
  · rename_i hzero
    split
    · exact hprev
    · obtain ⟨hcurr, hle⟩ := isWindow_xor w (Nat.pos_of_ne_zero hzero) hx
      exact ⟨fun _ => hcurr.sum_eq, hle⟩

theorem xorBits_ne_nil (prev : BinaryValueInfo) (x : Nat) : (xorBits w prev x).1 ≠ [] := by
  unfold CompressionCodecGorilla.xorBits
  dsimp only
  split
  · simp [bitsOf]
  · split <;> simp [bitsOf]

/-- A shifted `xor` of at most 64 bits passes to `writeBits` unchanged. -/
theorem toUInt64_shiftRight_toNat {x : Nat} (hx : x < 2 ^ 64) (t : Nat) : (x >>> t).toUInt64.toNat = x >>> t := by
  rw [Nat.toUInt64_eq, UInt64.toNat_ofNat', Nat.mod_eq_of_lt (lt_of_le_of_lt (Nat.shiftRight_le x t) hx)]

/-- A turn of the loop of `compressDataForType` appends the code of the value
and keeps the window of `xorBits`. -/
theorem compressStep_bits {st st' : CompressState w} {v : BitVec (8 * w.width)} (hw : st.writer.Ok)
    (hwin : WindowOk w st.prevXoredInfo) (h : compressStep w st v = .ok st') :
    ∃ writer', st' = ⟨v, (xorBits w st.prevXoredInfo (v ^^^ st.prevValue).toNat).2, writer'⟩ ∧ writer'.Ok ∧
      writer'.bits = st.writer.bits ++ (xorBits w st.prevXoredInfo (v ^^^ st.prevValue).toNat).1 ∧
      writer'.capacity = st.writer.capacity := by
  obtain ⟨hle, h64, -, -, -, hL, hD⟩ := blockWidths w
  have hxw : (v ^^^ st.prevValue).toNat < 2 ^ (8 * w.width) := BitVec.isLt _
  have hx64 : (v ^^^ st.prevValue).toNat < 2 ^ 64 :=
    Nat.lt_of_lt_of_le hxw (Nat.pow_le_pow_right (by decide) (by omega))
  unfold compressStep at h
  dsimp only at h
  unfold CompressionCodecGorilla.xorBits
  dsimp only
  generalize (v ^^^ st.prevValue).toNat = x at h hxw hx64 ⊢
  by_cases hzero : x = 0
  · simp only [hzero, if_true] at h ⊢
    obtain ⟨writer', hwrite, h⟩ := bind_eq_ok h
    cases h
    obtain ⟨hok, hbits, hcap⟩ := BitWriter.writeBits_bits hw (by decide) (liftWriter_eq_ok.mp hwrite)
    exact ⟨writer', rfl, hok, hbits, hcap⟩
  · simp only [hzero, if_false] at h ⊢
    by_cases hreuse : st.prevXoredInfo.dataBits ≠ 0 ∧
        st.prevXoredInfo.leadingZeroBits ≤ (getLeadingAndTrailingBits (xorBitSize w) x).leadingZeroBits ∧
        st.prevXoredInfo.trailingZeroBits ≤ (getLeadingAndTrailingBits (xorBitSize w) x).trailingZeroBits
    · rw [if_pos hreuse] at h ⊢
      obtain ⟨w₁, h₁, h⟩ := bind_eq_ok h
      obtain ⟨w₂, h₂, h⟩ := bind_eq_ok h
      cases h
      have hd := hwin.sum_eq hreuse.1
      obtain ⟨hok₁, hbits₁, hcap₁⟩ := BitWriter.writeBits_bits hw (by decide) (liftWriter_eq_ok.mp h₁)
      obtain ⟨hok₂, hbits₂, hcap₂⟩ := BitWriter.writeBits_bits hok₁ (by omega) (liftWriter_eq_ok.mp h₂)
      refine ⟨w₂, rfl, hok₂, ?_, hcap₂.trans hcap₁⟩
      rw [hbits₂, hbits₁, toUInt64_shiftRight_toNat hx64, List.append_assoc]
      rfl
    · rw [if_neg hreuse] at h ⊢
      obtain ⟨w₁, h₁, h⟩ := bind_eq_ok h
      obtain ⟨w₂, h₂, h⟩ := bind_eq_ok h
      obtain ⟨w₃, h₃, h⟩ := bind_eq_ok h
      obtain ⟨w₄, h₄, h⟩ := bind_eq_ok h
      cases h
      have hwindow := isWindow_getLeadingAndTrailingBits (B := xorBitSize w) (by omega) (Nat.pos_of_ne_zero hzero)
        (Nat.lt_of_lt_of_le hxw (Nat.pow_le_pow_right (by decide) hle))
      have hd := hwindow.sum_eq
      obtain ⟨hok₁, hbits₁, hcap₁⟩ := BitWriter.writeBits_bits hw (by decide) (liftWriter_eq_ok.mp h₁)
      obtain ⟨hok₂, hbits₂, hcap₂⟩ := BitWriter.writeBits_bits hok₁ hL (liftWriter_eq_ok.mp h₂)
      obtain ⟨hok₃, hbits₃, hcap₃⟩ := BitWriter.writeBits_bits hok₂ hD (liftWriter_eq_ok.mp h₃)
      obtain ⟨hok₄, hbits₄, hcap₄⟩ := BitWriter.writeBits_bits hok₃ (by omega) (liftWriter_eq_ok.mp h₄)
      refine ⟨w₄, rfl, hok₄, ?_, hcap₄.trans (hcap₃.trans (hcap₂.trans hcap₁))⟩
      rw [hbits₄, hbits₃, hbits₂, hbits₁, toUInt64_shiftRight_toNat hx64, UInt8.toNat_toUInt64, UInt8.toNat_toUInt64]
      simp only [List.append_assoc]
      rfl

/-- The loop of `compressDataForType` appends the codes of the values. -/
theorem foldlM_compressStep_bits : ∀ (vs : List (BitVec (8 * w.width))) {st st' : CompressState w}, st.writer.Ok →
    WindowOk w st.prevXoredInfo → vs.foldlM (compressStep w) st = .ok st' →
      st'.writer.Ok ∧ st'.writer.bits = st.writer.bits ++ xorCodes w st.prevValue st.prevXoredInfo vs ∧
        st'.writer.capacity = st.writer.capacity
  | [], st, st', hw, _, h => by
    cases h
    exact ⟨hw, by simp [xorCodes], rfl⟩
  | v :: vs, st, st', hw, hwin, h => by
    rw [List.foldlM_cons] at h
    obtain ⟨st₁, h₁, h⟩ := bind_eq_ok h
    obtain ⟨writer₁, rfl, hok₁, hbits₁, hcap₁⟩ := compressStep_bits w hw hwin h₁
    obtain ⟨hok, hbits, hcap⟩ := foldlM_compressStep_bits vs hok₁ (hwin.xorBits w (BitVec.isLt _)) h
    refine ⟨hok, ?_, hcap.trans hcap₁⟩
    rw [hbits, hbits₁, xorCodes, List.append_assoc]

end Code

/-! ### Reading a code back -/

section Decode

variable (w : DataBytesSize)

/-- The window the decoder keeps for the encoder's: the same data bits and
trailing zeroes. -/
structure SameWindow (enc dec : BinaryValueInfo) : Prop where
  dataBits_eq : dec.dataBits = enc.dataBits
  trailingZeroBits_eq : dec.trailingZeroBits = enc.trailingZeroBits

/-- A nonzero `xor` that the `10` branch codes lies in the last window. -/
theorem window_of_reuse {prev : BinaryValueInfo} (hprev : WindowOk w prev) {x : Nat} (hx : 0 < x)
    (hxw : x < 2 ^ (8 * w.width))
    (hreuse : prev.dataBits ≠ 0 ∧ prev.leadingZeroBits ≤ (getLeadingAndTrailingBits (xorBitSize w) x).leadingZeroBits ∧
      prev.trailingZeroBits ≤ (getLeadingAndTrailingBits (xorBitSize w) x).trailingZeroBits) :
    x < 2 ^ (prev.trailingZeroBits.toNat + prev.dataBits.toNat) ∧ 2 ^ prev.trailingZeroBits.toNat ∣ x := by
  obtain ⟨hne, hlz, htz⟩ := hreuse
  obtain ⟨hle, h64, -⟩ := blockWidths w
  have hcurr := isWindow_getLeadingAndTrailingBits (B := xorBitSize w) (by omega) hx
    (Nat.lt_of_lt_of_le hxw (Nat.pow_le_pow_right (by decide) hle))
  have hsum := hprev.sum_eq hne
  rw [UInt8.le_iff_toNat_le] at hlz htz
  constructor
  · calc x < 2 ^ (xorBitSize w - (getLeadingAndTrailingBits (xorBitSize w) x).leadingZeroBits.toNat) := hcurr.lt_two_pow
      _ ≤ 2 ^ (prev.trailingZeroBits.toNat + prev.dataBits.toNat) := Nat.pow_le_pow_right (by decide) (by omega)
  · exact Nat.dvd_trans (Nat.pow_dvd_pow 2 htz) hcurr.two_pow_dvd

/-- The data bits of a window, read and shifted back into place. -/
theorem readBits_window {reader : BitReader} (hr : reader.Ok) {d : UInt8} (hd : d.toNat ≤ 64) {t x : Nat}
    (hxw : x < 2 ^ (8 * w.width)) (hwin : x < 2 ^ (t + d.toNat)) (hdvd : 2 ^ t ∣ x) {rest : List Bool}
    (hbits : reader.bits = bitsOf d.toNat (x >>> t) ++ rest) :
    BitVec.ofNat (8 * w.width) (reader.readBits d).1.toNat <<< t = BitVec.ofNat (8 * w.width) x ∧
      (reader.readBits d).2.Ok ∧ (reader.readBits d).2.bits = rest := by
  obtain ⟨hvalue, hok, hrest⟩ := BitReader.readBits_bitsOf hr hd hbits
  refine ⟨?_, hok, hrest⟩
  have hshift : x >>> t < 2 ^ d.toNat := by
    rw [Nat.shiftRight_eq_div_pow]
    exact Nat.div_lt_of_lt_mul (by rw [← Nat.pow_add]; exact hwin)
  have hback : x >>> t <<< t = x := by
    rw [Nat.shiftLeft_eq, Nat.shiftRight_eq_div_pow, Nat.div_mul_cancel hdvd]
  apply BitVec.eq_of_toNat_eq
  rw [BitVec.toNat_shiftLeft, BitVec.toNat_ofNat, BitVec.toNat_ofNat, hvalue, Nat.mod_eq_of_lt hshift,
    Nat.mod_eq_of_lt (lt_of_le_of_lt (Nat.shiftRight_le x t) hxw), hback]

/-- `readXored` after `10`: the window before, and the data bits in it. -/
theorem readXored_reuse {reader : BitReader} (hr : reader.Ok) (prevValue : BitVec (8 * w.width))
    {info : BinaryValueInfo} (hd : info.dataBits ≠ 0) (hd64 : info.dataBits.toNat ≤ 64) {x : Nat}
    (hxw : x < 2 ^ (8 * w.width)) (hwin : x < 2 ^ (info.trailingZeroBits.toNat + info.dataBits.toNat))
    (hdvd : 2 ^ info.trailingZeroBits.toNat ∣ x) {rest : List Bool}
    (hbits : reader.bits = false :: (bitsOf info.dataBits.toNat (x >>> info.trailingZeroBits.toNat) ++ rest)) :
    ∃ reader', readXored w reader prevValue info = .ok (prevValue ^^^ BitVec.ofNat (8 * w.width) x, info, reader') ∧
      reader'.Ok ∧ reader'.bits = rest := by
  rcases hrb : reader.readBit with ⟨bit, reader₁⟩
  obtain ⟨hbit, hok₁, hbits₁⟩ := BitReader.readBit_cons hr hbits
  rw [hrb] at hbit hok₁ hbits₁
  rcases hrv : reader₁.readBits info.dataBits with ⟨xored, reader₂⟩
  obtain ⟨hvalue, hok₂, hbits₂⟩ := readBits_window w hok₁ hd64 hxw hwin hdvd hbits₁
  rw [hrv] at hvalue hok₂ hbits₂
  refine ⟨reader₂, ?_, hok₂, hbits₂⟩
  have hzero : bit = 0 := by simpa using hbit
  have hone : ((0 : UInt8) = 1) = False := by decide
  dsimp only at hvalue
  simp only [readXored, hrb, hzero, hone, if_false, hrv, hvalue, hd, false_and, and_false]
  rfl

/-- Two subtractions of `UInt8` that do not wrap. -/
theorem UInt8.toNat_sub_sub {a b c : UInt8} (h : b.toNat + c.toNat ≤ a.toNat) :
    (a - b - c).toNat = a.toNat - b.toNat - c.toNat := by
  have hab : (a - b).toNat = a.toNat - b.toNat := UInt8.toNat_sub_of_le _ _ (UInt8.le_iff_toNat_le.mpr (by omega))
  rw [UInt8.toNat_sub_of_le _ _ (UInt8.le_iff_toNat_le.mpr (by omega)), hab]

/-- `readXored` after `11`: a new window, whose data bits and trailing
zeroes are the encoder's, and the data bits in it. -/
theorem readXored_block {reader : BitReader} (hr : reader.Ok) (prevValue : BitVec (8 * w.width))
    (prev : BinaryValueInfo) {x : Nat} (hx : 0 < x) (hxw : x < 2 ^ (8 * w.width)) {rest : List Bool}
    (hbits : reader.bits = true :: (bitsOf (leadingZeroesBitLength w).toNat
      (getLeadingAndTrailingBits (xorBitSize w) x).leadingZeroBits.toNat ++
      bitsOf (dataBitLength w).toNat (getLeadingAndTrailingBits (xorBitSize w) x).dataBits.toNat ++
      bitsOf (getLeadingAndTrailingBits (xorBitSize w) x).dataBits.toNat
        (x >>> (getLeadingAndTrailingBits (xorBitSize w) x).trailingZeroBits.toNat) ++ rest)) :
    ∃ info reader', readXored w reader prevValue prev = .ok (prevValue ^^^ BitVec.ofNat (8 * w.width) x, info, reader') ∧
      SameWindow (getLeadingAndTrailingBits (xorBitSize w) x) info ∧ reader'.Ok ∧ reader'.bits = rest := by
  obtain ⟨hle, h64, hcount, -, hdatalen, hL, hD⟩ := blockWidths w
  have hxB : x < 2 ^ xorBitSize w := Nat.lt_of_lt_of_le hxw (Nat.pow_le_pow_right (by decide) hle)
  have hcurr := isWindow_getLeadingAndTrailingBits (by omega) hx hxB
  have hlz := leadingZeroBits_toNat (B := xorBitSize w) (by omega) hx hxB
  have hlog : x.log2 < 8 * w.width := (Nat.log2_lt (Nat.pos_iff_ne_zero.mp hx)).mpr hxw
  have hmod := leadingZeroes_mod w hx hxw
  have hsum := hcurr.sum_eq
  have hdpos := hcurr.dataBits_pos
  generalize getLeadingAndTrailingBits (xorBitSize w) x = curr at hbits hcurr hlz hsum hdpos ⊢
  rcases hrb : reader.readBit with ⟨bit, reader₁⟩
  obtain ⟨hbit, hok₁, hbits₁⟩ := BitReader.readBit_cons hr hbits
  rw [hrb] at hbit hok₁ hbits₁
  rcases hrl : reader₁.readBits (leadingZeroesBitLength w) with ⟨lz, reader₂⟩
  obtain ⟨hlzv, hok₂, hbits₂⟩ := BitReader.readBits_bitsOf hok₁ hL
    (show reader₁.bits = bitsOf (leadingZeroesBitLength w).toNat curr.leadingZeroBits.toNat ++
      (bitsOf (dataBitLength w).toNat curr.dataBits.toNat ++
        (bitsOf curr.dataBits.toNat (x >>> curr.trailingZeroBits.toNat) ++ rest)) by
      rw [hbits₁]
      simp only [List.append_assoc])
  rw [hrl] at hlzv hok₂ hbits₂
  rcases hrd : reader₂.readBits (dataBitLength w) with ⟨dataBits, reader₃⟩
  obtain ⟨hdv, hok₃, hbits₃⟩ := BitReader.readBits_bitsOf hok₂ hD hbits₂
  rw [hrd] at hdv hok₃ hbits₃
  dsimp only at hbit hlzv hdv
  rw [hlz, hmod] at hlzv
  rw [Nat.mod_eq_of_lt (by omega)] at hdv
  -- the window the decoder recomputes from the width of the values
  have hdata : dataBits.toUInt8 = curr.dataBits := by
    apply UInt8.toNat_inj.mp
    rw [UInt64.toNat_toUInt8, hdv, Nat.mod_eq_of_lt (by omega)]
  have htz : (8 * w.width).toUInt8 - lz.toUInt8 - curr.dataBits = curr.trailingZeroBits := by
    have hlz8 : lz.toUInt8.toNat = 8 * w.width - x.log2 - 1 := by
      rw [UInt64.toNat_toUInt8, hlzv, Nat.mod_eq_of_lt (by omega)]
    have hw8 : (8 * w.width).toUInt8.toNat = 8 * w.width := by
      rw [Nat.toUInt8_eq]
      exact UInt8.toNat_ofNat_of_lt' (show _ < 256 by omega)
    apply UInt8.toNat_inj.mp
    rw [UInt8.toNat_sub_sub (by omega), hw8, hlz8]
    omega
  rcases hrx : reader₃.readBits curr.dataBits with ⟨xored, reader₄⟩
  obtain ⟨hvalue, hok₄, hbits₄⟩ := readBits_window w hok₃ (by omega) hxw
    (by have := hcurr.lt_two_pow; rwa [show xorBitSize w - curr.leadingZeroBits.toNat =
      curr.trailingZeroBits.toNat + curr.dataBits.toNat by omega] at this) hcurr.two_pow_dvd hbits₃
  rw [hrx] at hvalue hok₄ hbits₄
  have hne : curr.dataBits ≠ 0 := fun h0 => by rw [h0] at hdpos; exact absurd hdpos (by decide)
  refine ⟨⟨lz.toUInt8, curr.dataBits, curr.trailingZeroBits⟩, reader₄, ?_, ⟨rfl, rfl⟩, hok₄, hbits₄⟩
  have hone : bit = 1 := by simpa using hbit
  simp only [readXored, hrb, hone, if_true, hrl, hrd, hdata, htz, hne, false_and, and_false, if_false, hrx, hvalue]
  rfl

/-- A code read back: the value, and a window the same as the encoder's. -/
theorem readCode_xorBits {reader : BitReader} (hr : reader.Ok) {enc dec : BinaryValueInfo} (henc : WindowOk w enc)
    (hsame : SameWindow enc dec) (prevValue v : BitVec (8 * w.width)) {rest : List Bool}
    (hbits : reader.bits = (xorBits w enc (v ^^^ prevValue).toNat).1 ++ rest) :
    ∃ dec' reader', (if reader.readBit.1 = 1 then readXored w reader.readBit.2 prevValue dec
        else pure (prevValue, dec, reader.readBit.2)) = .ok (v, dec', reader') ∧
      SameWindow (xorBits w enc (v ^^^ prevValue).toNat).2 dec' ∧ reader'.Ok ∧ reader'.bits = rest := by
  have hxw : (v ^^^ prevValue).toNat < 2 ^ (8 * w.width) := BitVec.isLt _
  have hvalue : prevValue ^^^ BitVec.ofNat (8 * w.width) (v ^^^ prevValue).toNat = v := by simp
  unfold CompressionCodecGorilla.xorBits at hbits ⊢
  dsimp only at hbits ⊢
  generalize hx : (v ^^^ prevValue).toNat = x at hbits hxw hvalue ⊢
  by_cases hzero : x = 0
  · -- the bit `0`: the value before
    simp only [hzero, if_true] at hbits ⊢
    obtain ⟨hbit, hok, hrest⟩ := BitReader.readBit_cons hr hbits
    have heq : v = prevValue := by
      have h0 : (v ^^^ prevValue).toNat = (0 : BitVec (8 * w.width)).toNat := by
        rw [hx, hzero]
        rfl
      exact BitVec.xor_eq_zero_iff.mp (BitVec.eq_of_toNat_eq h0)
    refine ⟨dec, _, ?_, hsame, hok, hrest⟩
    rw [hbit, heq]
    rfl
  · simp only [hzero, if_false] at hbits ⊢
    by_cases hreuse : enc.dataBits ≠ 0 ∧
        enc.leadingZeroBits ≤ (getLeadingAndTrailingBits (xorBitSize w) x).leadingZeroBits ∧
        enc.trailingZeroBits ≤ (getLeadingAndTrailingBits (xorBitSize w) x).trailingZeroBits
    · -- `10`: the window before
      rw [if_pos hreuse] at hbits ⊢
      dsimp only at hbits ⊢
      have hcode : reader.bits = true :: false :: (bitsOf dec.dataBits.toNat (x >>> dec.trailingZeroBits.toNat) ++ rest) := by
        rw [hbits, hsame.dataBits_eq, hsame.trailingZeroBits_eq]
        rfl
      obtain ⟨hbit, hok₁, hbits₁⟩ := BitReader.readBit_cons hr hcode
      obtain ⟨hwin, hdvd⟩ := window_of_reuse w henc (Nat.pos_of_ne_zero hzero) hxw hreuse
      have hd64 : dec.dataBits.toNat ≤ 64 := by
        have := henc.sum_eq hreuse.1
        have := (blockWidths w).2.1
        rw [hsame.dataBits_eq]
        omega
      rw [← hsame.dataBits_eq, ← hsame.trailingZeroBits_eq] at hwin
      rw [← hsame.trailingZeroBits_eq] at hdvd
      obtain ⟨reader', hread, hok', hbits'⟩ := readXored_reuse w hok₁ prevValue
        (hsame.dataBits_eq ▸ hreuse.1) hd64 hxw hwin hdvd hbits₁
      have hone : reader.readBit.1 = 1 := by simpa using hbit
      refine ⟨dec, reader', ?_, hsame, hok', hbits'⟩
      rw [hone, if_pos rfl, hread, hvalue]
    · -- `11`: a new window
      rw [if_neg hreuse] at hbits ⊢
      dsimp only at hbits ⊢
      have hcode : reader.bits = true :: true :: (bitsOf (leadingZeroesBitLength w).toNat
          (getLeadingAndTrailingBits (xorBitSize w) x).leadingZeroBits.toNat ++
          bitsOf (dataBitLength w).toNat (getLeadingAndTrailingBits (xorBitSize w) x).dataBits.toNat ++
          bitsOf (getLeadingAndTrailingBits (xorBitSize w) x).dataBits.toNat
            (x >>> (getLeadingAndTrailingBits (xorBitSize w) x).trailingZeroBits.toNat) ++ rest) := by
        rw [hbits]
        rfl
      obtain ⟨hbit, hok₁, hbits₁⟩ := BitReader.readBit_cons hr hcode
      obtain ⟨info, reader', hread, hsame', hok', hbits'⟩ := readXored_block w hok₁ prevValue dec
        (Nat.pos_of_ne_zero hzero) hxw hbits₁
      have hone : reader.readBit.1 = 1 := by simpa using hbit
      refine ⟨info, reader', ?_, hsame', hok', hbits'⟩
      rw [hone, if_pos rfl, hread, hvalue]

/-- The loop of `decompressDataForType` reads back the values whose codes the
reader holds. -/
theorem decompressLoop_xorCodes : ∀ (vs : List (BitVec (8 * w.width))) {reader : BitReader}
    {prevValue : BitVec (8 * w.width)} {enc dec : BinaryValueInfo} {rest : List Bool}, reader.Ok → WindowOk w enc →
    SameWindow enc dec → reader.bits = xorCodes w prevValue enc vs ++ rest →
    decompressLoop w vs.length reader prevValue dec = .ok (vs.flatMap storeValue)
  | [], _, _, _, _, _, _, _, _, _ => rfl
  | v :: vs, reader, prevValue, enc, dec, rest, hr, henc, hsame, hbits => by
    rw [xorCodes, List.append_assoc] at hbits
    have hnot : reader.eof = false := by
      cases heof : reader.eof
      · rfl
      · rw [BitReader.eof_iff, hbits] at heof
        exact absurd (List.append_eq_nil_iff.mp heof).1 (xorBits_ne_nil w _ _)
    obtain ⟨dec', reader', hread, hsame', hok', hbits'⟩ := readCode_xorBits w hr henc hsame prevValue v hbits
    have hrest := decompressLoop_xorCodes vs hok' (henc.xorBits w (BitVec.isLt _)) hsame' hbits'
    rw [List.length_cons, decompressLoop, hnot]
    simp only [Bool.false_eq_true, if_false]
    -- the decoder's branches on the first bit, each a join point
    by_cases hb : reader.readBit.1 = 1
    · rw [if_pos hb] at hread ⊢
      rw [hread, ok_bind]
      dsimp only
      rw [hrest]
      rfl
    · rw [if_neg hb] at hread ⊢
      rw [hread, ok_bind]
      dsimp only
      rw [hrest]
      rfl

/-- `decompressDataForType` of a header of at least one value: the first
value, then the loop over the bits after it. -/
theorem decompressDataForType_header {n : Nat} (hn : 1 ≤ n) (hn' : n < 2 ^ 32) (first : BitVec (8 * w.width))
    (tail : List UInt8) :
    decompressDataForType w (writeLE 4 n ++ storeValue first ++ tail) =
      (decompressLoop w (n - 1) (BitReader.make tail) first ⟨0, 0, 0⟩ >>= fun rest => pure (storeValue first ++ rest)) := by
  have hcount : readLE ((writeLE 4 n ++ storeValue first ++ tail).take 4) = n := by
    rw [List.append_assoc, List.take_left' (length_writeLE 4 n), readLE_writeLE, Nat.mod_eq_of_lt (by omega)]
  have hdrop : (writeLE 4 n ++ storeValue first ++ tail).drop 4 = storeValue first ++ tail := by
    rw [List.append_assoc, List.drop_left' (length_writeLE 4 n)]
  have hdrop₁ : (storeValue first ++ tail).drop w.width = tail := List.drop_left' (length_storeValue first)
  simp only [decompressDataForType]
  rw [if_neg (by simp only [List.length_append, length_writeLE]; omega), hcount, hdrop,
    if_neg (by simp only [List.length_append, length_storeValue]; omega), loadValue_storeValue_append, hdrop₁]

/-- `decompressDataForType` of a header of no value. -/
theorem decompressDataForType_header_zero (tail : List UInt8) :
    decompressDataForType w (writeLE 4 0 ++ tail) = .ok [] := by
  have hcount : readLE ((writeLE 4 0 ++ tail).take 4) = 0 := by
    rw [List.take_left' (length_writeLE 4 0), readLE_writeLE]
    rfl
  simp only [decompressDataForType]
  rw [if_neg (by simp), hcount, if_pos (Or.inr (by decide))]
  rfl

end Decode

/-! ### The reserve of the width's own statics is never short -/

section Reserve

variable (w : DataBytesSize)

/-- The bits `getCompressedDataSize` counts for each value, in the bit widths
of the width's own statics: a `11` block of the widest data. -/
def maxItemSizeBits : Nat := 2 + (leadingZeroesBitLength w).toNat + (dataBitLength w).toNat + 8 * w.width

/-- A code is never longer than a `11` block of the widest data. -/
theorem length_xorBits_le {prev : BinaryValueInfo} (hprev : WindowOk w prev) {x : Nat} (hx : x < 2 ^ (8 * w.width)) :
    (xorBits w prev x).1.length ≤ maxItemSizeBits w := by
  have hprevLe := hprev.dataBits_le
  unfold CompressionCodecGorilla.xorBits maxItemSizeBits
  dsimp only
  split
  · simp only [length_bitsOf]
    omega
  · rename_i hzero
    split
    · simp only [List.length_append, length_bitsOf]
      omega
    · have hle := (isWindow_xor w (Nat.pos_of_ne_zero hzero) hx).2
      simp only [List.length_append, length_bitsOf]
      omega

theorem length_xorCodes_le : ∀ (vs : List (BitVec (8 * w.width))) (prevValue : BitVec (8 * w.width))
    {prev : BinaryValueInfo}, WindowOk w prev → (xorCodes w prevValue prev vs).length ≤ vs.length * maxItemSizeBits w
  | [], _, _, _ => by simp [xorCodes]
  | v :: vs, prevValue, prev, hprev => by
    have hcode := length_xorBits_le w hprev (BitVec.isLt (v ^^^ prevValue))
    have hrest := length_xorCodes_le vs v (hprev.xorBits w (BitVec.isLt (v ^^^ prevValue)))
    have hmul := Nat.add_one_mul vs.length (maxItemSizeBits w)
    rw [xorCodes, List.length_append, List.length_cons]
    omega

/-- A turn of the loop of `compressDataForType` returns where the writer has
room for the value's code. -/
theorem compressStep_ok {st : CompressState w} (v : BitVec (8 * w.width)) (hw : st.writer.Ok)
    (hroom : (st.writer.bits ++ (xorBits w st.prevXoredInfo (v ^^^ st.prevValue).toNat).1).length ≤
      8 * st.writer.capacity) :
    ∃ st', compressStep w st v = .ok st' := by
  obtain ⟨-, -, -, -, -, hL, hD⟩ := blockWidths w
  unfold compressStep
  unfold CompressionCodecGorilla.xorBits at hroom
  dsimp only at hroom ⊢
  generalize (v ^^^ st.prevValue).toNat = x at hroom ⊢
  simp only [List.length_append] at hroom
  by_cases hzero : x = 0
  · simp only [hzero, if_true] at hroom ⊢
    obtain ⟨w₁, h₁⟩ := BitWriter.writeBits_ok (w := st.writer) (by omega) 1 0
    rw [liftWriter_eq_ok.mpr h₁, ok_bind]
    exact ⟨_, rfl⟩
  · simp only [hzero, if_false] at hroom ⊢
    by_cases hreuse : st.prevXoredInfo.dataBits ≠ 0 ∧
        st.prevXoredInfo.leadingZeroBits ≤ (getLeadingAndTrailingBits (xorBitSize w) x).leadingZeroBits ∧
        st.prevXoredInfo.trailingZeroBits ≤ (getLeadingAndTrailingBits (xorBitSize w) x).trailingZeroBits
    · -- `10` and the data bits: each write finds room for what is left of the code
      rw [if_pos hreuse] at hroom ⊢
      simp only [List.length_append, length_bitsOf] at hroom
      obtain ⟨w₁, h₁⟩ := BitWriter.writeBits_ok (w := st.writer) (by omega) 2 0b10
      obtain ⟨-, hbits₁, hcap₁⟩ := BitWriter.writeBits_bits hw (by decide) h₁
      obtain ⟨w₂, h₂⟩ := BitWriter.writeBits_ok (w := w₁) (by rw [hbits₁, hcap₁]; simp; omega)
        st.prevXoredInfo.dataBits (x >>> st.prevXoredInfo.trailingZeroBits.toNat).toUInt64
      rw [liftWriter_eq_ok.mpr h₁, ok_bind, liftWriter_eq_ok.mpr h₂, ok_bind]
      exact ⟨_, rfl⟩
    · -- `11`, the window and the data bits
      rw [if_neg hreuse] at hroom ⊢
      simp only [List.length_append, length_bitsOf] at hroom
      obtain ⟨w₁, h₁⟩ := BitWriter.writeBits_ok (w := st.writer) (by omega) 2 0b11
      obtain ⟨hok₁, hbits₁, hcap₁⟩ := BitWriter.writeBits_bits hw (by decide) h₁
      obtain ⟨w₂, h₂⟩ := BitWriter.writeBits_ok (w := w₁) (by rw [hbits₁, hcap₁]; simp; omega)
        (leadingZeroesBitLength w) (getLeadingAndTrailingBits (xorBitSize w) x).leadingZeroBits.toUInt64
      obtain ⟨hok₂, hbits₂, hcap₂⟩ := BitWriter.writeBits_bits hok₁ hL h₂
      obtain ⟨w₃, h₃⟩ := BitWriter.writeBits_ok (w := w₂) (by rw [hbits₂, hcap₂, hbits₁, hcap₁]; simp; omega)
        (dataBitLength w) (getLeadingAndTrailingBits (xorBitSize w) x).dataBits.toUInt64
      obtain ⟨-, hbits₃, hcap₃⟩ := BitWriter.writeBits_bits hok₂ hD h₃
      obtain ⟨w₄, h₄⟩ := BitWriter.writeBits_ok (w := w₃)
        (by rw [hbits₃, hcap₃, hbits₂, hcap₂, hbits₁, hcap₁]; simp; omega)
        (getLeadingAndTrailingBits (xorBitSize w) x).dataBits
        (x >>> (getLeadingAndTrailingBits (xorBitSize w) x).trailingZeroBits.toNat).toUInt64
      rw [liftWriter_eq_ok.mpr h₁, ok_bind, liftWriter_eq_ok.mpr h₂, ok_bind, liftWriter_eq_ok.mpr h₃, ok_bind,
        liftWriter_eq_ok.mpr h₄, ok_bind]
      exact ⟨_, rfl⟩

/-- The loop of `compressDataForType` returns where the writer has room for
all the codes. -/
theorem foldlM_compressStep_ok : ∀ (vs : List (BitVec (8 * w.width))) (st : CompressState w), st.writer.Ok →
    WindowOk w st.prevXoredInfo →
    (st.writer.bits ++ xorCodes w st.prevValue st.prevXoredInfo vs).length ≤ 8 * st.writer.capacity →
    ∃ st', vs.foldlM (compressStep w) st = .ok st'
  | [], st, _, _, _ => ⟨st, rfl⟩
  | v :: vs, st, hw, hwin, hroom => by
    rw [xorCodes] at hroom
    obtain ⟨st₁, h₁⟩ := compressStep_ok w v hw (by simp only [List.length_append] at hroom ⊢; omega)
    obtain ⟨writer₁, rfl, hok₁, hbits₁, hcap₁⟩ := compressStep_bits w hw hwin h₁
    obtain ⟨st', h'⟩ := foldlM_compressStep_ok vs
      ⟨v, (xorBits w st.prevXoredInfo (v ^^^ st.prevValue).toNat).2, writer₁⟩ hok₁ (hwin.xorBits w (BitVec.isLt _))
      (by dsimp only; rw [hbits₁, hcap₁]; simp only [List.length_append] at hroom ⊢; omega)
    rw [List.foldlM_cons, h₁, ok_bind]
    exact ⟨st', h'⟩

/-- `compressDataForType` returns for every aligned source when the buffer
holds the header and a `11` block of the widest data for each value after the
first; and what it writes is no longer than that. -/
theorem compressDataForType_ok {source : List UInt8} {destSize : UInt32} (haligned : source.length % w.width = 0)
    (hroom : 4 + w.width + ((source.length / w.width - 1) * maxItemSizeBits w + 7) / 8 ≤ destSize.toNat) :
    ∃ data size, compressDataForType w source destSize = .ok (data, size) ∧
      data.length ≤ 4 + w.width + ((source.length / w.width - 1) * maxItemSizeBits w + 7) / 8 := by
  have hcount := length_loadValues w.width (source.length / w.width) source
  unfold compressDataForType
  rw [if_neg (by omega)]
  rcases hvals : loadValues w.width (source.length / w.width) source with _ | ⟨first, rest⟩
  · -- no value: nothing for the writer
    simp only [hvals, compressHeader, List.foldlM_nil, pure_eq_ok, ok_bind]
    obtain ⟨writer, hflush⟩ := BitWriter.flush_ok (BitWriter.make_ok _) (by simp)
    have hwritten := BitWriter.flush_length (BitWriter.make_ok _) hflush
    rw [liftWriter_eq_ok.mpr hflush, ok_bind]
    refine ⟨_, _, rfl, ?_⟩
    rw [List.length_append, length_writeLE, hwritten, BitWriter.make_bits, List.length_nil]
    omega
  · rw [hvals, List.length_cons] at hcount
    have hcap : (BitWriter.make (destSize.toNat - (writeLE 4 (source.length / w.width) ++ storeValue first).length)).capacity =
        destSize.toNat - (4 + w.width) := by
      simp [BitWriter.make]
    have hlen := length_xorCodes_le w rest first (windowOk_zero w)
    have hitems : rest.length = source.length / w.width - 1 := by omega
    rw [hitems] at hlen
    simp only [hvals, compressHeader]
    obtain ⟨st, hfold⟩ := foldlM_compressStep_ok w rest
      ⟨first, ⟨0, 0, 0⟩, BitWriter.make (destSize.toNat - (writeLE 4 (source.length / w.width) ++ storeValue first).length)⟩
      (BitWriter.make_ok _) (windowOk_zero w)
      (by dsimp only; rw [BitWriter.make_bits, List.nil_append, hcap]; omega)
    obtain ⟨hok, hbits, hcapst⟩ := foldlM_compressStep_bits w rest (BitWriter.make_ok _) (windowOk_zero w) hfold
    obtain ⟨writer, hflush⟩ := BitWriter.flush_ok hok
      (by rw [hbits, hcapst]; dsimp only; rw [BitWriter.make_bits, List.nil_append, hcap]; omega)
    have hwritten := BitWriter.flush_length hok hflush
    rw [hbits] at hwritten
    dsimp only at hwritten
    rw [BitWriter.make_bits, List.nil_append] at hwritten
    rw [hfold, ok_bind, liftWriter_eq_ok.mpr hflush, ok_bind]
    refine ⟨_, _, rfl, ?_⟩
    rw [List.length_append, List.length_append, length_writeLE, length_storeValue, hwritten]
    omega

/-- The bits `getCompressedDataSize` counts for a value, in the width's own
statics: those of `maxItemSizeBits`. -/
theorem maxItemSizeBits_eq :
    (2 + ((getBitLengthOfLength w).toUInt32 - 1) + (getBitLengthOfLength w).toUInt32 + w.val.toUInt32 * 8).toNat =
      maxItemSizeBits w := by
  obtain ⟨val, valid⟩ := w
  rcases valid with h | h | h | h <;> subst h <;> decide

/-- `getMaxCompressedDataSize` in the width's own statics, where its `UInt32`
arithmetic does not wrap. -/
theorem getMaxCompressedDataSize_toNat {s : Statics}
    (hs : s.dataBitLength = none ∨ s.dataBitLength = some (getBitLengthOfLength w)) {size : Nat}
    (hsize : size < 2 ^ 32) (hroom : size / w.width * maxItemSizeBits w + 8 < 2 ^ 32) :
    (getMaxCompressedDataSize w size.toUInt32 s).1.toNat = 6 + 2 * w.width + (size / w.width * maxItemSizeBits w + 8) / 8 := by
  have hown : s.dataBitLength.getD (getBitLengthOfLength w) = getBitLengthOfLength w := by
    rcases hs with h | h <;> rw [h] <;> rfl
  have hw : w.val.toUInt32.toNat = w.width := by simp [DataBytesSize.width]
  have hwle : w.width ≤ 8 := by
    obtain ⟨val, valid⟩ := w
    rcases valid with h | h | h | h <;> subst h <;> decide
  have hbits := maxItemSizeBits_eq w
  have hitems : (size.toUInt32 / w.val.toUInt32).toNat = size / w.width := by
    rw [UInt32.toNat_div, hw, Nat.toUInt32_eq, UInt32.toNat_ofNat', Nat.mod_eq_of_lt hsize]
  have hmul : (size / w.width * maxItemSizeBits w) < 2 ^ 32 := by omega
  have hprod : (size.toUInt32 / w.val.toUInt32 *
      (2 + ((getBitLengthOfLength w).toUInt32 - 1) + (getBitLengthOfLength w).toUInt32 + w.val.toUInt32 * 8)).toNat =
      size / w.width * maxItemSizeBits w := by
    rw [UInt32.toNat_mul, hitems, hbits, Nat.mod_eq_of_lt hmul]
  have hdata : ((size.toUInt32 / w.val.toUInt32 *
      (2 + ((getBitLengthOfLength w).toUInt32 - 1) + (getBitLengthOfLength w).toUInt32 + w.val.toUInt32 * 8) + 8) /
      8).toNat = (size / w.width * maxItemSizeBits w + 8) / 8 := by
    rw [UInt32.toNat_div, UInt32.toNat_add, hprod, show (8 : UInt32).toNat = 8 from rfl, Nat.mod_eq_of_lt hroom]
  simp only [getMaxCompressedDataSize, getCompressedDataSize, getCompressedHeaderSize, hown]
  rw [UInt32.toNat_add, hdata]
  simp only [UInt32.toNat_add, hw, UInt32.reduceToNat]
  omega

/-- **The reserve of `Gorilla` holds what `compress` writes** when the
statics of the process are the width's own, unset or set by a use of the same
width: for every source a `UInt32` measures whose reserve does not wrap,
`compress` returns, and its block is no longer than
`getCompressedReserveSize`. -/
theorem compress_returns_ok_gorilla {source : List UInt8} {s : Statics}
    (hs : s.dataBitLength = none ∨ s.dataBitLength = some (getBitLengthOfLength w)) (hsmall : source.length < 2 ^ 32)
    (hroom : source.length / w.width * maxItemSizeBits w + 8 < 2 ^ 32) :
    ∃ block size, ((make w).compress source s).1 = .ok (block, size) ∧
      block.length ≤ ((make w).getCompressedReserveSize source.length.toUInt32 s).1.toNat := by
  have hreserve := getMaxCompressedDataSize_toNat w hs hsmall hroom
  have hwidth := width_pos w
  have hwle : w.width ≤ 8 := by
    obtain ⟨val, valid⟩ := w
    rcases valid with h | h | h | h <;> subst h <;> decide
  have hsplit := Nat.div_add_mod source.length w.width
  have hskip := Nat.mod_lt source.length hwidth
  have hlen : (source.drop (source.length % w.width)).length = w.width * (source.length / w.width) := by
    rw [List.length_drop]
    omega
  have haligned : (source.drop (source.length % w.width)).length % w.width = 0 := by
    rw [hlen, Nat.mul_mod_right]
  have hitems : (source.drop (source.length % w.width)).length / w.width = source.length / w.width := by
    rw [hlen, Nat.mul_div_cancel_left _ hwidth]
  have hsub := Nat.sub_one_mul (source.length / w.width) (maxItemSizeBits w)
  have hok : ∃ data size, compressDataForType w (source.drop (source.length % w.width))
      (getMaxCompressedDataSize w source.length.toUInt32 s).1 = .ok (data, size) ∧
      data.length ≤ 4 + w.width +
        (((source.drop (source.length % w.width)).length / w.width - 1) * maxItemSizeBits w + 7) / 8 :=
    compressDataForType_ok w haligned (by rw [hitems, hreserve]; omega)
  obtain ⟨data, size, h, hdata⟩ := hok
  rw [hitems] at hdata
  have hreserveSize : ((make w).getCompressedReserveSize source.length.toUInt32 s).1.toNat =
      9 + (6 + 2 * w.width + (source.length / w.width * maxItemSizeBits w + 8) / 8) := by
    simp only [Codec.getCompressedReserveSize, make, headerSize]
    rw [UInt32.toNat_add, hreserve, show (9 : UInt32).toNat = 9 from rfl, Nat.mod_eq_of_lt (by omega)]
  rw [hreserveSize]
  simp only [Codec.compress, make, doCompressData, frameDoCompressData]
  rw [show w.val.toNat = w.width from rfl, h]
  refine ⟨_, _, rfl, ?_⟩
  simp only [List.length_cons, List.length_append, length_writeLE, List.length_take]
  omega

/-- The thirty values of `narrow_first_use_overruns_reserve`, with no use of
the codec before: the reserve holds their block. -/
theorem compress_returns_ok_gorilla_own_statics :
    ((⟨none⟩ : Statics).dataBitLength = none ∨ (⟨none⟩ : Statics).dataBitLength = some (getBitLengthOfLength ⟨8, by decide⟩)) ∧
      ((List.range 30).flatMap fun i => writeLE 8 ([0, 2 ^ 63 - 1, 2 ^ 63 + 1, 2 ^ 64 - 2].getD (i % 4) 0)).length < 2 ^ 32 ∧
      ((List.range 30).flatMap fun i => writeLE 8 ([0, 2 ^ 63 - 1, 2 ^ 63 + 1, 2 ^ 64 - 2].getD (i % 4) 0)).length /
          DataBytesSize.width ⟨8, by decide⟩ * maxItemSizeBits ⟨8, by decide⟩ + 8 < 2 ^ 32 ∧
      ∃ block size, ((make ⟨8, by decide⟩).compress
        ((List.range 30).flatMap fun i => writeLE 8 ([0, 2 ^ 63 - 1, 2 ^ 63 + 1, 2 ^ 64 - 2].getD (i % 4) 0))
        ⟨none⟩).1 = .ok (block, size) ∧
        block.length ≤ ((make ⟨8, by decide⟩).getCompressedReserveSize
          ((List.range 30).flatMap fun i =>
            writeLE 8 ([0, 2 ^ 63 - 1, 2 ^ 63 + 1, 2 ^ 64 - 2].getD (i % 4) 0)).length.toUInt32 ⟨none⟩).1.toNat := by
  have hs : (⟨none⟩ : Statics).dataBitLength = none ∨
      (⟨none⟩ : Statics).dataBitLength = some (getBitLengthOfLength ⟨8, by decide⟩) := Or.inl rfl
  have hlen : ((List.range 30).flatMap fun i =>
      writeLE 8 ([0, 2 ^ 63 - 1, 2 ^ 63 + 1, 2 ^ 64 - 2].getD (i % 4) 0)).length = 240 := by
    simp [length_writeLE]
  have hsmall : ((List.range 30).flatMap fun i =>
      writeLE 8 ([0, 2 ^ 63 - 1, 2 ^ 63 + 1, 2 ^ 64 - 2].getD (i % 4) 0)).length < 2 ^ 32 := by
    rw [hlen]
    decide
  have hroom : ((List.range 30).flatMap fun i =>
      writeLE 8 ([0, 2 ^ 63 - 1, 2 ^ 63 + 1, 2 ^ 64 - 2].getD (i % 4) 0)).length /
        DataBytesSize.width ⟨8, by decide⟩ * maxItemSizeBits ⟨8, by decide⟩ + 8 < 2 ^ 32 := by
    rw [hlen]
    decide
  exact ⟨hs, hsmall, hroom, compress_returns_ok_gorilla _ hs hsmall hroom⟩

end Reserve

/-! ### The round trip -/

section RoundTrip

variable (w : DataBytesSize)

/-- **`Gorilla` decodes what it encodes.** Whatever `compressDataForType`
returns for a source that a `UInt32` measures, into a buffer of any size,
`decompressDataForType` gives the source back. -/
theorem decompressDataForType_compressDataForType {source data : List UInt8} {destSize size : UInt32}
    (hsmall : source.length < 2 ^ 32) (h : compressDataForType w source destSize = .ok (data, size)) :
    decompressDataForType w data = .ok source := by
  unfold compressDataForType at h
  split at h
  · cases h
  · rename_i haligned
    have hk : source.length = source.length / w.width * w.width :=
      (Nat.div_mul_cancel (Nat.dvd_of_mod_eq_zero (by simpa using haligned))).symm
    have hsource := flatMap_storeValue_loadValues w.width (source.length / w.width) source hk
    have hcount := length_loadValues w.width (source.length / w.width) source
    have hn : source.length / w.width < 2 ^ 32 := lt_of_le_of_lt (Nat.div_le_self _ _) hsmall
    rcases hvals : loadValues w.width (source.length / w.width) source with _ | ⟨first, rest⟩
    · -- no value: the header says so
      simp only [hvals, compressHeader, List.length_nil] at h hsource hcount
      obtain ⟨st, -, h⟩ := bind_eq_ok h
      obtain ⟨writer, -, h⟩ := bind_eq_ok h
      cases h
      rw [← hcount, decompressDataForType_header_zero, ← hsource]
      rfl
    · -- the first value, then the codes of the others and the zeroes `flush` pads them with
      simp only [hvals, compressHeader, List.length_cons] at h hsource hcount
      obtain ⟨st, hfold, h⟩ := bind_eq_ok h
      obtain ⟨writer, hflush, h⟩ := bind_eq_ok h
      cases h
      obtain ⟨hok, hbits, -⟩ := foldlM_compressStep_bits w rest (BitWriter.make_ok _) (windowOk_zero w) hfold
      obtain ⟨hbytes, -⟩ := BitWriter.flush_bits hok (liftWriter_eq_ok.mp hflush)
      rw [BitWriter.make_bits, List.nil_append] at hbits
      have hlen : source.length / w.width - 1 = rest.length := by rw [← hcount]; simp
      have hloop := decompressLoop_xorCodes w rest (BitReader.make_ok _) (windowOk_zero w) ⟨rfl, rfl⟩
        (by rw [BitReader.make_bits, hbytes, hbits])
      rw [decompressDataForType_header w (by rw [← hcount]; simp) hn, hlen, hloop, ok_bind, ← hsource]
      rfl

/-- `doDecompressData` of a frame of a width: the bytes it skips, then the
values of the rest. -/
theorem doDecompressData_frame (b : UInt8) (data : List UInt8) {uncompressedSize : UInt32}
    (hskip : uncompressedSize.toNat % w.width ≤ data.length) :
    doDecompressData (w.val :: b :: data) uncompressedSize =
      (decompressDataForType w (data.drop (uncompressedSize.toNat % w.width))).map
        fun values => data.take (uncompressedSize.toNat % w.width) ++ values := by
  rw [doDecompressData, frameDoDecompressData_of_ne_zero _ b data (val_ne_zero w) hskip, ofByte?_val]
  rfl

/-- **`Gorilla` decodes every block it compresses.** Whatever the statics of
the process, whatever `compress` writes for a source that a `UInt32`
measures, aligned or not, `decompress` gives the source back, at the size the
header declares. -/
theorem decompress_of_compress_gorilla {source block : List UInt8} {s s' : Statics} {size : UInt32}
    (hsmall : source.length < 2 ^ 32) (h : (make w).compress source s = (.ok (block, size), s')) :
    (make w).decompress block = .ok (source.length.toUInt32, source) := by
  obtain ⟨data, written, hdo, rfl, -⟩ := Codec.compress_eq_ok h
  simp only [make, doCompressData, Prod.mk.injEq, frameDoCompressData] at hdo
  obtain ⟨⟨values, valuesSize⟩, hvalues, hdo⟩ := bind_eq_ok hdo.1
  cases hdo
  have hskip : source.length % w.width ≤ source.length := Nat.mod_le _ _
  have htake : (source.take (source.length % w.width)).length = source.length % w.width := by simp [hskip]
  have hsize : source.length.toUInt32.toNat = source.length := by simp; omega
  have hround := decompressDataForType_compressDataForType w (lt_of_le_of_lt (by simp) hsmall) hvalues
  have hframe : source.length.toUInt32.toNat % w.width ≤ (source.take (source.length % w.width) ++ values).length := by
    rw [hsize, List.length_append, htake]
    exact Nat.le_add_right _ _
  simp only [DataBytesSize.width] at htake hframe
  rw [Codec.decompress_header_length _ _ hsmall]
  simp only [make, List.cons_append]
  rw [doDecompressData_frame w _ _ hframe]
  simp only [DataBytesSize.width]
  rw [hsize, List.drop_left' htake, List.take_left' htake, hround]
  simp only [Except.map, List.take_append_drop]

/-- An unaligned source of values of two bytes whose codes take each branch:
`0` for the repeated `0x10`, a `11` block for the `xor` `0x20`, then `10` for
the same `xor` in its window. -/
theorem decompress_of_compress_gorilla_branches :
    (0xAA :: writeLE 2 0x10 ++ writeLE 2 0x10 ++ writeLE 2 0x30 ++ writeLE 2 0x10 : List UInt8).length < 2 ^ 32 ∧
      (make ⟨2, by decide⟩).compress (0xAA :: writeLE 2 0x10 ++ writeLE 2 0x10 ++ writeLE 2 0x30 ++ writeLE 2 0x10)
          ⟨none⟩ =
        (.ok ([0x95, 19, 0, 0, 0, 9, 0, 0, 0, 2, 1, 0xAA] ++ writeLE 4 4 ++ writeLE 2 0x10 ++ [0x74, 0x1D], 19),
          ⟨some 5⟩) ∧
      (make ⟨2, by decide⟩).decompress
          ([0x95, 19, 0, 0, 0, 9, 0, 0, 0, 2, 1, 0xAA] ++ writeLE 4 4 ++ writeLE 2 0x10 ++ [0x74, 0x1D]) =
        .ok ((0xAA :: writeLE 2 0x10 ++ writeLE 2 0x10 ++ writeLE 2 0x30 ++ writeLE 2 0x10 : List UInt8).length.toUInt32,
          0xAA :: writeLE 2 0x10 ++ writeLE 2 0x10 ++ writeLE 2 0x30 ++ writeLE 2 0x10) := by
  have hsmall : (0xAA :: writeLE 2 0x10 ++ writeLE 2 0x10 ++ writeLE 2 0x30 ++ writeLE 2 0x10 : List UInt8).length <
      2 ^ 32 := by
    decide
  have hcompress : (make ⟨2, by decide⟩).compress
      (0xAA :: writeLE 2 0x10 ++ writeLE 2 0x10 ++ writeLE 2 0x30 ++ writeLE 2 0x10) ⟨none⟩ =
        (.ok ([0x95, 19, 0, 0, 0, 9, 0, 0, 0, 2, 1, 0xAA] ++ writeLE 4 4 ++ writeLE 2 0x10 ++ [0x74, 0x1D], 19),
          ⟨some 5⟩) := by
    decide +kernel
  exact ⟨hsmall, hcompress, decompress_of_compress_gorilla _ hsmall hcompress⟩

end RoundTrip

end Daisy.Compression.CompressionCodecGorilla
