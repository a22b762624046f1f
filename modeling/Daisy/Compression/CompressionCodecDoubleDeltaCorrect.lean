import Daisy.Compression.CompressionCodecDoubleDelta
import Daisy.Compression.CompressionCodecDelta
import Daisy.IO.BitStream

/-!
# `DoubleDelta` decodes what it encodes

Between the `BitWriter` of `compressDataForType` and the `BitReader` of
`decompressDataForType` the double deltas travel as a prefix code: a double
delta of zero is the bit `0`; another is the prefix of its class, its sign,
and its magnitude less one in the class's data bits less one (`ddBits`).
The loop of `compressDataForType` appends the code of each double delta to
the writer's bits, and the loop of `decompressDataForType` reads it back off
the reader's: its class from `WRITE_SPEC_LUT` on the five high bits of the
next byte, whatever bits follow the prefix, then the sign and the magnitude.

## What is proved

* `decompressDataForType_compressDataForType`: whatever
  `compressDataForType` returns, `decompressDataForType` decodes back to the
  source.
* `compressDataForType_returns_ok`: it returns for every aligned source
  whose reserve the `UInt32` arithmetic of `getCompressedDataSize` computes
  without wrapping and whose double deltas are not the least `Int32` or
  `Int64` (`writeDoubleDelta_eq_undefined_iff`): the reserve is never short.
-/

namespace Daisy.Compression.CompressionCodecDoubleDelta

open Daisy.IO Daisy.Library
open Daisy.Compression.CompressionCodecDelta (width_pos val_ne_zero ofByte?_val)

/-! ### The classes of double deltas -/

/-- The class of the double delta zero: the prefix `0` and no data. -/
def zeroWriteSpec : WriteSpec := ⟨1, 0b0, 0⟩

/-- The classes `getDeltaWriteSpec` gives. -/
def deltaWriteSpecs : List WriteSpec :=
  [⟨2, 0b10, 7⟩, ⟨3, 0b110, 9⟩, ⟨4, 0b1110, 12⟩, ⟨5, 0b11110, 32⟩, ⟨5, 0b11111, 64⟩]

theorem getDeltaWriteSpec_mem (value : Int) : getDeltaWriteSpec value ∈ deltaWriteSpecs := by
  unfold getDeltaWriteSpec
  split_ifs <;> simp [deltaWriteSpecs]

/-- A prefix has at most five bits, and its code fits them. -/
theorem prefix_fits : ∀ s ∈ zeroWriteSpec :: deltaWriteSpecs,
    s.prefixBits.toNat ≤ 5 ∧ s.prefixCode.toNat < 2 ^ s.prefixBits.toNat := by
  decide

/-- A class with data has between 7 and 64 bits of it. -/
theorem dataBits_bounds : ∀ s ∈ deltaWriteSpecs, 7 ≤ s.dataBits.toNat ∧ s.dataBits.toNat ≤ 64 := by
  decide

/-- `WRITE_SPEC_LUT` gives a class for every five bits that start with its
prefix: the prefixes are a prefix code. -/
theorem writeSpecLUT_prefix : ∀ s ∈ zeroWriteSpec :: deltaWriteSpecs, ∀ y < 2 ^ (5 - s.prefixBits.toNat),
    writeSpecLUT (s.prefixCode.toNat * 2 ^ (5 - s.prefixBits.toNat) + y).toUInt8 = s := by
  decide

/-- The magnitude less one of a double delta of at most 64 bits fits the data
bits of its class less one. -/
theorem natAbs_sub_one_lt {value : Int} (hlo : -2 ^ 63 ≤ value) (hhi : value < 2 ^ 63) :
    value.natAbs - 1 < 2 ^ ((getDeltaWriteSpec value).dataBits.toNat - 1) := by
  unfold getDeltaWriteSpec
  split_ifs <;> simp <;> omega

theorem toInt_bounds (w : DataBytesSize) (x : BitVec (8 * w.width)) : -2 ^ 63 ≤ x.toInt ∧ x.toInt < 2 ^ 63 := by
  have hw : 8 * w.width - 1 ≤ 63 := by rcases w.valid with h | h | h | h <;> simp [DataBytesSize.width, h]
  have hpow : (2 : Int) ^ (8 * w.width - 1) ≤ 2 ^ 63 := pow_le_pow_right₀ (by decide) hw
  exact ⟨le_trans (neg_le_neg hpow) (BitVec.le_toInt x), lt_of_lt_of_le (BitVec.toInt_lt) hpow⟩

/-- The magnitude of a value of `n` bits is at most `2 ^ (n - 1)`: less one, it
fits the `n` bits. -/
theorem natAbs_toInt_sub_one_lt {n : Nat} (hn : 0 < n) (x : BitVec n) : x.toInt.natAbs - 1 < 2 ^ n := by
  have hlo := BitVec.le_toInt x
  have hhi := BitVec.toInt_lt (x := x)
  have hcast : ((2 ^ (n - 1) : Nat) : Int) = (2 : Int) ^ (n - 1) := by push_cast; rfl
  have hdouble : 2 ^ n = 2 * 2 ^ (n - 1) := by
    rw [← Nat.pow_succ']
    congr 1
    omega
  omega

/-- The sign and the magnitude give back the double delta. -/
theorem ofNat_natAbs_signed {n : Nat} (x : BitVec n) :
    (if x.toInt < 0 then -BitVec.ofNat n x.toInt.natAbs else BitVec.ofNat n x.toInt.natAbs) = x := by
  split
  · rename_i hneg
    have habs : (x.toInt.natAbs : Int) = -x.toInt := by omega
    rw [← BitVec.ofInt_natCast, habs, BitVec.ofInt_neg, neg_neg, BitVec.ofInt_toInt]
  · rename_i hpos
    have habs : (x.toInt.natAbs : Int) = x.toInt := by omega
    rw [← BitVec.ofInt_natCast, habs, BitVec.ofInt_toInt]

/-! ### The code of a double delta -/

section Code

variable (w : DataBytesSize)

/-- The bits `compressDataForType` writes for a double delta. -/
def ddBits (doubleDelta : BitVec (8 * w.width)) : List Bool :=
  if doubleDelta = 0 then bitsOf 1 0
  else
    bitsOf (getDeltaWriteSpec doubleDelta.toInt).prefixBits.toNat (getDeltaWriteSpec doubleDelta.toInt).prefixCode.toNat ++
      decide (doubleDelta.toInt < 0) ::
        bitsOf ((getDeltaWriteSpec doubleDelta.toInt).dataBits.toNat - 1) (doubleDelta.toInt.natAbs - 1)

/-- The double deltas of the values after the first two, from the value and
the delta before them. -/
def doubleDeltas : BitVec (8 * w.width) → BitVec (8 * w.width) → List (BitVec (8 * w.width)) → List (BitVec (8 * w.width))
  | _, _, [] => []
  | prevValue, prevDelta, v :: vs => (v - prevValue - prevDelta) :: doubleDeltas v (v - prevValue) vs

/-- The double deltas `compressDataForType` computes for a source: of its
values from the third on. -/
def sourceDoubleDeltas (source : List UInt8) : List (BitVec (8 * w.width)) :=
  match loadValues w.width (source.length / w.width) source with
  | first :: second :: rest => doubleDeltas w second (second - first) rest
  | _ => []

@[simp] theorem length_doubleDeltas (prevValue prevDelta : BitVec (8 * w.width)) (vs : List (BitVec (8 * w.width))) :
    (doubleDeltas w prevValue prevDelta vs).length = vs.length := by
  induction vs generalizing prevValue prevDelta with
  | nil => rfl
  | cons v vs ih => simp [doubleDeltas, ih]

theorem ddBits_ne_nil (doubleDelta : BitVec (8 * w.width)) : ddBits w doubleDelta ≠ [] := by
  unfold ddBits
  split <;> simp [bitsOf]

/-- A double delta whose `std::abs` is defined is written as its code. -/
theorem writeDoubleDelta_bits {doubleDelta : BitVec (8 * w.width)} (hne : doubleDelta ≠ 0) {writer writer' : BitWriter}
    (hw : writer.Ok) (h : writeDoubleDelta w doubleDelta writer = .ok writer') :
    writer'.Ok ∧ writer'.bits = writer.bits ++ ddBits w doubleDelta ∧ writer'.capacity = writer.capacity := by
  obtain ⟨hlo, hhi⟩ := toInt_bounds w doubleDelta
  have hmem := getDeltaWriteSpec_mem doubleDelta.toInt
  obtain ⟨hpb, -⟩ := prefix_fits _ (List.mem_cons_of_mem _ hmem)
  obtain ⟨hd₁, hd₂⟩ := dataBits_bounds _ hmem
  unfold writeDoubleDelta at h
  by_cases hu : 4 ≤ w.width ∧ doubleDelta.toInt = -2 ^ (8 * w.width - 1)
  · simp only [hu, and_self, if_true] at h
    cases h
  · simp only [hu, if_false] at h
    obtain ⟨w₁, h₁, h⟩ := bind_eq_ok h
    obtain ⟨w₂, h₂, h⟩ := bind_eq_ok h
    obtain ⟨hok₁, hbits₁, hcap₁⟩ := BitWriter.writeBits_bits hw (by omega) (liftWriter_eq_ok.mp h₁)
    obtain ⟨hok₂, hbits₂, hcap₂⟩ := BitWriter.writeBits_bits hok₁ (by decide) (liftWriter_eq_ok.mp h₂)
    have hdata : ((getDeltaWriteSpec doubleDelta.toInt).dataBits - 1).toNat =
        (getDeltaWriteSpec doubleDelta.toInt).dataBits.toNat - 1 :=
      UInt8.toNat_sub_of_le _ _ (UInt8.le_iff_toNat_le.mpr (by simp; omega))
    obtain ⟨hok₃, hbits₃, hcap₃⟩ := BitWriter.writeBits_bits hok₂ (by omega) (liftWriter_eq_ok.mp h)
    -- the magnitude less one fits the value's bits and 64: no conversion changes it
    have habs : (BitVec.ofNat (8 * w.width) (doubleDelta.toInt.natAbs - 1)).toNat.toUInt64.toNat =
        doubleDelta.toInt.natAbs - 1 := by
      have hlt := natAbs_sub_one_lt hlo hhi
      have h64 : 2 ^ ((getDeltaWriteSpec doubleDelta.toInt).dataBits.toNat - 1) ≤ 2 ^ 64 :=
        Nat.pow_le_pow_right (by decide) (by omega)
      rw [BitVec.toNat_ofNat, Nat.mod_eq_of_lt (natAbs_toInt_sub_one_lt (by have := width_pos w; omega) doubleDelta), UInt64.toNat_ofNat',
        Nat.mod_eq_of_lt (by omega)]
    have hsign : bitsOf (1 : UInt8).toNat (if doubleDelta.toInt < 0 then (1 : UInt64) else 0).toNat =
        [decide (doubleDelta.toInt < 0)] := by
      split <;> simp_all [bitsOf]
    refine ⟨hok₃, ?_, hcap₃.trans (hcap₂.trans hcap₁)⟩
    rw [hbits₃, hbits₂, hbits₁, hdata, habs, hsign, ddBits, if_neg hne, UInt8.toNat_toUInt64]
    simp only [List.append_assoc, List.singleton_append]

/-- A turn of the loop of `compressDataForType` appends the code of the
double delta of the value. -/
theorem compressStep_bits {st st' : CompressState w} {v : BitVec (8 * w.width)} (hw : st.writer.Ok)
    (h : compressStep w st v = .ok st') :
    ∃ writer', st' = ⟨v, v - st.prevValue, writer'⟩ ∧ writer'.Ok ∧
      writer'.bits = st.writer.bits ++ ddBits w (v - st.prevValue - st.prevDelta) ∧ writer'.capacity = st.writer.capacity := by
  by_cases hzero : v - st.prevValue - st.prevDelta = 0
  · -- the bit `0`
    simp only [compressStep, hzero, if_true] at h
    obtain ⟨writer', hwrite, h⟩ := bind_eq_ok h
    cases h
    obtain ⟨hok, hbits, hcap⟩ := BitWriter.writeBits_bits hw (by decide) (liftWriter_eq_ok.mp hwrite)
    exact ⟨writer', rfl, hok, by rw [hbits, hzero, ddBits, if_pos rfl]; rfl, hcap⟩
  · simp only [compressStep, hzero, if_false] at h
    obtain ⟨writer', hwrite, h⟩ := bind_eq_ok h
    cases h
    exact ⟨writer', rfl, writeDoubleDelta_bits w hzero hw hwrite⟩

/-- The loop of `compressDataForType` appends the codes of the double deltas. -/
theorem foldlM_compressStep_bits : ∀ (vs : List (BitVec (8 * w.width))) {st st' : CompressState w}, st.writer.Ok →
    vs.foldlM (compressStep w) st = .ok st' →
      st'.writer.Ok ∧ st'.writer.bits = st.writer.bits ++ (doubleDeltas w st.prevValue st.prevDelta vs).flatMap (ddBits w) ∧
        st'.writer.capacity = st.writer.capacity
  | [], st, st', hw, h => by
    cases h
    exact ⟨hw, by simp [doubleDeltas], rfl⟩
  | v :: vs, st, st', hw, h => by
    rw [List.foldlM_cons] at h
    obtain ⟨st₁, h₁, h⟩ := bind_eq_ok h
    obtain ⟨writer₁, rfl, hok₁, hbits₁, hcap₁⟩ := compressStep_bits w hw h₁
    obtain ⟨hok, hbits, hcap⟩ := foldlM_compressStep_bits vs hok₁ h
    refine ⟨hok, ?_, hcap.trans hcap₁⟩
    rw [hbits, hbits₁, doubleDeltas, List.flatMap_cons, List.append_assoc]

end Code

/-! ### Reading the code back -/

section Decode

variable (w : DataBytesSize)

/-- The decoder takes the class of a code from the five high bits of the
byte it peeks, whatever bits follow the prefix. -/
theorem writeSpecLUT_peekByte {reader : BitReader} (hr : reader.Ok) {s : WriteSpec}
    (hs : s ∈ zeroWriteSpec :: deltaWriteSpecs) {t : List Bool}
    (hbits : reader.bits = bitsOf s.prefixBits.toNat s.prefixCode.toNat ++ t) :
    writeSpecLUT (reader.peekByte.1 >>> 3) = s := by
  obtain ⟨hpb, hcode⟩ := prefix_fits s hs
  obtain ⟨hbyte, -⟩ := BitReader.peekByte_bits hr
  have htake : ((t ++ List.replicate 8 false).take (8 - s.prefixBits.toNat)).length = 8 - s.prefixBits.toNat := by
    simp
    omega
  have hzlt := ofBits_lt ((t ++ List.replicate 8 false).take (8 - s.prefixBits.toNat))
  rw [htake] at hzlt
  have hpow : 2 ^ (8 - s.prefixBits.toNat) = 2 ^ (5 - s.prefixBits.toNat) * 8 := by
    rw [show 8 = 2 ^ 3 from rfl, ← Nat.pow_add]
    congr 1
    omega
  -- the byte: the prefix, then the first bits after it
  have hpeek : reader.peekByte.1.toNat = s.prefixCode.toNat * 2 ^ (5 - s.prefixBits.toNat) * 8 +
      ofBits ((t ++ List.replicate 8 false).take (8 - s.prefixBits.toNat)) := by
    rw [hbyte, hbits, List.append_assoc, List.take_append, List.take_of_length_le (by simp; omega), ofBits_append,
      ofBits_bitsOf, Nat.mod_eq_of_lt hcode, length_bitsOf, htake, hpow, Nat.mul_assoc]
  have hshift : reader.peekByte.1 >>> 3 = (s.prefixCode.toNat * 2 ^ (5 - s.prefixBits.toNat) +
      ofBits ((t ++ List.replicate 8 false).take (8 - s.prefixBits.toNat)) / 8).toUInt8 := by
    have hlt : s.prefixCode.toNat * 2 ^ (5 - s.prefixBits.toNat) + ofBits ((t ++ List.replicate 8 false).take
        (8 - s.prefixBits.toNat)) / 8 < 256 := by
      have := reader.peekByte.1.toNat_lt
      omega
    apply UInt8.toNat_inj.mp
    have h3 : (3 : UInt8).toNat % 8 = 3 := rfl
    rw [UInt8.toNat_shiftRight, hpeek, Nat.toUInt8_eq, UInt8.toNat_ofNat_of_lt' hlt, Nat.shiftRight_eq_div_pow, h3]
    omega
  rw [hshift]
  exact writeSpecLUT_prefix s hs _ (by rw [hpow] at hzlt; omega)

/-- A double delta of a class with data: its sign, and its magnitude less one. -/
theorem readDoubleDelta_bits {spec : WriteSpec} (hspec : spec ∈ deltaWriteSpecs) {reader : BitReader} (hr : reader.Ok)
    {neg : Bool} {m : Nat} {rest : List Bool} (hm : m < 2 ^ (spec.dataBits.toNat - 1))
    (hbits : reader.bits = neg :: bitsOf (spec.dataBits.toNat - 1) m ++ rest) :
    ∃ reader', readDoubleDelta w spec reader =
      (if neg then -BitVec.ofNat (8 * w.width) (m + 1) else BitVec.ofNat (8 * w.width) (m + 1), reader') ∧
      reader'.Ok ∧ reader'.bits = rest := by
  obtain ⟨hd₁, hd₂⟩ := dataBits_bounds spec hspec
  have hdata : (spec.dataBits - 1).toNat = spec.dataBits.toNat - 1 :=
    UInt8.toNat_sub_of_le _ _ (UInt8.le_iff_toNat_le.mpr (by simp; omega))
  have hne : spec.dataBits ≠ 0 := fun h0 => by simp [h0] at hd₁
  rcases hrb : reader.readBit with ⟨sign, reader₁⟩
  obtain ⟨hsign, hok₁, hbits₁⟩ := BitReader.readBit_cons hr hbits
  rw [hrb] at hsign hok₁ hbits₁
  rcases hrv : reader₁.readBits (spec.dataBits - 1) with ⟨value, reader₂⟩
  obtain ⟨hvalue, hok₂, hbits₂⟩ := BitReader.readBits_bitsOf hok₁ (by omega)
    (show reader₁.bits = bitsOf (spec.dataBits - 1).toNat m ++ rest by rw [hbits₁, hdata]; rfl)
  rw [hrv] at hvalue hok₂ hbits₂
  dsimp only at hsign hvalue
  rw [hdata, Nat.mod_eq_of_lt hm] at hvalue
  have hplus : (value + 1).toNat = m + 1 := by
    have h64 : 2 ^ (spec.dataBits.toNat - 1) ≤ 2 ^ 63 := Nat.pow_le_pow_right (by decide) (by omega)
    rw [UInt64.toNat_add, hvalue, UInt64.toNat_one, Nat.mod_eq_of_lt (by omega)]
  refine ⟨reader₂, ?_, hok₂, hbits₂⟩
  simp only [readDoubleDelta, hne, if_false, hrb, hrv, hplus, hsign]
  cases neg <;> simp

/-- The decoder's turn reads a code back: the double delta, and the bits
after it. -/
theorem readCode_ddBits {reader reader₁ : BitReader} {byte : UInt8} (hr : reader.Ok)
    (hpeek : reader.peekByte = (byte, reader₁)) {dd : BitVec (8 * w.width)} {rest : List Bool}
    (hbits : reader.bits = ddBits w dd ++ rest) :
    ∃ reader', readDoubleDelta w (writeSpecLUT (byte >>> 3))
        (reader₁.skipBufferedBits (writeSpecLUT (byte >>> 3)).prefixBits) = (dd, reader') ∧
      reader'.Ok ∧ reader'.bits = rest := by
  obtain ⟨-, hok₁, hbits₁, hfill⟩ := BitReader.peekByte_bits hr
  have hlut := writeSpecLUT_peekByte hr (s := if dd = 0 then zeroWriteSpec else getDeltaWriteSpec dd.toInt)
  rw [hpeek] at hok₁ hbits₁ hfill hlut
  dsimp only at hok₁ hbits₁ hfill hlut
  by_cases hzero : dd = 0
  · -- the bit `0`: no data
    rw [ddBits, if_pos hzero] at hbits
    rw [if_pos hzero] at hlut
    rw [hlut List.mem_cons_self hbits]
    obtain ⟨hok₂, hbits₂⟩ := BitReader.skipBufferedBits_bits hok₁ (n := zeroWriteSpec.prefixBits)
      (by rw [hbits] at hfill; simp [zeroWriteSpec] at hfill ⊢; omega)
    refine ⟨_, ?_, hok₂, ?_⟩
    · simp [readDoubleDelta, zeroWriteSpec, hzero]
    · rw [hbits₂, hbits₁, hbits]
      rfl
  · -- the prefix of the class, the sign and the magnitude
    have hmem := getDeltaWriteSpec_mem dd.toInt
    rw [ddBits, if_neg hzero, List.append_assoc] at hbits
    rw [if_neg hzero] at hlut
    rw [hlut (List.mem_cons_of_mem _ hmem) hbits]
    obtain ⟨hpb, -⟩ := prefix_fits _ (List.mem_cons_of_mem _ hmem)
    obtain ⟨hok₂, hbits₂⟩ := BitReader.skipBufferedBits_bits hok₁ (n := (getDeltaWriteSpec dd.toInt).prefixBits)
      (by rw [hbits] at hfill; simp at hfill; omega)
    rw [hbits₁, hbits, List.drop_append_of_le_length (by simp), List.drop_of_length_le (by simp), List.nil_append,
      List.cons_append] at hbits₂
    obtain ⟨hlo, hhi⟩ := toInt_bounds w dd
    obtain ⟨reader', hread, hok', hbits'⟩ := readDoubleDelta_bits w hmem hok₂ (natAbs_sub_one_lt hlo hhi) hbits₂
    refine ⟨reader', ?_, hok', hbits'⟩
    have hpos : dd.toInt.natAbs - 1 + 1 = dd.toInt.natAbs := by
      have : dd.toInt ≠ 0 := fun h0 => hzero (BitVec.toInt_inj.mp (by simp [h0]))
      omega
    simp only [hread, hpos, decide_eq_true_eq]
    rw [ofNat_natAbs_signed]

/-- The loop of `decompressDataForType` reads back the values whose double
deltas' codes the reader holds. -/
theorem decompressLoop_doubleDeltas : ∀ (vs : List (BitVec (8 * w.width))) {reader : BitReader}
    {prevValue prevDelta : BitVec (8 * w.width)} {rest : List Bool}, reader.Ok →
    reader.bits = (doubleDeltas w prevValue prevDelta vs).flatMap (ddBits w) ++ rest →
    decompressLoop w vs.length reader prevValue prevDelta = vs.flatMap storeValue
  | [], _, _, _, _, _, _ => rfl
  | v :: vs, reader, prevValue, prevDelta, rest, hr, hbits => by
    rw [doubleDeltas, List.flatMap_cons, List.append_assoc] at hbits
    -- the code of the next double delta is there: not the end
    have hnot : reader.eof = false := by
      cases heof : reader.eof
      · rfl
      · rw [BitReader.eof_iff, hbits] at heof
        exact absurd (List.append_eq_nil_iff.mp heof).1 (ddBits_ne_nil w _)
    rcases hpeek : reader.peekByte with ⟨byte, reader₁⟩
    obtain ⟨reader', hread, hok', hbits'⟩ := readCode_ddBits w hr hpeek hbits
    have hcurr : prevValue + (v - prevValue - prevDelta + prevDelta) = v := by simp
    rw [List.length_cons, decompressLoop, hnot]
    simp only [Bool.false_eq_true, if_false, hpeek, hread, hcurr, List.flatMap_cons]
    rw [decompressLoop_doubleDeltas vs hok' hbits']

/-- `decompressDataForType` of a header of at least two values: the first
value, the first delta, then the loop over the bits after them. -/
theorem decompressDataForType_header {n : Nat} (hn : 2 ≤ n) (hn' : n < 2 ^ 32) (first delta : BitVec (8 * w.width))
    (tail : List UInt8) :
    decompressDataForType w (writeLE 4 n ++ storeValue first ++ storeValue delta ++ tail) =
      storeValue first ++ storeValue (first + delta) ++
        decompressLoop w (n - 2) (BitReader.make tail) (first + delta) delta := by
  have hcount : readLE ((writeLE 4 n ++ storeValue first ++ storeValue delta ++ tail).take 4) = n := by
    rw [List.append_assoc, List.append_assoc, List.take_left' (length_writeLE 4 n), readLE_writeLE,
      Nat.mod_eq_of_lt (by omega)]
  have hdrop : (writeLE 4 n ++ storeValue first ++ storeValue delta ++ tail).drop 4 =
      storeValue first ++ (storeValue delta ++ tail) := by
    rw [List.append_assoc, List.append_assoc, List.drop_left' (length_writeLE 4 n)]
  have hdrop₁ : (storeValue first ++ (storeValue delta ++ tail)).drop w.width = storeValue delta ++ tail :=
    List.drop_left' (length_storeValue first)
  have hdrop₂ : (storeValue delta ++ tail).drop w.width = tail := List.drop_left' (length_storeValue delta)
  simp only [decompressDataForType]
  rw [if_neg (by simp only [List.length_append, length_writeLE]; omega), hcount, hdrop,
    if_neg (by simp only [List.length_append, length_storeValue]; omega), loadValue_storeValue_append, hdrop₁,
    if_neg (by simp only [List.length_append, length_storeValue]; omega), loadValue_storeValue_append, hdrop₂]

/-- `decompressDataForType` of a header of one value. -/
theorem decompressDataForType_header_one (first : BitVec (8 * w.width)) (tail : List UInt8) :
    decompressDataForType w (writeLE 4 1 ++ storeValue first ++ tail) = storeValue first := by
  have hcount : readLE ((writeLE 4 1 ++ storeValue first ++ tail).take 4) = 1 := by
    rw [List.append_assoc, List.take_left' (length_writeLE 4 1), readLE_writeLE, Nat.mod_eq_of_lt (by decide)]
  have hdrop : (writeLE 4 1 ++ storeValue first ++ tail).drop 4 = storeValue first ++ tail := by
    rw [List.append_assoc, List.drop_left' (length_writeLE 4 1)]
  simp only [decompressDataForType]
  rw [if_neg (by simp), hcount, hdrop, if_neg (by simp), loadValue_storeValue_append, if_pos (Or.inr (by decide))]

/-- `decompressDataForType` of a header of no value. -/
theorem decompressDataForType_header_zero (tail : List UInt8) : decompressDataForType w (writeLE 4 0 ++ tail) = [] := by
  have hcount : readLE ((writeLE 4 0 ++ tail).take 4) = 0 := by
    rw [List.take_left' (length_writeLE 4 0), readLE_writeLE]
    rfl
  simp only [decompressDataForType]
  rw [if_neg (by simp), hcount, if_pos (Or.inr (by decide))]

end Decode

/-! ### The round trip -/

section RoundTrip

variable (w : DataBytesSize)

/-- **`DoubleDelta` decodes what it encodes.** Whatever `compressDataForType`
returns for a source that a `UInt32` measures, `decompressDataForType` gives
the source back. -/
theorem decompressDataForType_compressDataForType {source data : List UInt8} {size : UInt32}
    (hsmall : source.length < 2 ^ 32) (h : compressDataForType w source = .ok (data, size)) :
    decompressDataForType w data = source := by
  unfold compressDataForType at h
  split at h
  · cases h
  · rename_i haligned
    have hk : source.length = source.length / w.width * w.width :=
      (Nat.div_mul_cancel (Nat.dvd_of_mod_eq_zero (by simpa using haligned))).symm
    have hsource := flatMap_storeValue_loadValues w.width (source.length / w.width) source hk
    have hcount := length_loadValues w.width (source.length / w.width) source
    have hn : source.length / w.width < 2 ^ 32 := lt_of_le_of_lt (Nat.div_le_self _ _) hsmall
    rcases hvals : loadValues w.width (source.length / w.width) source with _ | ⟨first, _ | ⟨second, rest⟩⟩
    · -- no value: the header says so
      simp only [hvals, compressHeader, List.length_nil] at h hsource hcount
      obtain ⟨st, -, h⟩ := bind_eq_ok h
      obtain ⟨writer, -, h⟩ := bind_eq_ok h
      cases h
      rw [← hcount, decompressDataForType_header_zero, ← hsource]
      rfl
    · -- one value: the header holds it
      simp only [hvals, compressHeader, List.length_cons, List.length_nil] at h hsource hcount
      obtain ⟨st, -, h⟩ := bind_eq_ok h
      obtain ⟨writer, -, h⟩ := bind_eq_ok h
      cases h
      rw [← hcount, decompressDataForType_header_one, ← hsource]
      simp
    · -- the loop wrote the codes of the double deltas, and `flush` zeroes after them
      simp only [hvals, compressHeader, List.length_cons] at h hsource hcount
      obtain ⟨st, hfold, h⟩ := bind_eq_ok h
      obtain ⟨writer, hflush, h⟩ := bind_eq_ok h
      cases h
      obtain ⟨hok, hbits, -⟩ := foldlM_compressStep_bits w rest (BitWriter.make_ok _) hfold
      obtain ⟨hbytes, -⟩ := BitWriter.flush_bits hok (liftWriter_eq_ok.mp hflush)
      rw [BitWriter.make_bits, List.nil_append] at hbits
      have hsecond : first + (second - first) = second := by simp
      have hlen : source.length / w.width - 2 = rest.length := by rw [← hcount]; simp
      rw [decompressDataForType_header w (by rw [← hcount]; simp) hn, hsecond, hlen,
        decompressLoop_doubleDeltas w rest (BitReader.make_ok _) (by rw [BitReader.make_bits, hbytes, hbits]),
        ← hsource]
      simp

/-- `doDecompressData` of a frame of a width: the bytes it skips, then the
values of the rest. -/
theorem doDecompressData_frame (b : UInt8) (data : List UInt8) {uncompressedSize : UInt32}
    (hskip : uncompressedSize.toNat % w.width ≤ data.length) :
    doDecompressData (w.val :: b :: data) uncompressedSize =
      .ok (data.take (uncompressedSize.toNat % w.width) ++
        decompressDataForType w (data.drop (uncompressedSize.toNat % w.width))) := by
  rw [doDecompressData, frameDoDecompressData_of_ne_zero _ b data (val_ne_zero w) hskip, ofByte?_val]
  rfl

/-- **`DoubleDelta` decodes every block it compresses.** Whatever `compress`
writes for a source that a `UInt32` measures, aligned or not, `decompress`
gives the source back, at the size the header declares. -/
theorem decompress_of_compress {source block : List UInt8} {size : UInt32} (hsmall : source.length < 2 ^ 32)
    (h : (make w).compress source () = (.ok (block, size), ())) :
    (make w).decompress block = .ok (source.length.toUInt32, source) := by
  obtain ⟨data, written, hdo, rfl, -⟩ := Codec.compress_eq_ok h
  simp only [make, Prod.mk.injEq, and_true, doCompressData, frameDoCompressData] at hdo
  obtain ⟨⟨values, valuesSize⟩, hvalues, hdo⟩ := bind_eq_ok hdo
  cases hdo
  have hskip : source.length % w.width ≤ source.length := Nat.mod_le _ _
  have htake : (source.take (source.length % w.width)).length = source.length % w.width := by simp [hskip]
  have hsize : source.length.toUInt32.toNat = source.length := by simp; omega
  have hround := decompressDataForType_compressDataForType w (lt_of_le_of_lt (by simp) hsmall) hvalues
  have hframe : source.length.toUInt32.toNat % w.width ≤ (source.take (source.length % w.width) ++ values).length := by
    rw [hsize, List.length_append, htake]
    exact Nat.le_add_right _ _
  simp only [DataBytesSize.width] at htake hframe
  rw [Codec.decompress_header_length _ _ hsmall]
  simp only [make, List.cons_append]
  rw [doDecompressData_frame w _ _ hframe]
  simp only [DataBytesSize.width]
  rw [hsize, List.drop_left' htake, List.take_left' htake, hround, List.take_append_drop]
  rfl

/-- The block of `unaligned_block_loses_last_byte`, whole: the byte `0xAA`
and the 8-byte values `0`, `0`, `6` come back. -/
theorem decompress_of_compress_unaligned :
    (0xAA :: writeLE 8 0 ++ writeLE 8 0 ++ writeLE 8 6 : List UInt8).length < 2 ^ 32 ∧
      (make ⟨8, by decide⟩).compress (0xAA :: writeLE 8 0 ++ writeLE 8 0 ++ writeLE 8 6) () =
        (.ok (0x94 :: writeLE 4 33 ++ writeLE 4 25 ++ [8, 1, 0xAA] ++ writeLE 4 3 ++ writeLE 8 0 ++ writeLE 8 0 ++
          [0x82, 0x80], 33), ()) ∧
      (make ⟨8, by decide⟩).decompress (0x94 :: writeLE 4 33 ++ writeLE 4 25 ++ [8, 1, 0xAA] ++ writeLE 4 3 ++
          writeLE 8 0 ++ writeLE 8 0 ++ [0x82, 0x80]) =
        .ok ((0xAA :: writeLE 8 0 ++ writeLE 8 0 ++ writeLE 8 6 : List UInt8).length.toUInt32,
          0xAA :: writeLE 8 0 ++ writeLE 8 0 ++ writeLE 8 6) := by
  have hsmall : (0xAA :: writeLE 8 0 ++ writeLE 8 0 ++ writeLE 8 6 : List UInt8).length < 2 ^ 32 := by decide
  have hcompress : (make ⟨8, by decide⟩).compress (0xAA :: writeLE 8 0 ++ writeLE 8 0 ++ writeLE 8 6) () =
      (.ok (0x94 :: writeLE 4 33 ++ writeLE 4 25 ++ [8, 1, 0xAA] ++ writeLE 4 3 ++ writeLE 8 0 ++ writeLE 8 0 ++
        [0x82, 0x80], 33), ()) := by
    decide +kernel
  exact ⟨hsmall, hcompress, decompress_of_compress _ hsmall hcompress⟩

end RoundTrip

/-! ### The reserve is never short -/

section Reserve

variable (w : DataBytesSize)

/-- A double delta of the width is in a class no wider than the class of the
width's largest value, which sizes the reserve. -/
theorem getDeltaWriteSpec_bits_le (x : BitVec (8 * w.width)) :
    (getDeltaWriteSpec x.toInt).prefixBits.toNat + (getDeltaWriteSpec x.toInt).dataBits.toNat ≤
      (getDeltaMaxWriteSpecByteSize w).prefixBits.toNat + (getDeltaMaxWriteSpecByteSize w).dataBits.toNat := by
  have hlo := BitVec.le_toInt x
  have hhi := BitVec.toInt_lt (x := x)
  obtain ⟨val, valid⟩ := w
  -- the class of the largest value of each width, then the classes below it
  rcases valid with h | h | h | h <;> subst h <;>
    simp only [getDeltaMaxWriteSpecByteSize, getMaxValueForByteSize, DataBytesSize.width] at hlo hhi ⊢ <;>
    unfold getDeltaWriteSpec <;> split_ifs <;> simp_all <;> omega

theorem length_ddBits_le (dd : BitVec (8 * w.width)) :
    (ddBits w dd).length ≤
      (getDeltaMaxWriteSpecByteSize w).prefixBits.toNat + (getDeltaMaxWriteSpecByteSize w).dataBits.toNat := by
  have hle := getDeltaWriteSpec_bits_le w dd
  obtain ⟨hmax, -⟩ := dataBits_bounds _ (getDeltaWriteSpec_mem (getMaxValueForByteSize w))
  unfold ddBits
  split
  · simp only [length_bitsOf, getDeltaMaxWriteSpecByteSize] at hmax ⊢
    omega
  · obtain ⟨hd₁, -⟩ := dataBits_bounds _ (getDeltaWriteSpec_mem dd.toInt)
    simp only [List.length_append, List.length_cons, length_bitsOf]
    omega

/-- `writeDoubleDelta` returns where `std::abs` is defined and the writer has
room for the code. -/
theorem writeDoubleDelta_ok {doubleDelta : BitVec (8 * w.width)} (hne : doubleDelta ≠ 0)
    (hu : ¬ (4 ≤ w.width ∧ doubleDelta.toInt = -2 ^ (8 * w.width - 1))) {writer : BitWriter} (hw : writer.Ok)
    (hroom : (writer.bits ++ ddBits w doubleDelta).length ≤ 8 * writer.capacity) :
    ∃ writer', writeDoubleDelta w doubleDelta writer = .ok writer' := by
  have hmem := getDeltaWriteSpec_mem doubleDelta.toInt
  obtain ⟨hpb, -⟩ := prefix_fits _ (List.mem_cons_of_mem _ hmem)
  rw [ddBits, if_neg hne] at hroom
  simp only [List.length_append, List.length_cons, length_bitsOf] at hroom
  have hn₁ : (getDeltaWriteSpec doubleDelta.toInt).prefixBits.toNat ≤ 64 := by omega
  have hn₂ : (1 : UInt8).toNat ≤ 64 := by decide
  unfold writeDoubleDelta
  simp only [hu, if_false]
  -- each write finds room for what is left of the code
  obtain ⟨w₁, h₁⟩ := BitWriter.writeBits_ok (w := writer) (by omega) (getDeltaWriteSpec doubleDelta.toInt).prefixBits
    (getDeltaWriteSpec doubleDelta.toInt).prefixCode.toUInt64
  obtain ⟨hok₁, hbits₁, hcap₁⟩ := BitWriter.writeBits_bits hw hn₁ h₁
  obtain ⟨w₂, h₂⟩ := BitWriter.writeBits_ok (w := w₁) (by rw [hbits₁, hcap₁]; simp; omega) 1
    (if doubleDelta.toInt < 0 then 1 else 0)
  obtain ⟨-, hbits₂, hcap₂⟩ := BitWriter.writeBits_bits hok₁ hn₂ h₂
  obtain ⟨w₃, h₃⟩ := BitWriter.writeBits_ok (w := w₂) (by rw [hbits₂, hcap₂, hbits₁, hcap₁]; simp; omega)
    ((getDeltaWriteSpec doubleDelta.toInt).dataBits - 1)
    (BitVec.ofNat (8 * w.width) (doubleDelta.toInt.natAbs - 1)).toNat.toUInt64
  rw [liftWriter_eq_ok.mpr h₁, ok_bind, liftWriter_eq_ok.mpr h₂, ok_bind, liftWriter_eq_ok.mpr h₃]
  exact ⟨w₃, rfl⟩

/-- A turn of the loop returns where its double delta's `std::abs` is
defined and the writer has room for its code. -/
theorem compressStep_ok (st : CompressState w) (v : BitVec (8 * w.width))
    (hu : ¬ (4 ≤ w.width ∧ (v - st.prevValue - st.prevDelta).toInt = -2 ^ (8 * w.width - 1))) (hw : st.writer.Ok)
    (hroom : (st.writer.bits ++ ddBits w (v - st.prevValue - st.prevDelta)).length ≤ 8 * st.writer.capacity) :
    ∃ st', compressStep w st v = .ok st' := by
  by_cases hzero : v - st.prevValue - st.prevDelta = 0
  · simp only [compressStep, hzero, if_true]
    obtain ⟨writer', h⟩ := BitWriter.writeBits_ok (w := st.writer) (by simp at hroom; omega) 1 0
    rw [liftWriter_eq_ok.mpr h, ok_bind]
    exact ⟨_, rfl⟩
  · simp only [compressStep, hzero, if_false]
    obtain ⟨writer', h⟩ := writeDoubleDelta_ok w hzero hu hw hroom
    rw [h, ok_bind]
    exact ⟨_, rfl⟩

/-- The loop of `compressDataForType` returns where every double delta's
`std::abs` is defined and the writer has room for all their codes. -/
theorem foldlM_compressStep_ok : ∀ (vs : List (BitVec (8 * w.width))) (st : CompressState w), st.writer.Ok →
    (∀ dd ∈ doubleDeltas w st.prevValue st.prevDelta vs, ¬ (4 ≤ w.width ∧ dd.toInt = -2 ^ (8 * w.width - 1))) →
    (st.writer.bits ++ (doubleDeltas w st.prevValue st.prevDelta vs).flatMap (ddBits w)).length ≤
      8 * st.writer.capacity →
    ∃ st', vs.foldlM (compressStep w) st = .ok st'
  | [], st, _, _, _ => ⟨st, rfl⟩
  | v :: vs, st, hw, hdd, hroom => by
    rw [doubleDeltas, List.flatMap_cons] at hroom
    obtain ⟨st₁, h₁⟩ := compressStep_ok w st v (hdd _ List.mem_cons_self) hw
      (by simp only [List.length_append] at hroom ⊢; omega)
    obtain ⟨writer₁, rfl, hok₁, hbits₁, hcap₁⟩ := compressStep_bits w hw h₁
    obtain ⟨st', h'⟩ := foldlM_compressStep_ok vs ⟨v, v - st.prevValue, writer₁⟩ hok₁
      (fun dd hmem => hdd dd (List.mem_cons_of_mem _ hmem))
      (by dsimp only; rw [hbits₁, hcap₁]; simp only [List.length_append] at hroom ⊢; omega)
    rw [List.foldlM_cons, h₁, ok_bind]
    exact ⟨st', h'⟩

/-- The bits of each value after the first two, in the class of the width's
largest value. -/
def maxItemSizeBits : Nat :=
  (getDeltaMaxWriteSpecByteSize w).prefixBits.toNat + (getDeltaMaxWriteSpecByteSize w).dataBits.toNat

theorem length_flatMap_ddBits_le (dds : List (BitVec (8 * w.width))) :
    (dds.flatMap (ddBits w)).length ≤ dds.length * maxItemSizeBits w := by
  induction dds with
  | nil => simp
  | cons dd dds ih =>
    have hdd : (ddBits w dd).length ≤ maxItemSizeBits w := length_ddBits_le w dd
    have hmul := Nat.add_one_mul dds.length (maxItemSizeBits w)
    simp only [List.flatMap_cons, List.length_append, List.length_cons] at ih ⊢
    omega

/-- `getCompressedDataSize` where its `UInt32` arithmetic does not wrap. -/
theorem getCompressedDataSize_toNat (size : Nat) (hsize : size < 2 ^ 32)
    (hroom : size / w.width * maxItemSizeBits w + 7 < 2 ^ 32) :
    (getCompressedDataSize w size.toUInt32).toNat = (size / w.width * maxItemSizeBits w + 7) / 8 := by
  have hw : w.val.toUInt32.toNat = w.width := by simp [DataBytesSize.width]
  have hbits : maxItemSizeBits w < 2 ^ 32 := by
    have := (getDeltaMaxWriteSpecByteSize w).prefixBits.toNat_lt
    have := (getDeltaMaxWriteSpecByteSize w).dataBits.toNat_lt
    simp only [maxItemSizeBits]
    omega
  simp only [maxItemSizeBits] at hroom hbits ⊢
  simp only [getCompressedDataSize, UInt32.toNat_div, UInt32.toNat_add, UInt32.toNat_mul, hw, UInt8.toNat_toUInt32,
    Nat.toUInt32_eq, UInt32.toNat_ofNat', UInt32.reduceToNat]
  rw [Nat.mod_eq_of_lt hsize, Nat.mod_eq_of_lt hbits, Nat.mod_eq_of_lt (show size / w.width *
    ((getDeltaMaxWriteSpecByteSize w).prefixBits.toNat + (getDeltaMaxWriteSpecByteSize w).dataBits.toNat) < 2 ^ 32 by
      omega), Nat.mod_eq_of_lt hroom]

/-- **The reserve of `DoubleDelta` is never short.** `compressDataForType`
returns for every aligned source whose reserve `getCompressedDataSize`
computes without wrapping, unless the `std::abs` of a double delta is
undefined. -/
theorem compressDataForType_returns_ok {source : List UInt8} (hsmall : source.length < 2 ^ 32)
    (haligned : source.length % w.width = 0)
    (hroom : (source.length / w.width - 2) * maxItemSizeBits w + 7 < 2 ^ 32)
    (hdd : ∀ dd ∈ sourceDoubleDeltas w source, ¬ (4 ≤ w.width ∧ dd.toInt = -2 ^ (8 * w.width - 1))) :
    ∃ data size, compressDataForType w source = .ok (data, size) := by
  have hcount := length_loadValues w.width (source.length / w.width) source
  unfold compressDataForType
  rw [if_neg (by omega)]
  rcases hvals : loadValues w.width (source.length / w.width) source with _ | ⟨first, _ | ⟨second, rest⟩⟩
  · -- no value: nothing for the writer
    simp only [hvals, compressHeader, List.foldlM_nil, pure_eq_ok, ok_bind]
    obtain ⟨writer, hflush⟩ := BitWriter.flush_ok (BitWriter.make_ok _) (by simp)
    rw [liftWriter_eq_ok.mpr hflush, ok_bind]
    exact ⟨_, _, rfl⟩
  · simp only [hvals, compressHeader, List.foldlM_nil, pure_eq_ok, ok_bind]
    obtain ⟨writer, hflush⟩ := BitWriter.flush_ok (BitWriter.make_ok _) (by simp)
    rw [liftWriter_eq_ok.mpr hflush, ok_bind]
    exact ⟨_, _, rfl⟩
  · -- the codes of the double deltas fit the reserve
    rw [hvals] at hcount
    simp only [List.length_cons] at hcount
    have hwidth := width_pos w
    have hlenw : source.length = rest.length * w.width + 2 * w.width := by
      have hdiv := Nat.div_mul_cancel (Nat.dvd_of_mod_eq_zero haligned)
      rw [← hcount] at hdiv
      rw [← hdiv]
      ring
    have hsub : (source.length.toUInt32 - (2 * w.width).toUInt32) = (source.length - 2 * w.width).toUInt32 := by
      apply UInt32.toNat_inj.mp
      rw [UInt32.toNat_sub_of_le _ _ (UInt32.le_iff_toNat_le.mpr (by simp; omega))]
      simp
      omega
    have hitems : (source.length - 2 * w.width) / w.width = rest.length := by
      rw [hlenw, Nat.add_sub_cancel, Nat.mul_div_cancel _ hwidth]
    have hcap := getCompressedDataSize_toNat w (source.length - 2 * w.width) (by omega)
      (by rw [hitems]; rw [← hcount] at hroom; simpa using hroom)
    rw [hitems] at hcap
    have hlen := length_flatMap_ddBits_le w (doubleDeltas w second (second - first) rest)
    rw [length_doubleDeltas] at hlen
    simp only [hvals, compressHeader]
    obtain ⟨st, hfold⟩ := foldlM_compressStep_ok w rest
      ⟨second, second - first, BitWriter.make (getCompressedDataSize w (source.length.toUInt32 - (2 * w.width).toUInt32)).toNat⟩
      (BitWriter.make_ok _) (by simpa [sourceDoubleDeltas, hvals] using hdd)
      (by dsimp only; rw [BitWriter.make_bits, List.nil_append]; simp only [BitWriter.make, hsub, hcap]; omega)
    obtain ⟨hok, hbits, hcapst⟩ := foldlM_compressStep_bits w rest (BitWriter.make_ok _) hfold
    obtain ⟨writer, hflush⟩ := BitWriter.flush_ok hok
      (by rw [hbits, hcapst]; dsimp only; rw [BitWriter.make_bits, List.nil_append]; simp only [BitWriter.make, hsub, hcap]
          omega)
    rw [hfold, ok_bind, liftWriter_eq_ok.mpr hflush, ok_bind]
    exact ⟨_, _, rfl⟩

/-- Three 4-byte values whose double delta is the largest `Int32`: its class
is the widest, and the reserve holds it. -/
theorem compressDataForType_returns_ok_widest :
    ((writeLE 4 0 ++ writeLE 4 0 ++ writeLE 4 (2 ^ 31 - 1)).length < 2 ^ 32 ∧
      (writeLE 4 0 ++ writeLE 4 0 ++ writeLE 4 (2 ^ 31 - 1)).length % DataBytesSize.width ⟨4, .inr (.inr (.inl rfl))⟩ = 0 ∧
      ((writeLE 4 0 ++ writeLE 4 0 ++ writeLE 4 (2 ^ 31 - 1)).length / DataBytesSize.width ⟨4, .inr (.inr (.inl rfl))⟩ -
        2) * maxItemSizeBits ⟨4, .inr (.inr (.inl rfl))⟩ + 7 < 2 ^ 32 ∧
      ∀ dd ∈ sourceDoubleDeltas ⟨4, .inr (.inr (.inl rfl))⟩ (writeLE 4 0 ++ writeLE 4 0 ++ writeLE 4 (2 ^ 31 - 1)),
        ¬ (4 ≤ DataBytesSize.width ⟨4, .inr (.inr (.inl rfl))⟩ ∧
          dd.toInt = -2 ^ (8 * DataBytesSize.width ⟨4, .inr (.inr (.inl rfl))⟩ - 1))) ∧
      ∃ data size,
        compressDataForType ⟨4, .inr (.inr (.inl rfl))⟩ (writeLE 4 0 ++ writeLE 4 0 ++ writeLE 4 (2 ^ 31 - 1)) =
          .ok (data, size) := by
  have hsmall : (writeLE 4 0 ++ writeLE 4 0 ++ writeLE 4 (2 ^ 31 - 1)).length < 2 ^ 32 := by simp
  have haligned : (writeLE 4 0 ++ writeLE 4 0 ++ writeLE 4 (2 ^ 31 - 1)).length %
      DataBytesSize.width ⟨4, .inr (.inr (.inl rfl))⟩ = 0 := by decide +kernel
  have hroom : ((writeLE 4 0 ++ writeLE 4 0 ++ writeLE 4 (2 ^ 31 - 1)).length /
      DataBytesSize.width ⟨4, .inr (.inr (.inl rfl))⟩ - 2) * maxItemSizeBits ⟨4, .inr (.inr (.inl rfl))⟩ + 7 <
      2 ^ 32 := by
    decide +kernel
  have hdds : sourceDoubleDeltas ⟨4, .inr (.inr (.inl rfl))⟩ (writeLE 4 0 ++ writeLE 4 0 ++ writeLE 4 (2 ^ 31 - 1)) =
      [2 ^ 31 - 1] := by
    decide +kernel
  have hdd : ∀ dd ∈ sourceDoubleDeltas ⟨4, .inr (.inr (.inl rfl))⟩ (writeLE 4 0 ++ writeLE 4 0 ++ writeLE 4 (2 ^ 31 - 1)),
      ¬ (4 ≤ DataBytesSize.width ⟨4, .inr (.inr (.inl rfl))⟩ ∧
        dd.toInt = -2 ^ (8 * DataBytesSize.width ⟨4, .inr (.inr (.inl rfl))⟩ - 1)) := by
    rw [hdds]
    intro dd hmem
    rw [List.mem_singleton] at hmem
    subst hmem
    decide +kernel
  exact ⟨⟨hsmall, haligned, hroom, hdd⟩, compressDataForType_returns_ok _ hsmall haligned hroom hdd⟩

end Reserve

end Daisy.Compression.CompressionCodecDoubleDelta
