import Daisy.IO.BitHelpers
import Daisy.Library.Bits
import Daisy.Library.Faults

/-!
# The bits of a `BitWriter` and of a `BitReader`

What the streams of `IO/BitHelpers.h` hold, as lists of bits: a writer the
bits of the bytes it has written, then those of its buffer
(`BitWriter.bits`); a reader the bits of its buffer, then those of the bytes
it has not read (`BitReader.bits`). The bits of a buffer are its
`bits_count` high bits, and the buffer is zero under them (`BufferOk`): both
streams keep that.

Over these views every operation is one on a list of bits, and none reads
the buffer otherwise: `doFlush` and `flush`'s loop move bits from the buffer
to memory and keep the list, `writeBits` appends the low bits of its value,
`flush` completes the last byte with zeroes; `fillBitBuffer` moves bytes from
memory to the buffer, and `readBits` reads the first bits and drops them.

## What is proved

* `writeBits_bits`, `flush_bits`: what a writer writes is the bits given to
  it, highest first, and as many zeroes as complete the last byte.
* `writeBits_ok`, `flush_ok`: a writer throws only when the bits given to it
  do not fit its bytes.
* `readBits_bits`, `peekByte_bits`, `skipBufferedBits_bits`: a reader reads
  the bits of its bytes in order, zeroes past their end; `eof_iff`.
-/

namespace Daisy.IO

open Daisy.Library

/-- The bits of a byte, the highest first. -/
def byteBits (b : UInt8) : List Bool := bitsOf 8 b.toNat

/-- The bits of bytes in memory order. -/
def bytesBits (bytes : List UInt8) : List Bool := bytes.flatMap byteBits

@[simp] theorem bytesBits_nil : bytesBits [] = [] := rfl

@[simp] theorem bytesBits_append (bs bs' : List UInt8) : bytesBits (bs ++ bs') = bytesBits bs ++ bytesBits bs' :=
  List.flatMap_append

@[simp] theorem length_bytesBits (bytes : List UInt8) : (bytesBits bytes).length = 8 * bytes.length := by
  induction bytes with
  | nil => rfl
  | cons b bs ih =>
    simp only [bytesBits, List.flatMap_cons, List.length_append, byteBits, length_bitsOf] at ih ⊢
    rw [ih, List.length_cons]
    omega

theorem bytesBits_take (bytes : List UInt8) (t : Nat) : bytesBits (bytes.take t) = (bytesBits bytes).take (8 * t) := by
  induction bytes generalizing t with
  | nil => simp
  | cons b bs ih =>
    cases t with
    | zero => simp
    | succ t =>
      have hb : (byteBits b).length = 8 := length_bitsOf 8 _
      simp only [List.take_succ_cons, bytesBits, List.flatMap_cons] at ih ⊢
      rw [ih, Nat.mul_succ, Nat.add_comm, List.take_append, hb, Nat.add_sub_cancel_left,
        List.take_of_length_le (l := byteBits b) (by omega)]

/-- The bytes of `writeLE k x` from the last: `x`'s `8k` low bits, highest
first. -/
theorem bytesBits_writeLE_reverse (k x : Nat) : bytesBits (writeLE k x).reverse = bitsOf (8 * k) x := by
  induction k generalizing x with
  | zero => rfl
  | succ k ih =>
    have hbyte : byteBits (x % 256).toUInt8 = bitsOf 8 x := by
      rw [byteBits, Nat.toUInt8_eq, UInt8.toNat_ofNat_of_lt' (Nat.mod_lt _ (by decide))]
      exact bitsOf_mod 8 x
    have hdiv : x / 2 ^ 8 = x / 256 := by norm_num
    rw [writeLE, List.reverse_cons, bytesBits_append, ih, bytesBits, List.flatMap_singleton, hbyte, Nat.mul_succ,
      bitsOf_add, hdiv]

/-- Bytes read back to front: the number whose bits they are. -/
theorem bitsOf_readLE_reverse (bytes : List UInt8) : bitsOf (8 * bytes.length) (readLE bytes.reverse) = bytesBits bytes := by
  have h := writeLE_readLE bytes.reverse
  rw [List.length_reverse] at h
  conv_rhs => rw [← List.reverse_reverse bytes, ← h]
  rw [bytesBits_writeLE_reverse]

/-! ### The 128-bit buffer -/

/-- The bits a 128-bit buffer holds: its `count` high bits. -/
def bufferBits (count : UInt8) (buffer : Nat) : List Bool := bitsOf count.toNat (buffer / 2 ^ (128 - count.toNat))

@[simp] theorem length_bufferBits (count : UInt8) (buffer : Nat) : (bufferBits count buffer).length = count.toNat :=
  length_bitsOf _ _

/-- A buffer holds no more than its 128 bits, and zeroes under those it holds. -/
structure BufferOk (count : UInt8) (buffer : Nat) : Prop where
  count_le : count.toNat ≤ 128
  buffer_eq : buffer = topWord 128 (bufferBits count buffer)

/-- A buffer that holds `p` at its top. -/
theorem bufferOk_of {p : List Bool} (count : UInt8) (buffer : Nat) (hlen : count.toNat = p.length) (hle : p.length ≤ 128)
    (hbuf : buffer = topWord 128 p) : BufferOk count buffer ∧ bufferBits count buffer = p := by
  have hbits : bufferBits count buffer = p := by
    rw [bufferBits, hbuf, hlen, topWord_div_of_le (Nat.le_refl _) hle, List.take_length, bitsOf_ofBits]
  exact ⟨⟨by omega, by rw [hbits, hbuf]⟩, hbits⟩

@[simp] theorem bufferBits_zero (buffer : Nat) : bufferBits 0 buffer = [] := rfl

theorem bufferOk_zero : BufferOk 0 0 := (bufferOk_of (p := []) 0 0 rfl (by decide) (by simp)).1

namespace BufferOk

variable {count : UInt8} {buffer : Nat}

/-- Bits or-ed in under those of the buffer. -/
theorem or (hb : BufferOk count buffer) {m : List Bool} (hm : count.toNat + m.length ≤ 128) (count' : UInt8)
    (hcount : count'.toNat = count.toNat + m.length) :
    BufferOk count' (buffer ||| ofBits m * 2 ^ (128 - count.toNat - m.length)) ∧
      bufferBits count' (buffer ||| ofBits m * 2 ^ (128 - count.toNat - m.length)) = bufferBits count buffer ++ m := by
  have hor := topWord_or (W := 128) (l := bufferBits count buffer) (m := m) (by simpa using hm)
  rw [length_bufferBits, ← hb.buffer_eq] at hor
  exact bufferOk_of _ _ (by simp [hcount]) (by simpa using hm) hor

/-- A shift left by `n` of the bits it holds takes them off. -/
theorem shiftLeft (hb : BufferOk count buffer) {n : Nat} (hn : n ≤ count.toNat) (count' : UInt8)
    (hcount : count'.toNat = count.toNat - n) :
    BufferOk count' (buffer <<< n % 2 ^ 128) ∧ bufferBits count' (buffer <<< n % 2 ^ 128) = (bufferBits count buffer).drop n := by
  have hshift := topWord_shiftLeft (W := 128) (l := bufferBits count buffer) (n := n) (by simpa using hn)
    (by simpa using hb.count_le)
  rw [← hb.buffer_eq, ← Nat.shiftLeft_eq] at hshift
  exact bufferOk_of _ _ (by simp [hcount]) (by simp; have := hb.count_le; omega) hshift

/-- The first `n` bits of the buffer, zeroes past those it holds. -/
theorem div (hb : BufferOk count buffer) {n : Nat} (hn : n ≤ 128) :
    buffer / 2 ^ (128 - n) = ofBits ((bufferBits count buffer ++ List.replicate n false).take n) := by
  conv_lhs => rw [hb.buffer_eq]
  exact topWord_div hn (by simpa using hb.count_le)

end BufferOk

/-! ### The writer -/

namespace BitWriter

/-- The bits a writer holds: those of the bytes it has written, then those of
its buffer. -/
def bits (w : BitWriter) : List Bool := bytesBits w.written ++ bufferBits w.bitsCount w.bitsBuffer

/-- A writer keeps its buffer well formed. -/
def Ok (w : BitWriter) : Prop := BufferOk w.bitsCount w.bitsBuffer

theorem make_ok (size : Nat) : (make size).Ok := bufferOk_zero

@[simp] theorem make_bits (size : Nat) : (make size).bits = [] := rfl

/-- `count()` counts the bits a writer holds. -/
theorem count_eq (w : BitWriter) : w.count = w.bits.length := by
  simp [count, bits]
  omega

theorem length_bits (w : BitWriter) : w.bits.length = 8 * w.written.length + w.bitsCount.toNat := by
  simp [bits]

/-- `doFlush` moves whole bytes from the buffer to memory: the bits stay. -/
theorem doFlush_bits {w w' : BitWriter} (hw : w.Ok) (h : w.doFlush = .ok w') :
    w'.Ok ∧ w'.bits = w.bits ∧ w'.capacity = w.capacity := by
  have hcount := doFlush_bitsCount h
  dsimp only [doFlush] at h
  split at h
  · cases h
  · cases h
    have hle : min 8 (w.bitsCount.toNat / 8) * 8 ≤ w.bitsCount.toNat := by omega
    -- the bytes written are the first of the buffer's bits
    have hbytes : bytesBits ((writeLE 8 (w.bitsBuffer >>> 64)).reverse.take (min 8 (w.bitsCount.toNat / 8))) =
        (bufferBits w.bitsCount w.bitsBuffer).take (8 * min 8 (w.bitsCount.toNat / 8)) := by
      have hdiv := BufferOk.div hw (n := 64) (by decide)
      have hQ : bitsOf 64 (ofBits ((bufferBits w.bitsCount w.bitsBuffer ++ List.replicate 64 false).take 64)) =
          (bufferBits w.bitsCount w.bitsBuffer ++ List.replicate 64 false).take 64 := by
        have h := bitsOf_ofBits ((bufferBits w.bitsCount w.bitsBuffer ++ List.replicate 64 false).take 64)
        rwa [List.length_take, List.length_append, List.length_replicate, Nat.min_eq_left (by omega)] at h
      rw [bytesBits_take, Nat.shiftRight_eq_div_pow, hdiv, bytesBits_writeLE_reverse, show (8 : Nat) * 8 = 64 from rfl,
        hQ, List.take_take, Nat.min_eq_left (by omega : 8 * min 8 (w.bitsCount.toNat / 8) ≤ 64),
        List.take_append_of_le_length (by simp; omega)]
    obtain ⟨hok, hbits⟩ := BufferOk.shiftLeft hw hle _ (by rw [hcount, Nat.mul_comm])
    refine ⟨hok, ?_, rfl⟩
    simp only [bits]
    rw [hbits, bytesBits_append, hbytes, Nat.mul_comm 8, List.append_assoc, List.take_append_drop]

/-- `maskLowBits(bits)` for the widths a `UInt64` has. -/
theorem maskLowBits_toNat : ∀ n : UInt8, n.toNat ≤ 64 → (maskLowBits n).toNat = 2 ^ n.toNat - 1 := by
  decide +kernel

theorem and_maskLowBits (v : UInt64) {n : UInt8} (hn : n.toNat ≤ 64) :
    (v &&& maskLowBits n).toNat = v.toNat % 2 ^ n.toNat := by
  rw [UInt64.toNat_and, maskLowBits_toNat n hn, Nat.and_two_pow_sub_one_eq_mod]

/-- What `writeBits` does once the bits fit the buffer: it puts them under
those there. -/
theorem writeBits_fit {w : BitWriter} (hw : w.Ok) {n : UInt8} (hn : n.toNat ≤ 64)
    (hroom : w.bitsCount.toNat + n.toNat ≤ 128) (v : UInt64) :
    Ok { w with bitsBuffer := w.bitsBuffer ||| (v &&& maskLowBits n).toNat <<< (128 - w.bitsCount.toNat - n.toNat) % 2 ^ 128,
                bitsCount := w.bitsCount + n } ∧
      bits { w with bitsBuffer := w.bitsBuffer ||| (v &&& maskLowBits n).toNat <<< (128 - w.bitsCount.toNat - n.toNat) % 2 ^ 128,
                    bitsCount := w.bitsCount + n } = w.bits ++ bitsOf n.toNat v.toNat := by
  have hlt : ofBits (bitsOf n.toNat v.toNat) * 2 ^ (128 - w.bitsCount.toNat - n.toNat) < 2 ^ 128 := by
    have h := topWord_lt (W := 128 - w.bitsCount.toNat) (l := bitsOf n.toNat v.toNat) (by simp; omega)
    rw [topWord, length_bitsOf] at h
    exact Nat.lt_of_lt_of_le h (Nat.pow_le_pow_right (by decide) (Nat.sub_le _ _))
  have hshift : (v &&& maskLowBits n).toNat <<< (128 - w.bitsCount.toNat - n.toNat) % 2 ^ 128 =
      ofBits (bitsOf n.toNat v.toNat) * 2 ^ (128 - w.bitsCount.toNat - (bitsOf n.toNat v.toNat).length) := by
    rw [and_maskLowBits v hn, ← ofBits_bitsOf n.toNat v.toNat, Nat.shiftLeft_eq, Nat.mod_eq_of_lt hlt, length_bitsOf]
  obtain ⟨hok, hbits⟩ := BufferOk.or hw (m := bitsOf n.toNat v.toNat) (by simpa using hroom) (w.bitsCount + n)
    (by simp [UInt8.toNat_add]; omega)
  refine ⟨?_, ?_⟩
  · simp only [Ok]
    rw [hshift]
    exact hok
  · simp only [bits]
    rw [hshift, hbits, List.append_assoc]

/-- `writeBits` appends the `bits_to_write` low bits of its value, the highest
first; the buffer is flushed first where they do not fit it. -/
theorem writeBits_bits {w w' : BitWriter} (hw : w.Ok) {n : UInt8} (hn : n.toNat ≤ 64) {v : UInt64}
    (h : w.writeBits n v = .ok w') :
    w'.Ok ∧ w'.bits = w.bits ++ bitsOf n.toNat v.toNat ∧ w'.capacity = w.capacity := by
  have hc := hw.count_le
  by_cases hfit : 128 - w.bitsCount.toNat < n.toNat
  · simp only [writeBits, hfit, if_true] at h
    obtain ⟨w₁, hflush, h⟩ := bind_eq_ok h
    obtain ⟨hok₁, hbits₁, hcap₁⟩ := doFlush_bits hw hflush
    have hc₁ := doFlush_bitsCount hflush
    cases h
    obtain ⟨hok, hbits⟩ := writeBits_fit hok₁ hn (by omega) v
    exact ⟨hok, by rw [hbits, hbits₁], hcap₁⟩
  · simp only [writeBits, hfit, if_false] at h
    cases h
    obtain ⟨hok, hbits⟩ := writeBits_fit hw hn (by omega) v
    exact ⟨hok, hbits, rfl⟩

/-- `doFlush` throws only when the bytes of the bits given to the writer do
not fit it. -/
theorem doFlush_ok {w : BitWriter} (hroom : w.bits.length ≤ 8 * w.capacity) : ∃ w', w.doFlush = .ok w' := by
  rw [length_bits] at hroom
  dsimp only [doFlush]
  rw [if_neg (by omega)]
  exact ⟨_, rfl⟩

theorem writeBits_ok {w : BitWriter} (hroom : w.bits.length ≤ 8 * w.capacity) (n : UInt8) (v : UInt64) :
    ∃ w', w.writeBits n v = .ok w' := by
  obtain ⟨w₁, h₁⟩ := doFlush_ok hroom
  by_cases hfit : 128 - w.bitsCount.toNat < n.toNat
  · simp only [writeBits, hfit, if_true, h₁, ok_bind]
    exact ⟨_, rfl⟩
  · simp only [writeBits, hfit, if_false]
    exact ⟨_, rfl⟩

/-- The loop of `flush` keeps the bits. -/
theorem flushLoop_bits : ∀ (fuel : Nat) {w w' : BitWriter}, w.Ok → flushLoop fuel w = .ok w' →
    w'.Ok ∧ w'.bits = w.bits ∧ w'.capacity = w.capacity
  | 0, w, w', hw, h => by
    cases h
    exact ⟨hw, rfl, rfl⟩
  | fuel + 1, w, w', hw, h => by
    dsimp only [flushLoop] at h
    split at h
    · cases h
      exact ⟨hw, rfl, rfl⟩
    · obtain ⟨w₁, hflush, h⟩ := bind_eq_ok h
      obtain ⟨hok₁, hbits₁, hcap₁⟩ := doFlush_bits hw hflush
      obtain ⟨hok, hbits, hcap⟩ := flushLoop_bits fuel hok₁ h
      exact ⟨hok, hbits.trans hbits₁, hcap.trans hcap₁⟩

/-- Each turn of the loop of `flush` writes, so a turn for each byte lets it
end. -/
theorem flushLoop_ok : ∀ (fuel : Nat) {w : BitWriter}, w.Ok → w.bitsCount.toNat % 8 = 0 →
    w.bitsCount.toNat / 8 < fuel → w.bits.length ≤ 8 * w.capacity → ∃ w', flushLoop fuel w = .ok w'
  | 0, _, _, _, hfuel, _ => absurd hfuel (Nat.not_lt_zero _)
  | fuel + 1, w, hw, hmod, hfuel, hroom => by
    dsimp only [flushLoop]
    split
    · exact ⟨w, rfl⟩
    · rename_i hne
      obtain ⟨w₁, h₁⟩ := doFlush_ok hroom
      obtain ⟨hok₁, hbits₁, hcap₁⟩ := doFlush_bits hw h₁
      have hc₁ := doFlush_bitsCount h₁
      have hne' : w.bitsCount.toNat ≠ 0 := fun h0 => hne (UInt8.toNat_inj.mp (by simpa using h0))
      rw [h₁, ok_bind]
      exact flushLoop_ok fuel hok₁ (by omega) (by omega) (by rw [hbits₁, hcap₁]; exact hroom)

/-- `flush` rounds `bits_count` up to whole bytes. -/
theorem roundUp_toNat : ∀ x : UInt8, x.toNat ≤ 128 → ((x + 7) &&& ~~~7).toNat = (x.toNat + 7) / 8 * 8 := by
  decide +kernel

/-- `flush` writes every bit the writer holds, and zeroes up to a whole byte. -/
theorem flush_bits {w w' : BitWriter} (hw : w.Ok) (h : w.flush = .ok w') :
    bytesBits w'.written = w.bits ++ List.replicate ((w.bitsCount.toNat + 7) / 8 * 8 - w.bitsCount.toNat) false ∧
      w'.capacity = w.capacity := by
  have hc := hw.count_le
  have hround := roundUp_toNat w.bitsCount hc
  -- the buffer rounded up holds the zeroes under its bits
  obtain ⟨hok₀, hbits₀⟩ := bufferOk_of ((w.bitsCount + 7) &&& ~~~7) w.bitsBuffer
    (p := bufferBits w.bitsCount w.bitsBuffer ++
      List.replicate ((w.bitsCount.toNat + 7) / 8 * 8 - w.bitsCount.toNat) false)
    (by simp [hround]; omega) (by simp; omega) (by rw [topWord_append_replicate (by simp; omega)]; exact hw.buffer_eq)
  dsimp only [flush] at h
  obtain ⟨-, hbits, hcap⟩ := flushLoop_bits _ (w := { w with bitsCount := (w.bitsCount + 7) &&& ~~~7 }) hok₀ h
  have hempty := flush_bitsCount (w := w) h
  refine ⟨?_, hcap⟩
  have hwritten : w'.bits = bytesBits w'.written := by simp [bits, hempty]
  rw [← hwritten, hbits]
  simp only [bits, hbits₀, List.append_assoc]

theorem flush_ok {w : BitWriter} (hw : w.Ok) (hroom : (w.bits.length + 7) / 8 ≤ w.capacity) :
    ∃ w', w.flush = .ok w' := by
  have hc := hw.count_le
  have hround := roundUp_toNat w.bitsCount hc
  obtain ⟨hok₀, hbits₀⟩ := bufferOk_of ((w.bitsCount + 7) &&& ~~~7) w.bitsBuffer
    (p := bufferBits w.bitsCount w.bitsBuffer ++
      List.replicate ((w.bitsCount.toNat + 7) / 8 * 8 - w.bitsCount.toNat) false)
    (by simp [hround]; omega) (by simp; omega) (by rw [topWord_append_replicate (by simp; omega)]; exact hw.buffer_eq)
  rw [length_bits] at hroom
  exact flushLoop_ok _ (w := { w with bitsCount := (w.bitsCount + 7) &&& ~~~7 }) hok₀ (by dsimp only; rw [hround]; omega) (Nat.lt_succ_self _) (by rw [length_bits, hround]; dsimp only; omega)

/-- `flush` leaves the bits it held in whole bytes. -/
theorem flush_length {w w' : BitWriter} (hw : w.Ok) (h : w.flush = .ok w') :
    w'.written.length = (w.bits.length + 7) / 8 := by
  have hlen := congrArg List.length (flush_bits hw h).1
  rw [length_bytesBits, List.length_append, List.length_replicate, length_bits] at hlen
  rw [length_bits]
  omega

end BitWriter

/-! ### The reader -/

namespace BitReader

/-- The bits a reader has left: those of its buffer, then those of the bytes
it has not read. -/
def bits (r : BitReader) : List Bool := bufferBits r.bitsCount r.bitsBuffer ++ bytesBits r.source

/-- A reader keeps its buffer well formed. -/
def Ok (r : BitReader) : Prop := BufferOk r.bitsCount r.bitsBuffer

theorem make_ok (source : List UInt8) : (make source).Ok := bufferOk_zero

@[simp] theorem make_bits (source : List UInt8) : (make source).bits = bytesBits source := rfl

theorem length_bits (r : BitReader) : r.bits.length = r.bitsCount.toNat + 8 * r.source.length := by
  simp [bits]

/-- `eof()` is the end of the bits. -/
theorem eof_iff (r : BitReader) : r.eof = true ↔ r.bits = [] := by
  rw [← List.length_eq_zero_iff, length_bits, eof, Bool.and_eq_true, decide_eq_true_iff, List.isEmpty_iff,
    ← UInt8.toNat_inj, ← List.length_eq_zero_iff]
  simp only [UInt8.toNat_zero]
  omega

theorem bytesBits_replicate_zero (k : Nat) : bytesBits (List.replicate k 0) = List.replicate (8 * k) false := by
  induction k with
  | zero => rfl
  | succ k ih =>
    rw [List.replicate_succ, ← List.singleton_append, bytesBits_append, ih, Nat.mul_succ, Nat.add_comm,
      ← List.replicate_append_replicate]
    rfl

/-- `fillBitBuffer` moves up to eight bytes into a buffer of at most 64 bits:
the bits stay. -/
theorem fillBitBuffer_bits {r : BitReader} (hr : r.Ok) (hc : r.bitsCount.toNat ≤ 64) :
    r.fillBitBuffer.Ok ∧ r.fillBitBuffer.bits = r.bits ∧
      r.fillBitBuffer.bitsCount.toNat = r.bitsCount.toNat + 8 * min 8 r.source.length := by
  unfold fillBitBuffer
  split
  · rename_i hzero
    exact ⟨hr, rfl, by simp [hzero]⟩
  · -- the word read holds the bytes' bits at its top
    have hbytes : bytesBits (r.source.take (min 8 r.source.length) ++ List.replicate (8 - min 8 r.source.length) 0) =
        bytesBits (r.source.take (min 8 r.source.length)) ++ List.replicate (64 - 8 * min 8 r.source.length) false := by
      rw [bytesBits_append, bytesBits_replicate_zero]
      congr 2
      omega
    have hlen : (r.source.take (min 8 r.source.length) ++ List.replicate (8 - min 8 r.source.length) 0).length = 8 := by
      simp
    have htmp : readLE (r.source.take (min 8 r.source.length) ++ List.replicate (8 - min 8 r.source.length) 0).reverse =
        ofBits (bytesBits (r.source.take (min 8 r.source.length))) * 2 ^ (64 - 8 * min 8 r.source.length) := by
      have h := congrArg ofBits (bitsOf_readLE_reverse
        (r.source.take (min 8 r.source.length) ++ List.replicate (8 - min 8 r.source.length) 0))
      have hlt := readLE_lt (r.source.take (min 8 r.source.length) ++ List.replicate (8 - min 8 r.source.length) 0).reverse
      rw [List.length_reverse, hlen] at hlt
      rw [hbytes, ofBits_append, ofBits_replicate_false, Nat.add_zero, ofBits_bitsOf, hlen,
        Nat.mod_eq_of_lt (Nat.lt_of_lt_of_eq hlt (by norm_num)), List.length_replicate] at h
      exact h
    have hlt : ofBits (bytesBits (r.source.take (min 8 r.source.length))) * 2 ^ (64 - 8 * min 8 r.source.length) *
        2 ^ (64 - r.bitsCount.toNat) < 2 ^ 128 := by
      have h := ofBits_lt (bytesBits (r.source.take (min 8 r.source.length)))
      rw [length_bytesBits, List.length_take, Nat.min_eq_left (Nat.min_le_right _ _)] at h
      calc _ < 2 ^ (8 * min 8 r.source.length) * 2 ^ (64 - 8 * min 8 r.source.length) * 2 ^ (64 - r.bitsCount.toNat) :=
            Nat.mul_lt_mul_of_pos_right (Nat.mul_lt_mul_of_pos_right h (Nat.two_pow_pos _)) (Nat.two_pow_pos _)
        _ ≤ 2 ^ 128 := by
          rw [← Nat.pow_add, ← Nat.pow_add]
          exact Nat.pow_le_pow_right (by decide) (by omega)
    have hshift : (readLE (r.source.take (min 8 r.source.length) ++ List.replicate (8 - min 8 r.source.length) 0).reverse <<<
        (64 - r.bitsCount.toNat)) % 2 ^ 128 = ofBits (bytesBits (r.source.take (min 8 r.source.length))) *
          2 ^ (128 - r.bitsCount.toNat - (bytesBits (r.source.take (min 8 r.source.length))).length) := by
      have e : 64 - 8 * min 8 r.source.length + (64 - r.bitsCount.toNat) = 128 - r.bitsCount.toNat - 8 * min 8 r.source.length := by
        omega
      rw [htmp, Nat.shiftLeft_eq, Nat.mod_eq_of_lt hlt, Nat.mul_assoc, ← Nat.pow_add, length_bytesBits, List.length_take,
        Nat.min_eq_left (Nat.min_le_right _ _), e]
    have hcount : (r.bitsCount + (min 8 r.source.length * 8).toUInt8).toNat = r.bitsCount.toNat + 8 * min 8 r.source.length := by
      rw [UInt8.toNat_add, Nat.toUInt8_eq, UInt8.toNat_ofNat_of_lt' (show _ < 256 by omega)]
      omega
    obtain ⟨hok, hbits⟩ := BufferOk.or hr (m := bytesBits (r.source.take (min 8 r.source.length))) (by simp; omega)
      (r.bitsCount + (min 8 r.source.length * 8).toUInt8) (by rw [hcount]; simp)
    refine ⟨?_, ?_, hcount⟩
    · simp only [Ok]
      rw [hshift]
      exact hok
    · simp only [bits]
      rw [hshift, hbits, List.append_assoc, ← bytesBits_append, List.take_append_drop]

/-- `getBitsFromBitBuffer<PEEK>(bits)`: the first bits of the buffer, zeroes
past those it holds. -/
theorem peekBits_toNat {r : BitReader} (hr : r.Ok) {n : UInt8} (hn : n.toNat ≤ 64) :
    (r.peekBits n).toNat = ofBits ((bufferBits r.bitsCount r.bitsBuffer ++ List.replicate n.toNat false).take n.toNat) := by
  have hlt := ofBits_lt ((bufferBits r.bitsCount r.bitsBuffer ++ List.replicate n.toNat false).take n.toNat)
  have hlen : ((bufferBits r.bitsCount r.bitsBuffer ++ List.replicate n.toNat false).take n.toNat).length = n.toNat := by
    simp
  rw [hlen] at hlt
  rw [peekBits, UInt64.toNat_ofNat', Nat.shiftRight_eq_div_pow, hr.div (by omega),
    Nat.mod_eq_of_lt (Nat.lt_of_lt_of_le hlt (Nat.pow_le_pow_right (by decide) hn))]

/-- The same, over all the bits the reader has left, where the buffer holds
the first `n` of them or all. -/
theorem peekBits_of_filled {r : BitReader} (hr : r.Ok) {n : UInt8} (hn : n.toNat ≤ 64)
    (hfill : min n.toNat r.bits.length ≤ r.bitsCount.toNat) :
    (r.peekBits n).toNat = ofBits ((r.bits ++ List.replicate n.toNat false).take n.toNat) := by
  rw [peekBits_toNat hr hn]
  congr 1
  by_cases hle : n.toNat ≤ r.bitsCount.toNat
  · -- the buffer holds the bits read
    have hle' : n.toNat ≤ (bufferBits r.bitsCount r.bitsBuffer).length := by simpa using hle
    rw [List.take_append_of_le_length hle', bits, List.append_assoc, List.take_append_of_le_length hle']
  · -- the buffer holds all the bits there are
    have hsrc : r.source = [] := by
      rw [length_bits] at hfill
      exact List.eq_nil_of_length_eq_zero (by omega)
    simp [bits, hsrc]

/-- `skipBufferedBits(bits)` drops bits the buffer holds. -/
theorem skipBufferedBits_bits {r : BitReader} (hr : r.Ok) {n : UInt8} (hn : n.toNat ≤ r.bitsCount.toNat) :
    (r.skipBufferedBits n).Ok ∧ (r.skipBufferedBits n).bits = r.bits.drop n.toNat := by
  obtain ⟨hok, hbits⟩ := BufferOk.shiftLeft hr hn (r.bitsCount - n)
    (UInt8.toNat_sub_of_le _ _ (UInt8.le_iff_toNat_le.mpr hn))
  refine ⟨hok, ?_⟩
  simp only [skipBufferedBits, bits]
  rw [hbits, List.drop_append_of_le_length (by simpa using hn)]

/-- A read fills the buffer first where it holds fewer bits than it reads: it
then holds them, or all there are. -/
theorem fillIfShort_bits {r : BitReader} (hr : r.Ok) {n : UInt8} (hn : n.toNat ≤ 64) :
    (if r.bitsCount < n then r.fillBitBuffer else r).Ok ∧ (if r.bitsCount < n then r.fillBitBuffer else r).bits = r.bits ∧
      min n.toNat r.bits.length ≤ (if r.bitsCount < n then r.fillBitBuffer else r).bitsCount.toNat := by
  split
  · rename_i hlt
    rw [UInt8.lt_iff_toNat_lt] at hlt
    obtain ⟨hok, hbits, hcount⟩ := fillBitBuffer_bits hr (by omega)
    refine ⟨hok, hbits, ?_⟩
    rw [hcount, length_bits]
    omega
  · rename_i hge
    rw [UInt8.lt_iff_toNat_lt] at hge
    exact ⟨hr, rfl, by omega⟩

/-- `readBits(bits_to_read)` reads the first bits the reader has left, zeroes
past their end. -/
theorem readBits_value {r : BitReader} (hr : r.Ok) {n : UInt8} (hn : n.toNat ≤ 64) :
    (r.readBits n).1.toNat = ofBits ((r.bits ++ List.replicate n.toNat false).take n.toNat) := by
  obtain ⟨hok, hbits, hfill⟩ := fillIfShort_bits hr hn
  simp only [readBits]
  rw [peekBits_of_filled hok hn (by rwa [hbits]), hbits]

/-- `readBits(bits_to_read)` drops the bits it reads. -/
theorem readBits_bits {r : BitReader} (hr : r.Ok) {n : UInt8} (hn : n.toNat ≤ 64) (hlen : n.toNat ≤ r.bits.length) :
    (r.readBits n).2.Ok ∧ (r.readBits n).2.bits = r.bits.drop n.toNat := by
  obtain ⟨hok, hbits, hfill⟩ := fillIfShort_bits hr hn
  simp only [readBits]
  rw [← hbits]
  exact skipBufferedBits_bits hok (by omega)

/-- `readBits` of the bits written as a number: the number. -/
theorem readBits_bitsOf {r : BitReader} (hr : r.Ok) {n : UInt8} (hn : n.toNat ≤ 64) {x : Nat} {rest : List Bool}
    (hbits : r.bits = bitsOf n.toNat x ++ rest) :
    (r.readBits n).1.toNat = x % 2 ^ n.toNat ∧ (r.readBits n).2.Ok ∧ (r.readBits n).2.bits = rest := by
  have hlen : (bitsOf n.toNat x).length = n.toNat := length_bitsOf _ _
  refine ⟨?_, ?_⟩
  · rw [readBits_value hr hn, hbits, List.append_assoc, List.take_append_of_le_length (by omega),
      List.take_of_length_le (by omega), ofBits_bitsOf]
  · obtain ⟨hok, hdrop⟩ := readBits_bits hr hn (by rw [hbits]; simp)
    exact ⟨hok, by rw [hdrop, hbits, List.drop_append_of_le_length (by omega), List.drop_of_length_le (by omega),
      List.nil_append]⟩

/-- `readBit()` of a bit. -/
theorem readBit_cons {r : BitReader} (hr : r.Ok) {b : Bool} {rest : List Bool} (hbits : r.bits = b :: rest) :
    r.readBit.1 = (if b then 1 else 0) ∧ r.readBit.2.Ok ∧ r.readBit.2.bits = rest := by
  have hone : (1 : UInt8).toNat = 1 := rfl
  obtain ⟨hvalue, hok, hrest⟩ := readBits_bitsOf hr (by decide)
    (show r.bits = bitsOf (1 : UInt8).toNat b.toNat ++ rest by rw [hbits, hone]; cases b <;> rfl)
  refine ⟨?_, hok, hrest⟩
  simp only [readBit]
  rw [hone] at hvalue
  apply UInt8.toNat_inj.mp
  rw [UInt64.toNat_toUInt8, hvalue]
  cases b <;> rfl

/-- `peekByte()`: the first eight bits, zeroes past their end; the buffer
then holds them, or all there are. -/
theorem peekByte_bits {r : BitReader} (hr : r.Ok) :
    r.peekByte.1.toNat = ofBits ((r.bits ++ List.replicate 8 false).take 8) ∧ r.peekByte.2.Ok ∧
      r.peekByte.2.bits = r.bits ∧ min 8 r.bits.length ≤ r.peekByte.2.bitsCount.toNat := by
  have height : (8 : UInt8).toNat = 8 := rfl
  obtain ⟨hok, hbits, hfill⟩ := fillIfShort_bits hr (n := 8) (by decide)
  rw [height] at hfill
  refine ⟨?_, hok, hbits, hfill⟩
  have hpeek := peekBits_of_filled hok (n := 8) (by decide) (by rwa [hbits, height])
  rw [height, hbits] at hpeek
  have hlt := ofBits_lt ((r.bits ++ List.replicate 8 false).take 8)
  simp only [List.length_take, List.length_append, List.length_replicate] at hlt
  simp only [peekByte]
  rw [UInt64.toNat_toUInt8, hpeek, Nat.mod_eq_of_lt (Nat.lt_of_lt_of_le hlt (Nat.pow_le_pow_right (by decide) (by omega)))]

end BitReader

end Daisy.IO
