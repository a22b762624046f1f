import Mathlib
import Daisy.Library.Codes

/-!
# Binary readers and writers

`IO/ReadHelpers`, `IO/WriteHelpers` and `IO/VarInt.h`: what the binary
formats (`Native` blocks, the records of the Distributed Write Ahead Log)
are written and read with.

## The model

A buffer is the list of its bytes not read yet; a reader returns what it read
and the rest, or the exception it throws (`BinaryError`).

* `readStrict(n)`: `n` bytes, or "Cannot read all data".
* `writeIntBinary` / `readIntBinary` of a `UInt64`: its eight bytes in memory
  order, lowest first (the byte order of the platforms the server builds for).
* `writeVarUInt` / `readVarUInt`: seven bits a byte, lowest first, the high
  bit set on every byte but the last; both loops stop after nine bytes, so
  only values below `2^63` are written whole ("Only up to 2^63 - 1 are
  supported"). `x |= (byte & 0x7F) << (7 * i)` adds, the bits being disjoint.
* `writeStringBinary` / `readStringBinary`: the size as a `VarUInt`, then the
  bytes; a size above `DEFAULT_MAX_STRING_SIZE` (`2^30`) is refused.

## What is proved

Each reader reads back what its writer wrote, followed by anything
(`readIntBinary_writeIntBinary`, `readVarUInt_writeVarUInt`,
`readStringBinary_writeStringBinary`), for every value the writer writes
whole.
-/

namespace Daisy.IO

open Daisy.Library

/-- What the binary readers throw. -/
inductive BinaryError where
  /-- `throwReadAfterEOF`: "Attempt to read after eof" (`ATTEMPT_TO_READ_AFTER_EOF`). -/
  | attemptToReadAfterEof
  /-- `readStrict`: "Cannot read all data. Bytes read: `read`. Bytes expected:
  `expected`." (`CANNOT_READ_ALL_DATA`). -/
  | cannotReadAllData (read expected : Nat)
  /-- `readStringBinary`: "Too large string size." -/
  | tooLargeStringSize
  deriving DecidableEq, Repr

/-- A reader of binary input. -/
abbrev BinaryReader (α : Type) := List UInt8 → Except BinaryError (α × List UInt8)

/-- `ReadBuffer::readStrict(to, n)`. -/
def readStrict (n : Nat) : BinaryReader (List UInt8) := fun input =>
  if n ≤ input.length then .ok (input.take n, input.drop n)
  else .error (.cannotReadAllData input.length n)

theorem readStrict_append (bytes rest : List UInt8) :
    readStrict bytes.length (bytes ++ rest) = .ok (bytes, rest) := by
  simp [readStrict]

/-- What `readStrict` returns: `n` bytes, and the input after them. -/
theorem readStrict_eq_ok {n : Nat} {input bytes rest : List UInt8} (h : readStrict n input = .ok (bytes, rest)) :
    bytes.length = n ∧ input = bytes ++ rest := by
  unfold readStrict at h
  split at h
  · cases h
    exact ⟨by simp; omega, (List.take_append_drop n input).symm⟩
  · cases h

/-! ### Fixed-width integers -/

/-- The `k` bytes of `x` in memory, lowest first. -/
def writeLE : Nat → Nat → List UInt8
  | 0, _ => []
  | k + 1, x => (x % 256).toUInt8 :: writeLE k (x / 256)

/-- The value of bytes in memory, lowest first. -/
def readLE : List UInt8 → Nat
  | [] => 0
  | b :: bs => b.toNat + 256 * readLE bs

@[simp] theorem length_writeLE (k x : Nat) : (writeLE k x).length = k := by
  induction k generalizing x with
  | zero => rfl
  | succ k ih => simp [writeLE, ih]

theorem readLE_writeLE (k x : Nat) : readLE (writeLE k x) = x % 256 ^ k := by
  induction k generalizing x with
  | zero => simp [readLE, writeLE, Nat.mod_one]
  | succ k ih =>
    have hpow : 256 ^ (k + 1) = 256 * 256 ^ k := by rw [Nat.pow_succ, Nat.mul_comm]
    rw [writeLE, readLE, ih, UInt8.toNat_ofNat', hpow, Nat.mod_mul]
    omega

theorem readLE_lt (bytes : List UInt8) : readLE bytes < 256 ^ bytes.length := by
  induction bytes with
  | nil => simp [readLE]
  | cons b bs ih =>
    have hb := b.toNat_lt
    rw [readLE, List.length_cons, Nat.pow_succ]
    omega

/-- Bytes read as a number and written back at their own length. -/
theorem writeLE_readLE (bytes : List UInt8) : writeLE bytes.length (readLE bytes) = bytes := by
  induction bytes with
  | nil => rfl
  | cons b bs ih =>
    have hb := b.toNat_lt
    have hmod : (b.toNat + 256 * readLE bs) % 256 = b.toNat := by omega
    have hdiv : (b.toNat + 256 * readLE bs) / 256 = readLE bs := by omega
    rw [List.length_cons, writeLE, readLE, hmod, hdiv, ih]
    simp

/-! ### Bytes as bits

Bit `k` of bytes read as a number is bit `k % 8` of byte `k / 8`: the formats
that move bits between bytes (the bit planes of `T64`) are compared through
this one fact. -/

theorem testBit_readLE (bytes : List UInt8) (k : Nat) :
    (readLE bytes).testBit k = (bytes.getD (k / 8) 0).toNat.testBit (k % 8) := by
  induction bytes generalizing k with
  | nil => simp [readLE]
  | cons b bs ih =>
    have hb : b.toNat < 2 ^ 8 := b.toNat_lt
    rw [readLE, show b.toNat + 256 * readLE bs = 2 ^ 8 * readLE bs + b.toNat by omega, Nat.testBit_two_pow_mul_add _ hb]
    split
    · rename_i hk
      rw [Nat.div_eq_of_lt hk, Nat.mod_eq_of_lt hk, List.getD_cons_zero]
    · obtain ⟨j, rfl⟩ : ∃ j, k = j + 8 := ⟨k - 8, by omega⟩
      rw [ih, Nat.add_sub_cancel, show (j + 8) / 8 = j / 8 + 1 by omega, List.getD_cons_succ, Nat.add_mod_right]

/-- Bit `i` of byte `c`, as a bit of the number the bytes are. -/
theorem testBit_getD (bytes : List UInt8) (c : Nat) {i : Nat} (hi : i < 8) :
    (bytes.getD c 0).toNat.testBit i = (readLE bytes).testBit (8 * c + i) := by
  rw [testBit_readLE, show (8 * c + i) / 8 = c by omega, show (8 * c + i) % 8 = i by omega]

theorem readLE_append (a b : List UInt8) : readLE (a ++ b) = readLE a + 256 ^ a.length * readLE b := by
  induction a with
  | nil => simp [readLE]
  | cons x a ih =>
    rw [List.cons_append, readLE, readLE, ih, List.length_cons, Nat.pow_succ]
    ring

theorem testBit_readLE_append (a b : List UInt8) (k : Nat) :
    (readLE (a ++ b)).testBit k = if k < 8 * a.length then (readLE a).testBit k else (readLE b).testBit (k - 8 * a.length) := by
  have hpow : (256 : Nat) ^ a.length = 2 ^ (8 * a.length) := by rw [Nat.pow_mul]
  have hlt : readLE a < 2 ^ (8 * a.length) := hpow ▸ readLE_lt a
  rw [readLE_append, hpow, Nat.add_comm, Nat.testBit_two_pow_mul_add _ hlt]

theorem testBit_readLE_take (bytes : List UInt8) (n k : Nat) :
    (readLE (bytes.take n)).testBit k = (decide (k < 8 * n) && (readLE bytes).testBit k) := by
  rw [testBit_readLE, testBit_readLE]
  by_cases hk : k < 8 * n
  · have hj : k / 8 < n := by omega
    simp [List.getD_eq_getElem?_getD, hj, hk]
  · have hj : ¬ k / 8 < n := by omega
    simp [List.getD_eq_getElem?_getD, hj, hk]

theorem testBit_readLE_drop (bytes : List UInt8) (n k : Nat) :
    (readLE (bytes.drop n)).testBit k = (readLE bytes).testBit (8 * n + k) := by
  rw [testBit_readLE, testBit_readLE, show (8 * n + k) / 8 = n + k / 8 by omega, show (8 * n + k) % 8 = k % 8 by omega]
  simp [List.getD_eq_getElem?_getD, List.getElem?_drop]

theorem readLE_replicate_zero (n : Nat) : readLE (List.replicate n 0) = 0 := by
  induction n with
  | zero => rfl
  | succ n ih => rw [List.replicate_succ, readLE, ih]; rfl

/-- Rows of `m` bytes one after the other: bit `k` is in row `k / (8 * m)`. -/
theorem testBit_readLE_flatten {m : Nat} (hm : 0 < m) :
    ∀ (rows : List (List UInt8)), (∀ row ∈ rows, row.length = m) → ∀ k,
      (readLE rows.flatten).testBit k = (readLE (rows.getD (k / (8 * m)) [])).testBit (k % (8 * m))
  | [], _, k => by simp [readLE]
  | row :: rows, hrows, k => by
    have hrow : row.length = m := hrows row (List.mem_cons_self ..)
    rw [List.flatten_cons, testBit_readLE_append, hrow]
    split
    · rename_i hk
      rw [Nat.div_eq_of_lt hk, Nat.mod_eq_of_lt hk, List.getD_cons_zero]
    · obtain ⟨j, rfl⟩ : ∃ j, k = j + 8 * m := ⟨k - 8 * m, by omega⟩
      rw [testBit_readLE_flatten hm rows (fun r hr => hrows r (List.mem_cons_of_mem _ hr)), Nat.add_sub_cancel,
        Nat.add_div_right _ (by omega), List.getD_cons_succ, Nat.add_mod_right]

/-- Bit `i` of byte `j` of the `n` bytes of `x`. -/
theorem testBit_getD_writeLE (n x j : Nat) {i : Nat} (hi : i < 8) :
    ((writeLE n x).getD j 0).toNat.testBit i = (decide (j < n) && x.testBit (8 * j + i)) := by
  have hbit := testBit_readLE (writeLE n x) (8 * j + i)
  rw [show (8 * j + i) / 8 = j by omega, show (8 * j + i) % 8 = i by omega, readLE_writeLE,
    show (256 : Nat) ^ n = 2 ^ (8 * n) by rw [Nat.pow_mul], Nat.testBit_mod_two_pow] at hbit
  have hlt : decide (8 * j + i < 8 * n) = decide (j < n) := decide_eq_decide.mpr (by omega)
  rw [← hbit, hlt]

/-- `writeIntBinary` of a `UInt64`. -/
def writeIntBinary (x : UInt64) : List UInt8 := writeLE 8 x.toNat

/-- `readIntBinary` of a `UInt64`. -/
def readIntBinary : BinaryReader UInt64 := fun input => do
  let (bytes, rest) ← readStrict 8 input
  pure ((readLE bytes).toUInt64, rest)

theorem readIntBinary_writeIntBinary : ReadsBack writeIntBinary readIntBinary fun _ => True := by
  intro x rest _
  have hlen : (writeIntBinary x).length = 8 := length_writeLE 8 _
  have hlt : x.toNat < 256 ^ 8 := Nat.lt_of_lt_of_le (UInt64.toNat_lt_size x) (by decide)
  have hx : (readLE (writeIntBinary x)).toUInt64 = x := by
    rw [writeIntBinary, readLE_writeLE, Nat.mod_eq_of_lt hlt]
    exact UInt64.ofNat_toNat
  rw [readIntBinary, ← hlen, readStrict_append]
  show Except.ok ((readLE (writeIntBinary x)).toUInt64, rest) = _
  rw [hx]

/-! ### `VarUInt` -/

/-- The loop of `writeVarUInt` with `k` iterations left. -/
def writeVarUIntLoop : Nat → Nat → List UInt8
  | 0, _ => []
  | k + 1, x =>
    -- the high bit says that more bytes follow
    let byte := if 0x7F < x then x % 128 + 128 else x % 128
    byte.toUInt8 :: if x / 128 = 0 then [] else writeVarUIntLoop k (x / 128)

/-- `writeVarUInt(x, ostr)`. -/
def writeVarUInt (x : UInt64) : List UInt8 := writeVarUIntLoop 9 x.toNat

/-- The loop of `readVarUInt` with `k` iterations left: the value of the bytes
it reads, the first lowest. -/
def readVarUIntLoop : Nat → BinaryReader Nat
  | 0, input => .ok (0, input)
  | _ + 1, [] => .error .attemptToReadAfterEof
  | k + 1, b :: rest =>
    if b.toNat < 128 then .ok (b.toNat, rest)
    else do
      let (x, rest) ← readVarUIntLoop k rest
      pure (b.toNat % 128 + 128 * x, rest)

/-- `readVarUInt(x, istr)`. -/
def readVarUInt : BinaryReader UInt64 := fun input => do
  let (x, rest) ← readVarUIntLoop 9 input
  pure (x.toUInt64, rest)

theorem writeVarUInt_ne_nil (x : UInt64) : writeVarUInt x ≠ [] := by
  simp [writeVarUInt, writeVarUIntLoop]

theorem readVarUIntLoop_writeVarUIntLoop (k : Nat) :
    ∀ x rest, x < 128 ^ k → readVarUIntLoop k (writeVarUIntLoop k x ++ rest) = .ok (x, rest) := by
  -- one byte of seven bits per iteration
  induction k with
  | zero =>
    intro x rest hx
    rw [Nat.pow_zero, Nat.lt_one_iff] at hx
    subst hx
    rfl
  | succ k ih =>
    intro x rest hx
    by_cases hsmall : x / 128 = 0
    · have hbyte : (if 0x7F < x then x % 128 + 128 else x % 128).toUInt8.toNat = x := by
        rw [if_neg (by omega), UInt8.toNat_ofNat']
        omega
      simp only [writeVarUIntLoop, if_pos hsmall, List.cons_append, List.nil_append, readVarUIntLoop, hbyte,
        if_pos (show x < 128 by omega)]
    · have hbyte : (if 0x7F < x then x % 128 + 128 else x % 128).toUInt8.toNat = x % 128 + 128 := by
        rw [if_pos (by omega), UInt8.toNat_ofNat']
        omega
      have hrest : x / 128 < 128 ^ k := by
        rw [Nat.pow_succ] at hx
        exact Nat.div_lt_of_lt_mul (by rwa [Nat.mul_comm] at hx)
      simp only [writeVarUIntLoop, if_neg hsmall, List.cons_append, readVarUIntLoop, hbyte,
        if_neg (show ¬x % 128 + 128 < 128 by omega), ih _ rest hrest]
      show Except.ok ((x % 128 + 128) % 128 + 128 * (x / 128), rest) = _
      congr
      omega

theorem readVarUInt_writeVarUInt : ReadsBack writeVarUInt readVarUInt fun x => x.toNat < 2 ^ 63 := by
  intro x rest hx
  have hloop := readVarUIntLoop_writeVarUIntLoop 9 x.toNat rest (by omega)
  rw [readVarUInt, writeVarUInt, hloop]
  show Except.ok (x.toNat.toUInt64, rest) = _
  rw [show x.toNat.toUInt64 = x from UInt64.ofNat_toNat]

/-! ### Strings -/

/-- `DEFAULT_MAX_STRING_SIZE`. -/
def defaultMaxStringSize : Nat := 2 ^ 30

/-- `writeStringBinary(s, buf)`. -/
def writeStringBinary (s : List UInt8) : List UInt8 := writeVarUInt s.length.toUInt64 ++ s

/-- `readStringBinary(s, buf)`. -/
def readStringBinary : BinaryReader (List UInt8) := fun input => do
  let (size, input) ← readVarUInt input
  if defaultMaxStringSize < size.toNat then throw .tooLargeStringSize
  readStrict size.toNat input

theorem readStringBinary_writeStringBinary :
    ReadsBack writeStringBinary readStringBinary fun s => s.length ≤ defaultMaxStringSize := by
  intro s rest hs
  have hsize : s.length.toUInt64.toNat = s.length :=
    UInt64.toNat_ofNat_of_lt' (Nat.lt_of_le_of_lt hs (by decide))
  have hvar := readVarUInt_writeVarUInt s.length.toUInt64 (s ++ rest)
    (show s.length.toUInt64.toNat < 2 ^ 63 by rw [hsize]; exact Nat.lt_of_le_of_lt hs (by decide))
  rw [readStringBinary, writeStringBinary, List.append_assoc, hvar]
  simp only [bind, Except.bind, hsize, if_neg (Nat.not_lt.mpr hs)]
  exact readStrict_append s rest

end Daisy.IO
