import Daisy.IO.Binary

/-!
# `CityHash128`, version 1.0.2

The checksum of every block `CompressedWriteBuffer` writes and
`CompressedReadBuffer` checks: `CityHash_v1_0_2::CityHash128` of the block,
vendored under `contrib/cityhash102`.

## The model

A string is the list of its bytes and a pointer into it a position, so that
the tail loop of `CityHash128WithSeed`, which reads up to 31 bytes before the
pointer, reads the same bytes. `Fetch64` and `Fetch32` load in little-endian
order, as on the hosts the code is built for. Arithmetic is on `UInt64`, which
wraps as `uint64` does. A `do`/`while` loop runs the number of times its
counter allows, computed up front: `(len - 1) / 16` rounds of `CityMurmur`,
`len / 128` of the main loop, `(len % 128 + 31) / 32` of the tail.

`uint128` is `std::pair<uint64, uint64>`, low word first: as a checksum it is
written as the two words in memory order (`checksumBytes`).
-/

namespace Daisy.CityHash

open Daisy.IO

/-- `Fetch64(s + p)`. -/
def fetch64 (s : List UInt8) (p : Nat) : UInt64 := (readLE ((s.drop p).take 8)).toUInt64

/-- `Fetch32(s + p)`, widened to `uint64`. -/
def fetch32 (s : List UInt8) (p : Nat) : UInt64 := (readLE ((s.drop p).take 4)).toUInt64

/-- `k0`. -/
def k0 : UInt64 := 0xc3a5c85c97cb3127
/-- `k1`. -/
def k1 : UInt64 := 0xb492b66fbe98f273
/-- `k2`. -/
def k2 : UInt64 := 0x9ae16a3b2f90404f
/-- `k3`. -/
def k3 : UInt64 := 0xc949d7c7509e6557

/-- `Rotate(val, shift)`: right rotation, the identity for `shift == 0`. -/
def rotate (val : UInt64) (shift : Nat) : UInt64 :=
  if shift = 0 then val else (val >>> shift.toUInt64) ||| (val <<< (64 - shift).toUInt64)

/-- `RotateByAtLeast1(val, shift)`. -/
def rotateByAtLeast1 (val : UInt64) (shift : Nat) : UInt64 :=
  (val >>> shift.toUInt64) ||| (val <<< (64 - shift).toUInt64)

/-- `ShiftMix(val)`. -/
def shiftMix (val : UInt64) : UInt64 := val ^^^ (val >>> 47)

/-- `Hash128to64(x)`. -/
def hash128to64 (x : UInt64 × UInt64) : UInt64 :=
  let kMul : UInt64 := 0x9ddfea08eb382d69
  let a := (x.1 ^^^ x.2) * kMul
  let a := a ^^^ (a >>> 47)
  let b := (x.2 ^^^ a) * kMul
  let b := b ^^^ (b >>> 47)
  b * kMul

/-- `HashLen16(u, v)`. -/
def hashLen16 (u v : UInt64) : UInt64 := hash128to64 (u, v)

/-- `HashLen0to16(s + p, len)`. -/
def hashLen0to16 (s : List UInt8) (p len : Nat) : UInt64 :=
  if len > 8 then
    let a := fetch64 s p
    let b := fetch64 s (p + len - 8)
    hashLen16 a (rotateByAtLeast1 (b + len.toUInt64) len) ^^^ b
  else if len ≥ 4 then
    let a := fetch32 s p
    hashLen16 (len.toUInt64 + (a <<< 3)) (fetch32 s (p + len - 4))
  else if len > 0 then
    let a := s.getD p 0
    let b := s.getD (p + (len >>> 1)) 0
    let c := s.getD (p + len - 1) 0
    let y : UInt32 := a.toUInt32 + (b.toUInt32 <<< 8)
    let z : UInt32 := len.toUInt32 + (c.toUInt32 <<< 2)
    shiftMix (y.toUInt64 * k2 ^^^ z.toUInt64 * k3) * k2
  else k2

/-- `WeakHashLen32WithSeeds(w, x, y, z, a, b)`. -/
def weakHashLen32WithSeedsOfWords (w x y z a b : UInt64) : UInt64 × UInt64 :=
  let a := a + w
  let b := rotate (b + a + z) 21
  let c := a
  let a := a + x
  let a := a + y
  let b := b + rotate a 44
  (a + z, b + c)

/-- `WeakHashLen32WithSeeds(s + p, a, b)`: the four words at `p`. -/
def weakHashLen32WithSeeds (s : List UInt8) (p : Nat) (a b : UInt64) : UInt64 × UInt64 :=
  weakHashLen32WithSeedsOfWords (fetch64 s p) (fetch64 s (p + 8)) (fetch64 s (p + 16)) (fetch64 s (p + 24)) a b

/-- The `do`/`while` loop of `CityMurmur` over `(a, b, c, d)`, 16 bytes a round. -/
def cityMurmurLoop (s : List UInt8) : Nat → Nat → UInt64 × UInt64 × UInt64 × UInt64 →
    UInt64 × UInt64 × UInt64 × UInt64
  | 0, _, st => st
  | n + 1, p, (a, b, c, d) =>
    let a := a ^^^ shiftMix (fetch64 s p * k1) * k1
    let a := a * k1
    let b := b ^^^ a
    let c := c ^^^ shiftMix (fetch64 s (p + 8) * k1) * k1
    let c := c * k1
    let d := d ^^^ c
    cityMurmurLoop s n (p + 16) (a, b, c, d)

/-- `CityMurmur(s + p, len, seed)`. -/
def cityMurmur (s : List UInt8) (p len : Nat) (seed : UInt64 × UInt64) : UInt64 × UInt64 :=
  let a := seed.1
  let b := seed.2
  let (a, b, c, d) :=
    if len ≤ 16 then
      let a := shiftMix (a * k1) * k1
      let c := b * k1 + hashLen0to16 s p len
      let d := shiftMix (a + if len ≥ 8 then fetch64 s p else c)
      (a, b, c, d)
    else
      let c := hashLen16 (fetch64 s (p + len - 8) + k1) a
      let d := hashLen16 (b + len.toUInt64) (c + fetch64 s (p + len - 16))
      cityMurmurLoop s ((len - 1) / 16) p (a + d, b, c, d)
  let a := hashLen16 a c
  let b := hashLen16 d b
  (a ^^^ b, hashLen16 b a)

/-- The state `x, y, z, v, w` of `CityHash128WithSeed`. -/
abbrev State := UInt64 × UInt64 × UInt64 × (UInt64 × UInt64) × (UInt64 × UInt64)

/-- One 64-byte round of the inner loop at `p`, ending with `std::swap(z, x)`. -/
def round (s : List UInt8) (p : Nat) : State → State
  | (x, y, z, v, w) =>
    let x := rotate (x + y + v.1 + fetch64 s (p + 16)) 37 * k1
    let y := rotate (y + v.2 + fetch64 s (p + 48)) 42 * k1
    let x := x ^^^ w.2
    let y := y ^^^ v.1
    let z := rotate (z ^^^ w.1) 33
    let v := weakHashLen32WithSeeds s p (v.2 * k1) (x + w.1)
    let w := weakHashLen32WithSeeds s (p + 32) (z + w.2) y
    (z, y, x, v, w)

/-- The main loop of `CityHash128WithSeed`: two rounds, 128 bytes, a turn. -/
def mainLoop (s : List UInt8) : Nat → Nat → State → State
  | 0, _, st => st
  | n + 1, p, st => mainLoop s n (p + 128) (round s (p + 64) (round s p st))

/-- The tail loop of `CityHash128WithSeed`: up to four chunks of 32 bytes from
the end of the `len` bytes at `p`, `tail_done` counting the bytes hashed. -/
def tailLoop (s : List UInt8) (p len : Nat) : Nat → Nat → State → State
  | 0, _, st => st
  | n + 1, tailDone, (x, y, z, v, w) =>
    let tailDone := tailDone + 32
    let y := rotate (y - x) 42 * k0 + v.2
    let w := (w.1 + fetch64 s (p + len - tailDone + 16), w.2)
    let x := rotate x 49 * k0 + w.1
    let w := (w.1 + v.1, w.2)
    let v := weakHashLen32WithSeeds s (p + len - tailDone) v.1 v.2
    tailLoop s p len n tailDone (x, y, z, v, w)

/-- `CityHash128WithSeed(s + p, len, seed)`. -/
def cityHash128WithSeed (s : List UInt8) (p len : Nat) (seed : UInt64 × UInt64) : UInt64 × UInt64 :=
  if len < 128 then cityMurmur s p len seed
  else
    let x := seed.1
    let y := seed.2
    let z := len.toUInt64 * k1
    let v1 := rotate (y ^^^ k1) 49 * k1 + fetch64 s p
    let v := (v1, rotate v1 42 * k1 + fetch64 s (p + 8))
    let w := (rotate (y + z) 35 * k1 + x, rotate (x + fetch64 s (p + 88)) 53 * k1)
    let (x, y, z, v, w) := mainLoop s (len / 128) p (x, y, z, v, w)
    let p := p + 128 * (len / 128)
    let len := len % 128
    let y := y + rotate w.1 37 * k0 + z
    let x := x + rotate (v.1 + z) 49 * k0
    let (x, y, _, v, w) := tailLoop s p len ((len + 31) / 32) 0 (x, y, z, v, w)
    let x := hashLen16 x v.1
    let y := hashLen16 y w.1
    (hashLen16 (x + v.2) w.2 + y, hashLen16 (x + w.2) (y + v.2))

/-- `CityHash128(s, len)`. -/
def cityHash128 (s : List UInt8) : UInt64 × UInt64 :=
  if s.length ≥ 16 then
    cityHash128WithSeed s 16 (s.length - 16) (fetch64 s 0 ^^^ k3, fetch64 s 8)
  else if s.length ≥ 8 then
    cityHash128WithSeed s 0 0 (fetch64 s 0 ^^^ s.length.toUInt64 * k0, fetch64 s (s.length - 8) ^^^ k1)
  else cityHash128WithSeed s 0 s.length (k0, k1)

/-- The 16 bytes of a checksum as written: the two words in memory order. -/
def checksumBytes (checksum : UInt64 × UInt64) : List UInt8 :=
  writeLE 8 checksum.1.toNat ++ writeLE 8 checksum.2.toNat

/-- The checksum the first 16 bytes hold. -/
def readChecksum (bytes : List UInt8) : UInt64 × UInt64 :=
  ((readLE (bytes.take 8)).toUInt64, (readLE ((bytes.drop 8).take 8)).toUInt64)

/-- A checksum written is read back. -/
theorem readChecksum_checksumBytes (checksum : UInt64 × UInt64) (rest : List UInt8) :
    readChecksum (checksumBytes checksum ++ rest) = checksum := by
  have hword : ∀ x : UInt64, (readLE (writeLE 8 x.toNat)).toUInt64 = x := fun x => by
    rw [readLE_writeLE, Nat.mod_eq_of_lt (by simpa using x.toNat_lt)]
    exact UInt64.ofNat_toNat
  obtain ⟨lo, hi⟩ := checksum
  simp only [readChecksum, checksumBytes, List.append_assoc]
  rw [List.take_left' (length_writeLE 8 _), List.drop_left' (length_writeLE 8 _),
    List.take_left' (length_writeLE 8 _), hword, hword]

@[simp] theorem length_checksumBytes (checksum : UInt64 × UInt64) : (checksumBytes checksum).length = 16 := by
  simp [checksumBytes]

end Daisy.CityHash
