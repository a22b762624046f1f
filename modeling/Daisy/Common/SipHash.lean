import Mathlib.Data.List.Basic
import Daisy.IO.Binary

/-!
# `SipHash`

`Common/SipHash.h`: SipHash 2-4, fed in parts. The state is the four words,
the count of bytes fed, and the word being filled. `update` here takes one
byte at a time: the source fills the word that an earlier part left
unfinished, then takes whole words, then keeps the rest, which gives the
same state. `get64` puts the count's low byte in the last byte of the word,
mixes it in, and ends with four rounds.
-/

namespace Daisy.Common

open Daisy.IO

/-- The state of `SipHash`: `v0` to `v3`, `cnt`, and the bytes of
`current_word` filled so far. -/
structure SipHash where
  v0 : UInt64
  v1 : UInt64
  v2 : UInt64
  v3 : UInt64
  cnt : UInt64
  current : List UInt8
  deriving DecidableEq, Repr

namespace SipHash

/-- `ROTL(x, b)`. -/
def rotl (x b : UInt64) : UInt64 := (x <<< b) ||| (x >>> (64 - b))

/-- `SIPROUND`. -/
def sipRound (h : SipHash) : SipHash :=
  let v0 := h.v0 + h.v1
  let v1 := rotl h.v1 13 ^^^ v0
  let v0 := rotl v0 32
  let v2 := h.v2 + h.v3
  let v3 := rotl h.v3 16 ^^^ v2
  let v0 := v0 + v3
  let v3 := rotl v3 21 ^^^ v0
  let v2 := v2 + v1
  let v1 := rotl v1 17 ^^^ v2
  let v2 := rotl v2 32
  { h with v0, v1, v2, v3 }

/-- A word mixed in: `v3 ^= word`, two rounds, `v0 ^= word`. -/
def compress (h : SipHash) (word : UInt64) : SipHash :=
  let h := sipRound (sipRound { h with v3 := h.v3 ^^^ word })
  { h with v0 := h.v0 ^^^ word }

/-- `SipHash(k0, k1)`. -/
def make (k0 k1 : UInt64) : SipHash :=
  ⟨0x736f6d6570736575 ^^^ k0, 0x646f72616e646f6d ^^^ k1, 0x6c7967656e657261 ^^^ k0, 0x7465646279746573 ^^^ k1, 0, []⟩

/-- One byte of `update`: a word full is mixed in. -/
def updateByte (h : SipHash) (byte : UInt8) : SipHash :=
  let current := h.current ++ [byte]
  if current.length = 8 then { compress h (readLE current).toUInt64 with cnt := h.cnt + 1, current := [] }
  else { h with cnt := h.cnt + 1, current }

/-- `update(data, size)`. -/
def update (h : SipHash) (bytes : List UInt8) : SipHash := bytes.foldl updateByte h

/-- `get64()`: `finalize()`, then the four words xored. -/
def get64 (h : SipHash) : UInt64 :=
  -- the last byte of the word is the count modulo 256
  let word := (readLE (h.current ++ List.replicate (7 - h.current.length) 0 ++ [h.cnt.toUInt8])).toUInt64
  let h := compress h word
  let h := sipRound (sipRound (sipRound (sipRound { h with v2 := h.v2 ^^^ 0xff })))
  h.v0 ^^^ h.v1 ^^^ h.v2 ^^^ h.v3

end SipHash

/-- `sipHash64(data, size)`. -/
def sipHash64 (bytes : List UInt8) : UInt64 := ((SipHash.make 0 0).update bytes).get64

/-- `SELECT sipHash64(123456)` hashes the four bytes of the `UInt32`. -/
example : sipHash64 [0x40, 0xE2, 0x01, 0x00] = 11717965186011240346 := by decide +kernel

end Daisy.Common
