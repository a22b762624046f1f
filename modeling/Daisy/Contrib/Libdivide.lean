import Mathlib.Tactic.Ring

/-!
# `libdivide`: unsigned division by an invariant divisor

`createBlockSelector` divides every key of a full column by the number of
slots through `libdivide::divider<U>`, vendored under `contrib/libdivide`, for
`U` one of `UInt32` and `UInt64`. The constructor computes a `magic` number and
a byte `more` from the divisor once (`libdivide_u32_gen`, `libdivide_u64_gen`);
`x / divider` is then a high multiplication, a subtraction, an add and shifts
(`libdivide_u32_do`, `libdivide_u64_do`), the method of Granlund and
Montgomery.

## The model

The two widths are `UIntType`; a word is a `Nat` below `2^bits`, and every
operation of the code that can wrap is reduced modulo `2^bits`. The
double-width divisions `libdivide_64_div_32_to_32` and
`libdivide_128_div_64_to_64` are the `divl` and `divq` instructions of the
x86-64 build, called only where the quotient fits a word (`divWide`).
`LIBDIVIDE_ERROR` on a zero divisor is `none`. `divider<U>` selects the
branchful algorithm, `libdivide_internal_u32_gen(d, 0)`, so `branchfree` is
`0` throughout.

## What is proved

* `divide_gen`: for every divisor `0 < d < 2^bits`, `gen` succeeds, and the
  divider divides every numerator of the width exactly.

The divider is built one of three ways: a power of two (`magic = 0`, a
shift), a magic number that fits the word, and the "33-bit" magic number
whose top bit the `LIBDIVIDE_ADD_MARKER` path adds back. The last two rest on
`mul_div_eq_div_of_mul_eq`: a multiplier `m` with `m * d = N + e` and
`x * e < N` gives `m * x / N = x / d`.
-/

namespace Daisy.Libdivide

/-- The unsigned types of the branchful dividers. -/
inductive UIntType where
  /-- `uint32_t`, `struct libdivide_u32_t`. -/
  | u32
  /-- `uint64_t`, `struct libdivide_u64_t`. -/
  | u64
  deriving DecidableEq, Repr

/-- The width in bits. -/
def UIntType.bits : UIntType → Nat
  | .u32 => 32
  | .u64 => 64

/-- `LIBDIVIDE_32_SHIFT_MASK`, `LIBDIVIDE_64_SHIFT_MASK`. -/
def UIntType.shiftMask : UIntType → Nat
  | .u32 => 0x1F
  | .u64 => 0x3F

/-- `LIBDIVIDE_ADD_MARKER`. -/
def addMarker : Nat := 0x40

/-- `struct libdivide_u32_t`, `struct libdivide_u64_t`. -/
structure Denom where
  /-- `magic`. -/
  magic : Nat
  /-- `more`: the shift, with `LIBDIVIDE_ADD_MARKER` set on the 33-bit path. -/
  more : Nat
  deriving DecidableEq, Repr

/-- `libdivide_count_leading_zeros32(val)`, `libdivide_count_leading_zeros64(val)`
of a nonzero word: the zero bits above its highest set bit. -/
def countLeadingZeros (T : UIntType) (val : Nat) : Nat := T.bits - 1 - Nat.log2 val

/-- `libdivide_64_div_32_to_32(u1, u0, v, &r)`, `libdivide_128_div_64_to_64(u1, u0, v, &r)`:
the quotient of `{u1, u0}` by `v`, and the remainder. -/
def divWide (T : UIntType) (u1 u0 v : Nat) : Nat × Nat :=
  let n := u1 * 2 ^ T.bits + u0
  (n / v, n % v)

/-- `libdivide_mullhi_u32(x, y)`, `libdivide_mullhi_u64(x, y)`: the high word of `x * y`. -/
def mullhi (T : UIntType) (x y : Nat) : Nat := x * y / 2 ^ T.bits

/-- The doubling of the 33-bit algorithm: `proposed_m += proposed_m`, and one
more where the doubled remainder reaches `d` (`twice_rem >= d`) or wraps
(`twice_rem < rem`). -/
def doubleProposedM (T : UIntType) (d proposedM rem : Nat) : Nat :=
  let proposedM := (proposedM + proposedM) % 2 ^ T.bits
  let twiceRem := (rem + rem) % 2 ^ T.bits
  if twiceRem ≥ d || twiceRem < rem then (proposedM + 1) % 2 ^ T.bits else proposedM

/-- `libdivide_u32_gen(d)`, `libdivide_u64_gen(d)`. -/
def gen (T : UIntType) (d : Nat) : Option Denom :=
  -- LIBDIVIDE_ERROR("divider must be != 0")
  if d = 0 then none
  else
    let floorLog2D := T.bits - 1 - countLeadingZeros T d
    if d &&& (d - 1) = 0 then
      -- Power of 2
      some ⟨0, floorLog2D⟩
    else
      let proposedM := (divWide T (2 ^ floorLog2D) 0 d).1
      let rem := (divWide T (2 ^ floorLog2D) 0 d).2
      let e := d - rem
      if e < 2 ^ floorLog2D then
        -- This power works
        some ⟨(1 + proposedM) % 2 ^ T.bits, floorLog2D⟩
      else
        some ⟨(1 + doubleProposedM T d proposedM rem) % 2 ^ T.bits, floorLog2D ||| addMarker⟩

/-- `libdivide_u32_do(numer, denom)`, `libdivide_u64_do(numer, denom)`: `numer / divider`. -/
def divide (T : UIntType) (denom : Denom) (numer : Nat) : Nat :=
  let more := denom.more
  if denom.magic = 0 then numer >>> more
  else
    let q := mullhi T denom.magic numer
    if more &&& addMarker ≠ 0 then
      -- `numer - q` and the add wrap in the word
      let t := (((numer + 2 ^ T.bits - q) % 2 ^ T.bits) >>> 1 + q) % 2 ^ T.bits
      t >>> (more &&& T.shiftMask)
    else
      q >>> more

/-! ### Division by a multiplier -/

/-- **Division by a multiplier.** A multiplier `m` with `m * d = N + e`, for a
numerator whose error `x * e` stays below `N`, divides by `d`: `m * x / N = x / d`. -/
theorem mul_div_eq_div_of_mul_eq {m d N e x : Nat} (hd : 0 < d) (hmd : m * d = N + e)
    (hxe : x * e < N) : m * x / N = x / d := by
  set q := x / d with hq
  have hqd : q * d ≤ x := Nat.div_mul_le_self x d
  have hxq : x + 1 ≤ (q + 1) * d := by
    have := Nat.lt_mul_div_succ x hd
    rw [Nat.mul_comm] at this
    exact this
  have hdmx : d * (m * x) = x * N + x * e := by
    rw [show d * (m * x) = x * (m * d) by ring, hmd, Nat.mul_add]
  apply Nat.div_eq_of_lt_le
  · -- `q * N ≤ m * x`, multiplied through by `d`
    refine Nat.le_of_mul_le_mul_left ?_ hd
    calc d * (q * N) = (q * d) * N := by ring
      _ ≤ x * N := Nat.mul_le_mul_right N hqd
      _ ≤ d * (m * x) := by omega
  · -- `m * x < (q + 1) * N`, multiplied through by `d`
    have h : d * (m * x) < d * ((q + 1) * N) :=
      calc d * (m * x) = x * N + x * e := hdmx
        _ < (x + 1) * N := by rw [Nat.succ_mul]; omega
        _ ≤ ((q + 1) * d) * N := Nat.mul_le_mul_right N hxq
        _ = d * ((q + 1) * N) := by ring
    exact Nat.lt_of_mul_lt_mul_left h

/-- The magic number `⌊n / d⌋ + 1` overshoots `n` by `d - n % d`. -/
theorem div_add_one_mul (n : Nat) {d : Nat} (hd : 0 < d) : (n / d + 1) * d = n + (d - n % d) := by
  have hdiv := Nat.div_add_mod n d
  have hmod := Nat.mod_lt n hd
  rw [Nat.succ_mul, Nat.mul_comm]
  omega

/-- Where `P < d < K`, the magic number `⌊P * K / d⌋ + 1` fits below `K` with room
for one: this bounds both magic numbers of `gen`. -/
theorem div_add_one_lt {P K d : Nat} (hPd : P < d) (hdK : d < K) : P * K / d + 1 < K := by
  have hd : 0 < d := by omega
  have hle : P * K / d * d ≤ P * K := Nat.div_mul_le_self _ d
  by_contra hK
  -- then `K * d ≤ P * K + d`, while `K * d ≥ K * (P + 1)`
  have h1 : K * d ≤ (P * K / d + 1) * d := Nat.mul_le_mul_right d (by omega)
  have h2 : K * (P + 1) ≤ K * d := Nat.mul_le_mul_left K hPd
  rw [Nat.succ_mul] at h1
  rw [Nat.mul_succ, Nat.mul_comm K P] at h2
  omega

/-! ### The bits of `more` -/

section More

variable {T : UIntType} {L : Nat}

theorem and_addMarker_of_lt (hL : L < 64) : L &&& addMarker = 0 := by
  have h : ∀ L : Fin 64, L.val &&& addMarker = 0 := by decide
  exact h ⟨L, hL⟩

theorem or_addMarker_and_addMarker (hL : L < 64) : (L ||| addMarker) &&& addMarker ≠ 0 := by
  have h : ∀ L : Fin 64, (L.val ||| addMarker) &&& addMarker ≠ 0 := by decide
  exact h ⟨L, hL⟩

theorem or_addMarker_and_shiftMask (hL : L < T.bits) : (L ||| addMarker) &&& T.shiftMask = L := by
  cases T with
  | u32 =>
    have h : ∀ L : Fin 32, (L.val ||| addMarker) &&& UIntType.shiftMask .u32 = L.val := by decide
    exact h ⟨L, hL⟩
  | u64 =>
    have h : ∀ L : Fin 64, (L.val ||| addMarker) &&& UIntType.shiftMask .u64 = L.val := by decide
    exact h ⟨L, hL⟩

theorem UIntType.bits_le (T : UIntType) : T.bits ≤ 64 := by
  cases T <;> decide

end More

/-! ### `gen` -/

section Gen

variable {T : UIntType} {d L : Nat}

/-- `floor_log_2_d` is `Nat.log2 d`. -/
theorem floorLog2_eq (hd : 0 < d) (hdT : d < 2 ^ T.bits) : T.bits - 1 - countLeadingZeros T d = Nat.log2 d := by
  have hlt : Nat.log2 d < T.bits := (Nat.log2_lt hd.ne').2 hdT
  unfold countLeadingZeros
  omega

/-- `(d & (d - 1)) == 0` tests for a power of two. -/
theorem and_sub_one_eq_zero_iff (hlo : 2 ^ L ≤ d) (hhi : d < 2 ^ (L + 1)) :
    d &&& (d - 1) = 0 ↔ d = 2 ^ L := by
  constructor
  · intro h
    by_contra hne
    -- both `d` and `d - 1` lie in `[2^L, 2^(L+1))`, so both have bit `L` set
    have hdiv : ∀ n, 2 ^ L ≤ n → n < 2 ^ (L + 1) → n >>> L = 1 := fun n hlo' hhi' => by
      rw [Nat.shiftRight_eq_div_pow]
      apply Nat.div_eq_of_lt_le <;> rw [pow_succ] at hhi' <;> omega
    have htop : (d &&& (d - 1)) >>> L = 1 := by
      rw [Nat.shiftRight_and_distrib, hdiv d hlo hhi, hdiv (d - 1) (by omega) (by omega)]
      rfl
    rw [h, Nat.zero_shiftRight] at htop
    exact absurd htop (by decide)
  · rintro rfl
    rw [Nat.and_two_pow_sub_one_eq_mod, Nat.mod_self]

/-- The doubled remainder `twice_rem` reaches `d` or wraps exactly where `2 * rem ≥ d`. -/
theorem twiceRem_test_iff {rem : Nat} (hrem : rem < d) (hdT : d < 2 ^ T.bits) :
    ((rem + rem) % 2 ^ T.bits ≥ d || (rem + rem) % 2 ^ T.bits < rem) = decide (d ≤ rem + rem) := by
  by_cases hwrap : rem + rem < 2 ^ T.bits
  · have hnot : ¬ rem + rem < rem := by omega
    simp [Nat.mod_eq_of_lt hwrap, hnot]
  · -- the doubled remainder wrapped: it is below `rem`, and `2 * rem ≥ 2^bits > d`
    have hlt : (rem + rem) % 2 ^ T.bits < rem := by
      rw [Nat.mod_eq_sub_mod (by omega), Nat.mod_eq_of_lt (by omega)]
      omega
    simp only [ge_iff_le, hlt, decide_true, Bool.or_true]
    exact (decide_eq_true (by omega)).symm

/-- The doubling step computes `2 * proposed_m + ⌊2 * rem / d⌋` in the word. -/
theorem doubleProposedM_eq {proposedM rem : Nat} (hrem : rem < d) (hdT : d < 2 ^ T.bits) :
    doubleProposedM T d proposedM rem = (2 * proposedM + (rem + rem) / d) % 2 ^ T.bits := by
  unfold doubleProposedM
  simp only
  rw [twiceRem_test_iff hrem hdT]
  by_cases h : d ≤ rem + rem
  · have hone : (rem + rem) / d = 1 := Nat.div_eq_of_lt_le (by omega) (by omega)
    rw [decide_eq_true h, if_pos rfl, hone, Nat.mod_add_mod, two_mul]
  · have hzero : (rem + rem) / d = 0 := Nat.div_eq_of_lt (by omega)
    rw [decide_eq_false h, if_neg Bool.false_ne_true, hzero, Nat.add_zero, two_mul]

variable (T)

/-- A divisor that is a power of two: `magic = 0` and the shift. -/
theorem gen_of_pow (hd : 0 < d) (hdT : d < 2 ^ T.bits) (hpow : d = 2 ^ Nat.log2 d) :
    gen T d = some ⟨0, Nat.log2 d⟩ := by
  have htest : d &&& (d - 1) = 0 :=
    (and_sub_one_eq_zero_iff (Nat.log2_self_le hd.ne') Nat.lt_log2_self).2 hpow
  simp only [gen, hd.ne', if_false, floorLog2_eq hd hdT, htest, if_true]

/-- A divisor that is not a power of two, where the magic number
`⌊2^(bits+L) / d⌋ + 1` errs by less than `2^L`: it fits the word. -/
theorem gen_of_small_error (hd : 0 < d) (hdT : d < 2 ^ T.bits) (hpow : d ≠ 2 ^ Nat.log2 d)
    (hsmall : d - 2 ^ Nat.log2 d * 2 ^ T.bits % d < 2 ^ Nat.log2 d) :
    gen T d = some ⟨2 ^ Nat.log2 d * 2 ^ T.bits / d + 1, Nat.log2 d⟩ := by
  have htest : ¬ d &&& (d - 1) = 0 :=
    mt (and_sub_one_eq_zero_iff (Nat.log2_self_le hd.ne') Nat.lt_log2_self).1 hpow
  have hgt : 2 ^ Nat.log2 d < d := lt_of_le_of_ne (Nat.log2_self_le hd.ne') (Ne.symm hpow)
  have hfits : 2 ^ Nat.log2 d * 2 ^ T.bits / d + 1 < 2 ^ T.bits := div_add_one_lt hgt hdT
  simp only [gen, hd.ne', if_false, floorLog2_eq hd hdT, htest, divWide, Nat.add_zero, hsmall, if_true]
  rw [Nat.add_comm 1, Nat.mod_eq_of_lt hfits]

/-- `⌊2N / d⌋` is the doubled quotient plus the carry of the doubled remainder. -/
theorem two_mul_div_eq (N : Nat) {d : Nat} (hd : 0 < d) : 2 * N / d = 2 * (N / d) + (N % d + N % d) / d := by
  have hsplit : 2 * N = (N % d + N % d) + d * (2 * (N / d)) := by
    have h1 := Nat.div_add_mod N d
    have h2 : d * (2 * (N / d)) = 2 * (d * (N / d)) := by ring
    omega
  rw [hsplit, Nat.add_mul_div_left _ _ hd, Nat.add_comm]

/-- For `2^L < d < 2^(L+1)` the doubled magic number `⌊2 * 2^L * 2^W / d⌋` has
`W + 1` bits, and one more still fits: it lies in `[2^W, 2^(W+1) - 1)`. -/
theorem doubled_magic_bounds {W : Nat} (hgt : 2 ^ L < d) (hhi : d < 2 ^ (L + 1)) (hdW : d < 2 ^ W) :
    2 ^ W ≤ 2 * (2 ^ L * 2 ^ W) / d ∧ 2 * (2 ^ L * 2 ^ W) / d + 1 < 2 * 2 ^ W := by
  have hd : 0 < d := by omega
  constructor
  · rw [Nat.le_div_iff_mul_le hd]
    calc 2 ^ W * d ≤ 2 ^ W * 2 ^ (L + 1) := Nat.mul_le_mul_left _ hhi.le
      _ = 2 * (2 ^ L * 2 ^ W) := by ring
  · have h := div_add_one_lt (K := 2 * 2 ^ W) hgt (by omega)
    rwa [show 2 ^ L * (2 * 2 ^ W) = 2 * (2 ^ L * 2 ^ W) by ring] at h

/-- A divisor that is not a power of two, where the smaller power errs by
`2^L` or more: the magic number `⌊2^(bits+L+1) / d⌋ + 1` of `bits + 1` bits,
less its top bit, with `LIBDIVIDE_ADD_MARKER`. -/
theorem gen_of_large_error (hd : 0 < d) (hdT : d < 2 ^ T.bits) (hpow : d ≠ 2 ^ Nat.log2 d)
    (hlarge : ¬ d - 2 ^ Nat.log2 d * 2 ^ T.bits % d < 2 ^ Nat.log2 d) :
    gen T d = some ⟨2 * (2 ^ Nat.log2 d * 2 ^ T.bits) / d + 1 - 2 ^ T.bits, Nat.log2 d ||| addMarker⟩ := by
  have htest : ¬ d &&& (d - 1) = 0 :=
    mt (and_sub_one_eq_zero_iff (Nat.log2_self_le hd.ne') Nat.lt_log2_self).1 hpow
  have hgt : 2 ^ Nat.log2 d < d := lt_of_le_of_ne (Nat.log2_self_le hd.ne') (Ne.symm hpow)
  obtain ⟨hlow, hupp⟩ := doubled_magic_bounds hgt Nat.lt_log2_self hdT
  simp only [gen, hd.ne', if_false, floorLog2_eq hd hdT, htest, divWide, Nat.add_zero, hlarge]
  -- the wrapped doubling is `⌊2N / d⌋ + 1` less the top bit
  rw [doubleProposedM_eq (Nat.mod_lt _ hd) hdT, Nat.add_mod_mod, ← two_mul_div_eq _ hd, Nat.add_comm 1,
    Nat.mod_eq_sub_mod (by omega), Nat.mod_eq_of_lt (by omega)]

end Gen

/-! ### `divide` -/

section Divide

variable (T : UIntType) {magic L : Nat}

/-- A power of two: `numer >> more`. -/
theorem divide_shift (numer : Nat) : divide T ⟨0, L⟩ numer = numer / 2 ^ L := by
  simp [divide, Nat.shiftRight_eq_div_pow]

/-- A magic number that fits: `mullhi(magic, numer) >> more`. -/
theorem divide_fits (hm : magic ≠ 0) (hL : L < 64) (numer : Nat) :
    divide T ⟨magic, L⟩ numer = magic * numer / (2 ^ T.bits * 2 ^ L) := by
  simp [divide, hm, and_addMarker_of_lt hL, mullhi, Nat.shiftRight_eq_div_pow, Nat.div_div_eq_div_mul]

/-- `((numer - q) >> 1) + q` in the word, for `q ≤ numer`: the mean of `numer`
and `q`, computed without overflow. -/
theorem wrapped_mean_eq {q numer W : Nat} (hq : q ≤ numer) (hnumer : numer < 2 ^ W) :
    ((numer + 2 ^ W - q) % 2 ^ W / 2 + q) % 2 ^ W = (numer + q) / 2 := by
  have hsub : (numer + 2 ^ W - q) % 2 ^ W = numer - q := by
    rw [show numer + 2 ^ W - q = numer - q + 2 ^ W by omega, Nat.add_mod_right, Nat.mod_eq_of_lt (by omega)]
  rw [hsub, Nat.mod_eq_of_lt (by omega)]
  omega

/-- The 33-bit magic number: `((numer - q) >> 1) + q`, the mean of `numer`
and `q` without overflow, adds back the top bit `2^bits` of the multiplier. -/
theorem divide_marked (hm : magic ≠ 0) (hmT : magic < 2 ^ T.bits) (hL : L < T.bits) {numer : Nat}
    (hnumer : numer < 2 ^ T.bits) :
    divide T ⟨magic, L ||| addMarker⟩ numer = (2 ^ T.bits + magic) * numer / (2 ^ T.bits * 2 ^ (L + 1)) := by
  have hQpos : 0 < 2 ^ T.bits := Nat.two_pow_pos _
  have hqx : magic * numer / 2 ^ T.bits ≤ numer :=
    Nat.div_le_of_le_mul (Nat.mul_le_mul_right numer hmT.le)
  -- `numer + q` is the high word of the product with the full multiplier
  have htop : numer + magic * numer / 2 ^ T.bits = (2 ^ T.bits + magic) * numer / 2 ^ T.bits := by
    rw [Nat.add_mul, Nat.mul_add_div hQpos]
  have hmarker := or_addMarker_and_addMarker (Nat.lt_of_lt_of_le hL T.bits_le)
  simp only [divide, hm, if_false, mullhi, ne_eq, hmarker, not_false_eq_true, if_true,
    Nat.shiftRight_eq_div_pow, pow_one, or_addMarker_and_shiftMask hL]
  rw [wrapped_mean_eq hqx hnumer, Nat.div_div_eq_div_mul, ← pow_succ', htop, Nat.div_div_eq_div_mul]

end Divide

/-- **`libdivide` divides exactly.** For every divisor `0 < d < 2^bits`,
`libdivide_u32_gen` and `libdivide_u64_gen` succeed, and the divider they build
divides every numerator of the width by `d`, rounding down. -/
theorem divide_gen (T : UIntType) {d : Nat} (hd : 0 < d) (hdT : d < 2 ^ T.bits) :
    ∃ denom, gen T d = some denom ∧ ∀ numer < 2 ^ T.bits, divide T denom numer = numer / d := by
  have hLT : Nat.log2 d < T.bits := (Nat.log2_lt hd.ne').2 hdT
  by_cases hpow : d = 2 ^ Nat.log2 d
  · -- a power of two
    refine ⟨_, gen_of_pow T hd hdT hpow, fun numer _ => ?_⟩
    rw [divide_shift, ← hpow]
  have hgt : 2 ^ Nat.log2 d < d := lt_of_le_of_ne (Nat.log2_self_le hd.ne') (Ne.symm hpow)
  have hhi : d < 2 ^ (Nat.log2 d + 1) := Nat.lt_log2_self
  by_cases hsmall : d - 2 ^ Nat.log2 d * 2 ^ T.bits % d < 2 ^ Nat.log2 d
  · -- the magic number fits the word: its error is below `2^L`
    refine ⟨_, gen_of_small_error T hd hdT hpow hsmall, fun numer hnumer => ?_⟩
    have herr : numer * (d - 2 ^ Nat.log2 d * 2 ^ T.bits % d) < 2 ^ Nat.log2 d * 2 ^ T.bits :=
      calc _ < 2 ^ T.bits * 2 ^ Nat.log2 d := Nat.mul_lt_mul'' hnumer hsmall
        _ = _ := Nat.mul_comm _ _
    rw [divide_fits T (Nat.succ_ne_zero _) (Nat.lt_of_lt_of_le hLT T.bits_le), Nat.mul_comm (2 ^ T.bits)]
    exact mul_div_eq_div_of_mul_eq hd (div_add_one_mul _ hd) herr
  · -- the 33-bit magic number, whose error is at most `d < 2^(L+1)`
    refine ⟨_, gen_of_large_error T hd hdT hpow hsmall, fun numer hnumer => ?_⟩
    obtain ⟨hlow, hupp⟩ := doubled_magic_bounds hgt hhi hdT
    have hN : 2 ^ T.bits * 2 ^ (Nat.log2 d + 1) = 2 * (2 ^ Nat.log2 d * 2 ^ T.bits) := by ring
    have herr : numer * (d - 2 * (2 ^ Nat.log2 d * 2 ^ T.bits) % d) < 2 * (2 ^ Nat.log2 d * 2 ^ T.bits) :=
      calc _ < 2 ^ T.bits * 2 ^ (Nat.log2 d + 1) := Nat.mul_lt_mul'' hnumer (by omega)
        _ = _ := hN
    rw [divide_marked T (by omega) (by omega) hLT hnumer, hN,
      show 2 ^ T.bits + (2 * (2 ^ Nat.log2 d * 2 ^ T.bits) / d + 1 - 2 ^ T.bits) =
        2 * (2 ^ Nat.log2 d * 2 ^ T.bits) / d + 1 by omega]
    exact mul_div_eq_div_of_mul_eq hd (div_add_one_mul _ hd) herr

example : gen .u32 7 = some ⟨0x24924925, 2 ||| addMarker⟩ := by decide

end Daisy.Libdivide
