import Daisy.IO.Text
import Daisy.Interpreters.BlockSelector

/-!
# `readIntText`

`IO/ReadHelpers.h`: `readIntTextImpl<T, ReturnType, check_overflow>`, the
decimal reader of the integer types, and `tryReadIntText`, its form that
returns `false` where the other throws and checks for overflow. It reads
while it sees `+`, `-` or a digit: a `+` is skipped wherever it stands, a `-`
anywhere makes a signed result negative (and fails an unsigned read), and a
digit is added to `res`, a value of `make_unsigned_t<T>`. The check for
overflow is made in `T` itself, before the sign is applied.

## The model

A type is an `IntType` and a value of it an `Int` in its range; `res` is a
`Nat` below `2^width`, and `T x = res` is `IntType.ofUnsigned`. The loop
(`readIntTextLoop`) counts the characters read since `initial_pos`, as the
source does to decide whether to check; the check is made on every digit,
since `std::numeric_limits<T>::max_digits10` is `0` for the integer types.
`common::mulOverflow` and `common::addOverflow` report whether the exact
result leaves `T` (`IntType.overflows`). A reader returns the value and the
input left, or `none` where it returns `false`.

## What is proved

* `readIntTextLoop_digits`: over a run of digits the checked loop adds them
  up as `Nat.ofDigitChars` does, and fails exactly where that sum leaves `T`.
* `tryReadIntText_writeIntText_eq`: of what `writeIntText` writes for an
  integer, `tryReadIntText` reads back exactly the values of `T` down to
  `-max`: the least value of a signed type is not read back.
* `tryReadIntText_rejects_min_accepts_plus`: that, and a lone `+` is read as
  `0`.
-/

namespace Daisy.Interpreters.IntType

/-- `T x = u` for `u` of `make_unsigned_t<T>`: the value of `T` with the bits
of `u`. -/
def ofUnsigned (T : IntType) (u : Nat) : Int :=
  if T.isSigned ∧ 2 ^ (T.width - 1) ≤ u then (u : Int) - 2 ^ T.width else u

/-- Whether `common::mulOverflow<T>` or `common::addOverflow<T>` report an
overflow: the exact result is not a value of `T`. -/
def overflows (T : IntType) (x : Int) : Bool := decide (x < T.min) || decide (T.max < x)

theorem min_le_zero (T : IntType) : T.min ≤ 0 := by
  cases T <;> decide

theorem zero_le_max (T : IntType) : 0 ≤ T.max := by
  cases T <;> decide

/-- The values of a signed type are symmetric but for the least. -/
theorem min_le_neg_max {T : IntType} (hT : T.isSigned = true) : T.min ≤ -T.max := by
  cases T <;> simp_all [IntType.min, IntType.max, IntType.isSigned]

theorem min_eq_neg_max_sub_one {T : IntType} (hT : T.isSigned = true) : T.min = -T.max - 1 := by
  cases T <;> simp_all [IntType.min, IntType.max, IntType.isSigned]

theorem max_lt_two_pow_pred {T : IntType} (hT : T.isSigned = true) : T.max < 2 ^ (T.width - 1) := by
  cases T <;> simp_all [IntType.max, IntType.isSigned, IntType.width]

theorem max_lt_two_pow (T : IntType) : T.max < 2 ^ T.width := by
  cases T <;> decide

/-- A value between `0` and `max` has the same bits in `T` and in
`make_unsigned_t<T>`. -/
theorem ofUnsigned_of_le_max {T : IntType} {u : Nat} (hu : (u : Int) ≤ T.max) : T.ofUnsigned u = u := by
  unfold ofUnsigned
  split
  · rename_i h
    have := max_lt_two_pow_pred h.1
    have : ((2 ^ (T.width - 1) : Nat) : Int) = 2 ^ (T.width - 1) := by push_cast; rfl
    omega
  · rfl

theorem castUnsigned_of_le_max {T : IntType} {x : Int} (h0 : 0 ≤ x) (hx : x ≤ T.max) :
    castUnsigned T.width x = x.toNat := by
  have := T.max_lt_two_pow
  unfold castUnsigned
  rw [Int.emod_eq_of_lt h0 (by omega)]

/-- What is at least `0` overflows only past `max`. -/
theorem overflows_of_nonneg {T : IntType} {x : Int} (hx : 0 ≤ x) : T.overflows x = decide (T.max < x) := by
  have := T.min_le_zero
  simp only [overflows, Bool.or_eq_right_iff_imp, decide_eq_true_eq]
  omega

end Daisy.Interpreters.IntType

namespace Daisy.Interpreters

/-- `x` as a value of `T`, where it is one. -/
def Value.ofInt? (T : IntType) (x : Int) : Option (Value T) :=
  if h : T.min ≤ x ∧ x ≤ T.max then some ⟨x, h.1, h.2⟩ else none

@[simp] theorem Value.ofInt?_val {T : IntType} (v : Value T) : Value.ofInt? T v.val = some v := by
  simp [Value.ofInt?, v.min_le, v.le_max]

theorem Value.val_of_ofInt? {T : IntType} {x : Int} {v : Value T} (h : Value.ofInt? T x = some v) : v.val = x := by
  unfold Value.ofInt? at h
  split at h
  · cases h
    rfl
  · cases h

end Daisy.Interpreters

namespace Daisy.IO

open Daisy.Interpreters

/-- `std::numeric_limits<T>::max_digits10`: `0` for every integer type. -/
def maxDigits10 : Nat := 0

/-- The loop of `readIntTextImpl<T, bool, check_overflow>` from `initial_pos`:
the input, `negative`, `res` and the characters read so far. `none` where it
returns `false`; else `negative`, `res` and the input at `end:`. -/
def readIntTextLoop (T : IntType) (checkOverflow : Bool) : List Char → Bool → Nat → Nat → Option (Bool × Nat × List Char)
  | [], negative, res, _ => some (negative, res, [])
  | c :: buf, negative, res, read =>
    if c = '+' then readIntTextLoop T checkOverflow buf negative res (read + 1)
    else if c = '-' then
      -- "Unsigned type must not contain '-' symbol"
      if T.isSigned then readIntTextLoop T checkOverflow buf true res (read + 1) else none
    else if c.isDigit then
      let digit := c.toNat - '0'.toNat
      if checkOverflow ∧ maxDigits10 ≤ read + 1 then
        -- `T signed_res = res`, then `mulOverflow<T>` and `addOverflow<T>`
        let signedRes := T.ofUnsigned res
        if T.overflows (signedRes * 10) || T.overflows (signedRes * 10 + digit) then none
        else readIntTextLoop T checkOverflow buf negative (castUnsigned T.width (signedRes * 10 + digit)) (read + 1)
      else readIntTextLoop T checkOverflow buf negative ((res * 10 + digit) % 2 ^ T.width) (read + 1)
    else some (negative, res, c :: buf)

/-- `readIntTextImpl<T, bool, check_overflow>(x, buf)`: `x` and the input
left, or `none` where it returns `false`. -/
def readIntTextImpl (T : IntType) (checkOverflow : Bool) (buf : List Char) : Option (Int × List Char) :=
  if buf = [] then none
  else
    match readIntTextLoop T checkOverflow buf false 0 0 with
    | none => none
    | some (negative, res, rest) =>
      let x := T.ofUnsigned res
      if T.isSigned ∧ negative then
        if checkOverflow then
          -- `mulOverflow<T>(x, -1, x)`
          if T.overflows (x * -1) then none else some (x * -1, rest)
        else some (T.ofUnsigned (castUnsigned T.width (-(res : Int))), rest)
      else some (x, rest)

/-- `tryReadIntText<CHECK_OVERFLOW>(x, buf)`. -/
def tryReadIntText (T : IntType) (buf : List Char) : Option (Int × List Char) := readIntTextImpl T true buf

/-! ### The checked loop -/

section Loop

variable {T : IntType}

/-- The text after a number: nothing the loop would read on. -/
def StopsInt (rest : List Char) : Prop := ∀ c buf, rest = c :: buf → c.isDigit = false ∧ c ≠ '+' ∧ c ≠ '-'

theorem readIntTextLoop_of_stopsInt {rest : List Char} (h : StopsInt rest) (checkOverflow negative res read) :
    readIntTextLoop T checkOverflow rest negative res read = some (negative, res, rest) := by
  rcases rest with _ | ⟨c, buf⟩
  · rfl
  · obtain ⟨hd, hp, hm⟩ := h c buf rfl
    simp [readIntTextLoop, hd, hp, hm]

theorem ne_plus_of_isDigit {c : Char} (hc : c.isDigit = true) : c ≠ '+' := by
  rintro rfl
  exact absurd hc (by decide)

theorem ne_minus_of_isDigit {c : Char} (hc : c.isDigit = true) : c ≠ '-' := by
  rintro rfl
  exact absurd hc (by decide)

/-- One digit of the checked loop: it fails where `10 * res + digit` leaves
`T`. -/
theorem readIntTextLoop_digit {c : Char} (hc : c.isDigit = true) {res : Nat} (hres : (res : Int) ≤ T.max)
    (buf : List Char) (negative : Bool) (read : Nat) :
    readIntTextLoop T true (c :: buf) negative res read =
      if T.max < ((10 * res + (c.toNat - '0'.toNat) : Nat) : Int) then none
      else readIntTextLoop T true buf negative (10 * res + (c.toNat - '0'.toNat)) (read + 1) := by
  have hcheck : maxDigits10 ≤ read + 1 := Nat.zero_le _
  simp only [readIntTextLoop, ne_plus_of_isDigit hc, ne_minus_of_isDigit hc, hc, if_false, if_true, hcheck,
    and_self, IntType.ofUnsigned_of_le_max hres]
  generalize c.toNat - '0'.toNat = digit
  rw [IntType.overflows_of_nonneg (by positivity), IntType.overflows_of_nonneg (by positivity)]
  simp only [Bool.or_eq_true, decide_eq_true_eq]
  by_cases hover : T.max < ((10 * res + digit : Nat) : Int)
  · have hlhs : T.max < (res : Int) * 10 ∨ T.max < (res : Int) * 10 + digit := by push_cast at hover; omega
    rw [if_pos hlhs, if_pos hover]
  · have hlhs : ¬(T.max < (res : Int) * 10 ∨ T.max < (res : Int) * 10 + digit) := by push_cast at hover; omega
    rw [if_neg hlhs, if_neg hover, IntType.castUnsigned_of_le_max (by positivity) (by push_cast at hover; omega)]
    congr 1
    omega

theorem le_ofDigitChars (l : List Char) (init : Nat) : init ≤ Nat.ofDigitChars 10 l init := by
  induction l generalizing init with
  | nil => simp [Nat.ofDigitChars_nil]
  | cons c l ih =>
    rw [Nat.ofDigitChars_cons]
    have := ih (10 * init + (c.toNat - '0'.toNat))
    omega

/-- **A run of digits.** The checked loop adds the digits up as
`Nat.ofDigitChars`, and fails exactly where the sum leaves `T`: the sum only
grows, so no earlier digit fails where the last does not. -/
theorem readIntTextLoop_digits : ∀ (ds : List Char), (∀ c ∈ ds, c.isDigit = true) →
    ∀ {res : Nat}, (res : Int) ≤ T.max → ∀ (buf : List Char) (negative : Bool) (read : Nat),
      readIntTextLoop T true (ds ++ buf) negative res read =
        if T.max < (Nat.ofDigitChars 10 ds res : Int) then none
        else readIntTextLoop T true buf negative (Nat.ofDigitChars 10 ds res) (read + ds.length)
  | [], _, _, hres, buf, negative, read => by
    simp only [List.nil_append, Nat.ofDigitChars_nil, List.length_nil, Nat.add_zero]
    rw [if_neg (not_lt.mpr hres)]
  | c :: ds, hds, res, hres, buf, negative, read => by
    have hc := hds c List.mem_cons_self
    rw [List.cons_append, readIntTextLoop_digit hc hres, Nat.ofDigitChars_cons]
    by_cases hover : T.max < ((10 * res + (c.toNat - '0'.toNat) : Nat) : Int)
    · -- the sum only grows: the whole run fails as this digit does
      have hgrow := le_ofDigitChars ds (10 * res + (c.toNat - '0'.toNat))
      rw [if_pos hover, if_pos (by omega)]
    · rw [if_neg hover, readIntTextLoop_digits ds (fun d hd => hds d (List.mem_cons_of_mem _ hd)) (not_lt.mp hover),
        List.length_cons, Nat.add_assoc, Nat.add_comm 1]

/-- The checked loop keeps `res` a value of `T`. -/
theorem readIntTextLoop_le_max : ∀ (buf : List Char) {negative : Bool} {res read : Nat} {negative' : Bool} {res' : Nat}
    {rest : List Char}, (res : Int) ≤ T.max →
      readIntTextLoop T true buf negative res read = some (negative', res', rest) → (res' : Int) ≤ T.max
  | [], _, _, _, _, _, _, hres, h => by
    simp only [readIntTextLoop, Option.some.injEq, Prod.mk.injEq] at h
    rw [← h.2.1]
    exact hres
  | c :: buf, negative, res, read, negative', res', rest, hres, h => by
    by_cases hdigit : c.isDigit = true
    · rw [readIntTextLoop_digit hdigit hres] at h
      split at h
      · cases h
      · exact readIntTextLoop_le_max buf (not_lt.mp ‹_›) h
    · simp only [readIntTextLoop, hdigit, Bool.false_eq_true, if_false] at h
      split at h
      · exact readIntTextLoop_le_max buf hres h
      · split at h
        · split at h
          · exact readIntTextLoop_le_max buf hres h
          · cases h
        · simp only [Option.some.injEq, Prod.mk.injEq] at h
          rw [← h.2.1]
          exact hres

/-- The digits `writeIntText` writes for `m` are read as `m`, while `m` is a
value of `T`. -/
theorem readIntTextLoop_toDigits (m : Nat) (buf : List Char) (negative : Bool) (read : Nat) :
    readIntTextLoop T true (Nat.toDigits 10 m ++ buf) negative 0 read =
      if T.max < (m : Int) then none
      else readIntTextLoop T true buf negative m (read + (Nat.toDigits 10 m).length) := by
  rw [readIntTextLoop_digits _ (fun _ h => isDigit_of_mem_toDigits h) (by simpa using T.zero_le_max),
    Nat.ofDigitChars_ten_toDigits]

end Loop

/-! ### Reading back `writeIntText` -/

section ReadBack

variable {T : IntType}

/-- **What `tryReadIntText` makes of what `writeIntText` writes**, for any
integer, before text it does not read on: the integer where it is a value of
`T` other than the least of a signed type, and nothing else. -/
theorem tryReadIntText_writeIntText_eq (x : Int) {rest : List Char} (hrest : StopsInt rest) :
    tryReadIntText T (writeIntText x ++ rest) =
      if T.min ≤ x ∧ -T.max ≤ x ∧ x ≤ T.max then some (x, rest) else none := by
  have hmax := T.zero_le_max
  have hmin := T.min_le_zero
  unfold tryReadIntText readIntTextImpl writeIntText
  by_cases hneg : x < 0
  · rw [if_pos hneg, if_neg (by simp)]
    cases hT : T.isSigned with
    | false =>
      -- "Unsigned type must not contain '-' symbol"
      have hzero : T.min = 0 := by simp [IntType.min, hT]
      simp only [List.cons_append, readIntTextLoop, hT, if_neg (show ('-' : Char) ≠ '+' by decide), if_true,
        Bool.false_eq_true, if_false]
      rw [if_neg (by omega)]
    | true =>
      simp only [List.cons_append, readIntTextLoop, hT, if_neg (show ('-' : Char) ≠ '+' by decide), if_true]
      rw [readIntTextLoop_toDigits]
      by_cases hover : T.max < (x.natAbs : Int)
      · rw [if_pos hover, if_neg (by omega)]
      · -- the sign is applied to a value of `T`, which `-1` keeps in `T`
        have hnoover : T.overflows ((x.natAbs : Int) * -1) = false := by
          have := IntType.min_le_neg_max hT
          simp only [IntType.overflows, Bool.or_eq_false_iff, decide_eq_false_iff_not]
          omega
        rw [if_neg hover, readIntTextLoop_of_stopsInt hrest, if_pos (by have := IntType.min_le_neg_max hT; omega)]
        simp only [and_self, if_true, IntType.ofUnsigned_of_le_max (not_lt.mp hover), hnoover,
          Bool.false_eq_true, if_false, Option.some.injEq, Prod.mk.injEq, and_true]
        omega
  · rw [if_neg hneg, if_neg (by simp [Nat.toDigits_ne_nil]), readIntTextLoop_toDigits]
    by_cases hover : T.max < (x.natAbs : Int)
    · rw [if_pos hover, if_neg (by omega)]
    · rw [if_neg hover, readIntTextLoop_of_stopsInt hrest, if_pos (by omega)]
      simp only [Bool.false_eq_true, and_false, if_false, IntType.ofUnsigned_of_le_max (not_lt.mp hover),
        Option.some.injEq, Prod.mk.injEq, and_true]
      omega

/-- **`tryReadIntText` reads back `writeIntText`**, for every value of `T`
down to `-max`. -/
theorem tryReadIntText_writeIntText (v : Value T) (hv : -T.max ≤ v.val) {rest : List Char} (hrest : StopsInt rest) :
    tryReadIntText T (writeIntText v.val ++ rest) = some (v.val, rest) := by
  rw [tryReadIntText_writeIntText_eq _ hrest, if_pos ⟨v.min_le, hv, v.le_max⟩]

/-- `-127` as an `Int8`, a comma after it. -/
theorem tryReadIntText_writeIntText_int8 :
    -IntType.int8.max ≤ -127 ∧ StopsInt [','] ∧
      tryReadIntText .int8 (writeIntText (-127) ++ [',']) = some (-127, [',']) := by
  have hstops : StopsInt [','] := by
    intro c buf h
    cases h
    decide
  exact ⟨by decide, hstops, tryReadIntText_writeIntText ⟨-127, by decide, by decide⟩ (by decide) hstops⟩

/-- The least value of a signed type is not read back, whatever follows it:
its digits are summed in `T` before the sign is applied. -/
theorem tryReadIntText_min (hT : T.isSigned = true) (rest : List Char) :
    tryReadIntText T (writeIntText T.min ++ rest) = none := by
  have hmin := IntType.min_eq_neg_max_sub_one hT
  have hloop : readIntTextLoop T true ('-' :: Nat.toDigits 10 T.min.natAbs ++ rest) false 0 0 = none := by
    have := T.zero_le_max
    simp only [List.cons_append, readIntTextLoop, hT, if_true]
    rw [if_neg (by decide), readIntTextLoop_toDigits, if_pos (by omega)]
  have hneg : T.min < 0 := by have := T.zero_le_max; omega
  unfold tryReadIntText readIntTextImpl writeIntText
  rw [if_pos hneg, if_neg (by simp), hloop]

/-- What `tryReadIntText` reads is a value of `T`. -/
theorem tryReadIntText_mem {buf rest : List Char} {x : Int} (h : tryReadIntText T buf = some (x, rest)) :
    T.min ≤ x ∧ x ≤ T.max := by
  have hmin := T.min_le_zero
  unfold tryReadIntText readIntTextImpl at h
  split at h
  · cases h
  · split at h
    · cases h
    · rename_i negative res rest' hloop
      have hres := readIntTextLoop_le_max buf (by simpa using T.zero_le_max) hloop
      rw [IntType.ofUnsigned_of_le_max hres] at h
      split at h
      · simp only [if_true] at h
        split at h
        · cases h
        · rename_i hover
          simp only [Option.some.injEq, Prod.mk.injEq] at h
          rw [← h.1]
          simpa [IntType.overflows] using hover
      · simp only [Option.some.injEq, Prod.mk.injEq] at h
        omega

/-- A lone `+` is read, as `0`. -/
theorem tryReadIntText_plus (T : IntType) : tryReadIntText T ['+'] = some (0, []) := by
  simp [tryReadIntText, readIntTextImpl, readIntTextLoop, IntType.ofUnsigned]

end ReadBack

/-- **The least value of a signed type is not read back, and a lone `+` is
read.** -/
theorem tryReadIntText_rejects_min_accepts_plus (T : IntType) (hT : T.isSigned = true) (rest : List Char) :
    tryReadIntText T (writeIntText T.min ++ rest) = none ∧ tryReadIntText T ['+'] = some (0, []) :=
  ⟨tryReadIntText_min hT rest, tryReadIntText_plus T⟩

theorem tryReadIntText_rejects_min_accepts_plus_int8 :
    IntType.int8.isSigned = true ∧
      (tryReadIntText .int8 (writeIntText IntType.int8.min ++ []) = none ∧ tryReadIntText .int8 ['+'] = some (0, [])) :=
  ⟨rfl, tryReadIntText_rejects_min_accepts_plus .int8 rfl []⟩

end Daisy.IO
