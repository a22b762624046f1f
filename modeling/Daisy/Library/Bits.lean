import Mathlib

/-!
# Bits of numbers, the highest first

A number written in `n` bits, the highest first (`bitsOf`), and the number a
list of bits is (`ofBits`); and the word of `W` bits that holds a list of bits
at its top, the rest zero (`topWord`). A buffered bit stream keeps its pending
bits so: new bits are or-ed in under them, the first are taken off by a shift
to the left, and the first `n` are read by a shift to the right.

* `ofBits_bitsOf`, `bitsOf_ofBits`: the two are inverse on `n` bits;
* `bitsOf_add`: writing `m + n` bits is writing the high `m`, then the low `n`;
* `topWord_or`, `topWord_shiftLeft`, `topWord_div`: bits put in under the
  others, the first taken off, and the first read.
-/

namespace Daisy.Library

/-- The `n` low bits of `v`, the highest first. -/
def bitsOf : Nat → Nat → List Bool
  | 0, _ => []
  | n + 1, v => v.testBit n :: bitsOf n v

/-- The number whose bits, the highest first, are `l`. -/
def ofBits : List Bool → Nat
  | [] => 0
  | b :: l => b.toNat * 2 ^ l.length + ofBits l

@[simp] theorem length_bitsOf (n v : Nat) : (bitsOf n v).length = n := by
  induction n with
  | zero => rfl
  | succ n ih => simp [bitsOf, ih]

@[simp] theorem bitsOf_zero_left (v : Nat) : bitsOf 0 v = [] := rfl

theorem bitsOf_succ (n v : Nat) : bitsOf (n + 1) v = v.testBit n :: bitsOf n v := rfl

@[simp] theorem ofBits_nil : ofBits [] = 0 := rfl

theorem ofBits_cons (b : Bool) (l : List Bool) : ofBits (b :: l) = b.toNat * 2 ^ l.length + ofBits l := rfl

theorem ofBits_lt (l : List Bool) : ofBits l < 2 ^ l.length := by
  induction l with
  | nil => simp
  | cons b l ih =>
    have hb : b.toNat ≤ 1 := Bool.toNat_le b
    rw [ofBits_cons, List.length_cons, Nat.pow_succ]
    have : b.toNat * 2 ^ l.length ≤ 2 ^ l.length := by simpa using Nat.mul_le_mul_right (2 ^ l.length) hb
    omega

theorem ofBits_append (l l' : List Bool) : ofBits (l ++ l') = ofBits l * 2 ^ l'.length + ofBits l' := by
  induction l with
  | nil => simp
  | cons b l ih =>
    rw [List.cons_append, ofBits_cons, ofBits_cons, ih, List.length_append, Nat.pow_add, Nat.add_mul,
      Nat.mul_assoc, Nat.add_assoc]

@[simp] theorem ofBits_replicate_false (k : Nat) : ofBits (List.replicate k false) = 0 := by
  induction k with
  | zero => rfl
  | succ k ih => simp [List.replicate_succ, ofBits_cons, ih]

/-- A list of bits cut after its first `n`. -/
theorem ofBits_eq_take_drop (l : List Bool) (n : Nat) :
    ofBits l = ofBits (l.take n) * 2 ^ (l.length - n) + ofBits (l.drop n) := by
  conv_lhs => rw [← List.take_append_drop n l]
  rw [ofBits_append, List.length_drop]

/-- `bitsOf n` reads only the bits below `n`. -/
theorem bitsOf_congr {n a b : Nat} (h : ∀ i < n, a.testBit i = b.testBit i) : bitsOf n a = bitsOf n b := by
  induction n with
  | zero => rfl
  | succ n ih =>
    rw [bitsOf_succ, bitsOf_succ, h n (Nat.lt_succ_self n), ih fun i hi => h i (by omega)]

theorem bitsOf_mod (n v : Nat) : bitsOf n (v % 2 ^ n) = bitsOf n v :=
  bitsOf_congr fun i hi => by simp [Nat.testBit_mod_two_pow, hi]

@[simp] theorem bitsOf_zero (n : Nat) : bitsOf n 0 = List.replicate n false := by
  induction n with
  | zero => rfl
  | succ n ih => rw [bitsOf_succ, ih, Nat.zero_testBit, List.replicate_succ]

theorem ofBits_bitsOf (n v : Nat) : ofBits (bitsOf n v) = v % 2 ^ n := by
  induction n with
  | zero => simp [Nat.mod_one]
  | succ n ih =>
    rw [bitsOf_succ, ofBits_cons, ih, length_bitsOf, Nat.mod_pow_succ, Nat.toNat_testBit, Nat.add_comm,
      Nat.mul_comm]

theorem bitsOf_ofBits (l : List Bool) : bitsOf l.length (ofBits l) = l := by
  induction l with
  | nil => rfl
  | cons b l ih =>
    -- the new bit sits above all of `ofBits l`
    have hlt := ofBits_lt l
    have htest : ∀ j, (ofBits (b :: l)).testBit j = if j < l.length then (ofBits l).testBit j
        else b.toNat.testBit (j - l.length) := by
      intro j
      rw [ofBits_cons, Nat.mul_comm, Nat.testBit_two_pow_mul_add _ hlt]
    rw [List.length_cons, bitsOf_succ, htest, if_neg (Nat.lt_irrefl _), Nat.sub_self, Nat.testBit_bool_toNat]
    rw [bitsOf_congr (b := ofBits l) fun i hi => by rw [htest, if_pos hi], ih]
    simp

theorem bitsOf_add (m n v : Nat) : bitsOf (m + n) v = bitsOf m (v / 2 ^ n) ++ bitsOf n v := by
  induction m with
  | zero => simp
  | succ m ih =>
    rw [Nat.add_right_comm, bitsOf_succ, bitsOf_succ, ih, Nat.testBit_div_two_pow]
    rfl

/-! ### Words that hold bits at their top -/

/-- The word of `W` bits whose high bits are `l`, the rest zero. -/
def topWord (W : Nat) (l : List Bool) : Nat := ofBits l * 2 ^ (W - l.length)

section TopWord

variable {W : Nat} {l : List Bool}

@[simp] theorem topWord_nil (W : Nat) : topWord W [] = 0 := by simp [topWord]

theorem topWord_lt (h : l.length ≤ W) : topWord W l < 2 ^ W := by
  have hlt := ofBits_lt l
  calc topWord W l < 2 ^ l.length * 2 ^ (W - l.length) :=
        Nat.mul_lt_mul_of_pos_right hlt (Nat.two_pow_pos _)
    _ = 2 ^ W := by rw [← Nat.pow_add, Nat.add_sub_cancel' h]

/-- Zeroes after the bits change nothing. -/
theorem topWord_append_replicate {k : Nat} (h : l.length + k ≤ W) :
    topWord W (l ++ List.replicate k false) = topWord W l := by
  simp only [topWord, ofBits_append, ofBits_replicate_false, List.length_append, List.length_replicate,
    Nat.add_zero, Nat.mul_assoc, ← Nat.pow_add]
  congr 2
  omega

/-- Bits or-ed in under the others, where they end. -/
theorem topWord_or {m : List Bool} (h : l.length + m.length ≤ W) :
    topWord W l ||| ofBits m * 2 ^ (W - l.length - m.length) = topWord W (l ++ m) := by
  have hsplit : topWord W l = ofBits l * 2 ^ m.length * 2 ^ (W - l.length - m.length) := by
    rw [topWord, Nat.mul_assoc, ← Nat.pow_add]
    congr 2
    omega
  -- the bits of `m` lie below those of `l`: the `|||` is a sum
  have hor : ofBits l * 2 ^ m.length ||| ofBits m = ofBits l * 2 ^ m.length + ofBits m := by
    rw [Nat.mul_comm, Nat.two_pow_add_eq_or_of_lt (ofBits_lt m)]
  have hdist : ∀ a b k : Nat, (a ||| b) * 2 ^ k = a * 2 ^ k ||| b * 2 ^ k := by
    intro a b k
    simp only [← Nat.shiftLeft_eq, Nat.shiftLeft_or_distrib]
  rw [hsplit, ← hdist, hor, topWord, ofBits_append, List.length_append, Nat.sub_sub]

/-- A shift left by `n` bits takes the first `n` off the top. -/
theorem topWord_shiftLeft {n : Nat} (hn : n ≤ l.length) (h : l.length ≤ W) :
    topWord W l * 2 ^ n % 2 ^ W = topWord W (l.drop n) := by
  have hrest : topWord W (l.drop n) < 2 ^ W := topWord_lt (by simp; omega)
  have e₁ : 2 ^ (W - l.length) * 2 ^ n = 2 ^ (W - (l.length - n)) := by
    rw [← Nat.pow_add]
    congr 1
    omega
  have e₂ : 2 ^ (l.length - n) * 2 ^ (W - (l.length - n)) = 2 ^ W := by
    rw [← Nat.pow_add]
    congr 1
    omega
  -- the first `n` bits pass the top of the word
  have hsplit : topWord W l * 2 ^ n = ofBits (l.take n) * 2 ^ W + topWord W (l.drop n) := by
    rw [topWord, topWord, List.length_drop, Nat.mul_assoc, e₁, ofBits_eq_take_drop l n, Nat.add_mul,
      Nat.mul_assoc (ofBits _), e₂]
  rw [hsplit, Nat.mul_add_mod_self_right, Nat.mod_eq_of_lt hrest]

/-- The top `n` bits of a word that holds at least `n`. -/
theorem topWord_div_of_le {n : Nat} (hn : n ≤ l.length) (h : l.length ≤ W) :
    topWord W l / 2 ^ (W - n) = ofBits (l.take n) := by
  have hlow : ofBits (l.drop n) * 2 ^ (W - l.length) < 2 ^ (W - n) := by
    have hlt := topWord_lt (W := W - n) (l := l.drop n) (by simp; omega)
    have e : W - n - (l.length - n) = W - l.length := by omega
    rwa [topWord, List.length_drop, e] at hlt
  have e : 2 ^ (l.length - n) * 2 ^ (W - l.length) = 2 ^ (W - n) := by
    rw [← Nat.pow_add]
    congr 1
    omega
  have hsplit : topWord W l = ofBits (l.drop n) * 2 ^ (W - l.length) + ofBits (l.take n) * 2 ^ (W - n) := by
    rw [topWord, ofBits_eq_take_drop l n, Nat.add_mul, Nat.mul_assoc (ofBits _), e, Nat.add_comm]
  rw [hsplit, Nat.add_mul_div_right _ _ (Nat.two_pow_pos _), Nat.div_eq_of_lt hlow, Nat.zero_add]

/-- The top `n` bits of any word: past its bits, zeroes. -/
theorem topWord_div {n : Nat} (hn : n ≤ W) (h : l.length ≤ W) :
    topWord W l / 2 ^ (W - n) = ofBits ((l ++ List.replicate n false).take n) := by
  have hpad : topWord W l = topWord W (l ++ List.replicate (n - l.length) false) :=
    (topWord_append_replicate (by omega)).symm
  have htake : (l ++ List.replicate n false).take n = (l ++ List.replicate (n - l.length) false).take n := by
    simp only [List.take_append, List.take_replicate]
    congr 2
    omega
  rw [hpad, topWord_div_of_le (by simp; omega) (by simp; omega), htake]

end TopWord

/-! ### Numbers assembled bit by bit -/

/-- The number whose bit `i`, below `n`, is the low bit of `f i`, assembled by
or-ing each in at its place. -/
theorem testBit_foldl_or_shiftLeft (f : Nat → Nat) (n k : Nat) :
    ((List.range n).foldl (fun dst i => dst ||| (f i % 2) <<< i) 0).testBit k = (decide (k < n) && (f k).testBit 0) := by
  induction n with
  | zero => simp
  | succ n ih =>
    rw [List.range_succ, List.foldl_append, List.foldl_cons, List.foldl_nil, Nat.testBit_or, ih, Nat.testBit_shiftLeft]
    rcases Nat.lt_trichotomy k n with hk | hk | hk
    · simp [hk, show ¬ n ≤ k by omega, show k < n + 1 by omega]
    · subst hk
      simp
    · have hzero : (f n % 2).testBit (k - n) = false :=
        Nat.testBit_lt_two_pow (lt_of_lt_of_le (Nat.mod_lt _ (by decide)) (Nat.le_self_pow (by omega) 2))
      simp [show ¬ k < n by omega, show ¬ k < n + 1 by omega, hzero]

theorem foldl_or_shiftLeft_lt (f : Nat → Nat) (n : Nat) :
    (List.range n).foldl (fun dst i => dst ||| (f i % 2) <<< i) 0 < 2 ^ n :=
  Nat.lt_pow_two_of_testBit _ fun k hk => by
    rw [testBit_foldl_or_shiftLeft]
    simp [show ¬ k < n by omega]

/-! ### Numbers that agree above a bit

A number between two that differ only below bit `n` has their bits from `n`
up: what a frame of reference keeps of its least value. -/

/-- Numbers whose `xor` is below `2 ^ n` agree from bit `n` up. -/
theorem shiftRight_eq_of_xor_lt {a b n : Nat} (h : a ^^^ b < 2 ^ n) : a >>> n = b >>> n := by
  apply Nat.eq_of_testBit_eq
  intro i
  have hbit := Nat.testBit_lt_two_pow (lt_of_lt_of_le h (Nat.pow_le_pow_right (by decide) (Nat.le_add_right n i)))
  rw [Nat.testBit_xor] at hbit
  rw [Nat.testBit_shiftRight, Nat.testBit_shiftRight]
  revert hbit
  cases a.testBit (n + i) <;> cases b.testBit (n + i) <;> decide

/-- A number between two that agree from bit `n` up agrees with them there. -/
theorem shiftRight_eq_of_le_of_le {a x b n : Nat} (hax : a ≤ x) (hxb : x ≤ b) (h : a ^^^ b < 2 ^ n) :
    x >>> n = a >>> n := by
  have hab := shiftRight_eq_of_xor_lt h
  have hlo : a >>> n ≤ x >>> n := by
    rw [Nat.shiftRight_eq_div_pow, Nat.shiftRight_eq_div_pow]
    exact Nat.div_le_div_right hax
  have hhi : x >>> n ≤ b >>> n := by
    rw [Nat.shiftRight_eq_div_pow, Nat.shiftRight_eq_div_pow]
    exact Nat.div_le_div_right hxb
  omega

end Daisy.Library
