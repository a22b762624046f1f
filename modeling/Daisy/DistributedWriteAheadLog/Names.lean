import Daisy.Library.Codes
import Daisy.Library.Split

/-!
# Topic names of the Distributed Write Ahead Log

A `DistributedMergeTree` table writes to the Kafka topic
`escapeDWALName(database, table)` (the `topic` its constructor builds), and
`DDLService` deletes the topic of that name when the table is dropped.
`escapeName` keeps the ASCII alphanumerics, `.` and `-` of a name and writes
every other byte as `_` and its two uppercase hex digits; `escapeDWALName`
joins the escaped database and table names with a `.`.

## The model

A `std::string` is its list of bytes (`UInt8`). `escapeName` appends one
piece per byte, so it is `List.flatMap` of the piece of a byte
(`escapeByte`); the hex table `hex_byte_to_char_uppercase_table` holds the
digits of `b / 16` and `b % 16` at `2 b`, and is modelled by the digit table.

## What is proved

* the pieces of `escapeByte` are a prefix code, so `escapeName` is injective
  (`escapeName_injective`), and it keeps a `.` where it stands, so
  `escapeDWALName ns name = escapeName (ns ++ "." ++ name)`;
* hence two pairs get one topic exactly when `ns ++ "." ++ name` agree
  (`escapeDWALName_eq_iff`), so every database name with a `.` collides
  with another table (`escapeDWALName_dot_collision`), and pairs whose
  database names hold no `.` never do (`escapeDWALName_injective_of_dot_not_mem`);
* every byte of a topic is an ASCII alphanumeric, `.`, `-` or `_`
  (`mem_escapeDWALName`).
-/

namespace Daisy.DWAL

open Daisy.Library

/-- `hex_digit_to_char_uppercase_table`. -/
def hexDigitToCharUppercaseTable : List UInt8 := "0123456789ABCDEF".toList.map Char.toUInt8

/-- The digit of `d < 16` in `hex_digit_to_char_uppercase_table`. -/
def hexDigitUppercase (d : Nat) : UInt8 := hexDigitToCharUppercaseTable.getD d 0

/-- `writeHexByteUppercase(byte, out)`: the two bytes of
`hex_byte_to_char_uppercase_table` at `2 * byte`, the digit of the high half
then that of the low half. -/
def writeHexByteUppercase (b : UInt8) : List UInt8 :=
  [hexDigitUppercase (b.toNat / 16), hexDigitUppercase (b.toNat % 16)]

/-- The bytes `escapeName` keeps: ASCII alphanumerics, `.` and `-`. The source
compares a signed `char`: a byte from `0x80` on is negative there and above
`z` here, and it is escaped in both. -/
def isNameByte (b : UInt8) : Bool :=
  ('a'.toUInt8 ≤ b && b ≤ 'z'.toUInt8) || ('A'.toUInt8 ≤ b && b ≤ 'Z'.toUInt8) ||
    ('0'.toUInt8 ≤ b && b ≤ '9'.toUInt8) || (b == '.'.toUInt8 || b == '-'.toUInt8)

/-- What the loop of `escapeName` appends for one byte. -/
def escapeByte (b : UInt8) : List UInt8 :=
  if isNameByte b then [b] else '_'.toUInt8 :: writeHexByteUppercase b

/-- `DB::escapeName(s)`. -/
def escapeName (s : List UInt8) : List UInt8 := s.flatMap escapeByte

/-- `DWAL::escapeDWALName(ns, name)`. -/
def escapeDWALName (ns name : List UInt8) : List UInt8 :=
  escapeName ns ++ ['.'.toUInt8] ++ escapeName name

/-- The bytes a Kafka topic name may hold: ASCII alphanumerics, `.`, `-` and `_`. -/
def IsTopicByte (b : UInt8) : Prop := isNameByte b = true ∨ b = '_'.toUInt8

instance (b : UInt8) : Decidable (IsTopicByte b) := inferInstanceAs (Decidable (_ ∨ _))

/-! ### Hex digits -/

theorem hexDigitUppercase_inj : ∀ d < 16, ∀ e < 16, hexDigitUppercase d = hexDigitUppercase e → d = e := by
  decide

theorem isTopicByte_hexDigitUppercase : ∀ d < 16, IsTopicByte (hexDigitUppercase d) := by
  decide

/-- The high half of a byte is a hex digit. -/
theorem high_lt (b : UInt8) : b.toNat / 16 < 16 := by
  have := UInt8.toNat_lt b
  omega

theorem writeHexByteUppercase_injective : Function.Injective writeHexByteUppercase := by
  intro a b h
  simp only [writeHexByteUppercase, List.cons.injEq, and_true] at h
  have hhigh := hexDigitUppercase_inj _ (high_lt a) _ (high_lt b) h.1
  have hlow := hexDigitUppercase_inj _ (Nat.mod_lt _ (by decide)) _ (Nat.mod_lt _ (by decide)) h.2
  -- a byte is its high digit and its low digit
  apply UInt8.toNat_inj.mp
  rw [← Nat.div_add_mod a.toNat 16, ← Nat.div_add_mod b.toNat 16, hhigh, hlow]

theorem isTopicByte_of_mem_writeHexByteUppercase {b c : UInt8} (h : c ∈ writeHexByteUppercase b) :
    IsTopicByte c := by
  simp only [writeHexByteUppercase, List.mem_cons, List.not_mem_nil, or_false] at h
  rcases h with rfl | rfl
  · exact isTopicByte_hexDigitUppercase _ (high_lt b)
  · exact isTopicByte_hexDigitUppercase _ (Nat.mod_lt _ (by decide))

/-! ### `escapeName` -/

/-- The escape `_` is not a byte `escapeName` keeps, so a kept byte and an
escape never start alike. -/
theorem escapeByte_prefixCode : PrefixCode escapeByte where
  ne_nil b := by
    unfold escapeByte
    split <;> simp
  eq_of_append_eq a b l l' h := by
    have hu : isNameByte '_'.toUInt8 = false := by decide
    unfold escapeByte at h
    split at h <;> split at h
    · -- both kept
      simp only [List.singleton_append, List.cons.injEq] at h
      exact h.1
    · simp only [List.cons_append, List.cons.injEq] at h
      obtain ⟨rfl, -⟩ := h
      simp_all
    · simp only [List.cons_append, List.cons.injEq] at h
      obtain ⟨rfl, -⟩ := h
      simp_all
    · -- both escaped: the two hex digits give the byte back
      simp only [List.cons_append, List.cons.injEq, true_and] at h
      have hlen : (writeHexByteUppercase a).length = (writeHexByteUppercase b).length := rfl
      exact writeHexByteUppercase_injective (List.append_inj h hlen).1

theorem escapeName_injective : Function.Injective escapeName :=
  escapeByte_prefixCode.flatMap_injective

theorem escapeName_append (s t : List UInt8) : escapeName (s ++ t) = escapeName s ++ escapeName t :=
  List.flatMap_append

/-- `.` is kept: it stands in the escaped name where it stood. -/
theorem escapeByte_dot : escapeByte '.'.toUInt8 = ['.'.toUInt8] := by decide

theorem mem_escapeName {s : List UInt8} {c : UInt8} (h : c ∈ escapeName s) : IsTopicByte c := by
  obtain ⟨b, -, hc⟩ := List.mem_flatMap.mp h
  unfold escapeByte at hc
  split at hc
  · rw [List.mem_singleton] at hc
    subst hc
    exact Or.inl ‹_›
  · rcases List.mem_cons.mp hc with rfl | hc
    · exact Or.inr rfl
    · exact isTopicByte_of_mem_writeHexByteUppercase hc

/-! ### `escapeDWALName` -/

/-- The topic is the escape of `ns.name`. -/
theorem escapeDWALName_eq_escapeName (ns name : List UInt8) :
    escapeDWALName ns name = escapeName (ns ++ ['.'.toUInt8] ++ name) := by
  rw [escapeName_append, escapeName_append, escapeDWALName]
  simp [escapeName, escapeByte_dot]

/-- Two tables share a topic exactly when `database.table` is one text. -/
theorem escapeDWALName_eq_iff {ns₁ n₁ ns₂ n₂ : List UInt8} :
    escapeDWALName ns₁ n₁ = escapeDWALName ns₂ n₂ ↔ ns₁ ++ ['.'.toUInt8] ++ n₁ = ns₂ ++ ['.'.toUInt8] ++ n₂ := by
  rw [escapeDWALName_eq_escapeName, escapeDWALName_eq_escapeName]
  exact escapeName_injective.eq_iff

/-- Database names without a `.` end at the first `.` of the topic. -/
theorem escapeDWALName_injective_of_dot_not_mem {ns₁ n₁ ns₂ n₂ : List UInt8} (h₁ : '.'.toUInt8 ∉ ns₁)
    (h₂ : '.'.toUInt8 ∉ ns₂) (h : escapeDWALName ns₁ n₁ = escapeDWALName ns₂ n₂) : ns₁ = ns₂ ∧ n₁ = n₂ := by
  have hjoin := escapeDWALName_eq_iff.mp h
  simp only [List.append_assoc, List.singleton_append] at hjoin
  have hcut := congrArg (breakAt '.'.toUInt8) hjoin
  rw [breakAt_append h₁, breakAt_append h₂, Option.some.injEq, Prod.mk.injEq] at hcut
  exact hcut

theorem mem_escapeDWALName {ns name : List UInt8} {c : UInt8} (h : c ∈ escapeDWALName ns name) :
    IsTopicByte c := by
  rw [escapeDWALName_eq_escapeName] at h
  exact mem_escapeName h

/-! ### Tables that share a topic -/

/-- **Tables share a topic.** A database name with a `.` in it and the
database before the `.`, its table name the rest: the table `a.b`.`c` and
the table `a`.`b.c` both write to `a.b.c`. -/
theorem escapeDWALName_dot_collision (ns rest name : List UInt8) :
    (ns ++ '.'.toUInt8 :: rest, name) ≠ (ns, rest ++ '.'.toUInt8 :: name) ∧
      escapeDWALName (ns ++ '.'.toUInt8 :: rest) name = escapeDWALName ns (rest ++ '.'.toUInt8 :: name) := by
  refine ⟨fun h => ?_, escapeDWALName_eq_iff.mpr (by simp)⟩
  -- the first database name is the longer
  have hlen := congrArg (fun p : List UInt8 × List UInt8 => p.1.length) h
  simp at hlen

/-- Topics collide exactly when `database.table` does; tables whose database
names hold no `.` get topics of their own; a topic holds only ASCII
alphanumerics, `.`, `-` and `_`. -/
theorem escapeDWALName_spec (ns₁ n₁ ns₂ n₂ : List UInt8) :
    (escapeDWALName ns₁ n₁ = escapeDWALName ns₂ n₂ ↔ ns₁ ++ ['.'.toUInt8] ++ n₁ = ns₂ ++ ['.'.toUInt8] ++ n₂) ∧
      ('.'.toUInt8 ∉ ns₁ → '.'.toUInt8 ∉ ns₂ → (ns₁, n₁) ≠ (ns₂, n₂) →
        escapeDWALName ns₁ n₁ ≠ escapeDWALName ns₂ n₂) ∧
      ∀ c ∈ escapeDWALName ns₁ n₁, IsTopicByte c := by
  refine ⟨escapeDWALName_eq_iff, ?_, fun c hc => mem_escapeDWALName hc⟩
  intro h₁ h₂ hne heq
  obtain ⟨rfl, rfl⟩ := escapeDWALName_injective_of_dot_not_mem h₁ h₂ heq
  exact hne rfl

end Daisy.DWAL
