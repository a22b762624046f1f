import Mathlib.Data.List.Basic

/-!
# Codes and readers

A writer that puts down each letter of a text as a codeword (`List.flatMap f`)
loses nothing when no codeword is a prefix of another's: a text of codewords
is read back from its front, one word at a time. A reader that reads a value
off the front of its input and hands back the rest is the constructive form
of the same property.

* `PrefixCode f`: the codewords are not empty and none starts another;
* `PrefixCode.flatMap_injective`: a text written by a prefix code determines
  the letters it was written from;
* `ReadsAs write read f ok`: `read` gives back `f a` where `write` wrote
  `a`, for the values `ok` admits, and leaves what followed it; `ReadsBack`
  is the case `f = id`;
* `readMany`: a counted loop of reads, and `ReadsAs.readMany`: it reads
  values written one after the other.
-/

namespace Daisy.Library

variable {α β : Type*}

/-- `f` is a prefix code: every codeword has a letter, and a text that starts
with two codewords starts with the same one twice. -/
structure PrefixCode (f : α → List β) : Prop where
  /-- No letter is written as nothing. -/
  ne_nil : ∀ a, f a ≠ []
  /-- A codeword is read off the front of any text it starts. -/
  eq_of_append_eq : ∀ a b l l', f a ++ l = f b ++ l' → a = b

namespace PrefixCode

variable {f : α → List β}

/-- Past the same codeword the texts are equal. -/
theorem append_cancel (hf : PrefixCode f) {a b : α} {l l' : List β} (h : f a ++ l = f b ++ l') :
    a = b ∧ l = l' := by
  obtain rfl := hf.eq_of_append_eq a b l l' h
  exact ⟨rfl, List.append_cancel_left h⟩

/-- Writing with a prefix code is injective. -/
theorem flatMap_injective (hf : PrefixCode f) : Function.Injective (List.flatMap f) := by
  intro xs
  -- read the words back from the front of the text, one at a time
  induction xs with
  | nil =>
    rintro (_ | ⟨y, ys⟩) h
    · rfl
    · simp [hf.ne_nil y] at h
  | cons x xs ih =>
    rintro (_ | ⟨y, ys⟩) h
    · simp [hf.ne_nil x] at h
    · rw [List.flatMap_cons, List.flatMap_cons] at h
      obtain ⟨rfl, hrest⟩ := hf.append_cancel h
      rw [ih hrest]

end PrefixCode

/-! ### Readers -/

section Readers

variable {γ ε : Type*}

/-- `read` gives back `f a` for every value `a` that `ok` admits and `write`
wrote, and leaves the input that followed it. -/
def ReadsAs (write : α → List β) (read : List β → Except ε (γ × List β)) (f : α → γ) (ok : α → Prop) : Prop :=
  ∀ a rest, ok a → read (write a ++ rest) = .ok (f a, rest)

/-- `read` gives back what `write` wrote. -/
def ReadsBack (write : α → List β) (read : List β → Except ε (α × List β)) (ok : α → Prop) : Prop :=
  ∀ a rest, ok a → read (write a ++ rest) = .ok (a, rest)

/-- `n` values, each read by `read`, in order. -/
def readMany (read : List β → Except ε (γ × List β)) : Nat → List β → Except ε (List γ × List β)
  | 0, input => .ok ([], input)
  | n + 1, input => do
    let (a, input) ← read input
    let (as, input) ← readMany read n input
    pure (a :: as, input)

/-- Values written one after the other are read by as many reads. -/
theorem ReadsAs.readMany {write : α → List β} {read : List β → Except ε (γ × List β)} {f : α → γ}
    {ok : α → Prop} (h : ReadsAs write read f ok) :
    ∀ (l : List α) (rest : List β), (∀ a ∈ l, ok a) →
      Library.readMany read l.length (l.flatMap write ++ rest) = .ok (l.map f, rest)
  | [], rest, _ => rfl
  | a :: l, rest, hl => by
    have ha := h a (l.flatMap write ++ rest) (hl a List.mem_cons_self)
    have hrest := ReadsAs.readMany h l rest fun b hb => hl b (List.mem_cons_of_mem a hb)
    rw [List.length_cons, List.flatMap_cons, List.append_assoc, Library.readMany, ha]
    simp only [bind, Except.bind, hrest]
    rfl

end Readers

end Daisy.Library
