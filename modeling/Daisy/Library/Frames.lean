import Mathlib.Data.List.Basic

/-!
# Streams of frames

A writer that buffers what it is given and hands it on in pieces of a fixed
size, and a reader that takes a stream apart one frame at a time until it
ends.

* `chunks n l`: `l` in pieces of `n` elements, the last possibly shorter and
  none empty; `flatten_chunks` puts them back together.
* `FrameReader`: a step that reads one frame from the state it is in and
  leaves the rest of the input, which is shorter; `FrameReader.readAll` runs it
  until the input is empty.
* `FrameReader.readAll_flatten`: the rule for a round trip. A reader that, from
  every state of an invariant, reads a frame back as what it encodes, whatever
  follows the frame, reads a run of frames back as what they encode, one after
  the other.
-/

namespace Daisy.Library

variable {α β τ ε : Type*}

/-! ### Pieces of a fixed size -/

/-- `l` in pieces of `n` elements, the last possibly shorter; a piece takes at
least one element, so that `n = 0` gives pieces of one. -/
def chunks (n : Nat) : List α → List (List α)
  | [] => []
  | a :: l => (a :: l.take (n - 1)) :: chunks n (l.drop (n - 1))
termination_by l => l.length
decreasing_by simp only [List.length_drop, List.length_cons]; omega

@[simp] theorem chunks_nil (n : Nat) : chunks n ([] : List α) = [] := by
  rw [chunks]

theorem chunks_cons (n : Nat) (a : α) (l : List α) :
    chunks n (a :: l) = (a :: l.take (n - 1)) :: chunks n (l.drop (n - 1)) := by
  rw [chunks]

@[simp] theorem flatten_chunks (n : Nat) (l : List α) : (chunks n l).flatten = l := by
  induction l using chunks.induct n with
  | case1 => simp
  | case2 a l ih => rw [chunks_cons, List.flatten_cons, ih, List.cons_append, List.take_append_drop]

/-- Every piece has one element at least and `n` at most. -/
theorem length_mem_chunks {n : Nat} (hn : 0 < n) {l c : List α} (hc : c ∈ chunks n l) :
    0 < c.length ∧ c.length ≤ n := by
  induction l using chunks.induct n with
  | case1 => simp at hc
  | case2 a l ih =>
    rw [chunks_cons, List.mem_cons] at hc
    rcases hc with rfl | hc
    · simp only [List.length_cons, List.length_take]
      omega
    · exact ih hc

/-! ### Reading frames -/

/-- A step that reads one frame of a stream from the state `τ` it is in: what
the frame holds, the state after it and the input after it, which is shorter
than the input was. -/
structure FrameReader (α β τ ε : Type*) where
  next : τ → List α → Except ε (List β × τ × List α)
  next_shorter : ∀ t input r, next t input = .ok r → r.2.2.length < input.length

namespace FrameReader

variable (R : FrameReader α β τ ε)

/-- Frame after frame until the input is empty: what they hold, one after the
other, or the first exception. -/
def readAll (t : τ) (input : List α) : Except ε (List β) :=
  match input with
  | [] => .ok []
  | a :: rest =>
    match _ : R.next t (a :: rest) with
    | .error e => .error e
    | .ok (out, t', rest') => (readAll t' rest').map (out ++ ·)
termination_by input.length
decreasing_by exact R.next_shorter _ _ _ ‹_›

@[simp] theorem readAll_nil (t : τ) : R.readAll t [] = .ok [] := by
  rw [readAll]

/-- One frame read, then the rest of the input. -/
theorem readAll_of_next {t t' : τ} {input rest : List α} {out : List β} (hnext : R.next t input = .ok (out, t', rest)) :
    R.readAll t input = (R.readAll t' rest).map (out ++ ·) := by
  have hne : input ≠ [] := by
    rintro rfl
    have := R.next_shorter _ _ _ hnext
    simp at this
  obtain ⟨a, input, rfl⟩ := List.exists_cons_of_ne_nil hne
  rw [readAll]
  split
  · simp_all
  · rename_i out' t'' rest'' h
    rw [hnext] at h
    cases h
    rfl

/-- **The round-trip rule.** A run of frames, each paired with what it holds,
where every frame is read back as what it holds from every state of `I`,
whatever follows it, and leaves a state of `I`. -/
theorem readAll_flatten (I : τ → Prop) (frames : List (List α × List β))
    (hframe : ∀ p ∈ frames, ∀ t rest, I t → ∃ t', R.next t (p.1 ++ rest) = .ok (p.2, t', rest) ∧ I t')
    {t : τ} (ht : I t) :
    R.readAll t (frames.map Prod.fst).flatten = .ok (frames.map Prod.snd).flatten := by
  -- the frames are read in order, the invariant carrying the state from one to the next
  induction frames generalizing t with
  | nil => simp
  | cons p frames ih =>
    obtain ⟨t', hnext, ht'⟩ := hframe p List.mem_cons_self t (frames.map Prod.fst).flatten ht
    have hrest := ih (fun q hq => hframe q (List.mem_cons_of_mem p hq)) ht'
    rw [List.map_cons, List.flatten_cons, R.readAll_of_next hnext, hrest, List.map_cons, List.flatten_cons]
    rfl

end FrameReader

end Daisy.Library
