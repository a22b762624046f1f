import Mathlib

/-!
# Runs that may fault

A computation in `Except ε` ends in a value or in an error. Of the errors,
some are what the code means to do (an exception it throws) and some are
faults of the model (`bad`): a read outside memory, say. `Post bad Q r` says
that `r` returns a value `Q` holds of, or stops with an error that is no
fault: a partial-correctness triple for one run, with faults as the part
that must not happen.

* `Post.bind`: the rule for sequencing;
* `loop`: a `while` loop with fuel, whose body either goes on from a new
  state or stops with a result;
* `post_loop`: the loop rule, from an invariant the body keeps;
* `loop_ok`: the rule for a loop that returns, from a measure each step
  lowers, with fuel above it;
* `option_triple_iff`: a partial-correctness triple of an `Option` program
  (`⦃⌜True⌝⦄ x ⦃⇓? a => ⌜P a⌝⦄`) says that what it returns, where it returns,
  satisfies `P`. Such a triple is what `mvcgen` proves, walking the join
  points of a `do` block.
-/

namespace Daisy.Library

variable {ε α β σ : Type}

/-- Results in `Except` are compared by cases, so that a run on given
input can be checked by `decide`. -/
instance instDecidableEqExcept [DecidableEq ε] [DecidableEq α] : DecidableEq (Except ε α)
  | .ok a, .ok b => if h : a = b then isTrue (h ▸ rfl) else isFalse fun e => h (Except.ok.inj e)
  | .error a, .error b => if h : a = b then isTrue (h ▸ rfl) else isFalse fun e => h (Except.error.inj e)
  | .ok _, .error _ => isFalse nofun
  | .error _, .ok _ => isFalse nofun

section Except

/-! The computation rules of `Except`, by name: as simp lemmas of every
module after this one they would change what `simp` leaves elsewhere. -/

variable {e : ε} {a : α} {f : α → Except ε β}

theorem pure_eq_ok : (pure a : Except ε α) = .ok a := rfl

theorem ok_bind : (Except.ok a >>= f) = f a := rfl

theorem error_bind : (Except.error e >>= f) = .error e := rfl

/-- A bind that returns: the first computation returned, and the rest
returned from its value. -/
theorem bind_eq_ok {x : Except ε α} {b : β} (h : x >>= f = .ok b) : ∃ a, x = .ok a ∧ f a = .ok b := by
  cases x with
  | ok a => exact ⟨a, rfl, h⟩
  | error e => cases h

theorem mapError_eq_ok {ε' : Type} {g : ε → ε'} {x : Except ε α} (h : x.mapError g = .ok a) : x = .ok a := by
  cases x with
  | ok b =>
    have hb : b = a := Except.ok.inj h
    rw [hb]
  | error e => cases h

end Except

/-- A run whose result, seen through `g`, is `b` ends in a pair of values
that `g` takes to `b`: a property of a run's states read off what a
computation of the run gives. -/
theorem exists_ok_of_map_eq {γ : Type} {r : Except ε (α × β)} {P : α → β → Prop} (g : α × β → γ) (b : γ)
    (hP : ∀ x y, g (x, y) = b → P x y) (h : r.map g = .ok b) : ∃ x y, r = .ok (x, y) ∧ P x y := by
  cases r with
  | ok p => exact ⟨p.1, p.2, rfl, hP p.1 p.2 (by simpa [Except.map] using h)⟩
  | error e => simp [Except.map] at h

/-- `r` returns a value `Q` holds of, or an error `bad` does not hold of. -/
def Post (bad : ε → Prop) (Q : α → Prop) : Except ε α → Prop
  | .ok a => Q a
  | .error e => ¬ bad e

section Post

variable {bad : ε → Prop} {Q R : α → Prop}

@[simp] theorem post_ok {a : α} : Post bad Q (.ok a) ↔ Q a := Iff.rfl

@[simp] theorem post_error {e : ε} : Post bad Q (.error e : Except ε α) ↔ ¬ bad e := Iff.rfl

@[simp] theorem post_pure {a : α} : Post bad Q (pure a : Except ε α) ↔ Q a := Iff.rfl

@[simp] theorem post_throw {e : ε} : Post bad Q (throw e : Except ε α) ↔ ¬ bad e := Iff.rfl

/-- **Sequencing.** -/
theorem Post.bind {Q : α → Prop} {R : β → Prop} {m : Except ε α} {f : α → Except ε β}
    (hm : Post bad Q m) (hf : ∀ a, Q a → Post bad R (f a)) : Post bad R (m >>= f) := by
  cases m with
  | error e => exact hm
  | ok a => exact hf a hm

theorem Post.mono {r : Except ε α} (h : Post bad Q r) (hQR : ∀ a, Q a → R a) : Post bad R r := by
  cases r with
  | error e => exact h
  | ok a => exact hQR a h

end Post

/-! ### `Option` programs -/

open Std.Do in
theorem option_triple_iff {x : Option α} {P : α → Prop} :
    ⦃⌜True⌝⦄ x ⦃⇓? a => ⌜P a⌝⦄ ↔ ∀ a, x = some a → P a := by
  cases x with
  | none =>
    -- `none` is the `throw` of `Option`, which a partial-correctness triple allows
    change ⦃⌜True⌝⦄ (MonadExceptOf.throw PUnit.unit : Option α) ⦃⇓? a => ⌜P a⌝⦄ ↔ _
    simp [Triple, WP.throw_Option]
  | some a =>
    change ⦃⌜True⌝⦄ (pure a : Option α) ⦃⇓? a => ⌜P a⌝⦄ ↔ _
    simp only [Triple, WP.pure]
    simp

/-! ### Loops -/

/-- A `while` loop with fuel: `step` goes on from a new state (`inl`) or
stops with a result (`inr`); with no fuel left the loop stops with `outOfFuel`. -/
def loop (outOfFuel : ε) (step : σ → Except ε (σ ⊕ α)) : Nat → σ → Except ε α
  | 0, _ => .error outOfFuel
  | fuel + 1, s => do
    match ← step s with
    | Sum.inl s' => loop outOfFuel step fuel s'
    | Sum.inr a => pure a

section Loop

variable {outOfFuel : ε} {step : σ → Except ε (σ ⊕ α)}

theorem loop_succ (fuel : Nat) (s : σ) :
    loop outOfFuel step (fuel + 1) s = step s >>= fun
      | Sum.inl s' => loop outOfFuel step fuel s'
      | Sum.inr a => pure a := rfl

/-- **The loop rule.** An invariant that each step keeps, and that holds
when the loop stops its result's property, gives the property of the loop;
running out of fuel must not be a fault. -/
theorem post_loop {bad : ε → Prop} (Inv : σ → Prop) {Q : α → Prop} (hfuel : ¬ bad outOfFuel)
    (hstep : ∀ s, Inv s → Post bad (Sum.elim Inv Q) (step s)) :
    ∀ fuel s, Inv s → Post bad Q (loop outOfFuel step fuel s) := by
  intro fuel
  induction fuel with
  | zero => exact fun _ _ => hfuel
  | succ fuel ih =>
    intro s hs
    rw [loop_succ]
    refine (hstep s hs).bind fun r hr => ?_
    cases r with
    | inl s' => exact ih s' hr
    | inr a => exact hr

/-- **The loop rule for a loop that returns.** Each step from an invariant
state returns: it goes on to an invariant state lower in `μ`, or stops with
a result `Q` holds of. Fuel above `μ` then gives such a result. -/
theorem loop_ok (Inv : σ → Prop) {Q : α → Prop} (μ : σ → Nat)
    (hstep : ∀ s, Inv s → ∃ r, step s = .ok r ∧ Sum.elim (fun s' => Inv s' ∧ μ s' < μ s) Q r) :
    ∀ fuel s, Inv s → μ s < fuel → ∃ a, loop outOfFuel step fuel s = .ok a ∧ Q a := by
  intro fuel
  induction fuel with
  | zero => intro _ _ h; omega
  | succ fuel ih =>
    intro s hs hμ
    obtain ⟨r, hr, hQ⟩ := hstep s hs
    rw [loop_succ, hr]
    cases r with
    | inl s' => exact ih s' hQ.1 (by simp only [Sum.elim_inl] at hQ; omega)
    | inr a => exact ⟨a, rfl, hQ⟩

end Loop

end Daisy.Library
