import Tlibc.Lib.While
import Mathlib.Order.Filter.AtTopBot.Basic

/-!
# Computations with fuel

A program whose loops may not end runs with some fuel, which each of its loops has for
itself. What it does is what it does with enough of it.

* `Ends.bind`: one computation after another
* `Loops.ends`: a loop does what its passes lead to
* `ends_of_while`: a loop over a body without loops
-/

/-- What is computed with some fuel, if that is enough. -/
abbrev Fueled (ε α : Type) : Type := ReaderT Nat (ExceptT ε Option) α

namespace Fueled

variable {ε ε' α β σ ρ : Type}

/-- A computation that takes its fuel. -/
def ofRun (f : Nat → Option (Except ε α)) : Fueled ε α := f

/-- What needs no fuel. -/
def ofExcept (r : Except ε α) : Fueled ε α := fun _ => some r

/-- The computation ends with `r`, given enough fuel. -/
def Ends (x : Fueled ε α) (r : Except ε α) : Prop := ∀ᶠ fuel in Filter.atTop, x fuel = some r

variable {x : Fueled ε α} {f : α → Fueled ε β} {a : α} {e : ε}

/-- A value ends with itself. -/
theorem ends_pure (a : α) : Ends (pure a : Fueled ε α) (.ok a) :=
  Filter.Eventually.of_forall fun _ => rfl

/-- So does what needs no fuel. -/
theorem ends_ofExcept (r : Except ε α) : Ends (ofExcept r) r :=
  Filter.Eventually.of_forall fun _ => rfl

/-- One computation after another. -/
theorem Ends.bind {r : Except ε β} (hx : Ends x (.ok a)) (hf : Ends (f a) r) :
    Ends (x >>= f) r := by
  filter_upwards [hx, hf] with fuel hx hf
  show (x fuel >>= fun a => f a fuel) = some r
  rw [show x fuel = pure a from hx, pure_bind, hf]

/-- A fault ends what would follow. -/
theorem Ends.bind_error (hx : Ends x (.error e)) : Ends (x >>= f) (.error e) := by
  filter_upwards [hx] with fuel hx
  show (x fuel >>= fun a => f a fuel) = some (.error e)
  rw [show x fuel = throw e from hx]
  rfl

/-! ## Loops -/

/-- Behind a pass: the result, or what the next pass leads to. -/
def follow (next : σ → Fueled ε ρ) : While.Next σ ρ → Fueled ε ρ
  | .done r => pure r
  | .again t => next t

/-- At most `n` passes. -/
def passes (pass : σ → Fueled ε (While.Next σ ρ)) : Nat → σ → Fueled ε ρ
  | 0, _ => fun _ => none
  | n + 1, s => pass s >>= follow (passes pass n)

/-- `while`, over a body with loops in it. -/
def loop (pass : σ → Fueled ε (While.Next σ ρ)) (s : σ) : Fueled ε ρ := fun fuel =>
  passes pass fuel s fuel

variable {pass : σ → Fueled ε (While.Next σ ρ)} {s t : σ} {r : Except ε ρ}

/-- The loop ends with `r` after some number of passes. -/
def Loops (pass : σ → Fueled ε (While.Next σ ρ)) (s : σ) (r : Except ε ρ) : Prop :=
  ∃ n, Ends (passes pass n s) r

/-- A pass that ends the loop. -/
theorem Loops.done {y : ρ} (h : Ends (pass s) (.ok (.done y))) : Loops pass s (.ok y) :=
  ⟨1, h.bind (ends_pure y)⟩

/-- A pass that faults. -/
theorem Loops.fault (h : Ends (pass s) (.error e)) : Loops pass s (.error e) :=
  ⟨1, h.bind_error⟩

/-- A pass that goes on. -/
theorem Loops.again (h : Ends (pass s) (.ok (.again t))) (ht : Loops pass t r) :
    Loops pass s r := by
  obtain ⟨n, hn⟩ := ht
  exact ⟨n + 1, h.bind hn⟩

/-- A pass that is not needed changes nothing. -/
theorem passes_succ {n fuel : Nat} (h : passes pass n s fuel = some r) :
    passes pass (n + 1) s fuel = some r := by
  -- induction on the passes, with the same fuel for each of them
  induction n generalizing s with
  | zero => cases h
  | succ n ih =>
    -- more passes only matter when the loop goes on
    have hunfold : ∀ k, passes pass (k + 1) s fuel =
        (pass s fuel >>= fun next => follow (passes pass k) next fuel) := fun _ => rfl
    rw [hunfold] at h ⊢
    cases hpass : pass s fuel with
    | none =>
      rw [hpass] at h
      cases h
    | some res =>
      rw [hpass] at h
      cases res with
      | error e => exact h
      | ok next =>
        cases next with
        | done y => exact h
        | again t => exact ih h

/-- A loop whose passes end does so. -/
theorem Loops.ends (h : Loops pass s r) : Ends (loop pass s) r := by
  obtain ⟨n, hn⟩ := h
  -- for every fuel from `n` on the loop has ended
  filter_upwards [hn, Filter.eventually_ge_atTop n] with fuel hfuel hle
  have hall : ∀ k, passes pass (n + k) s fuel = some r := by
    intro k
    induction k with
    | zero => exact hfuel
    | succ k ih => exact passes_succ ih
  -- the fuel is also the number of passes
  obtain ⟨k, hk⟩ := Nat.exists_eq_add_of_le hle
  show passes pass fuel s fuel = some r
  conv_lhs =>
    arg 2
    rw [hk]
  exact hall k

/-- A loop without loops in it. -/
theorem ends_of_while {body : σ → Except ε (While.Next σ ρ)} (h : While.Ends body s r) :
    Ends (ofRun fun fuel => While.run body fuel s) r := by
  obtain ⟨n, hn⟩ := h
  -- more fuel does not change how the loop ends
  have hmono : ∀ fuel s, While.run body fuel s = some r → While.run body (fuel + 1) s = some r := by
    intro fuel
    induction fuel with
    | zero =>
      intro s h
      cases h
    | succ fuel ih =>
      intro s h
      rw [While.run] at h ⊢
      split at h
      · exact h
      · exact h
      · exact ih _ h
  filter_upwards [Filter.eventually_ge_atTop n] with fuel hle
  obtain ⟨k, rfl⟩ := Nat.exists_eq_add_of_le hle
  show While.run body (n + k) s = some r
  induction k with
  | zero => exact hn
  | succ k ih => exact hmono _ _ (ih (Nat.le_add_right _ _))

end Fueled
