import Tlibc.Lib.Run

/-!
# Loops that may not end

`while` over a body that can fail: a pass fails, ends the loop with a result, or leads
to the next pass. How the loop ends is a relation, since it may not end at all.

* `ends_error`, `ends_done`, `ends_again`: how the loop ends, by what its first pass leads to
* `Ends.unique`: a loop ends in one way
* `not_ends_of_again`: a pass that changes nothing is repeated forever
-/

namespace While

variable {σ ρ ε : Type}

/-- What a pass leads to. -/
inductive Next (σ ρ : Type) where
  | again (s : σ)
  | done (r : ρ)

/-- At most `fuel` passes: how the loop ends, if it does. -/
def run (pass : σ → Except ε (Next σ ρ)) : Nat → σ → Option (Except ε ρ)
  | 0, _ => none
  | fuel + 1, s =>
    match pass s with
    | .error e => some (.error e)
    | .ok (.done r) => some (.ok r)
    | .ok (.again t) => run pass fuel t

/-- The loop ends with `r`. -/
def Ends (pass : σ → Except ε (Next σ ρ)) (s : σ) (r : Except ε ρ) : Prop :=
  ∃ fuel, run pass fuel s = some r

variable {pass : σ → Except ε (Next σ ρ)} {s t : σ} {r r' : Except ε ρ}

/-- A pass that goes on takes one unit of fuel. -/
theorem run_succ (h : pass s = .ok (.again t)) (fuel : Nat) :
    run pass (fuel + 1) s = run pass fuel t := by
  rw [run, h]

/-- One that ends the loop needs no more. -/
theorem run_done {x : ρ} (h : pass s = .ok (.done x)) (fuel : Nat) :
    run pass (fuel + 1) s = some (.ok x) := by
  rw [run, h]

/-- The loop ends with a fault of its pass. -/
theorem ends_error {e : ε} (h : pass s = .error e) : Ends pass s r ↔ r = .error e := by
  constructor
  · intro ⟨fuel, hrun⟩
    cases fuel with
    | zero => cases hrun
    | succ fuel =>
      simp only [run, h, Option.some.injEq] at hrun
      exact hrun.symm
  · intro hr
    exact ⟨1, by rw [run, h, hr]⟩

/-- It ends when its pass does. -/
theorem ends_done {x : ρ} (h : pass s = .ok (.done x)) : Ends pass s r ↔ r = .ok x := by
  constructor
  · intro ⟨fuel, hrun⟩
    cases fuel with
    | zero => cases hrun
    | succ fuel =>
      simp only [run, h, Option.some.injEq] at hrun
      exact hrun.symm
  · intro hr
    exact ⟨1, by rw [run, h, hr]⟩

/-- Otherwise it ends as it does from the next state on. -/
theorem ends_again (h : pass s = .ok (.again t)) : Ends pass s r ↔ Ends pass t r := by
  constructor
  · intro ⟨fuel, hrun⟩
    cases fuel with
    | zero => cases hrun
    | succ fuel =>
      rw [run_succ h] at hrun
      exact ⟨fuel, hrun⟩
  · intro ⟨fuel, hrun⟩
    exact ⟨fuel + 1, by rw [run_succ h, hrun]⟩

/-- A loop ends in one way. -/
theorem Ends.unique (h : Ends pass s r) (h' : Ends pass s r') : r = r' := by
  obtain ⟨fuel, hrun⟩ := h
  -- induction on the fuel of the first run
  induction fuel generalizing s with
  | zero => cases hrun
  | succ fuel ih =>
    cases hpass : pass s with
    | error e => rw [(ends_error hpass).mp ⟨fuel + 1, hrun⟩, (ends_error hpass).mp h']
    | ok next =>
      cases next with
      | done x => rw [(ends_done hpass).mp ⟨fuel + 1, hrun⟩, (ends_done hpass).mp h']
      | again t =>
        rw [run_succ hpass] at hrun
        exact ih ((ends_again hpass).mp h') hrun

/-- A pass that changes nothing is repeated forever. -/
theorem not_ends_of_again (h : pass s = .ok (.again s)) : ¬ Ends pass s r := by
  intro ⟨fuel, hrun⟩
  induction fuel with
  | zero => cases hrun
  | succ fuel ih =>
    rw [run_succ h] at hrun
    exact ih hrun

end While
