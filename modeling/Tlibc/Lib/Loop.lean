import Tlibc.Lib.Run
import Mathlib.Logic.Function.Basic

/-!
# Counted loops

`for (i = 0; i < n; i++)` over a body that may fail, and the loop that copies one element
after another between places that may overlap.

* `forLoop_rule`, `forLoop_keeps`, `forLoop_returns_iff`: the rules of the loop
* `forLoop_simulates`: a loop follows another one whose passes its own passes follow
* `copyUp_apply`: where the copy runs into its own source it repeats what it copied first
-/

namespace Loop

variable {σ ε : Type} {body : Nat → σ → Except ε σ} {n : Nat} {s t : σ}

/-- `body` for `0`, `1`, …, `n - 1`. -/
def forLoop (body : Nat → σ → Except ε σ) : Nat → σ → Except ε σ
  | 0, s => .ok s
  | n + 1, s => forLoop body n s >>= body n

/-- A loop whose body always returns and keeps the invariant returns. -/
theorem forLoop_rule (P : Nat → σ → Prop)
    (hbody : ∀ i s, i < n → P i s → ∃ s', body i s = .ok s' ∧ P (i + 1) s') (hs : P 0 s) :
    ∃ t, forLoop body n s = .ok t ∧ P n t := by
  induction n with
  | zero => exact ⟨s, rfl, hs⟩
  | succ n ih =>
    obtain ⟨t, ht, hP⟩ := ih fun i s hi => hbody i s (Nat.lt_succ_of_lt hi)
    obtain ⟨u, hu, hP'⟩ := hbody n t (Nat.lt_succ_self n) hP
    exact ⟨u, Run.bind_eq_ok.mpr ⟨t, ht, hu⟩, hP'⟩

/-- A loop that returns has kept what every pass keeps. -/
theorem forLoop_keeps (P : Nat → σ → Prop)
    (hbody : ∀ i s s', i < n → P i s → body i s = .ok s' → P (i + 1) s') (hs : P 0 s)
    (h : forLoop body n s = .ok t) : P n t := by
  induction n generalizing t with
  | zero =>
    cases h
    exact hs
  | succ n ih =>
    obtain ⟨u, hu, ht⟩ := Run.bind_eq_ok.mp h
    exact hbody n u t (Nat.lt_succ_self n)
      (ih (fun i s s' hi => hbody i s s' (Nat.lt_succ_of_lt hi)) hu) ht

/-- When every pass follows one of another loop, so does the loop. -/
theorem forLoop_simulates {τ : Type} {body' : Nat → τ → Except ε τ} (R : σ → τ → Prop)
    (hbody : ∀ i s s' x, i < n → R s x → body i s = .ok s' → ∃ y, body' i x = .ok y ∧ R s' y)
    {x : τ} (hR : R s x) (h : forLoop body n s = .ok t) :
    ∃ y, forLoop body' n x = .ok y ∧ R t y := by
  -- induction on the passes, the last of which is taken behind the others
  induction n generalizing t with
  | zero =>
    cases h
    exact ⟨x, rfl, hR⟩
  | succ n ih =>
    obtain ⟨u, hu, ht⟩ := Run.bind_eq_ok.mp h
    obtain ⟨y, hy, hR'⟩ := ih (fun i s s' x hi => hbody i s s' x (Nat.lt_succ_of_lt hi)) hu
    obtain ⟨z, hz, hR''⟩ := hbody n u t y (Nat.lt_succ_self n) hR' ht
    exact ⟨z, Run.bind_eq_ok.mpr ⟨y, hy, hz⟩, hR''⟩

/-- When it does not depend on the state whether a pass returns, the loop returns exactly
    when all passes do. -/
theorem forLoop_returns_iff {C : Nat → Prop}
    (hbody : ∀ i s, i < n → ((∃ s', body i s = .ok s') ↔ C i)) :
    (∃ t, forLoop body n s = .ok t) ↔ ∀ i, i < n → C i := by
  constructor
  · rintro ⟨t, h⟩
    -- every pass made so far had its condition
    have hkeeps := forLoop_keeps (fun k _ => ∀ i, i < k → C i)
      (fun i s s' hi hdone hok j hj => by
        rcases Nat.lt_succ_iff_lt_or_eq.mp hj with hj | rfl
        · exact hdone j hj
        · exact (hbody j s hi).mp ⟨s', hok⟩)
      (fun i hi => absurd hi (Nat.not_lt_zero i)) h
    exact hkeeps
  · intro hall
    obtain ⟨t, ht, -⟩ := @forLoop_rule σ ε body n s (fun _ _ => True)
      (fun i s hi _ => by
        obtain ⟨s', hs'⟩ := (hbody i s hi).mpr (hall i hi)
        exact ⟨s', hs', trivial⟩) trivial
    exact ⟨t, ht⟩

/-! ## Copying upwards -/

section Copy

variable {α β : Type} [DecidableEq α] {dst src : Nat → α} {m : α → β}

/-- Copy `n` elements, the first one first. -/
def copyUp (dst src : Nat → α) : Nat → (α → β) → α → β
  | 0, m => m
  | n + 1, m => Function.update (copyUp dst src n m) (dst n) (copyUp dst src n m (src n))

theorem copyUp_out {a : α} (ha : ∀ i, i < n → a ≠ dst i) : copyUp dst src n m a = m a := by
  induction n with
  | zero => rfl
  | succ n ih =>
    rw [copyUp, Function.update_of_ne (ha n (Nat.lt_succ_self n))]
    exact ih fun i hi => ha i (Nat.lt_succ_of_lt hi)

/-- When the destination begins `d` elements behind the source (`d = 0`: not behind it at
    all), the first `d` elements are copied over and over. -/
theorem copyUp_apply {d : Nat} (hdst : ∀ i, i < n → ∀ j, j < i → dst i ≠ dst j)
    (hlap : ∀ i, i < n → ∀ j, j < i → (src i = dst j ↔ i = j + d)) {i : Nat} (hi : i < n) :
    copyUp dst src n m (dst i) = m (src (i % d)) := by
  induction n generalizing i with
  | zero => exact absurd hi (Nat.not_lt_zero i)
  | succ n ih =>
    have hlt : n < n + 1 := Nat.lt_succ_self n
    have ih {i : Nat} (hi : i < n) : copyUp dst src n m (dst i) = m (src (i % d)) :=
      ih (fun i hi => hdst i (Nat.lt_succ_of_lt hi)) (fun i hi => hlap i (Nat.lt_succ_of_lt hi)) hi
    rw [copyUp]
    by_cases hin : i < n
    · rw [Function.update_of_ne (hdst n hlt i hin).symm]
      exact ih hin
    · obtain rfl : i = n := by omega
      rw [Function.update_self]
      by_cases hread : 0 < d ∧ d ≤ i
      · -- the element read was itself copied `d` passes ago
        have hsrc := (hlap i hlt (i - d) (by omega)).mpr (by omega)
        rw [hsrc, ih (by omega), ← Nat.mod_eq_sub_mod hread.2]
      · -- it is still what it was before the loop
        have hmod : i % d = i := by
          rcases Nat.eq_zero_or_pos d with rfl | hd
          · exact Nat.mod_zero i
          · exact Nat.mod_eq_of_lt (by omega)
        rw [copyUp_out fun j hj hsrc => by
          have := (hlap i hlt j hj).mp hsrc
          omega, hmod]

end Copy

end Loop
