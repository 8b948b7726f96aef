import Mathlib.Algebra.BigOperators.Group.List.Basic
import Mathlib.Algebra.Order.BigOperators.Group.List
import Mathlib.Order.Monotone.Basic
import Mathlib.Tactic.Ring

/-!
# Consecutive placement

Blocks of given sizes laid one after another from a base: `startOf` is where
block `i` begins, and `fit` is how many blocks a greedy allocator places before
the first one that exceeds the room left. Both a partition allocator and a
watermark allocator of file clusters are instances.

* `startOf_succ`, `startOf_mono`, `startOf_append`: the positions
* `exists_block`: every position below the end lies in a block
* `le_fit_iff`: the greedy count is the longest prefix that fits
-/

namespace Placement

/-- Where block `i` begins when blocks are laid from `base` on. -/
def startOf (base : Nat) (sizes : List Nat) (i : Nat) : Nat := base + (sizes.take i).sum

/-- How many blocks are placed in `cap` units before the first that does not fit. -/
def fit (cap : Nat) : List Nat → Nat
  | [] => 0
  | v :: vs => if cap < v then 0 else fit (cap - v) vs + 1

/-! ## Positions -/

/-- The first block starts at the base. -/
@[simp] theorem startOf_zero (base : Nat) (sizes : List Nat) : startOf base sizes 0 = base := rfl

/-- A block starts behind the one before it. -/
theorem startOf_succ (base : Nat) {sizes : List Nat} {i : Nat} (h : i < sizes.length) :
    startOf base sizes (i + 1) = startOf base sizes i + sizes[i] := by
  rw [startOf, startOf, List.take_add_one, List.getElem?_eq_getElem h, List.sum_append]
  simp only [Option.toList_some, List.sum_singleton]
  omega

/-- The blocks behind the first one. -/
theorem startOf_cons_succ (base v : Nat) (vs : List Nat) (i : Nat) :
    startOf base (v :: vs) (i + 1) = startOf (base + v) vs i := by
  rw [startOf, startOf, List.take_succ_cons, List.sum_cons, Nat.add_assoc]

/-- Where the last block ends. -/
theorem startOf_length (base : Nat) (sizes : List Nat) :
    startOf base sizes sizes.length = base + sizes.sum := by
  rw [startOf, List.take_length]

/-- Laying one more block at the end moves no earlier one. -/
theorem startOf_append (base : Nat) (sizes more : List Nat) {i : Nat} (h : i ≤ sizes.length) :
    startOf base (sizes ++ more) i = startOf base sizes i := by
  rw [startOf, startOf, List.take_append_of_le_length h]

/-- Later blocks start later. -/
theorem startOf_mono (base : Nat) (sizes : List Nat) : Monotone (startOf base sizes) := by
  intro i j hij
  have h : (sizes.take i).sum ≤ (sizes.take j).sum := by
    obtain ⟨d, rfl⟩ := Nat.exists_eq_add_of_le hij
    rw [List.take_add, List.sum_append]
    exact Nat.le_add_right _ _
  exact Nat.add_le_add_left h base

/-- All blocks start behind the base. -/
theorem base_le_startOf (base : Nat) (sizes : List Nat) (i : Nat) : base ≤ startOf base sizes i :=
  Nat.le_add_right _ _

/-- Every position between the base and the end lies in some block. -/
theorem exists_block (base : Nat) (sizes : List Nat) {e : Nat} (hlo : base ≤ e)
    (hhi : e < startOf base sizes sizes.length) :
    ∃ i, i < sizes.length ∧ startOf base sizes i ≤ e ∧ e < startOf base sizes (i + 1) := by
  induction sizes generalizing base with
  | nil => exact absurd hlo (Nat.not_le.mpr hhi)
  | cons v vs ih =>
    -- the number is in the first block, or in one behind it
    by_cases hv : e < base + v
    · exact ⟨0, Nat.succ_pos _, hlo, by rwa [startOf_cons_succ, startOf_zero]⟩
    · rw [List.length_cons, startOf_cons_succ] at hhi
      obtain ⟨i, hi, h₁, h₂⟩ := ih (base + v) (by omega) hhi
      refine ⟨i + 1, Nat.succ_lt_succ hi, ?_, ?_⟩
      · rwa [startOf_cons_succ]
      · rwa [startOf_cons_succ]

/-! ## The greedy count -/

/-- Not more blocks fit than there are. -/
theorem fit_le_length (cap : Nat) (sizes : List Nat) : fit cap sizes ≤ sizes.length := by
  induction sizes generalizing cap with
  | nil => exact Nat.le_refl 0
  | cons v vs ih =>
    rw [fit, List.length_cons]
    split
    · exact Nat.zero_le _
    · exact Nat.succ_le_succ (ih _)

/-- The greedy count is the length of the longest prefix that fits. -/
theorem le_fit_iff {cap : Nat} {sizes : List Nat} {n : Nat} (hn : n ≤ sizes.length) :
    n ≤ fit cap sizes ↔ (sizes.take n).sum ≤ cap := by
  -- a block fits when it does behind those before it
  induction sizes generalizing cap n with
  | nil =>
    obtain rfl : n = 0 := Nat.le_zero.mp hn
    simp only [fit, List.take_nil, List.sum_nil, Nat.zero_le, Nat.le_refl]
  | cons v vs ih =>
    cases n with
    | zero => simp only [List.take_zero, List.sum_nil, Nat.zero_le]
    | succ n =>
      rw [List.take_succ_cons, List.sum_cons, fit]
      split
      · omega
      · have h := @ih (cap - v) n (Nat.le_of_succ_le_succ hn)
        omega

/-- The blocks that fit do. -/
theorem sum_take_fit_le (cap : Nat) (sizes : List Nat) :
    (sizes.take (fit cap sizes)).sum ≤ cap :=
  (le_fit_iff (fit_le_length cap sizes)).mp (Nat.le_refl _)

end Placement
