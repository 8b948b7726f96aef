import Mathlib.Data.List.Basic

/-!
# Lines

A list cut behind every occurrence of a terminator: the complete lines, each with
its terminator, and the rest behind the last one.
-/

namespace Lines

variable {α : Type} [DecidableEq α]

/-- The complete lines of a list and what is behind the last of them. -/
def split (sep : α) : List α → List (List α) × List α
  | [] => ([], [])
  | a :: as =>
    let (lines, rest) := split sep as
    if a = sep then
      ([a] :: lines, rest)
    else
      match lines with
      | [] => ([], a :: rest)
      | line :: lines => ((a :: line) :: lines, rest)

variable {sep : α} {l : List α}

/-- Without a terminator there is no complete line. -/
theorem split_of_notMem (h : sep ∉ l) : split sep l = ([], l) := by
  induction l with
  | nil => rfl
  | cons a as ih =>
    rw [List.mem_cons, not_or] at h
    rw [split, ih h.2]
    exact if_neg (Ne.symm h.1)

/-- The first terminator ends the first line. -/
theorem split_append_sep (h : sep ∉ l) (as : List α) :
    split sep (l ++ sep :: as) = ((l ++ [sep]) :: (split sep as).1, (split sep as).2) := by
  induction l with
  | nil =>
    rw [List.nil_append, split]
    exact if_pos rfl
  | cons a l ih =>
    rw [List.mem_cons, not_or] at h
    rw [List.cons_append, split, ih h.2]
    exact if_neg (Ne.symm h.1)

/-- The first terminator splits a list in one way. -/
theorem append_sep_inj {l' as bs : List α} (hl : sep ∉ l) (hl' : sep ∉ l')
    (h : l ++ sep :: as = l' ++ sep :: bs) : l = l' ∧ as = bs := by
  have hsplit := congrArg (split sep) h
  rw [split_append_sep hl, split_append_sep hl'] at hsplit
  have hfirst := (List.cons.inj (Prod.mk.inj hsplit).1).1
  have heq : l = l' := List.append_cancel_right hfirst
  rw [heq] at h
  exact ⟨heq, (List.cons.inj (List.append_cancel_left h)).2⟩

/-- A complete line has its terminator. -/
theorem mem_of_mem_split {line : List α} (h : line ∈ (split sep l).1) : sep ∈ line := by
  induction l generalizing line with
  | nil => exact absurd h List.not_mem_nil
  | cons a as ih =>
    obtain ⟨⟨lines, rest⟩, hsplit⟩ : ∃ s, split sep as = s := ⟨_, rfl⟩
    rw [split, hsplit] at h
    rw [hsplit] at ih
    -- the line ends here
    by_cases ha : a = sep
    · simp only [if_pos ha, List.mem_cons] at h
      rcases h with rfl | h
      · exact List.mem_singleton.mpr ha.symm
      · exact ih h
    · -- or it goes on with the next character
      cases lines with
      | nil =>
        simp only [if_neg ha] at h
        exact absurd h List.not_mem_nil
      | cons first lines =>
        simp only [if_neg ha, List.mem_cons] at h
        rcases h with rfl | h
        · exact List.mem_cons_of_mem a (ih List.mem_cons_self)
        · exact ih (List.mem_cons_of_mem first h)

end Lines
