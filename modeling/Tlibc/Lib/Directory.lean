import Mathlib.Data.Set.Insert
import Mathlib.Data.List.Infix

/-!
# Trees of directories

Directories, the paths that lead from one to another, and the creation of a directory
at the end of a path. A path resolves when every directory on the way exists.

* `walk_isSome_iff`: that is what a walk along the path finds out
* `dirs_ensure`: looking for a path and creating it when it is not there adds what it
  leads to, if what is above it resolves
-/

namespace Directory

variable {Name : Type}

/-- A directory, as the names that lead to it from the root, the last one first. -/
abbrev Dir (Name : Type) := List Name

/-- A component of a path: `.`, `..`, or a name. -/
inductive Step (Name : Type) where
  | here
  | up
  | down (n : Name)
  deriving DecidableEq

/-- The directory a component leads to. The root is above itself. -/
def Step.go (d : Dir Name) : Step Name → Dir Name
  | here => d
  | up => d.tail
  | down n => n :: d

/-- The directory a path leads to. -/
def target (d : Dir Name) (ss : List (Step Name)) : Dir Name := ss.foldl Step.go d

/-- Every directory on the way is one of `S`. -/
def Resolves (S : Set (Dir Name)) (d : Dir Name) (ss : List (Step Name)) : Prop :=
  ∀ pre, pre <+: ss → target d pre ∈ S

/-- The directories that exist. -/
structure Tree (Name : Type) where
  isDir : Dir Name → Bool
  root : isDir [] = true
  above : ∀ d, isDir d = true → isDir d.tail = true

namespace Tree

/-- The directories of a tree. -/
def dirs (t : Tree Name) : Set (Dir Name) := {d | t.isDir d = true}

/-- Two trees with the same directories are the same. -/
theorem ext_dirs {t u : Tree Name} (h : t.dirs = u.dirs) : t = u := by
  have hdir : t.isDir = u.isDir := by
    funext d
    exact Bool.eq_iff_iff.mpr (Set.ext_iff.mp h d)
  cases t
  cases u
  cases hdir
  rfl

/-- Follow a path. -/
def walk (t : Tree Name) (d : Dir Name) : List (Step Name) → Option (Dir Name)
  | [] => if t.isDir d then some d else none
  | s :: ss => if t.isDir d then t.walk (s.go d) ss else none

/-- A new directory below one that exists. -/
def add [DecidableEq Name] (t : Tree Name) (d : Dir Name) (h : t.isDir d.tail = true) :
    Tree Name where
  isDir e := decide (e = d) || t.isDir e
  root := by simp [t.root]
  above e he := by
    rcases Bool.or_eq_true_iff.mp he with he | he
    · rw [of_decide_eq_true he, h, Bool.or_true]
    · rw [t.above e he, Bool.or_true]

end Tree

/-! ## Paths that resolve -/

variable {S T : Set (Dir Name)} {d : Dir Name} {s : Step Name} {ss : List (Step Name)}

/-- A path is followed in two parts. -/
theorem target_append (d : Dir Name) (ss ts : List (Step Name)) :
    target d (ss ++ ts) = target (target d ss) ts := List.foldl_append

/-- The empty path resolves where it starts. -/
theorem resolves_nil : Resolves S d [] ↔ d ∈ S := by
  constructor
  · intro h
    exact h [] List.nil_prefix
  · intro h pre hpre
    rw [List.prefix_nil.mp hpre]
    exact h

/-- One step, and the others. -/
theorem resolves_cons : Resolves S d (s :: ss) ↔ d ∈ S ∧ Resolves S (s.go d) ss := by
  constructor
  · intro h
    refine ⟨h [] List.nil_prefix, fun pre hpre => ?_⟩
    exact h (s :: pre) (List.cons_prefix_cons.mpr ⟨rfl, hpre⟩)
  · intro h pre hpre
    cases pre with
    | nil => exact h.1
    | cons a pre =>
      obtain ⟨rfl, htail⟩ := List.cons_prefix_cons.mp hpre
      exact h.2 pre htail

/-- A path resolves when the one above it does and what it leads to exists. -/
theorem resolves_concat :
    Resolves S d (ss ++ [s]) ↔ Resolves S d ss ∧ target d (ss ++ [s]) ∈ S := by
  constructor
  · intro h
    exact ⟨fun pre hpre => h pre (hpre.trans (List.prefix_append ss [s])),
      h _ (List.prefix_refl _)⟩
  · intro h pre hpre
    rcases List.prefix_concat_iff.mp hpre with rfl | hpre
    · exact h.2
    · exact h.1 pre hpre

/-- Where a path leads there is a directory. -/
theorem Resolves.mem (h : Resolves S d ss) : target d ss ∈ S := h ss (List.prefix_refl ss)

/-- With more directories a path resolves, too. -/
theorem Resolves.mono (h : Resolves S d ss) (hST : S ⊆ T) : Resolves T d ss :=
  fun pre hpre => hST (h pre hpre)

/-- So does the path without its last step. -/
theorem Resolves.dropLast (h : Resolves S d ss) : Resolves S d ss.dropLast :=
  fun pre hpre => h pre (hpre.trans (List.dropLast_prefix ss))

/-- A path resolves when all but its last step do, and it leads to a directory. -/
theorem resolves_iff_dropLast :
    Resolves S d ss ↔ Resolves S d ss.dropLast ∧ target d ss ∈ S := by
  constructor
  · intro h
    exact ⟨h.dropLast, h.mem⟩
  · intro h
    rcases List.eq_nil_or_concat' ss with rfl | ⟨ts, s, rfl⟩
    · exact h.1
    · rw [List.dropLast_concat] at h
      exact resolves_concat.mpr h

namespace Tree

variable (t : Tree Name)

/-- Walking finds the path exactly when it resolves. -/
theorem walk_isSome_iff (d : Dir Name) (ss : List (Step Name)) :
    (t.walk d ss).isSome = true ↔ Resolves t.dirs d ss := by
  induction ss generalizing d with
  | nil =>
    rw [walk, resolves_nil]
    by_cases hd : t.isDir d <;> simp [hd, dirs]
  | cons s ss ih =>
    rw [walk, resolves_cons, ← ih]
    by_cases hd : t.isDir d <;> simp [hd, dirs]

/-- Where a path resolves that a component more is put behind, the directory above what it
    leads to exists. -/
theorem isDir_tail_target (h : Resolves t.dirs d ss.dropLast) :
    t.isDir (target d ss).tail = true := by
  rcases List.eq_nil_or_concat' ss with rfl | ⟨ts, s, rfl⟩
  · exact t.above d h.mem
  · rw [List.dropLast_concat] at h
    have hts : t.isDir (target d ts) = true := h.mem
    rw [target_append]
    cases s with
    | here => exact t.above _ hts
    -- a directory above one that exists has another above it
    | up => exact t.above _ (t.above _ hts)
    | down n => exact hts

variable [DecidableEq Name]

/-- Create a directory, if it does not exist and the one above it does. -/
def make (d : Dir Name) (ss : List (Step Name)) : Option (Tree Name) :=
  if h : (t.walk d ss.dropLast).isSome = true then
    if t.isDir (target d ss) then
      none
    else
      some (t.add (target d ss) (t.isDir_tail_target ((t.walk_isSome_iff d _).mp h)))
  else
    none

/-- Making a directory removes none. -/
theorem isDir_make {t u : Tree Name} (h : t.make d ss = some u) {e : Dir Name}
    (he : t.isDir e = true) : u.isDir e = true := by
  unfold make at h
  split at h
  · split at h
    · cases h
    · cases h
      simp [add, he]
  · cases h

/-- Create it if the path does not resolve. -/
def ensure (d : Dir Name) (ss : List (Step Name)) : Tree Name :=
  if (t.walk d ss).isSome then t else (t.make d ss).getD t

/-- Ensuring a path adds its last directory, if it can be made. -/
theorem dirs_ensure (d : Dir Name) (ss : List (Step Name)) :
    (t.ensure d ss).dirs = t.dirs ∪ {e | Resolves t.dirs d ss.dropLast ∧ e = target d ss} := by
  have hadd : ∀ h, (t.add (target d ss) h).dirs = t.dirs ∪ {target d ss} := by
    intro h
    ext e
    simp [dirs, add]
  unfold ensure make
  by_cases hwalk : (t.walk d ss).isSome = true
  · -- what a path that resolves leads to is there already
    rw [if_pos hwalk]
    have hmem := ((t.walk_isSome_iff d ss).mp hwalk).mem
    refine (Set.union_eq_left.mpr ?_).symm
    intro e he
    rw [he.2]
    exact hmem
  · rw [if_neg hwalk]
    have hwalk := (t.walk_isSome_iff d ss).not.mp hwalk
    by_cases hup : Resolves t.dirs d ss.dropLast
    · -- only the directory at the end is missing
      have hnew : ¬ t.isDir (target d ss) = true := fun hdir =>
        hwalk (resolves_iff_dropLast.mpr ⟨hup, hdir⟩)
      rw [dif_pos ((t.walk_isSome_iff d _).mpr hup), if_neg hnew, Option.getD_some, hadd]
      simp [hup]
    · rw [dif_neg ((t.walk_isSome_iff d _).not.mpr hup), Option.getD_none]
      simp [hup]

/-- Where the path above resolves, the whole path does afterwards. -/
theorem resolves_ensure (h : Resolves t.dirs d ss.dropLast) :
    Resolves (t.ensure d ss).dirs d ss := by
  rw [dirs_ensure]
  exact resolves_iff_dropLast.mpr ⟨h.mono Set.subset_union_left, .inr ⟨h, rfl⟩⟩

end Tree

end Directory
