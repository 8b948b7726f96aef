import Tlibc.Native.System

/-!
# How `exec_job` wires a pipeline

Each level of the recursion makes one pipe; the parent keeps its read end as standard
input, and the child goes on with its write end as standard output.

* `execJob_wires`: whatever the order in which the processes take their steps, they come to
  an end with each job in a process of its own, wired as a pipeline
* `execJob_bounded_iff`: without any job the recursion misses the index at which it stops
-/

namespace Tlibc.System

open Processes

variable {t : Table} {pip : Nat × Nat}

/-! ## One level -/

/-- `dup2` of an open descriptor. -/
private theorem dup2_some {old new : Nat} {f : File} (h : t old = some f) :
    t.dup2 old new = Function.update t new (some f) := by
  rw [Table.dup2, h]

/-- When an end of a new pipe is made a standard file and its descriptors are closed, that
    file is all that has changed. -/
private theorem fds_of_end (h : t.Fresh pip) {n old std : Nat} {f : File}
    (hold : t.pipe pip n old = some f)
    (hstd : std < 3) : (((t.pipe pip n).dup2 old std).close pip.1).close pip.2 =
      Function.update t std (some f) := by
  obtain ⟨hne, ⟨hlo, hlo'⟩, hclosed, hclosed'⟩ := h
  rw [dup2_some hold]
  funext fd
  -- both ends of the pipe were closed before, and are closed again
  by_cases h₂ : fd = pip.2
  · rw [h₂, Table.close, Function.update_self, Function.update_of_ne (by omega), hclosed']
  by_cases h₁ : fd = pip.1
  · rw [h₁, Table.close, Function.update_of_ne hne, Table.close, Function.update_self,
      Function.update_of_ne (by omega), hclosed]
  rw [Table.close, Function.update_of_ne h₂, Table.close, Function.update_of_ne h₁]
  -- the standard descriptor is the end that was held
  by_cases h₀ : fd = std
  · rw [h₀, Function.update_self, Function.update_self]
  · rw [Function.update_of_ne h₀, Function.update_of_ne h₀, Table.pipe, Function.update_of_ne h₂,
      Function.update_of_ne h₁]

/-- The end of a new pipe that is read from. -/
private theorem pipe_read (h : t.Fresh pip) (n : Nat) : t.pipe pip n pip.1 = some (.readEnd n) := by
  rw [Table.pipe, Function.update_of_ne h.ne, Function.update_self]

/-- The end that is written to. -/
private theorem pipe_write (n : Nat) : t.pipe pip n pip.2 = some (.writeEnd n) := by
  rw [Table.pipe, Function.update_self]

/-- A standard file takes no number away from `pipe`. -/
private theorem fresh_update (h : t.Fresh pip) {std : Nat} (hstd : std < 3) (f : Option File) :
    Table.Fresh (Function.update t std f) pip := by
  obtain ⟨hne, ⟨hlo, hlo'⟩, hclosed, hclosed'⟩ := h
  refine ⟨hne, ⟨hlo, hlo'⟩, ?_, ?_⟩
  · rw [Function.update_of_ne (by omega), hclosed]
  · rw [Function.update_of_ne (by omega), hclosed']

/-! ## The recursion -/

/-- The jobs from `cur` down that start with the files `t`, pipe `n` the next one. -/
def jobsFrom (n : Nat) : Nat → Table → List (Int × Table)
  | 0, t => [(0, t)]
  | cur + 1, t => ((cur + 1 : Nat), Function.update t 0 (some (.readEnd n))) ::
      jobsFrom (n + 1) cur (Function.update t 1 (some (.writeEnd n)))

/-- The last job, and those in front of it. -/
private theorem jobsFrom_succ (n cur : Nat) (t : Table) : jobsFrom n (cur + 1) t =
    [(((cur + 1 : Nat) : Int), Function.update t 0 (some (.readEnd n)))] ++
      jobsFrom (n + 1) cur (Function.update t 1 (some (.writeEnd n))) := rfl

/-- `exec_recur_noret` comes to the jobs from `cur` down in nine steps for each pipe. -/
private theorem execRecurNoret_active {cur : Nat} {total : Int} (hcur : cur ≤ total) {n : Nat}
    (hfree : ∃ pip, t.Fresh pip) :
    Active execRecurNoret n (execRecurNoret (cur, total)) t (jobsFrom n cur t) (9 * cur) := by
  induction cur generalizing n t with
  | zero =>
    rw [execRecurNoret, if_neg (not_not.mpr hcur), if_pos (show ((0 : Nat) : Int) = 0 from rfl)]
    exact .settled .exec
  | succ cur ih =>
    have hne : ((cur + 1 : Nat) : Int) ≠ 0 := by omega
    have hpred : ((cur + 1 : Nat) : Int) - 1 = cur := by omega
    have hsteps : 9 * (cur + 1) = 3 + (9 * cur + 1 + 3) + 1 + 1 := by omega
    rw [execRecurNoret, if_neg (not_not.mpr hcur), if_neg hne, hsteps, jobsFrom_succ]
    refine .pipe hfree fun pip hfresh => ?_
    rw [if_neg (not_not.mpr rfl)]
    refine .fork (fun pid hpid => ?_) ?_
    · -- the parent makes three calls and executes job `cur + 1`
      rw [if_neg (by omega), if_neg (by omega),
        ← fds_of_end hfresh (pipe_read hfresh n) (show 0 < 3 by decide)]
      exact .dup2 (.close (.close .exec))
    · -- the child makes three calls and goes on with `cur`
      rw [if_neg (by decide), if_pos rfl, hpred]
      refine .dup2 (.close (.close (.call ?_)))
      rw [fds_of_end hfresh (pipe_write n) (show 1 < 3 by decide)]
      exact ih (by omega) ⟨pip, fresh_update hfresh (by decide) _⟩

/-! ## The pipeline -/

/-- The files the shell has open. -/
def ownTable (own : Nat → Option Nat) : Table := fun fd => (own fd).map File.own

/-- The files of the jobs of a pipeline. -/
structure Wired (own : Nat → Option Nat) (cnt : Nat) (files : Nat → Table) : Prop where
  /-- neighbours share a pipe, and no other pair has the same -/
  pipes : ∃ pipe : Nat → Nat,
    (∀ i j, i + 1 < cnt → j + 1 < cnt → pipe i = pipe j → i = j) ∧
    ∀ i, i + 1 < cnt → files i 1 = some (.writeEnd (pipe i)) ∧
      files (i + 1) 0 = some (.readEnd (pipe i))
  /-- the two ends of the pipeline are the shell's -/
  stdin : files 0 0 = ownTable own 0
  stdout : files (cnt - 1) 1 = ownTable own 1
  /-- there is no other pipe -/
  others : ∀ i, i < cnt → ∀ fd, 2 ≤ fd → files i fd = ownTable own fd

/-- The files of job `i` when the jobs from `cur` down start with the files `t`. -/
def filesFrom (n cur : Nat) (t : Table) (i : Nat) : Table := fun fd =>
  if fd = 0 then
    if i = 0 then t 0 else some (.readEnd (n + (cur - i)))
  else if fd = 1 then
    if i = cur then t 1 else some (.writeEnd (n + (cur - (i + 1))))
  else
    t fd

/-- The last job reads from the pipe. -/
private theorem filesFrom_top (n cur : Nat) (t : Table) : filesFrom n (cur + 1) t (cur + 1) =
    Function.update t 0 (some (.readEnd n)) := by
  funext fd
  by_cases h₀ : fd = 0
  · rw [filesFrom, if_pos h₀, if_neg (Nat.succ_ne_zero cur), Nat.sub_self, h₀, Function.update_self]
    rfl
  · rw [filesFrom, if_neg h₀, Function.update_of_ne h₀]
    by_cases h₁ : fd = 1
    · rw [if_pos h₁, if_pos rfl, h₁]
    · rw [if_neg h₁]

/-- The jobs in front of it are wired as if one of them were the last, with its output to the
    pipe. -/
private theorem filesFrom_succ {n cur i : Nat} (hi : i ≤ cur) (t : Table) :
    filesFrom n (cur + 1) t i =
    filesFrom (n + 1) cur (Function.update t 1 (some (.writeEnd n))) i := by
  funext fd
  rw [filesFrom, filesFrom]
  -- the input of a job is from the pipe of the job in front of it, or from outside
  by_cases h₀ : fd = 0
  · rw [if_pos h₀, if_pos h₀, Function.update_of_ne (by decide)]
    by_cases hi0 : i = 0
    · rw [if_pos hi0, if_pos hi0]
    · rw [if_neg hi0, if_neg hi0, show n + (cur + 1 - i) = n + 1 + (cur - i) by omega]
  · rw [if_neg h₀, if_neg h₀]
    -- its output is to its own pipe, but for the last one
    by_cases h₁ : fd = 1
    · rw [if_pos h₁, if_pos h₁, if_neg (by omega), Function.update_self]
      by_cases htop : i = cur
      · rw [if_pos htop, htop, Nat.sub_self]
        rfl
      · rw [if_neg htop, show n + (cur + 1 - (i + 1)) = n + 1 + (cur - (i + 1)) by omega]
    · rw [if_neg h₁, if_neg h₁, Function.update_of_ne h₁]

/-- The jobs, from the last one to the first. -/
theorem jobsFrom_eq (n cur : Nat) (t : Table) : jobsFrom n cur t =
    (List.range (cur + 1)).reverse.map fun i : Nat => ((i : Int), filesFrom n cur t i) := by
  -- induction on the number of jobs, from the last one
  induction cur generalizing n t with
  | zero =>
    have hfiles : filesFrom n 0 t 0 = t := by
      funext fd
      by_cases h₀ : fd = 0
      · rw [filesFrom, if_pos h₀, if_pos rfl, h₀]
      · by_cases h₁ : fd = 1
        · rw [filesFrom, if_neg h₀, if_pos h₁, if_pos rfl, h₁]
        · rw [filesFrom, if_neg h₀, if_neg h₁]
    rw [jobsFrom, show (List.range (0 + 1)).reverse = [0] from rfl, List.map_singleton, hfiles]
    rfl
  -- the last job is started first, and the others with their output to its pipe
  | succ cur ih =>
    rw [jobsFrom, ih, List.range_succ (n := cur + 1), List.reverse_append, List.reverse_singleton,
      List.singleton_append, List.map_cons, filesFrom_top]
    congr 1
    refine List.map_congr_left fun i hi => ?_
    rw [List.mem_reverse, List.mem_range] at hi
    rw [filesFrom_succ (by omega)]

/-- The jobs are wired one behind another. -/
theorem wired_filesFrom (own : Nat → Option Nat) (cur : Nat) :
    Wired own (cur + 1) (filesFrom 0 cur (ownTable own)) where
  pipes := by
    refine ⟨fun i => 0 + (cur - (i + 1)), fun i j hi hj heq => ?_, fun i hi => ⟨?_, ?_⟩⟩
    · have heq : 0 + (cur - (i + 1)) = 0 + (cur - (j + 1)) := heq
      omega
    · rw [filesFrom, if_neg (by decide), if_pos rfl, if_neg (by omega)]
    · rw [filesFrom, if_pos rfl, if_neg (Nat.succ_ne_zero i)]
  stdin := by
    rw [filesFrom, if_pos rfl, if_pos rfl]
  stdout := by
    rw [filesFrom, if_neg (by decide), if_pos rfl, if_pos (Nat.add_sub_cancel cur 1)]
  others i _ fd hfd := by
    rw [filesFrom, if_neg (by omega), if_neg (by omega)]

/-- The shell's call comes to all jobs. -/
theorem shell_inv (own : Nat → Option Nat) (cur : Nat) (hfree : ∃ pip, (ownTable own).Fresh pip) :
    Inv execRecurNoret (shell own (cur + 1 : Nat)) (jobsFrom 0 cur (ownTable own)) (9 * cur + 2) := by
  have hactive : Active execRecurNoret 0 (execJob (cur + 1 : Nat)) (ownTable own)
      ([] ++ jobsFrom 0 cur (ownTable own)) (0 + (9 * cur + 1) + 1) := by
    rw [execJob, if_neg (by omega)]
    refine .fork (fun pid hpid => ?_) ?_
    · rw [if_neg (by omega), if_neg (by omega)]
      exact .waitid
    · rw [if_neg (by decide), if_pos rfl, show ((cur + 1 : Nat) : Int) - 1 = cur by omega]
      exact .call (execRecurNoret_active (by omega) hfree)
  refine ⟨[], _, [], _, 0, _, rfl, .nil, hactive, rfl, by omega⟩

/-- Every run of `exec_job` ends, and then each of the jobs is in a process of its own, all
    of them wired as a pipeline; before the end some of them are, in the same way. -/
theorem execJob_wires (own : Nat → Option Nat) (cnt : Nat) (hcnt : 1 ≤ cnt)
    (hfree : ∃ pip, (ownTable own).Fresh pip) :
    ∃ files, Wired own cnt files ∧ ∀ n s, Runs execRecurNoret n (shell own cnt) s →
      n + 7 ≤ 9 * cnt ∧
      s.executing.Sublist ((List.range cnt).reverse.map fun i : Nat => ((i : Int), files i)) ∧
      ((∀ s', ¬ Step execRecurNoret s s') →
        s.executing = (List.range cnt).reverse.map fun i : Nat => ((i : Int), files i)) := by
  obtain ⟨cur, rfl⟩ := Nat.exists_eq_add_of_le' hcnt
  refine ⟨_, wired_filesFrom own cur, fun n s hruns => ?_⟩
  obtain ⟨r, hinv, hr⟩ := (shell_inv own cur hfree).runs hruns
  rw [← jobsFrom_eq]
  exact ⟨by omega, hinv.executing_sublist, hinv.executing_of_final⟩

/-- A shell with the standard files open, and a pipeline of three jobs. -/
theorem execJob_wires_three : ∃ files, Wired (fun fd => if fd < 3 then some fd else none) 3 files ∧
    ∀ n s, Runs execRecurNoret n (shell (fun fd => if fd < 3 then some fd else none) 3) s →
      n + 7 ≤ 9 * 3 ∧
      s.executing.Sublist ((List.range 3).reverse.map fun i : Nat => ((i : Int), files i)) ∧
      ((∀ s', ¬ Step execRecurNoret s s') →
        s.executing = (List.range 3).reverse.map fun i : Nat => ((i : Int), files i)) :=
  execJob_wires _ 3 (by decide) ⟨(3, 4), by decide, by decide, rfl, rfl⟩

/-! ## No jobs -/

/-- Every run of `exec_job` ends, and only jobs of the array are executed. -/
structure Bounded (own : Nat → Option Nat) (cnt : Int) : Prop where
  ends : ∃ bound, ∀ n s, Runs execRecurNoret n (shell own cnt) s → n ≤ bound
  inRange : ∀ n s, Runs execRecurNoret n (shell own cnt) s →
    ∀ job ∈ s.executing, 0 ≤ job.1 ∧ job.1 < cnt

variable {s : State (Int × Int) Int} {ps : List (Proc (Int × Int) Int)} {cur total : Int}
    {k n : Nat}

/-- A level below 0 executes the job of its index, and its child goes on one below it. -/
private theorem execRecurNoret_below (hcur : cur < 0) (hle : cur ≤ total) (hfresh : t.Fresh pip)
    (hruns : Runs execRecurNoret k s ⟨ps ++ [⟨.call (cur, total), t⟩], n⟩) :
    Runs execRecurNoret (k + 9) s
      ⟨(ps ++ [⟨.exec cur, Function.update t 0 (some (.readEnd n))⟩]) ++
        [⟨.call (cur - 1, total), Function.update t 1 (some (.writeEnd n))⟩], n + 1⟩ := by
  -- both branches of the fork, under the guards of the function
  have hbody : execRecurNoret (cur, total) = .pipe fun ret pip =>
      if ret ≠ 0 then
        .exit 1
      else
        .fork fun pid =>
          if pid < 0 then
            .exit 1
          else if pid = 0 then
            .dup2 pip.2 1 <| .close pip.1 <| .close pip.2 <| .call (cur - 1, total)
          else
            .dup2 pip.1 0 <| .close pip.1 <| .close pip.2 <| .exec cur := by
    rw [execRecurNoret, if_neg (not_not.mpr hle), if_neg (by omega)]
  have hcall : ProcRuns execRecurNoret 1 n ⟨.call (cur, total), t⟩ n
      ⟨execRecurNoret (cur, total), t⟩ := .tail (.refl _ _) .call
  rw [hbody] at hcall
  have hfork := Runs.alone ps [] hruns (hcall.tail (.pipe hfresh))
  rw [if_neg (not_not.mpr rfl)] at hfork
  have hboth := hfork.tail (.step ps [] (.fork Int.one_pos))
  rw [if_neg (by decide), if_neg (by decide), if_neg (by decide), if_pos rfl] at hboth
  -- the parent makes three calls, and so does the child
  have hparent := Runs.alone ps _ (by
    rw [List.append_assoc] at hboth
    exact hboth) (.tail (.tail (.tail (.refl _ _) .dup2) .close) .close)
  have hchild := Runs.alone _ [] (by
    rw [← List.singleton_append, ← List.append_assoc] at hparent
    exact hparent) (.tail (.tail (.tail (.refl _ _) .dup2) .close) .close)
  rw [fds_of_end hfresh (pipe_read hfresh n) (show 0 < 3 by decide),
    fds_of_end hfresh (pipe_write n) (show 1 < 3 by decide)] at hchild
  exact hchild

/-- A run without jobs: behind `k` levels each job from -1 down to -k is executed, and the
    recursion goes on below them. -/
private theorem execJob_descends (own : Nat → Option Nat) (hfree : ∃ pip, (ownTable own).Fresh pip)
    (k : Nat) : ∃ n ps t pip, t.Fresh pip ∧
      Runs execRecurNoret (9 * k + 1) (shell own 0) ⟨ps ++ [⟨.call (-1 - (k : Int), 0), t⟩], n⟩ ∧
      ∀ job : Int, -1 - (k : Int) < job → job < 0 → ∃ t', (job, t') ∈ ps.flatMap Proc.executing := by
  induction k with
  | zero =>
    obtain ⟨pip, hfresh⟩ := hfree
    have hstart : execJob 0 = .fork fun pid =>
        if pid < 0 then
          .ret (-1)
        else if pid = 0 then
          .call (0 - 1, 0)
        else
          .waitid fun ret => .ret ret := by
      rw [execJob, if_neg (by decide)]
    have hfork : Runs execRecurNoret 0 (shell own 0) (shell own 0) := .refl _
    rw [shell, hstart] at hfork
    have hboth := hfork.tail (.step [] [] (.fork Int.one_pos))
    rw [← hstart, if_neg (by decide), if_pos rfl] at hboth
    exact ⟨0, _, ownTable own, pip, hfresh, hboth, fun job hlow hneg => by omega⟩
  | succ k ih =>
    obtain ⟨n, ps, t, pip, hfresh, hruns, hall⟩ := ih
    have hlevel := execRecurNoret_below (by omega) (by omega) hfresh hruns
    rw [show (-1 - (k : Int)) - 1 = -1 - ((k + 1 : Nat) : Int) by omega] at hlevel
    refine ⟨n + 1, _, _, pip, fresh_update hfresh (by decide) _, hlevel, ?_⟩
    intro job hlow hneg
    rw [List.flatMap_append]
    by_cases hlast : job = -1 - (k : Int)
    · -- the job of this level
      rw [hlast]
      exact ⟨_, List.mem_append_right _ List.mem_cons_self⟩
    · obtain ⟨t', hmem⟩ := hall job (by omega) hneg
      exact ⟨t', List.mem_append_left _ hmem⟩

/-- With no job the recursion has no bound. -/
private theorem not_bounded_zero (own : Nat → Option Nat)
    (hfree : ∃ pip, (ownTable own).Fresh pip) :
    ¬ Bounded own 0 := by
  intro h
  obtain ⟨n, ps, t, pip, -, hruns, hall⟩ := execJob_descends own hfree 1
  obtain ⟨t', hmem⟩ := hall (-1) (by decide) (by decide)
  have hlow : (0 : Int) ≤ -1 := (h.inRange _ _ hruns (-1, t') (by
    rw [State.executing, List.flatMap_append]
    exact List.mem_append_left _ hmem)).1
  exact absurd hlow (by decide)

/-- As soon as there is a job the recursion stays inside the array and ends; without one it
    goes on below the array. -/
theorem execJob_bounded_iff (own : Nat → Option Nat) (cnt : Int) (hcnt : 0 ≤ cnt)
    (hfree : ∃ pip, (ownTable own).Fresh pip) : Bounded own cnt ↔ 1 ≤ cnt := by
  constructor
  · -- with no job the recursion does not end
    intro h
    by_contra hnone
    obtain rfl : cnt = 0 := by omega
    exact not_bounded_zero own hfree h
  · intro h
    -- otherwise at most nine steps are taken for each job, and every process executes one of
    -- them
    obtain ⟨cur, rfl⟩ : ∃ cur : Nat, cnt = (cur + 1 : Nat) := ⟨(cnt - 1).toNat, by omega⟩
    have hinv := shell_inv own cur hfree
    refine ⟨⟨9 * cur + 2, fun n s hruns => ?_⟩, fun n s hruns job hjob => ?_⟩
    · obtain ⟨r, -, hr⟩ := hinv.runs hruns
      omega
    · obtain ⟨r, hs, -⟩ := hinv.runs hruns
      have hmem := hs.executing_sublist.subset hjob
      rw [jobsFrom_eq, List.mem_map] at hmem
      obtain ⟨i, hi, rfl⟩ := hmem
      rw [List.mem_reverse, List.mem_range] at hi
      exact ⟨by omega, by omega⟩

/-- A shell with the standard files open. -/
def standardFiles (fd : Nat) : Option Nat := if fd < 3 then some fd else none

theorem execJob_bounded_one : Bounded standardFiles 1 ↔ (1 : Int) ≤ 1 :=
  execJob_bounded_iff standardFiles 1 (by decide) ⟨(3, 4), by decide, by decide, rfl, rfl⟩

/-- Called without jobs, `exec_job` executes job -1. -/
theorem execJob_zero_unbounded : ¬ ∀ (own : Nat → Option Nat) (cnt : Int), 0 ≤ cnt →
    (∃ pip, (ownTable own).Fresh pip) → Bounded own cnt := fun h =>
  have hfree : ∃ pip, (ownTable standardFiles).Fresh pip :=
    ⟨(3, 4), by decide, by decide, rfl, rfl⟩
  not_bounded_zero standardFiles hfree (h standardFiles 0 (Int.le_refl 0) hfree)

end Tlibc.System
