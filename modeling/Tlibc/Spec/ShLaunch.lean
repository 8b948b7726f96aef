import Tlibc.Spec.Launch
import Tlibc.Spec.Sh

/-!
# From a command line to the processes of its pipelines

What `system` reads off a command line, `exec_job` runs: each stage of a pipeline becomes a
process that executes its first word with its words as arguments, and with the files that
its redirections and its neighbours give it.

* `system_launches`: this holds of every run of the processes of a pipeline
-/

namespace Tlibc.Sh

open Processes Tlibc.System

variable {σ : Type} {K : Kernel σ} {P : σ → Prop}

/-- A standard file of a stage: the target of a redirection, unless there is none or it could
    not be opened. -/
def Stage.Redirects (stage : Stage) (K : Kernel σ) (P : σ → Prop) (base : Table) (fds : Files)
    (r : Redir) : Prop :=
  match stage.target r with
  | none => fds (stdOf r) = came base (stdOf r)
  | some w => fds (stdOf r) = some (.opened w.chars (flagsOf r)) ∨
      (∃ s, P s ∧ K.opens s w.chars (flagsOf r) = none) ∧ fds (stdOf r) = came base (stdOf r)

/-- How the process of a stage ends that came with the files `base`. -/
structure Stage.Launches (stage : Stage) (K : Kernel σ) (P : σ → Prop) (base : Table)
    (w : Running) : Prop where
  redirects : ∀ r, stage.Redirects K P base w.fds r
  executes : ∀ exe ∈ stage.words.head?,
    Found K P exe.chars (stage.words.map Word.chars) w.prog

variable {buf : List UInt8} {job : Job} {stage : Stage} {base : Table} {w : Running}

/-- The pointers before the first null pointer, when they point to the elements of a list. -/
private theorem pointers_eq {α β : Type} {f : α → β} {l : List β} {n : Nat} {ptr : Nat → Option α}
    (hn : l.length ≤ n) (hptr : ∀ i < n, (ptr i).map f = l[i]?) :
    ((((List.range n).map ptr).takeWhile Option.isSome).filterMap fun p => p.map f) = l := by
  -- induction on the pointers that are not null
  induction l generalizing n ptr with
  | nil =>
    cases n with
    | zero => rfl
    | succ n =>
      have hnull : ptr 0 = none := by simpa using hptr 0 (Nat.succ_pos n)
      simp [List.range_succ_eq_map, hnull]
  | cons x l ih =>
    obtain ⟨n, rfl⟩ : ∃ m, n = m + 1 := ⟨n - 1, by rw [List.length_cons] at hn; omega⟩
    -- the first pointer leads to the first string
    obtain ⟨a, ha, hx⟩ := Option.map_eq_some_iff.mp (hptr 0 (Nat.succ_pos n))
    have htail := @ih n (ptr ∘ Nat.succ) (Nat.le_of_succ_le_succ hn)
      fun i hi => hptr (i + 1) (Nat.succ_lt_succ hi)
    rw [List.range_succ_eq_map, List.map_cons, List.map_map, ha, List.takeWhile_cons_of_pos rfl,
      List.filterMap_cons, htail, Option.map_some, hx]

/-- The arguments of a job that reads as a stage. -/
private theorem Job.Reads.argvStrings (h : job.Reads buf stage) :
    argvStrings buf job = some (stage.words.map Word.chars) := by
  have hle : stage.words.length ≤ 63 := stage.words_le
  have hread : ∀ i < 64, (job.argv i).map (stringAt buf) = (stage.words.map Word.chars)[i]? := by
    intro i hi
    rw [h.argv i hi, List.getElem?_map]
  -- there is a null pointer behind the words
  have hnull : none ∈ (List.range 64).map job.argv := by
    apply List.mem_map.mpr
    refine ⟨stage.words.length, List.mem_range.mpr (by omega), ?_⟩
    simpa using h.argv stage.words.length (by omega)
  rw [System.argvStrings, if_pos hnull, pointers_eq (by rw [List.length_map]; omega) hread]

private theorem Job.Reads.launches (h : job.Reads buf stage)
    (hlaunched : Launched K P buf job base w) :
    stage.Launches K P base w where
  redirects r := by
    have hr := hlaunched.redirected r
    have hfo := h.fo r
    rw [Redirected] at hr
    rw [Stage.Redirects]
    -- a redirection that is not there is not done
    cases htarget : stage.target r with
    | none =>
      rw [htarget, Option.map_none, Option.map_eq_none_iff] at hfo
      rw [hfo] at hr
      exact hr
    -- one that is there is done to the same file
    | some word =>
      rw [htarget, Option.map_some, Option.map_eq_some_iff] at hfo
      obtain ⟨fo, hfo, hchars⟩ := hfo
      rw [hfo] at hr
      dsimp only at hr ⊢
      rw [← hchars]
      exact hr
  executes exe hexe := by
    have hends := hlaunched.ends
    have hread := h.exe
    rw [Option.mem_def] at hexe
    rw [hexe, Option.map_some, Option.map_eq_some_iff] at hread
    -- the program is the first word of the stage
    obtain ⟨off, hoff, hchars⟩ := hread
    rw [h.argvStrings, hoff] at hends
    rw [← hchars]
    exact hends

/-- `system` makes one call for the first pipeline of a command line, and however the processes
    of that call take their steps, they come to an end with one process for each stage. It
    executes the first word of the stage with all its words, where `Execve` finds it, and has
    the files of its redirections, or else those that the pipeline is wired with. -/
theorem system_launches (line : Line) (more : List UInt8) (hK : K.Keeps P) {s₀ : σ} (hP : P s₀)
    (own : Nat → Option Nat) (hown : Usable (ownTable own)) : ∃ jobs buf files,
      system (line.chars ++ more) = ⟨.execJob jobs line.pipeline.stages.length buf ::
        (system more).calls, (system more).fault⟩ ∧
      Wired own line.pipeline.stages.length files ∧
      ∀ n s, Staged.Runs execRecurNoret (launchStage K buf jobs) n
          (launches own line.pipeline.stages.length s₀) s →
        n + 7 ≤ 21 * line.pipeline.stages.length ∧
        ((∀ s', ¬ Staged.Step execRecurNoret (launchStage K buf jobs) s s') →
          s.entered = ((List.range line.pipeline.stages.length).reverse.map
            fun i : Nat => ((i : Int), files i)) ∧
          ∀ (i : Nat) (stage : Stage), line.pipeline.stages[i]? = some stage →
            ∃ w, .behind (i : Int) (files i) w ∈ s.members ∧ stage.Launches K P (files i) w) := by
  obtain ⟨call, hpasses, hsystem⟩ := system_line line more
  obtain ⟨jobs, cnt, buf, rfl⟩ : ∃ jobs cnt buf, call = .execJob jobs cnt buf := by
    cases call with
    | execJob jobs cnt buf => exact ⟨jobs, cnt, buf, rfl⟩
    | chdir | exit | getpid => exact hpasses.elim
  obtain ⟨rfl, hreads⟩ := hpasses
  obtain ⟨cur, hcur⟩ := Nat.exists_eq_add_of_le' line.pipeline.stages_pos
  refine ⟨jobs, buf, filesFrom 0 cur (ownTable own), hsystem, hcur ▸ wired_filesFrom own cur,
    fun n s hruns => ?_⟩
  rw [hcur] at hruns ⊢
  obtain ⟨⟨r, hinv⟩, hle⟩ := launches_inv hK hP buf jobs hown hruns
  refine ⟨hle, fun hfinal => ?_⟩
  have hentered := hinv.entered_of_final hfinal
  rw [jobsFrom_eq] at hentered
  refine ⟨hentered, fun i stage hstage => ?_⟩
  have hi : i < cur + 1 := hcur ▸ (List.getElem?_eq_some_iff.mp hstage).1
  have hmem : ((i : Int), filesFrom 0 cur (ownTable own) i) ∈ s.entered := by
    rw [hentered]
    exact List.mem_map.mpr ⟨i, by rw [List.mem_reverse, List.mem_range]; exact hi, rfl⟩
  -- the process that got to this job
  obtain ⟨m, hm, hhere⟩ := List.mem_flatMap.mp hmem
  cases m with
  | before p => exact absurd hhere List.not_mem_nil
  | behind job base w =>
    cases List.mem_singleton.mp hhere
    obtain ⟨j, -, hjob, -, hlaunched⟩ := launched_of_final hinv hfinal hm
    obtain rfl : i = j := Int.ofNat_inj.mp hjob
    exact ⟨w, hm, (hreads i stage hstage).launches hlaunched⟩

/-- `ls`. -/
def lsWord : Word :=
  ⟨[0x6c, 0x73], by decide, plain_of_all (by decide), by decide, fun r => by cases r <;> decide⟩

/-- `a`. -/
def aWord : Word :=
  ⟨[0x61], by decide, plain_of_all (by decide), by decide, fun r => by cases r <;> decide⟩

/-- `ls < a | ls` and a line feed. -/
def lsLine : Line where
  pipeline := ⟨[⟨[.word lsWord, .redir .stdin aWord], by decide, by decide,
      fun r => by cases r <;> decide⟩,
      ⟨[.word lsWord], by decide, by decide, fun r => by cases r <;> decide⟩],
    by decide, by decide, by rintro x ⟨⟩ w ⟨⟩; decide⟩
  text := [0x6c, 0x73, 0x20, 0x3c, 0x20, 0x61, 0x20, 0x7c, 0x20, 0x6c, 0x73]
  renders := by
    show Tokens.Renders _ (stagesTokens [_, _]) ([] ++ ([0x6c, 0x73] ++ ([0x20] ++ ([0x3c] ++ ([0x20] ++
      ([0x61] ++ ([0x20] ++ ([0x7c] ++ ([0x20] ++ ([0x6c, 0x73] ++ []))))))))))
    refine .lead (by simp) ?_
    -- a blank behind each word but the last
    refine .cons (by simp) (by simp) (.cons (by simp) (by simp) (.cons (by simp) (by simp)
      (.cons (by simp) (by simp) (.last (by simp)))))
  length_le := by decide
  sep := 0x0a
  sep_mem := by decide

/-- A shell with the standard files open runs both where `/bin/ls` is a file, and stays one. -/
theorem system_launches_ls : ∃ jobs buf files,
    system (lsLine.chars ++ []) = ⟨.execJob jobs lsLine.pipeline.stages.length buf ::
      (system []).calls, (system []).fault⟩ ∧
    Wired (fun fd => if fd < 3 then some fd else none) lsLine.pipeline.stages.length files ∧
    ∀ n s, Staged.Runs execRecurNoret (launchStage pathKernel buf jobs) n
        (launches (fun fd => if fd < 3 then some fd else none) lsLine.pipeline.stages.length
          [binLs]) s →
      n + 7 ≤ 21 * lsLine.pipeline.stages.length ∧
      ((∀ s', ¬ Staged.Step execRecurNoret (launchStage pathKernel buf jobs) s s') →
        s.entered = ((List.range lsLine.pipeline.stages.length).reverse.map
          fun i : Nat => ((i : Int), files i)) ∧
        ∀ (i : Nat) (stage : Stage), lsLine.pipeline.stages[i]? = some stage →
          ∃ w, .behind (i : Int) (files i) w ∈ s.members ∧
            stage.Launches pathKernel (binLs ∈ ·) (files i) w) :=
  system_launches lsLine [] (pathKernel_keeps binLs) (List.mem_singleton_self _) _ usable_three

end Tlibc.Sh
