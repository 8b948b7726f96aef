import Tlibc.Lib.Run
import Tlibc.Native.Launch
import Tlibc.Spec.System
import Mathlib.Data.List.Nodup
import Mathlib.Data.List.TakeWhile

/-!
# What the processes of a pipeline execute, and with which files

Behind the wiring of the pipeline each process opens the files of its own redirections and
looks for its file, while the others are anywhere on their way. The file system may change
at any time in ways that keep a property `P` of it.

* `launches_inv`, `launched_of_final`: every run of `exec_job` comes to an end, and then each
  job executes the first file that could be executed, or has gone wrong, with the files it
  should have
* `pipeEnds_held`: at the end, an end of a pipe is open in one process only
-/

namespace Tlibc.System

open Processes

variable {σ : Type} {K : Kernel σ} {P : σ → Prop}

/-! ## The end of a process -/

/-- The calls that are left when none of them executes a file. -/
def Launch.calls : Launch → Nat
  | .sysOpen _ _ k => (k 0).calls + 1
  | .sysDup2 _ _ k => k.calls + 1
  | .sysExecve _ _ k => k.calls + 1
  | .image .. => 0
  | .fault _ => 0

/-- `Q` holds in the end, whatever the calls return while `P` holds of the file system. -/
def Will (K : Kernel σ) (P : σ → Prop) (Q : Running → Prop) : Launch → Files → Prop
  | .sysOpen path flags k, fds =>
    (∀ ret, (k ret).calls = (k 0).calls) ∧
    (∀ fd : Nat, fds fd = none →
      Will K P Q (k fd) (Function.update fds fd (some (.opened path flags)))) ∧
    ((∃ s, P s ∧ K.opens s path flags = none) → ∀ ret < 0, Will K P Q (k ret) fds)
  | .sysDup2 old new k, fds => Will K P Q k (fds.dup2 old new)
  | .sysExecve exe argv k, fds =>
    (∀ e ∈ exe, (∃ s, P s ∧ K.runs s e = true) → Q ⟨.image e argv, fds⟩) ∧
    ((∀ e ∈ exe, ∃ s, P s ∧ K.runs s e = false) → Will K P Q k fds)
  | .image exe argv, fds => Q ⟨.image exe argv, fds⟩
  | .fault f, fds => Q ⟨.fault f, fds⟩

/-- `P` holds of the file system whatever becomes of it. -/
structure Kernel.Keeps (K : Kernel σ) (P : σ → Prop) : Prop where
  opens : ∀ {s s' path flags}, P s → K.opens s path flags = some s' → P s'
  others : ∀ {s s'}, P s → K.others s s' → P s'

/-- What a process will do, it will still do after one of its calls. -/
private theorem Will.next {Q : Running → Prop} (hK : K.Keeps P) {s s' : σ} {w w' : Running}
    (hP : P s)
    (h : Will K P Q w.prog w.fds) (hnext : Running.Next K s w s' w') :
    P s' ∧ Will K P Q w'.prog w'.fds ∧ w'.prog.calls < w.prog.calls := by
  -- one case for each call, with its outcome
  cases hnext with
  | opens hothers hopens hfree =>
    -- the process goes on with the descriptor that was free
    refine ⟨hK.opens (hK.others hP hothers) hopens, h.2.1 _ hfree, ?_⟩
    rw [Launch.calls, h.1]
    exact Nat.lt_succ_self _
  | openFails hothers hopens hret =>
    have hP' := hK.others hP hothers
    -- or with the error
    refine ⟨hP', h.2.2 ⟨_, hP', hopens⟩ _ hret, ?_⟩
    rw [Launch.calls, h.1]
    exact Nat.lt_succ_self _
  | dup2 hothers => exact ⟨hK.others hP hothers, h, Nat.lt_succ_self _⟩
  | execs hothers hruns =>
    have hP' := hK.others hP hothers
    exact ⟨hP', h.1 _ rfl ⟨_, hP', hruns⟩, Nat.succ_pos _⟩
  | execFails hothers hruns =>
    have hP' := hK.others hP hothers
    exact ⟨hP', h.2 fun e he => ⟨_, hP', hruns e he⟩, Nat.lt_succ_self _⟩

/-- Only so many files are open. -/
def Files.Finite (fds : Files) : Prop := ∃ bound, ∀ fd, bound ≤ fd → fds fd = none

/-- Changing one descriptor leaves the open files finite. -/
private theorem Files.Finite.update {fds : Files} (h : fds.Finite) (fd : Nat) (f : Option Held) :
    Files.Finite (Function.update fds fd f) := by
  obtain ⟨bound, hbound⟩ := h
  refine ⟨max bound (fd + 1), fun i hi => ?_⟩
  rw [Function.update_of_ne (by omega)]
  exact hbound i (by omega)

/-- So does `dup2`. -/
private theorem Files.Finite.dup2 {fds : Files} (h : fds.Finite) (old : Int) (new : Nat) :
    (fds.dup2 old new).Finite := by
  rw [Files.dup2]
  split
  · split
    · exact h
    · exact h.update _ _
  · exact h

/-- So does every call. -/
private theorem Files.Finite.next {s s' : σ} {w w' : Running} (h : w.fds.Finite)
    (hnext : Running.Next K s w s' w') : w'.fds.Finite := by
  cases hnext with
  | opens => exact h.update _ _
  | dup2 => exact h.dup2 _ _
  | openFails | execs | execFails => exact h

/-- A process has a call to make until it executes a file or goes wrong. -/
private theorem Running.exists_next {w : Running} (h : w.fds.Finite) (hcalls : 0 < w.prog.calls)
    (s : σ) :
    ∃ s' w', Running.Next K s w s' w' := by
  -- the kernel decides which outcome a call has
  obtain ⟨prog, fds⟩ := w
  cases prog with
  | sysOpen path flags k =>
    cases hopens : K.opens s path flags with
    | none => exact ⟨_, _, .openFails (K.others_refl s) hopens (show (-1 : Int) < 0 by decide)⟩
    -- a free descriptor is there, since finitely many files are open
    | some s' =>
      obtain ⟨bound, hbound⟩ := h
      exact ⟨_, _, .opens (K.others_refl s) hopens (hbound bound (Nat.le_refl _))⟩
  | sysDup2 old new k => exact ⟨_, _, .dup2 (K.others_refl s)⟩
  | sysExecve exe argv k =>
    cases exe with
    | none => exact ⟨_, _, .execFails (K.others_refl s) fun e he => by cases he⟩
    | some exe =>
      cases hruns : K.runs s exe with
      -- a program that can be run replaces the process
      | true => exact ⟨_, _, .execs (K.others_refl s) hruns⟩
      | false =>
        refine ⟨_, _, .execFails (K.others_refl s) fun e he => ?_⟩
        obtain rfl := Option.some.inj he
        exact hruns
  -- behind the last call there is nothing left to do
  | image | fault => exact absurd hcalls (Nat.lt_irrefl 0)

/-- Behind the last call there is what the process will do. -/
private theorem Will.ended {Q : Running → Prop} {w : Running} (h : Will K P Q w.prog w.fds)
    (hcalls : w.prog.calls = 0) : Q w := by
  obtain ⟨prog, fds⟩ := w
  cases prog with
  | sysOpen | sysDup2 | sysExecve => exact absurd hcalls (Nat.succ_ne_zero _)
  | image | fault => exact h

/-! ## The search of `Execve` -/

/-- What a process comes to that tries `paths` one after another, each copied to `buf`. -/
inductive Searched (K : Kernel σ) (P : σ → Prop) (argv : List (List UInt8)) :
    List (List UInt8) → Launch → Prop where
  | found {path : List UInt8} {paths : List (List UInt8)} (hfits : path.length < pathSize)
    (h : ∃ s, P s ∧ K.runs s path = true) : Searched K P argv (path :: paths) (.image path argv)
  | next {path : List UInt8} {paths : List (List UInt8)} {prog : Launch}
    (hfits : path.length < pathSize) (h : ∃ s, P s ∧ K.runs s path = false)
    (tail : Searched K P argv paths prog) : Searched K P argv (path :: paths) prog
  | tooLong {path : List UInt8} {paths : List (List UInt8)} (h : pathSize ≤ path.length) :
    Searched K P argv (path :: paths) (.fault .outOfBounds)
  | ended : Searched K P argv [] (.fault .returned)

/-- The same for `exe` itself, which is tried first and not copied, and in the directories. -/
inductive Found (K : Kernel σ) (P : σ → Prop) (exe : List UInt8) (argv : List (List UInt8)) :
    Launch → Prop where
  | here (h : ∃ s, P s ∧ K.runs s exe = true) : Found K P exe argv (.image exe argv)
  | search {prog : Launch} (h : ∃ s, P s ∧ K.runs s exe = false)
    (tail : Searched K P argv (dir.map (· ++ exe)) prog) : Found K P exe argv prog

/-- `buf` holds the name of the directory with `exe` behind it, unless that is too long. -/
private theorem joinPath_eq (buf : Mem) {path exe : List UInt8} (hpath : ∀ c ∈ path, c ≠ 0)
    (hexe : ∀ c ∈ exe, c ≠ 0) : if (path ++ exe).length < pathSize then
      ∃ buf', joinPath buf path (some exe) = .ok buf' ∧ pathIn buf' = path ++ exe
    else joinPath buf path (some exe) = .error .outOfBounds := by
  rw [List.length_append]
  by_cases hdir : path.length < pathSize
  · -- the directory fits, and then the name behind it or not
    by_cases hboth : path.length + exe.length < pathSize
    · rw [if_pos hboth]
      refine ⟨buf.write 0 (path ++ exe ++ [0]), ?_, ?_⟩
      · -- two calls of `strcpy` store one string behind the other
        have happend := Strings.strcpy_append buf 0 path exe
        rw [Strings.strcpy_eq buf, Nat.zero_add] at happend
        rw [joinPath, copyPath, Nat.zero_add, if_pos hdir, Run.ok_bind, Strings.strcpy_eq buf,
          Nat.zero_add]
        simp only
        rw [copyPath, if_pos hboth, Run.ok_bind]
        exact congrArg Except.ok happend
      · apply Strings.stringAt_write
        · intro c hc
          exact (List.mem_append.mp hc).elim (hpath c) (hexe c)
        · rwa [List.length_append]
    · rw [if_neg hboth, joinPath, copyPath, Nat.zero_add, if_pos hdir, Run.ok_bind,
        Strings.strcpy_eq, Nat.zero_add]
      simp only
      rw [copyPath, if_neg hboth, Run.error_bind]
  · -- a directory that does not fit alone does not fit with the name
    rw [if_neg (by omega), joinPath, copyPath, Nat.zero_add, if_neg hdir, Run.error_bind]

/-- The directories of `PATH` have no NUL in their names. -/
private theorem dir_plain : ∀ path ∈ dir, ∀ c ∈ path, c ≠ 0 := by
  have hall : (dir.all fun path => path.all fun c => c != 0) = true := rfl
  simpa using hall

/-- The loop of `Execve` tries the directories in their order. -/
private theorem will_execveLoop {exe : List UInt8} (hexe : ∀ c ∈ exe, c ≠ 0)
    (argv : List (List UInt8))
    {Q : Running → Prop} {fds : Files} {dirs : List (List UInt8)}
    (hdirs : ∀ path ∈ dirs, ∀ c ∈ path, c ≠ 0)
    (hQ : ∀ prog, Searched K P argv (dirs.map (· ++ exe)) prog → Q ⟨prog, fds⟩) (buf : Mem) :
    Will K P Q (execveLoop (some exe) argv (.fault .returned) dirs buf) fds := by
  -- induction on the directories that are left
  induction dirs generalizing buf with
  | nil => exact hQ _ .ended
  | cons path dirs ih =>
    obtain ⟨hpath, hdirs⟩ := List.forall_mem_cons.mp hdirs
    have hjoin := joinPath_eq buf hpath hexe
    rw [execveLoop]
    split at hjoin
    · -- the name fits, so the next call is one of `execve`
      next hfits =>
      obtain ⟨buf', hok, hpathIn⟩ := hjoin
      rw [hok]
      simp only
      rw [hpathIn]
      refine ⟨fun e he hruns => ?_, fun hfails => ?_⟩
      · -- the program is found here
        obtain rfl := Option.some.inj he
        exact hQ _ (.found hfits hruns)
      · -- or the search goes on with the next directory
        apply ih hdirs
        intro prog hprog
        exact hQ _ (.next hfits (hfails _ rfl) hprog)
    · next hlong =>
      rw [hjoin]
      exact hQ _ (.tooLong (Nat.not_lt.mp hlong))

/-- `execve` tries the directories until a program is found. -/
private theorem will_execve {exe : List UInt8} (hexe : ∀ c ∈ exe, c ≠ 0) (argv : List (List UInt8))
    {Q : Running → Prop} {fds : Files} (hQ : ∀ prog, Found K P exe argv prog → Q ⟨prog, fds⟩) :
    Will K P Q (execve (some exe) argv (.fault .returned)) fds := by
  refine ⟨fun e he hruns => ?_, fun hfails => ?_⟩
  · obtain rfl := Option.some.inj he
    exact hQ _ (.here hruns)
  · apply will_execveLoop hexe argv dir_plain
    intro prog hprog
    exact hQ _ (.search (hfails _ rfl) hprog)

/-! ## The redirections of `exec_single` -/

/-- The number of a standard file. -/
def stdOf : Sh.Redir → Nat
  | .stdin => 0
  | .stdout => 1
  | .stderr => 2

/-- How the target of a redirection is opened. -/
def flagsOf : Sh.Redir → Nat
  | .stdin => oRdonly
  | .stdout => oCreatRdwr
  | .stderr => oCreatRdwr

/-- A redirection is of a standard descriptor. -/
private theorem stdOf_lt (r : Sh.Redir) : stdOf r < 3 := by
  cases r <;> decide

/-- Different redirections are of different ones. -/
private theorem stdOf_inj {r r' : Sh.Redir} (h : stdOf r = stdOf r') : r = r' := by
  cases r <;> cases r' <;> first | rfl | cases h

/-- A file of the process before `exec_single`. -/
def came (base : Table) (fd : Nat) : Option Held := (base fd).map .first

/-- A standard file behind `exec_single`: the target of the redirection, unless there is none
    or it could not be opened. -/
def Redirected (K : Kernel σ) (P : σ → Prop) (buf : List UInt8) (job : Sh.Job) (base : Table)
    (fds : Files) (r : Sh.Redir) : Prop :=
  match job.fo r with
  | none => fds (stdOf r) = came base (stdOf r)
  | some fo => fds (stdOf r) = some (.opened (Sh.stringAt buf fo) (flagsOf r)) ∨
      (∃ s, P s ∧ K.opens s (Sh.stringAt buf fo) (flagsOf r) = none) ∧
        fds (stdOf r) = came base (stdOf r)

/-- A file that is no standard one: it came with the process, or it is left of a redirection. -/
def Left (buf : List UInt8) (job : Sh.Job) (base : Table) (fds : Files) (fd : Nat) : Prop :=
  fds fd = came base fd ∨
    ∃ r, ∃ fo ∈ job.fo r, fds fd = some (.opened (Sh.stringAt buf fo) (flagsOf r))

/-- The files behind the redirections `done`. -/
structure Behind (K : Kernel σ) (P : σ → Prop) (buf : List UInt8) (job : Sh.Job) (base : Table)
    (done : List Sh.Redir) (fds : Files) : Prop where
  redirected : ∀ r ∈ done, Redirected K P buf job base fds r
  kept : ∀ r ∉ done, fds (stdOf r) = came base (stdOf r)
  open_ : ∀ r, fds (stdOf r) ≠ none
  left : ∀ fd, 3 ≤ fd → Left buf job base fds fd

variable {buf : List UInt8} {job : Sh.Job} {base : Table} {done : List Sh.Redir} {fds fds' : Files}
  {r : Sh.Redir}

/-- One redirection more, which changes nothing but its own file. -/
private theorem Behind.cons (h : Behind K P buf job base done fds) (hr : r ∉ done)
    (hredirected : Redirected K P buf job base fds' r) (hopen : fds' (stdOf r) ≠ none)
    (hstd : ∀ r', r' ≠ r → fds' (stdOf r') = fds (stdOf r'))
    (hleft : ∀ fd, 3 ≤ fd → Left buf job base fds' fd) :
    Behind K P buf job base (r :: done) fds' where
  redirected r' hr' := by
    -- the new redirection, and those that were done before
    rcases List.mem_cons.mp hr' with rfl | hr'
    · exact hredirected
    · have hne : r' ≠ r := fun heq => hr (heq ▸ hr')
      have hold := h.redirected r' hr'
      rw [Redirected] at hold ⊢
      rwa [hstd r' hne]
  kept r' hr' := by
    -- the others have not changed
    rw [List.mem_cons, not_or] at hr'
    rw [hstd r' hr'.1, h.kept r' hr'.2]
  open_ r' := by
    by_cases hne : r' = r
    · rw [hne]
      exact hopen
    · rw [hstd r' hne]
      exact h.open_ r'
  left := hleft

/-- One redirection more is done, or the process ends. -/
private theorem will_redirect {Q : Running → Prop} {k : Launch}
    (h : Behind K P buf job base done fds)
    (hr : r ∉ done)
    (hk : ∀ fds, Behind K P buf job base (r :: done) fds → Will K P Q k fds) :
    Will K P Q (redirect buf (job.fo r) (flagsOf r) (stdOf r) k) fds := by
  -- without a target the descriptor stays as it came
  cases hfo : job.fo r with
  | none =>
    apply hk
    apply h.cons hr ?_ (h.open_ r) (fun _ _ => rfl) h.left
    rw [Redirected, hfo]
    exact h.kept r hr
  | some fo =>
    refine ⟨fun ret => rfl, fun fd hfree => ?_, fun hfails ret hret => ?_⟩
    · -- the new number is no standard one, since these are in use
      have hfd : ∀ r', fd ≠ stdOf r' := fun r' heq => h.open_ r' (heq ▸ hfree)
      -- `dup2` puts the new file in place of the old one
      have hdup : Files.dup2 (Function.update fds fd (some (.opened (Sh.stringAt buf fo) (flagsOf r))))
          (fd : Int) (stdOf r) = Function.update
            (Function.update fds fd (some (.opened (Sh.stringAt buf fo) (flagsOf r)))) (stdOf r)
              (some (.opened (Sh.stringAt buf fo) (flagsOf r))) := by
        rw [Files.dup2, if_pos (Int.natCast_nonneg fd), Int.toNat_natCast, Function.update_self]
      show Will K P Q k (Files.dup2 _ _ _)
      rw [hdup]
      apply hk
      apply h.cons hr
      · rw [Redirected, hfo]
        simp
      · simp
      · intro r' hne
        rw [Function.update_of_ne (fun heq => hne (stdOf_inj heq)),
          Function.update_of_ne (hfd r').symm]
      · intro fd' hfd'
        have hstd := stdOf_lt r
        rw [Left, Function.update_of_ne (by omega)]
        by_cases hnew : fd' = fd
        · -- the number it had before is left open
          exact .inr ⟨r, fo, hfo, by rw [hnew, Function.update_self]⟩
        · rw [Function.update_of_ne hnew]
          exact h.left fd' hfd'
    · -- the file could not be opened, so that `dup2` fails, too
      have hdup : fds.dup2 ret (stdOf r) = fds := by
        rw [Files.dup2, if_neg (Int.not_le.mpr hret)]
      show Will K P Q k (Files.dup2 _ _ _)
      rw [hdup]
      apply hk
      apply h.cons hr ?_ (h.open_ r) (fun _ _ => rfl) h.left
      rw [Redirected, hfo]
      exact .inr ⟨hfails, h.kept r hr⟩

/-! ## `exec_single` -/

/-- How the process of a job ends that came with the files `base`. -/
structure Launched (K : Kernel σ) (P : σ → Prop) (buf : List UInt8) (job : Sh.Job) (base : Table)
    (w : Running) : Prop where
  redirected : ∀ r, Redirected K P buf job base w.fds r
  left : ∀ fd, 3 ≤ fd → Left buf job base w.fds fd
  ends : match argvStrings buf job, job.exe with
    | none, _ => w.prog = .fault .outOfBounds
    | some _, none => w.prog = .fault .nullPointer
    | some argv, some exe => Found K P (Sh.stringAt buf exe) argv w.prog

/-- A string has no NUL inside. -/
private theorem stringAt_ne_zero (buf : List UInt8) (off : Nat) :
    ∀ c ∈ Sh.stringAt buf off, c ≠ 0 := by
  intro c hc
  simpa using List.mem_takeWhile_imp hc

/-- A job does its redirections and then executes its program. -/
private theorem will_execSingle (hbase : ∀ fd < 3, base fd ≠ none) :
    Will K P (Launched K P buf job base) (execSingle buf job) (came base) := by
  have h₀ : Behind K P buf job base [] (came base) := by
    refine ⟨fun r hr => absurd hr List.not_mem_nil, fun r _ => rfl, fun r => ?_, fun fd _ => .inl rfl⟩
    rw [came, Ne, Option.map_eq_none_iff]
    exact hbase _ (stdOf_lt r)
  -- the three redirections, and then the search
  apply will_redirect h₀ List.not_mem_nil
  intro fds h₁
  apply will_redirect h₁ (show Sh.Redir.stdout ∉ [Sh.Redir.stdin] by decide)
  intro fds h₂
  apply will_redirect h₂ (show Sh.Redir.stderr ∉ [Sh.Redir.stdout, Sh.Redir.stdin] by decide)
  intro fds h₃
  rw [execJobFile]
  have hredirected : ∀ r, Redirected K P buf job base fds r := fun r => by
    apply h₃.redirected
    cases r <;> decide
  cases hargv : argvStrings buf job with
  | none => exact ⟨hredirected, h₃.left, by rw [hargv]⟩
  | some argv =>
    cases hexe : job.exe with
    | none =>
      -- the first call fails, and the loop comes to the null pointer
      refine ⟨fun e he => absurd he (Option.not_mem_none e), fun _ => ?_⟩
      show Launched K P buf job base _
      exact ⟨hredirected, h₃.left, by rw [hargv, hexe]⟩
    | some exe =>
      apply will_execve (stringAt_ne_zero buf exe)
      intro prog hprog
      exact ⟨hredirected, h₃.left, by rw [hargv, hexe]; exact hprog⟩

/-- A redirection takes at most two calls. -/
private theorem calls_redirect (buf : List UInt8) (fo : Option Nat) (flags std : Nat) (k : Launch) :
    (redirect buf fo flags std k).calls ≤ k.calls + 2 := by
  cases fo with
  | none => exact Nat.le_add_right _ _
  | some fo => exact Nat.le_refl _

/-- Looking for the program takes at most one call for each directory. -/
private theorem calls_execveLoop (exe : Option (List UInt8)) (argv : List (List UInt8))
    (dirs : List (List UInt8)) (buf : Mem) :
    (execveLoop exe argv (.fault .returned) dirs buf).calls ≤ dirs.length := by
  induction dirs generalizing buf with
  | nil => exact Nat.le_refl 0
  | cons path dirs ih =>
    rw [execveLoop]
    split
    · exact Nat.zero_le _
    · exact Nat.succ_le_succ (ih _)

/-- `exec_single` makes at most eleven calls. -/
private theorem calls_execSingle (buf : List UInt8) (job : Sh.Job) :
    (execSingle buf job).calls ≤ 11 := by
  have htail : (execJobFile buf job).calls ≤ 5 := by
    rw [execJobFile]
    split
    · exact Nat.zero_le _
    · exact Nat.succ_le_succ (calls_execveLoop _ _ dir _)
  apply (calls_redirect buf (job.fo .stdin) oRdonly 0 _).trans
  apply Nat.add_le_add_right ((calls_redirect buf (job.fo .stdout) oCreatRdwr 1 _).trans _) 2
  apply Nat.add_le_add_right ((calls_redirect buf (job.fo .stderr) oCreatRdwr 2 _).trans _) 2
  exact Nat.add_le_add_right htail 2

/-! ## The processes of a pipeline -/

/-- What is kept behind the `exec` of a job. -/
def Launching (K : Kernel σ) (P : σ → Prop) (buf : List UInt8) (jobs : Nat → Sh.Job) (job : Int)
    (base : Table) (w : Running) : Prop :=
  w.fds.Finite ∧ Will K P (Launched K P buf (jobs job.toNat) base) w.prog w.fds

/-- All standard files are open, and only so many others. -/
structure Usable (t : Table) : Prop where
  std : ∀ fd < 3, t fd ≠ none
  finite : ∃ bound, ∀ fd, bound ≤ fd → t fd = none

/-- There is always a number for the next pipe. -/
private theorem Usable.fresh (h : Usable t) : ∃ pip, t.Fresh pip := by
  obtain ⟨bound, hbound⟩ := h.finite
  refine ⟨(bound + 3, bound + 4), by simp, ⟨by simp, by simp⟩, ?_, ?_⟩
  · exact hbound _ (by simp)
  · exact hbound _ (by simp)

/-- A job comes to `exec_single` with the standard files open. -/
private theorem usable_filesFrom (h : Usable t) (n cur i : Nat) : Usable (filesFrom n cur t i) where
  std fd hfd := by
    rw [filesFrom]
    split_ifs
    · exact h.std 0 (by decide)
    · simp
    · exact h.std 1 (by decide)
    · simp
    · exact h.std fd hfd
  finite := by
    obtain ⟨bound, hbound⟩ := h.finite
    refine ⟨max bound 2, fun fd hfd => ?_⟩
    rw [filesFrom, if_neg (by omega), if_neg (by omega)]
    exact hbound fd (by omega)

variable {jobs : Nat → Sh.Job}

/-- Every process that was made does what its job says, at every step of any of them. -/
private theorem keeps_launching (hK : K.Keeps P) {outs : List (Int × Table)}
    (houts : ∀ job base, (job, base) ∈ outs → Usable base) :
    (launchStage K buf jobs).Keeps P (Launching K P buf jobs) (fun w => w.prog.calls) 11 outs where
  start job base hmem := by
    have husable := houts job base hmem
    obtain ⟨bound, hbound⟩ := husable.finite
    refine ⟨⟨⟨bound, fun fd hfd => ?_⟩, will_execSingle husable.std⟩, calls_execSingle _ _⟩
    show (base fd).map Held.first = none
    rw [hbound fd hfd]
    rfl
  next hP h hnext := by
    obtain ⟨hfinite, hwill⟩ := h
    obtain ⟨hP', hwill', hlt⟩ := hwill.next hK hP hnext
    exact ⟨hP', ⟨hfinite.next hnext, hwill'⟩, hlt⟩

/-- The shell calls `exec_job` with the files `own` open. -/
def launches (own : Nat → Option Nat) (cnt : Int) (s : σ) : Staged (Int × Int) Int σ Running :=
  Staged.ofState (shell own cnt) s

/-- The files of a job are those that `filesFrom` gives its number. -/
private theorem jobsFrom_files {n cur : Nat} {job : Int} {base : Table}
    (h : (job, base) ∈ jobsFrom n cur t) :
    ∃ i : Nat, i < cur + 1 ∧ job = i ∧ base = filesFrom n cur t i := by
  rw [jobsFrom_eq] at h
  obtain ⟨i, hi, heq⟩ := List.mem_map.mp h
  rw [List.mem_reverse, List.mem_range] at hi
  cases heq
  exact ⟨i, hi, rfl, rfl⟩

/-- The state of a run of `exec_job`. -/
theorem launches_inv (hK : K.Keeps P) {s₀ : σ} (hP : P s₀) (buf : List UInt8)
    (jobs : Nat → Sh.Job) {own : Nat → Option Nat} (hown : Usable (ownTable own)) {cur n : Nat}
    {s : Staged (Int × Int) Int σ Running}
    (hruns : Staged.Runs execRecurNoret (launchStage K buf jobs) n
      (launches own (cur + 1 : Nat) s₀) s) :
    (∃ r, Staged.Inv execRecurNoret P (Launching K P buf jobs) (fun w => w.prog.calls) 11
      (jobsFrom 0 cur (ownTable own)) s r) ∧ n + 7 ≤ 21 * (cur + 1) := by
  have hkeeps : (launchStage K buf jobs).Keeps P (Launching K P buf jobs) (fun w => w.prog.calls) 11
      (jobsFrom 0 cur (ownTable own)) := by
    apply keeps_launching hK
    intro job base hmem
    obtain ⟨i, -, -, rfl⟩ := jobsFrom_files hmem
    exact usable_filesFrom hown 0 cur i
  obtain ⟨hinv, hle⟩ := Staged.runs hkeeps (shell_inv own cur hown.fresh) hP hruns
  rw [jobsFrom_eq, List.length_map, List.length_reverse, List.length_range] at hle
  exact ⟨hinv, by omega⟩

/-- At the end of a run, a process of a job is behind its `exec_single`. -/
theorem launched_of_final {cur r : Nat} {t : Table} {s : Staged (Int × Int) Int σ Running}
    (hinv : Staged.Inv execRecurNoret P (Launching K P buf jobs) (fun w => w.prog.calls) 11
      (jobsFrom 0 cur t) s r)
    (hfinal : ∀ s', ¬ Staged.Step execRecurNoret (launchStage K buf jobs) s s') {job : Int}
    {base : Table} {w : Running} (hm : .behind job base w ∈ s.members) :
    ∃ i : Nat, i < cur + 1 ∧ job = i ∧ base = filesFrom 0 cur t i ∧
      Launched K P buf (jobs i) base w := by
  obtain ⟨⟨hfinite, hwill⟩, -⟩ := hinv.behind job base w hm
  have hmem : (job, base) ∈ s.entered := List.mem_flatMap.mpr ⟨_, hm, List.mem_singleton_self _⟩
  rw [hinv.entered_of_final hfinal] at hmem
  obtain ⟨i, hi, rfl, rfl⟩ := jobsFrom_files hmem
  refine ⟨i, hi, rfl, rfl, hwill.ended ?_⟩
  by_contra hcalls
  obtain ⟨s', w', hnext⟩ := Running.exists_next hfinite (Nat.pos_of_ne_zero hcalls) s.shared
  exact Staged.not_next_of_final hfinal hm s' w' hnext

/-! ## The ends of the pipes -/

variable {own : Nat → Option Nat} {cnt : Nat} {files : Nat → Table}

/-- A pipe end that a process holds behind `exec_single` is one that it came with. -/
private theorem Launched.base_eq {w : Running} (h : Launched K P buf job base w) {fd : Nat}
    {f : File}
    (hf : w.fds fd = some (.first f)) : base fd = some f := by
  -- a descriptor that came with the process was one of the shell
  have hcame : w.fds fd = came base fd → base fd = some f := by
    intro heq
    rw [hf, came, eq_comm, Option.map_eq_some_iff] at heq
    obtain ⟨f', hf', hfirst⟩ := heq
    rw [hf', Held.first.inj hfirst]
  -- a standard descriptor was redirected, or came
  by_cases hfd : fd < 3
  · obtain ⟨r, rfl⟩ : ∃ r, stdOf r = fd := by
      match fd, hfd with
      | 0, _ => exact ⟨.stdin, rfl⟩
      | 1, _ => exact ⟨.stdout, rfl⟩
      | 2, _ => exact ⟨.stderr, rfl⟩
    have hr := h.redirected r
    rw [Redirected] at hr
    split at hr
    · exact hcame hr
    · rcases hr with hopened | ⟨-, hr⟩
      · rw [hf] at hopened
        cases hopened
      · exact hcame hr
  · -- any other one was left by a redirection, or came
    rcases h.left fd (by omega) with hleft | ⟨r, fo, -, hopened⟩
    · exact hcame hleft
    · rw [hf] at hopened
      cases hopened

/-- What the shell had open is no end of a pipe of its own. -/
private theorem ownTable_ne_end (own : Nat → Option Nat) (fd : Nat) :
    (∀ n, ownTable own fd ≠ some (.readEnd n)) ∧ ∀ n, ownTable own fd ≠ some (.writeEnd n) := by
  rw [ownTable]
  cases own fd <;> simp

/-- A job holds the read end of a pipe as its standard input only, and the job before it holds
    the write end as its standard output only. -/
theorem Wired.ends (h : Wired own cnt files) : ∃ pipe : Nat → Nat,
    (∀ i j, i + 1 < cnt → j + 1 < cnt → pipe i = pipe j → i = j) ∧
    (∀ i < cnt, ∀ fd n, files i fd = some (.readEnd n) → fd = 0 ∧ ∃ j, i = j + 1 ∧ n = pipe j) ∧
    ∀ i < cnt, ∀ fd n, files i fd = some (.writeEnd n) → fd = 1 ∧ i + 1 < cnt ∧ n = pipe i := by
  obtain ⟨pipe, hinj, hpipes⟩ := h.pipes
  -- the first job reads what the shell reads, any other one from its pipe
  have hstdin : ∀ i < cnt, files i 0 = ownTable own 0 ∨ ∃ j, i = j + 1 ∧
      files i 0 = some (.readEnd (pipe j)) := by
    intro i hi
    cases i with
    | zero => exact .inl h.stdin
    | succ j => exact .inr ⟨j, rfl, (hpipes j hi).2⟩
  -- the last job writes to where the shell does, any other one to its pipe
  have hstdout : ∀ i < cnt, files i 1 = ownTable own 1 ∨ i + 1 < cnt ∧
      files i 1 = some (.writeEnd (pipe i)) := by
    intro i hi
    by_cases hlast : i + 1 < cnt
    · exact .inr ⟨hlast, (hpipes i hlast).1⟩
    · obtain rfl : i = cnt - 1 := by omega
      exact .inl h.stdout
  -- only the descriptors 0 and 1 may be ends of a pipe
  refine ⟨pipe, hinj, fun i hi fd n hfd => ?_, fun i hi fd n hfd => ?_⟩
  · match fd with
    | 0 =>
      rcases hstdin i hi with hown | ⟨j, rfl, hread⟩
      · exact absurd (hown ▸ hfd) ((ownTable_ne_end own 0).1 n)
      · rw [hread] at hfd
        cases hfd
        exact ⟨rfl, j, rfl, rfl⟩
    | 1 =>
      rcases hstdout i hi with hown | ⟨-, hwrite⟩
      · exact absurd (hown ▸ hfd) ((ownTable_ne_end own 1).1 n)
      · rw [hwrite] at hfd
        cases hfd
    | fd + 2 => exact absurd (h.others i hi (fd + 2) (by omega) ▸ hfd) ((ownTable_ne_end own _).1 n)
  · match fd with
    | 0 =>
      rcases hstdin i hi with hown | ⟨j, -, hread⟩
      · exact absurd (hown ▸ hfd) ((ownTable_ne_end own 0).2 n)
      · rw [hread] at hfd
        cases hfd
    | 1 =>
      rcases hstdout i hi with hown | ⟨hlast, hwrite⟩
      · exact absurd (hown ▸ hfd) ((ownTable_ne_end own 1).2 n)
      · rw [hwrite] at hfd
        cases hfd
        exact ⟨rfl, hlast, rfl⟩
    | fd + 2 => exact absurd (h.others i hi (fd + 2) (by omega) ▸ hfd) ((ownTable_ne_end own _).2 n)

/-- A program that never waits for another process. -/
def NoWait : Prog (Int × Int) Int → Prop
  | .fork k => ∀ pid, NoWait (k pid)
  | .pipe k => ∀ ret pip, NoWait (k ret pip)
  | .dup2 _ _ k => NoWait k
  | .close _ k => NoWait k
  | .waitid _ => False
  | .call _ | .exec _ | .exit _ | .ret _ => True

/-- A process of a job waits for no other. -/
private theorem noWait_execRecurNoret (a : Int × Int) : NoWait (execRecurNoret a) := by
  obtain ⟨cur, total⟩ := a
  rw [execRecurNoret]
  split_ifs
  · trivial
  · intro ret pip
    dsimp only
    split_ifs
    · trivial
    · intro pid
      dsimp only
      split_ifs <;> trivial
  · trivial

/-- It does not begin to. -/
private theorem NoWait.step {n n' : Nat} {p p' : Proc (Int × Int) Int}
    {created : List (Proc (Int × Int) Int)}
    (h : NoWait p.prog) (hstep : ProcStep execRecurNoret n p n' p' created) :
    NoWait p'.prog ∧ ∀ q ∈ created, NoWait q.prog := by
  cases hstep with
  | call => exact ⟨noWait_execRecurNoret _, fun q hq => absurd hq List.not_mem_nil⟩
  | fork => exact ⟨h _, List.forall_mem_singleton.mpr (h 0)⟩
  | pipe => exact ⟨h _ _, fun q hq => absurd hq List.not_mem_nil⟩
  | dup2 | close => exact ⟨h, fun q hq => absurd hq List.not_mem_nil⟩

/-- The shell has not forked, or it waits with the files it had; no other process waits. -/
def Attended (own : Nat → Option Nat) (cnt : Int) (s : Staged (Int × Int) Int σ Running) : Prop :=
  s.members = [.before ⟨execJob cnt, ownTable own⟩] ∨
    ∃ k rest, s.members = .before ⟨.waitid k, ownTable own⟩ :: rest ∧
      ∀ q, .before q ∈ rest → NoWait q.prog

/-- Every pass leaves the processes attended. -/
private theorem Attended.step {stage : Stage Int σ Running} {cnt : Nat}
    {s s' : Staged (Int × Int) Int σ Running} (h : Attended own cnt s)
    (hstep : Staged.Step execRecurNoret stage s s') : Attended own cnt s' := by
  cases hstep with
  | @step n n' a a' m m' created before behind hmember =>
    rcases h with h | ⟨k, rest, h, hrest⟩
    · -- the shell forks
      obtain ⟨rfl, rfl, rfl⟩ : before = [] ∧ m = .before ⟨execJob cnt, ownTable own⟩ ∧ behind = [] := by
        cases before with
        | nil => exact ⟨rfl, (List.cons.inj h).1, (List.cons.inj h).2⟩
        | cons m before => exact absurd (List.cons.inj h).2 (by simp)
      rw [execJob, if_neg (by omega)] at hmember
      cases hmember with
      | before hproc =>
        cases hproc with
        | @fork _ _ pid hpid =>
          refine .inr ⟨fun ret => .ret ret,
            [.before ⟨.call ((cnt : Int) - 1, cnt), ownTable own⟩], ?_, ?_⟩
          · simp [if_neg (show ¬ pid < 0 by omega), if_neg (show ¬ pid = 0 by omega)]
          · simp [NoWait]
    · cases before with
      | nil =>
        -- it cannot go on
        obtain rfl : m = .before ⟨.waitid k, ownTable own⟩ := (List.cons.inj h).1
        cases hmember with
        | before hproc => cases hproc
      | cons m₀ before =>
        obtain ⟨rfl, hbehind⟩ := List.cons.inj h
        refine .inr ⟨k, before ++ m' :: behind ++ created.map .before, rfl, ?_⟩
        rw [← hbehind] at hrest
        have hothers : ∀ q, .before q ∈ before ++ m' :: behind ++ created.map .before →
            .before q = m' ∨ q ∈ created ∨ NoWait q.prog := by
          intro q hq
          simp only [List.mem_append, List.mem_cons, List.mem_map, Member.before.injEq,
            exists_eq_right] at hq
          rcases hq with (hq | hq | hq) | hq
          · exact .inr (.inr (hrest q (List.mem_append_left _ hq)))
          · exact .inl hq
          · exact .inr (.inr (hrest q (List.mem_append_right _ (List.mem_cons_of_mem _ hq))))
          · exact .inr (.inl hq)
        intro q hq
        cases hmember with
        | before hproc =>
          have hnext := (hrest _ (by simp)).step hproc
          rcases hothers q hq with heq | hcreated | hold
          · cases heq
            exact hnext.1
          · exact hnext.2 q hcreated
          · exact hold
        | enter | behind =>
          rcases hothers q hq with heq | hcreated | hold
          · cases heq
          · exact absurd hcreated List.not_mem_nil
          · exact hold

/-- So does every run. -/
private theorem Attended.runs {stage : Stage Int σ Running} {cnt n : Nat}
    {s s' : Staged (Int × Int) Int σ Running} (h : Attended own cnt s)
    (hruns : Staged.Runs execRecurNoret stage n s s') : Attended own cnt s' := by
  induction hruns with
  | refl => exact h
  | tail _ last ih => exact (ih h).step last

/-- A process has an end of a pipe open. -/
def HasOpen : Member (Int × Int) Int Running → Nat → File → Prop
  | .before p, fd, f => p.fds fd = some f
  | .behind _ _ w, fd, f => w.fds fd = some (.first f)

/-- When a pipeline has come to its end, each pipe has at most its two ends left: the read end
    is standard input of a job and the write end standard output of the job before it. Nothing
    else has one of them open, the shell included, so a job that reads a pipe finds its end as
    soon as the job before it has ended or writes elsewhere. -/
theorem pipeEnds_held (hK : K.Keeps P) {s₀ : σ} (hP : P s₀) (buf : List UInt8)
    (jobs : Nat → Sh.Job) (own : Nat → Option Nat) (hown : Usable (ownTable own)) (cnt : Nat)
    (hcnt : 1 ≤ cnt) : ∃ pipe : Nat → Nat,
      (∀ i j, i + 1 < cnt → j + 1 < cnt → pipe i = pipe j → i = j) ∧
      ∀ n s, Staged.Runs execRecurNoret (launchStage K buf jobs) n (launches own cnt s₀) s →
        (∀ s', ¬ Staged.Step execRecurNoret (launchStage K buf jobs) s s') →
        (s.entered.map Prod.fst).Nodup ∧
        (∀ m ∈ s.members, ∀ fd k, HasOpen m fd (.readEnd k) → fd = 0 ∧
          ∃ j base w, m = .behind ((j + 1 : Nat) : Int) base w ∧ j + 1 < cnt ∧ k = pipe j) ∧
        ∀ m ∈ s.members, ∀ fd k, HasOpen m fd (.writeEnd k) → fd = 1 ∧
          ∃ j base w, m = .behind ((j : Nat) : Int) base w ∧ j + 1 < cnt ∧ k = pipe j := by
  obtain ⟨cur, rfl⟩ := Nat.exists_eq_add_of_le' hcnt
  obtain ⟨pipe, hinj, hread, hwrite⟩ := (wired_filesFrom own cur).ends
  refine ⟨pipe, hinj, fun n s hruns hfinal => ?_⟩
  obtain ⟨⟨r, hinv⟩, -⟩ := launches_inv hK hP buf jobs hown hruns
  have hattended : Attended own (cur + 1 : Nat) s := Attended.runs (.inl rfl) hruns
  -- what has an end open is the process of a job, which came with it
  have hcame : ∀ m ∈ s.members, ∀ fd f, HasOpen m fd f → (∀ i, f ≠ .own i) → ∃ i base w,
      i < cur + 1 ∧ m = .behind (i : Int) base w ∧ filesFrom 0 cur (ownTable own) i fd = some f := by
    intro m hm fd f hopen hf
    cases m with
    | before p =>
      -- only the shell has not got to an `exec`
      obtain ⟨k, hwaits⟩ := hinv.waits_of_final hfinal hm
      have hfds : p.fds = ownTable own := by
        rcases hattended with hshell | ⟨k', rest, hshell, hrest⟩
        · rw [hshell, List.mem_singleton, Member.before.injEq] at hm
          rw [hm]
        · rw [hshell, List.mem_cons] at hm
          rcases hm with hm | hm
          · rw [Member.before.injEq] at hm
            rw [hm]
          · have hno := hrest p hm
            rw [hwaits] at hno
            exact hno.elim
      have hopen : p.fds fd = some f := hopen
      rw [hfds, ownTable, Option.map_eq_some_iff] at hopen
      obtain ⟨i, -, heq⟩ := hopen
      exact absurd heq.symm (hf i)
    | behind job base w =>
      obtain ⟨i, hi, rfl, rfl, hlaunched⟩ := launched_of_final hinv hfinal hm
      exact ⟨i, _, w, hi, rfl, hlaunched.base_eq hopen⟩
  refine ⟨?_, fun m hm fd k hopen => ?_, fun m hm fd k hopen => ?_⟩
  · rw [hinv.entered_of_final hfinal, jobsFrom_eq, List.map_map]
    apply List.Nodup.map (fun i j hij => Int.ofNat_inj.mp hij)
    rw [List.nodup_reverse]
    exact List.nodup_range
  · obtain ⟨i, base, w, hi, rfl, hfile⟩ := hcame m hm fd _ hopen (by simp)
    obtain ⟨rfl, j, rfl, rfl⟩ := hread i hi fd k hfile
    exact ⟨rfl, j, base, w, rfl, hi, rfl⟩
  · obtain ⟨i, base, w, hi, rfl, hfile⟩ := hcame m hm fd _ hopen (by simp)
    obtain ⟨rfl, hlast, rfl⟩ := hwrite i hi fd k hfile
    exact ⟨rfl, i, base, w, rfl, hlast, rfl⟩

/-- A file system as the list of its paths: all can be opened, created and executed. -/
def pathKernel : Kernel (List (List UInt8)) where
  opens s path flags :=
    if path ∈ s then some s else if flags = oCreatRdwr then some (path :: s) else none
  runs s path := path ∈ s
  others s s' := s = s'
  others_refl _ := rfl

/-- A path that is there stays. -/
theorem pathKernel_keeps (path : List UInt8) : pathKernel.Keeps (path ∈ ·) where
  opens {s s' p flags} hpath h := by
    simp only [pathKernel] at h
    split_ifs at h
    · cases h
      exact hpath
    · cases h
      exact List.mem_cons_of_mem _ hpath
  others hpath h := h ▸ hpath

/-- Three open descriptors are a table that the shell may have. -/
theorem usable_three : Usable (ownTable fun fd => if fd < 3 then some fd else none) where
  std fd hfd := by simp [ownTable, hfd]
  finite := ⟨3, fun fd hfd => by simp [ownTable, Nat.not_lt.mpr hfd]⟩

/-- `"/bin/ls"`. -/
def binLs : List UInt8 := [0x2f, 0x62, 0x69, 0x6e, 0x2f, 0x6c, 0x73]

/-- A pipeline of two jobs, without redirections and names. -/
theorem pipeEnds_held_two : ∃ pipe : Nat → Nat,
    (∀ i j, i + 1 < 2 → j + 1 < 2 → pipe i = pipe j → i = j) ∧
    ∀ n s, Staged.Runs execRecurNoret (launchStage pathKernel [] fun _ => .zero) n
        (launches (fun fd => if fd < 3 then some fd else none) (2 : Nat) [binLs]) s →
      (∀ s', ¬ Staged.Step execRecurNoret (launchStage pathKernel [] fun _ => .zero) s s') →
      (s.entered.map Prod.fst).Nodup ∧
      (∀ m ∈ s.members, ∀ fd k, HasOpen m fd (.readEnd k) → fd = 0 ∧
        ∃ j base w, m = .behind ((j + 1 : Nat) : Int) base w ∧ j + 1 < 2 ∧ k = pipe j) ∧
      ∀ m ∈ s.members, ∀ fd k, HasOpen m fd (.writeEnd k) → fd = 1 ∧
        ∃ j base w, m = .behind ((j : Nat) : Int) base w ∧ j + 1 < 2 ∧ k = pipe j :=
  pipeEnds_held (pathKernel_keeps binLs) (List.mem_singleton_self _) [] _ _ usable_three 2 (by decide)

end Tlibc.System
