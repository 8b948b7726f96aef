import Mathlib.Data.List.Basic
import Mathlib.Logic.Function.Basic

/-!
# Processes that fork

Programs made of the system calls `fork`, `pipe`, `dup2` and `close`, run as processes with
tables of file descriptors that take their steps in any order. All calls succeed.

When only one of the two processes goes on to create pipes after each `fork`, the order of
the steps makes no difference: `Active` follows a program through its calls and collects
what it and its children execute in the end.

* `Inv.runs`: what will be executed stays the same along every run, and each step brings it
  nearer
* `Inv.executing_of_final`: when no process can take a step, all of it has been reached
-/

namespace Processes

/-- What a file descriptor refers to: a file the first process had open, or one end of a
    pipe. -/
inductive File where
  | own (file : Nat)
  | readEnd (pipe : Nat)
  | writeEnd (pipe : Nat)
  deriving DecidableEq, Repr

/-- A table of file descriptors. -/
abbrev Table := Nat → Option File

/-- `dup2`. -/
def Table.dup2 (t : Table) (old new : Nat) : Table :=
  match t old with
  | none => t
  | some f => Function.update t new (some f)

/-- `close`. -/
def Table.close (t : Table) (fd : Nat) : Table := Function.update t fd none

/-- `pipe`. -/
def Table.pipe (t : Table) (pip : Nat × Nat) (pipe : Nat) : Table :=
  Function.update (Function.update t pip.1 (some (.readEnd pipe))) pip.2 (some (.writeEnd pipe))

/-- Two numbers that `pipe` may return: not the standard ones, and not in use. -/
structure Table.Fresh (t : Table) (pip : Nat × Nat) : Prop where
  ne : pip.1 ≠ pip.2
  three_le : 3 ≤ pip.1 ∧ 3 ≤ pip.2
  closed : t pip.1 = none ∧ t pip.2 = none

variable {α β : Type}

/-- What a process still has to do, by its next system call. `call` calls a function of the
    program, `exec` executes a file. -/
inductive Prog (α β : Type) where
  | fork (k : Int → Prog α β)
  | pipe (k : Int → Nat × Nat → Prog α β)
  | dup2 (old new : Nat) (k : Prog α β)
  | close (fd : Nat) (k : Prog α β)
  | call (a : α)
  | exec (b : β)
  | waitid (k : Int → Prog α β)
  | exit (status : Int)
  | ret (value : Int)

structure Proc (α β : Type) where
  prog : Prog α β
  fds : Table

/-- The processes in the order of their creation, and the number of pipes created. -/
structure State (α β : Type) where
  procs : List (Proc α β)
  pipes : Nat

/-- A step of one process, with the processes it creates. Waiting, executing and ending take
    no step. -/
inductive ProcStep (body : α → Prog α β) :
    Nat → Proc α β → Nat → Proc α β → List (Proc α β) → Prop where
  | call {n : Nat} {a : α} {fds : Table} : ProcStep body n ⟨.call a, fds⟩ n ⟨body a, fds⟩ []
  | fork {n : Nat} {k : Int → Prog α β} {fds : Table} {pid : Int} (hpid : 0 < pid) :
    ProcStep body n ⟨.fork k, fds⟩ n ⟨k pid, fds⟩ [⟨k 0, fds⟩]
  | pipe {n : Nat} {k : Int → Nat × Nat → Prog α β} {fds : Table} {pip : Nat × Nat}
    (hfresh : fds.Fresh pip) :
    ProcStep body n ⟨.pipe k, fds⟩ (n + 1) ⟨k 0 pip, fds.pipe pip n⟩ []
  | dup2 {n : Nat} {old new : Nat} {k : Prog α β} {fds : Table} :
    ProcStep body n ⟨.dup2 old new k, fds⟩ n ⟨k, fds.dup2 old new⟩ []
  | close {n : Nat} {fd : Nat} {k : Prog α β} {fds : Table} :
    ProcStep body n ⟨.close fd k, fds⟩ n ⟨k, fds.close fd⟩ []

/-- A step of any one of the processes. -/
inductive Step (body : α → Prog α β) : State α β → State α β → Prop where
  | step {n n' : Nat} {p p' : Proc α β} {created : List (Proc α β)} (before behind : List (Proc α β))
    (h : ProcStep body n p n' p' created) :
    Step body ⟨before ++ p :: behind, n⟩ ⟨before ++ p' :: behind ++ created, n'⟩

/-- A run of so many steps. -/
inductive Runs (body : α → Prog α β) : Nat → State α β → State α β → Prop where
  | refl (s : State α β) : Runs body 0 s s
  | tail {n : Nat} {s t u : State α β} (h : Runs body n s t) (last : Step body t u) :
    Runs body (n + 1) s u

/-- So many steps of a process that creates no other. -/
inductive ProcRuns (body : α → Prog α β) : Nat → Nat → Proc α β → Nat → Proc α β → Prop where
  | refl (n : Nat) (p : Proc α β) : ProcRuns body 0 n p n p
  | tail {k n n' n'' : Nat} {p p' p'' : Proc α β} (h : ProcRuns body k n p n' p')
    (last : ProcStep body n' p' n'' p'' []) : ProcRuns body (k + 1) n p n'' p''

/-- The other processes may wait while one goes on. -/
theorem Runs.alone {body : α → Prog α β} {k m n n' : Nat} {s : State α β}
    {p p' : Proc α β} (before behind : List (Proc α β))
    (h : Runs body k s ⟨before ++ p :: behind, n⟩) (hp : ProcRuns body m n p n' p') :
    Runs body (k + m) s ⟨before ++ p' :: behind, n'⟩ := by
  induction hp with
  | refl => exact h
  | tail _ last ih =>
    have hstep := Step.step before behind last
    rw [List.append_nil] at hstep
    exact .tail (ih h) hstep

/-- What a process executes that has got to an `exec`, and with which files open. -/
def Proc.executing (p : Proc α β) : List (β × Table) :=
  match p.prog with
  | .exec b => [(b, p.fds)]
  | _ => []

/-- The same of all processes. -/
def State.executing (s : State α β) : List (β × Table) := s.procs.flatMap Proc.executing

/-! ## Following a program -/

variable {body : α → Prog α β}

/-- A program without pipes and children: what it executes and after how many steps. -/
inductive Settled : Prog α β → Table → List (β × Table) → Nat → Prop where
  | exec {b : β} {t : Table} : Settled (.exec b) t [(b, t)] 0
  | waitid {k : Int → Prog α β} {t : Table} : Settled (.waitid k) t [] 0
  | dup2 {old new : Nat} {k : Prog α β} {t : Table} {outs : List (β × Table)} {r : Nat}
    (h : Settled k (t.dup2 old new) outs r) : Settled (.dup2 old new k) t outs (r + 1)
  | close {fd : Nat} {k : Prog α β} {t : Table} {outs : List (β × Table)} {r : Nat}
    (h : Settled k (t.close fd) outs r) : Settled (.close fd k) t outs (r + 1)

/-- A program that may create pipes, the next one under number `n`. After a `fork` it is the
    child that goes on with it. -/
inductive Active (body : α → Prog α β) :
    Nat → Prog α β → Table → List (β × Table) → Nat → Prop where
  | settled {n : Nat} {p : Prog α β} {t : Table} {outs : List (β × Table)} {r : Nat}
    (h : Settled p t outs r) : Active body n p t outs r
  | dup2 {n old new : Nat} {k : Prog α β} {t : Table} {outs : List (β × Table)} {r : Nat}
    (h : Active body n k (t.dup2 old new) outs r) : Active body n (.dup2 old new k) t outs (r + 1)
  | close {n fd : Nat} {k : Prog α β} {t : Table} {outs : List (β × Table)} {r : Nat}
    (h : Active body n k (t.close fd) outs r) : Active body n (.close fd k) t outs (r + 1)
  | call {n : Nat} {a : α} {t : Table} {outs : List (β × Table)} {r : Nat}
    (h : Active body n (body a) t outs r) : Active body n (.call a) t outs (r + 1)
  | pipe {n : Nat} {k : Int → Nat × Nat → Prog α β} {t : Table} {outs : List (β × Table)} {r : Nat}
    (hfree : ∃ pip, t.Fresh pip)
    (h : ∀ pip, t.Fresh pip → Active body (n + 1) (k 0 pip) (t.pipe pip n) outs r) :
    Active body n (.pipe k) t outs (r + 1)
  | fork {n : Nat} {k : Int → Prog α β} {t : Table} {outs₁ outs₂ : List (β × Table)} {r₁ r₂ : Nat}
    (hparent : ∀ pid, 0 < pid → Settled (k pid) t outs₁ r₁) (hchild : Active body n (k 0) t outs₂ r₂) :
    Active body n (.fork k) t (outs₁ ++ outs₂) (r₁ + r₂ + 1)

/-- A step of a settled program. -/
theorem Settled.step {n n' : Nat} {p p' : Proc α β} {created : List (Proc α β)}
    {outs : List (β × Table)} {r : Nat} (h : Settled p.prog p.fds outs r)
    (hstep : ProcStep body n p n' p' created) :
    n' = n ∧ created = [] ∧ ∃ r', Settled p'.prog p'.fds outs r' ∧ r = r' + 1 := by
  -- a settled process only moves and closes its files
  cases hstep with
  | call => cases h
  | fork => cases h
  | pipe => cases h
  | dup2 =>
    cases h with
    | dup2 h => exact ⟨rfl, rfl, _, h, rfl⟩
  | close =>
    cases h with
    | close h => exact ⟨rfl, rfl, _, h, rfl⟩

/-- Several settled programs, one after another. -/
inductive AllSettled : List (Proc α β) → List (β × Table) → Nat → Prop where
  | nil : AllSettled [] [] 0
  | cons {p : Proc α β} {ps : List (Proc α β)} {outs₁ outs₂ : List (β × Table)} {r₁ r₂ : Nat}
    (head : Settled p.prog p.fds outs₁ r₁) (tail : AllSettled ps outs₂ r₂) :
    AllSettled (p :: ps) (outs₁ ++ outs₂) (r₁ + r₂)

/-- Two lists of settled processes. -/
theorem AllSettled.append {ps qs : List (Proc α β)} {outs₁ outs₂ : List (β × Table)} {r₁ r₂ : Nat}
    (h₁ : AllSettled ps outs₁ r₁) (h₂ : AllSettled qs outs₂ r₂) :
    AllSettled (ps ++ qs) (outs₁ ++ outs₂) (r₁ + r₂) := by
  induction h₁ with
  | nil =>
    rw [Nat.zero_add]
    exact h₂
  | cons head _ ih =>
    rw [List.append_assoc, Nat.add_assoc]
    exact .cons head ih

/-- They can be told apart again. -/
theorem AllSettled.split {ps qs : List (Proc α β)} {outs : List (β × Table)} {r : Nat}
    (h : AllSettled (ps ++ qs) outs r) : ∃ outs₁ outs₂ r₁ r₂, AllSettled ps outs₁ r₁ ∧
      AllSettled qs outs₂ r₂ ∧ outs = outs₁ ++ outs₂ ∧ r = r₁ + r₂ := by
  induction ps generalizing outs r with
  | nil => exact ⟨[], outs, 0, r, .nil, h, rfl, (Nat.zero_add r).symm⟩
  | cons p ps ih =>
    cases h with
    | cons head tail =>
      obtain ⟨outs₁, outs₂, r₁, r₂, h₁, h₂, rfl, rfl⟩ := ih tail
      exact ⟨_, outs₂, _, r₂, .cons head h₁, h₂, (List.append_assoc _ _ _).symm,
        (Nat.add_assoc _ _ _).symm⟩

/-- The state of a run: all processes are settled but the last one. -/
def Inv (body : α → Prog α β) (s : State α β) (outs : List (β × Table)) (r : Nat) : Prop :=
  ∃ ps q outs₁ outs₂ r₁ r₂, s.procs = ps ++ [q] ∧ AllSettled ps outs₁ r₁ ∧
    Active body s.pipes q.prog q.fds outs₂ r₂ ∧ outs = outs₁ ++ outs₂ ∧ r = r₁ + r₂

/-- A step of a program that may create pipes: it goes on, or it is settled from then on and
    its child goes on. -/
theorem Active.step {n n' : Nat} {p p' : Proc α β} {created : List (Proc α β)}
    {outs : List (β × Table)} {r : Nat} (h : Active body n p.prog p.fds outs r)
    (hstep : ProcStep body n p n' p' created) :
    (created = [] ∧ ∃ r', Active body n' p'.prog p'.fds outs r' ∧ r = r' + 1) ∨
      ∃ c outs₁ outs₂ r₁ r₂, created = [c] ∧ Settled p'.prog p'.fds outs₁ r₁ ∧
        Active body n' c.prog c.fds outs₂ r₂ ∧ outs = outs₁ ++ outs₂ ∧ r = r₁ + r₂ + 1 := by
  cases hstep with
  | call =>
    cases h with
    | settled h => cases h
    | call h => exact .inl ⟨rfl, _, h, rfl⟩
  | fork hpid =>
    -- the only step that creates a process, and the parent is settled behind it
    cases h with
    | settled h => cases h
    | fork hparent hchild => exact .inr ⟨_, _, _, _, _, rfl, hparent _ hpid, hchild, rfl, rfl⟩
  | pipe hfresh =>
    cases h with
    | settled h => cases h
    | pipe _ h => exact .inl ⟨rfl, _, h _ hfresh, rfl⟩
  | dup2 =>
    cases h with
    | settled h =>
      cases h with
      | dup2 h => exact .inl ⟨rfl, _, .settled h, rfl⟩
    | dup2 h => exact .inl ⟨rfl, _, h, rfl⟩
  | close =>
    cases h with
    | settled h =>
      cases h with
      | close h => exact .inl ⟨rfl, _, .settled h, rfl⟩
    | close h => exact .inl ⟨rfl, _, h, rfl⟩

/-- Every step brings the end nearer and leaves what is executed then. -/
theorem Inv.step {s s' : State α β} {outs : List (β × Table)} {r : Nat} (h : Inv body s outs r)
    (hstep : Step body s s') : ∃ r', Inv body s' outs r' ∧ r = r' + 1 := by
  obtain ⟨ps, q, outs₁, outs₂, r₁, r₂, hprocs, hps, hq, rfl, rfl⟩ := h
  cases hstep with
  | @step n n' p p' created before behind hproc =>
    rcases List.eq_nil_or_concat behind with rfl | ⟨behind, last, rfl⟩
    · -- the last process: a child that it creates is the last one from then on
      obtain ⟨rfl, hlast⟩ := List.append_inj' hprocs rfl
      obtain rfl := (List.cons.inj hlast).1
      rcases hq.step hproc with ⟨rfl, r', hactive, rfl⟩ |
        ⟨c, o₁, o₂, k₁, k₂, rfl, hsettled, hactive, rfl, rfl⟩
      · exact ⟨r₁ + r', ⟨before, p', outs₁, outs₂, r₁, r', by rw [List.append_nil], hps, hactive,
          rfl, rfl⟩, rfl⟩
      · refine ⟨r₁ + k₁ + k₂, ⟨before ++ [p'], c, outs₁ ++ o₁, o₂, r₁ + k₁, k₂, rfl, ?_, hactive,
          ?_, rfl⟩, ?_⟩
        · have hone : AllSettled [p'] o₁ k₁ := by
            have := AllSettled.cons hsettled .nil
            rwa [List.append_nil] at this
          exact hps.append hone
        · rw [List.append_assoc]
        · omega
    · -- one that is settled: it stays so, and creates none
      rw [List.concat_eq_append, ← List.cons_append, ← List.append_assoc] at hprocs
      obtain ⟨rfl, hlast⟩ := List.append_inj' hprocs rfl
      obtain rfl := (List.cons.inj hlast).1
      obtain ⟨o₁, o₂, k₁, k₂, hbefore, hrest, rfl, rfl⟩ := hps.split
      cases hrest with
      | cons head tail =>
        obtain ⟨rfl, rfl, r', hsettled, rfl⟩ := head.step hproc
        refine ⟨_, ⟨before ++ p' :: behind, last, _, outs₂, _, r₂, ?_,
          hbefore.append (.cons hsettled tail), hq, rfl, rfl⟩, by omega⟩
        rw [List.concat_eq_append, List.append_nil, List.append_assoc, List.cons_append]

/-- A program leaves at most its steps in any order, and executes the same in all of them. -/
theorem Inv.runs {s s' : State α β} {outs : List (β × Table)} {r n : Nat} (h : Inv body s outs r)
    (hruns : Runs body n s s') : ∃ r', Inv body s' outs r' ∧ r = r' + n := by
  induction hruns with
  | refl => exact ⟨r, h, rfl⟩
  | tail _ last ih =>
    obtain ⟨r', h', rfl⟩ := ih h
    obtain ⟨r'', h'', rfl⟩ := h'.step last
    exact ⟨r'', h'', by omega⟩

/-! ## What is executed -/

/-- What a settled process executes is among its outputs. -/
theorem Settled.executing_sublist {p : Proc α β} {outs : List (β × Table)} {r : Nat}
    (h : Settled p.prog p.fds outs r) : p.executing.Sublist outs := by
  obtain ⟨prog, fds⟩ := p
  cases h with
  | exec => exact List.Sublist.refl _
  | waitid => exact List.Sublist.refl _
  | dup2 => exact List.nil_sublist _
  | close => exact List.nil_sublist _

/-- When it has nothing left to do, these are all of them. -/
theorem Settled.executing_eq {p : Proc α β} {outs : List (β × Table)}
    (h : Settled p.prog p.fds outs 0) : p.executing = outs := by
  obtain ⟨prog, fds⟩ := p
  cases h with
  | exec => rfl
  | waitid => rfl

/-- So it is for a list of processes. -/
theorem AllSettled.executing_sublist {ps : List (Proc α β)} {outs : List (β × Table)} {r : Nat}
    (h : AllSettled ps outs r) : (ps.flatMap Proc.executing).Sublist outs := by
  induction h with
  | nil => exact List.Sublist.refl _
  | cons head _ ih => exact head.executing_sublist.append ih

/-- With nothing left to do the list executes all outputs. -/
theorem AllSettled.executing_eq {ps : List (Proc α β)} {outs : List (β × Table)} {r : Nat}
    (h : AllSettled ps outs r) (hr : r = 0) : ps.flatMap Proc.executing = outs := by
  induction h with
  | nil => rfl
  | @cons p ps outs₁ outs₂ r₁ r₂ head _ ih =>
    obtain rfl : r₁ = 0 := by omega
    rw [List.flatMap_cons, head.executing_eq, ih (by omega)]

/-- What the active process executes is among its outputs. -/
theorem Active.executing_sublist {n : Nat} {p : Proc α β} {outs : List (β × Table)} {r : Nat}
    (h : Active body n p.prog p.fds outs r) : p.executing.Sublist outs := by
  obtain ⟨prog, fds⟩ := p
  cases h with
  | settled h => exact h.executing_sublist (p := ⟨prog, fds⟩)
  | dup2 => exact List.nil_sublist _
  | close => exact List.nil_sublist _
  | call => exact List.nil_sublist _
  | pipe => exact List.nil_sublist _
  | fork => exact List.nil_sublist _

/-- When it has nothing left to do, these are all of them. -/
theorem Active.executing_eq {n : Nat} {p : Proc α β} {outs : List (β × Table)}
    (h : Active body n p.prog p.fds outs 0) : p.executing = outs := by
  obtain ⟨prog, fds⟩ := p
  cases h with
  | settled h => exact h.executing_eq (p := ⟨prog, fds⟩)

/-- At any time, what is executed already is part of what will be. -/
theorem Inv.executing_sublist {s : State α β} {outs : List (β × Table)} {r : Nat}
    (h : Inv body s outs r) : s.executing.Sublist outs := by
  obtain ⟨ps, q, outs₁, outs₂, r₁, r₂, hprocs, hps, hq, rfl, rfl⟩ := h
  rw [State.executing, hprocs, List.flatMap_append, List.flatMap_singleton]
  exact hps.executing_sublist.append hq.executing_sublist

/-- A process that has something left to do can take a step. -/
theorem Settled.progress {n : Nat} {p : Prog α β} {t : Table} {outs : List (β × Table)} {r : Nat}
    (h : Settled p t outs r) (hr : 0 < r) :
    ∃ n' p' created, ProcStep body n ⟨p, t⟩ n' p' created := by
  cases h with
  | exec => exact absurd hr (Nat.lt_irrefl 0)
  | waitid => exact absurd hr (Nat.lt_irrefl 0)
  | dup2 => exact ⟨_, _, _, .dup2⟩
  | close => exact ⟨_, _, _, .close⟩

/-- So can the active one. -/
theorem Active.progress {n : Nat} {p : Prog α β} {t : Table} {outs : List (β × Table)} {r : Nat}
    (h : Active body n p t outs r) (hr : 0 < r) :
    ∃ n' p' created, ProcStep body n ⟨p, t⟩ n' p' created := by
  cases h with
  -- every call has a step, and a pipe has one when a number is free
  | settled h => exact h.progress hr
  | dup2 => exact ⟨_, _, _, .dup2⟩
  | close => exact ⟨_, _, _, .close⟩
  | call => exact ⟨_, _, _, .call⟩
  | pipe hfree =>
    obtain ⟨pip, hfresh⟩ := hfree
    exact ⟨_, _, _, .pipe hfresh⟩
  | fork => exact ⟨_, _, _, .fork Int.one_pos⟩

/-- So can one of a list. -/
theorem AllSettled.progress {ps : List (Proc α β)} {outs : List (β × Table)} {r n : Nat}
    (h : AllSettled ps outs r) (hr : 0 < r) : ∃ before p behind n' p' created,
      ps = before ++ p :: behind ∧ ProcStep body n p n' p' created := by
  induction h with
  | nil => exact absurd hr (Nat.lt_irrefl 0)
  | @cons p ps outs₁ outs₂ r₁ r₂ head _ ih =>
    by_cases hfirst : 0 < r₁
    · obtain ⟨n', p', created, hstep⟩ := head.progress hfirst
      exact ⟨[], p, ps, n', p', created, rfl, hstep⟩
    · obtain ⟨before, q, behind, n', q', created, rfl, hstep⟩ := ih (by omega)
      exact ⟨p :: before, q, behind, n', q', created, rfl, hstep⟩

/-- Before the end some process can take a step. -/
theorem Inv.progress {s : State α β} {outs : List (β × Table)} {r : Nat} (h : Inv body s outs r)
    (hr : 0 < r) : ∃ s', Step body s s' := by
  obtain ⟨procs, n⟩ := s
  obtain ⟨ps, q, outs₁, outs₂, r₁, r₂, hprocs, hps, hq, rfl, rfl⟩ := h
  obtain rfl : procs = ps ++ [q] := hprocs
  by_cases hsettled : 0 < r₁
  · obtain ⟨before, p, behind, n', p', created, rfl, hstep⟩ := hps.progress hsettled
    rw [List.append_assoc, List.cons_append]
    exact ⟨_, .step before (behind ++ [q]) hstep⟩
  · obtain ⟨n', q', created, hstep⟩ := hq.progress (show 0 < r₂ by omega)
    exact ⟨_, .step ps [] hstep⟩

/-- When no process can take a step, everything has been reached. -/
theorem Inv.executing_of_final {s : State α β} {outs : List (β × Table)} {r : Nat}
    (h : Inv body s outs r) (hfinal : ∀ s', ¬ Step body s s') : s.executing = outs := by
  have hr : r = 0 := by
    by_contra hne
    obtain ⟨s', hstep⟩ := h.progress (Nat.pos_of_ne_zero hne)
    exact hfinal s' hstep
  obtain ⟨ps, q, outs₁, outs₂, r₁, r₂, hprocs, hps, hq, rfl, rfl⟩ := h
  obtain rfl : r₂ = 0 := by omega
  rw [State.executing, hprocs, List.flatMap_append, List.flatMap_singleton,
    hps.executing_eq (by omega), hq.executing_eq]

/-- A process with nothing left to do executes its program, or waits. -/
theorem Settled.exec_or_waitid {p : Prog α β} {t : Table} {outs : List (β × Table)}
    (h : Settled p t outs 0) : (∃ b, p = .exec b) ∨ ∃ k, p = .waitid k := by
  cases h with
  | exec => exact .inl ⟨_, rfl⟩
  | waitid => exact .inr ⟨_, rfl⟩

/-- So does the active one. -/
theorem Active.exec_or_waitid {n : Nat} {p : Prog α β} {t : Table} {outs : List (β × Table)}
    (h : Active body n p t outs 0) : (∃ b, p = .exec b) ∨ ∃ k, p = .waitid k := by
  cases h with
  | settled h => exact h.exec_or_waitid

/-- When no process can take a step, each of them executes something or waits. -/
theorem Inv.exec_or_waitid {s : State α β} {outs : List (β × Table)} {r : Nat}
    (h : Inv body s outs r) (hfinal : ∀ s', ¬ Step body s s') {p : Proc α β} (hp : p ∈ s.procs) :
    (∃ b, p.prog = .exec b) ∨ ∃ k, p.prog = .waitid k := by
  -- a state without a step has nothing left to do
  have hr : r = 0 := by
    by_contra hne
    obtain ⟨s', hstep⟩ := h.progress (Nat.pos_of_ne_zero hne)
    exact hfinal s' hstep
  obtain ⟨ps, q, outs₁, outs₂, r₁, r₂, hprocs, hps, hq, rfl, rfl⟩ := h
  -- the process is one of those that are settled, or the active one
  rw [hprocs, List.mem_append, List.mem_singleton] at hp
  rcases hp with hp | rfl
  · obtain ⟨before, behind, rfl⟩ := List.append_of_mem hp
    obtain ⟨o₁, o₂, k₁, k₂, -, hrest, -, rfl⟩ := hps.split
    cases hrest with
    | cons head tail => exact Settled.exec_or_waitid (by convert head using 1; omega)
  · obtain rfl : r₂ = 0 := by omega
    exact hq.exec_or_waitid

end Processes
