import Tlibc.Lib.Processes
import Mathlib.Algebra.BigOperators.Group.List.Basic
import Mathlib.Algebra.GroupWithZero.Nat

/-!
# Processes behind their `exec`

The processes of `Tlibc.Lib.Processes` stop where they come to an `exec`. Here each of them
goes on by itself from there, by steps that read and change a state all of them share (the
file system, say), while the others still fork and open pipes.

* `Staged.runs`: what a first stage keeps, and what every step behind an `exec` keeps, holds
  along every run of both; each step brings the end nearer
* `Staged.Inv.entered_of_final`: when no process can take a step, all of them are behind theirs
-/

namespace Processes

/-- What is behind an `exec`: the state in which a process starts, from what it executes and
    its files, and its steps, with the shared state before and after. -/
structure Stage (β σ ω : Type) where
  start : β → Table → ω
  Next : σ → ω → σ → ω → Prop

/-- A process before its `exec`, or behind it: what it executes, the files it came with, and
    its state. -/
inductive Member (α β ω : Type) where
  | before (p : Proc α β)
  | behind (b : β) (fds : Table) (w : ω)

/-- The processes in the order of their creation, the number of pipes created, and the
    shared state. -/
structure Staged (α β σ ω : Type) where
  members : List (Member α β ω)
  pipes : Nat
  shared : σ

variable {α β σ ω : Type}

/-- A step of one process, with the processes it creates. -/
inductive MemberStep (body : α → Prog α β) (stage : Stage β σ ω) :
    Nat → σ → Member α β ω → Nat → σ → Member α β ω → List (Proc α β) → Prop where
  | before {n n' : Nat} {s : σ} {p p' : Proc α β} {created : List (Proc α β)}
    (h : ProcStep body n p n' p' created) :
    MemberStep body stage n s (.before p) n' s (.before p') created
  | enter {n : Nat} {s : σ} {b : β} {fds : Table} :
    MemberStep body stage n s (.before ⟨.exec b, fds⟩) n s (.behind b fds (stage.start b fds)) []
  | behind {n : Nat} {s s' : σ} {b : β} {fds : Table} {w w' : ω} (h : stage.Next s w s' w') :
    MemberStep body stage n s (.behind b fds w) n s' (.behind b fds w') []

namespace Staged

/-- A step of any one of the processes. -/
inductive Step (body : α → Prog α β) (stage : Stage β σ ω) :
    Staged α β σ ω → Staged α β σ ω → Prop where
  | step {n n' : Nat} {s s' : σ} {m m' : Member α β ω} {created : List (Proc α β)}
    (before behind : List (Member α β ω)) (h : MemberStep body stage n s m n' s' m' created) :
    Step body stage ⟨before ++ m :: behind, n, s⟩
      ⟨before ++ m' :: behind ++ created.map .before, n', s'⟩

/-- A run of so many steps. -/
inductive Runs (body : α → Prog α β) (stage : Stage β σ ω) :
    Nat → Staged α β σ ω → Staged α β σ ω → Prop where
  | refl (s : Staged α β σ ω) : Runs body stage 0 s s
  | tail {n : Nat} {s t u : Staged α β σ ω} (h : Runs body stage n s t)
    (last : Step body stage t u) : Runs body stage (n + 1) s u

end Staged

/-! ## The first stage of a run -/

/-- The process that stops at its `exec`. -/
def Member.first : Member α β ω → Proc α β
  | .before p => p
  | .behind b fds _ => ⟨.exec b, fds⟩

/-- What a process executes that is behind its `exec`, and the files it came with. -/
def Member.entered : Member α β ω → List (β × Table)
  | .before _ => []
  | .behind b fds _ => [(b, fds)]

namespace Staged

/-- The processes that stop at their `exec`. -/
def first (s : Staged α β σ ω) : State α β := ⟨s.members.map Member.first, s.pipes⟩

/-- What the processes execute that are behind their `exec`. -/
def entered (s : Staged α β σ ω) : List (β × Table) := s.members.flatMap Member.entered

/-- The processes of a first stage before any of them has got to its `exec`. -/
def ofState (s : State α β) (shared : σ) : Staged α β σ ω :=
  ⟨s.procs.map .before, s.pipes, shared⟩

@[simp] theorem first_ofState (s : State α β) (shared : σ) :
    (ofState s shared : Staged α β σ ω).first = s := by
  simp [first, ofState, Function.comp_def, Member.first]

@[simp] theorem entered_ofState (s : State α β) (shared : σ) :
    (ofState s shared : Staged α β σ ω).entered = [] := by
  simp [entered, ofState, List.flatMap_map, Member.entered]

end Staged

theorem Member.entered_sublist (m : Member α β ω) : m.entered.Sublist m.first.executing := by
  cases m with
  | before p => exact List.nil_sublist _
  | behind b fds w => exact List.Sublist.refl _

namespace Staged

variable {body : α → Prog α β} {stage : Stage β σ ω} {s t : Staged α β σ ω}

theorem entered_sublist (s : Staged α β σ ω) : s.entered.Sublist s.first.executing := by
  obtain ⟨members, n, shared⟩ := s
  induction members with
  | nil => exact List.Sublist.refl _
  | cons m members ih => exact (m.entered_sublist).append ih

/-- A process that is replaced by another, and the ones that it creates. -/
theorem first_replace (before behind : List (Member α β ω)) (m : Member α β ω)
    (created : List (Proc α β)) (n : Nat) (a : σ) :
    (⟨before ++ m :: behind ++ created.map .before, n, a⟩ : Staged α β σ ω).first =
      ⟨before.map Member.first ++ m.first :: behind.map Member.first ++ created, n⟩ := by
  have hid : created.map (Member.first ∘ (Member.before : _ → Member α β ω)) = created :=
    List.map_id created
  simp only [first, List.map_append, List.map_cons, List.map_map, hid]

/-- When no process can take a step, no process of the first stage can. -/
theorem first_final (h : ∀ t, ¬ Step body stage s t) : ∀ t, ¬ Processes.Step body s.first t := by
  intro t hstep
  obtain ⟨members, n, shared⟩ := s
  obtain ⟨procs, hprocs⟩ : ∃ procs, members.map Member.first = procs := ⟨_, rfl⟩
  rw [first, hprocs] at hstep
  cases hstep with
  | @step n n' p p' created before behind hproc =>
    obtain ⟨l, r, rfl, -, hr⟩ := List.map_eq_append_iff.mp hprocs
    obtain ⟨m, r, rfl, hm, -⟩ := List.map_eq_cons_iff.mp hr
    cases m with
    | before q =>
      obtain rfl : q = p := hm
      exact h _ (.step l r (.before hproc))
    | behind b fds w =>
      -- it has got to its `exec`, where the first stage ends
      obtain rfl : (⟨.exec b, fds⟩ : Proc α β) = p := hm
      cases hproc

/-- When no process can take a step, all that have got to their `exec` are behind it. -/
theorem entered_eq (h : ∀ t, ¬ Step body stage s t) : s.entered = s.first.executing := by
  obtain ⟨members, n, shared⟩ := s
  -- a member that has entered the second stage has one result of the first
  have hmember : ∀ m ∈ members, m.entered = m.first.executing := by
    intro m hm
    obtain ⟨l, r, rfl⟩ := List.append_of_mem hm
    -- and one that has not yet could do so now
    cases m with
    | before p =>
      obtain ⟨prog, fds⟩ := p
      cases prog with
      | exec b => exact absurd (.step l r .enter) (h _)
      | _ => rfl
    | behind b fds w => rfl
  show members.flatMap _ = (members.map Member.first).flatMap _
  rw [List.flatMap_map]
  exact List.flatMap_congr hmember

end Staged

/-! ## Both stages -/

/-- The steps that a process has taken behind its `exec`, if there are at most `c` and `rank`
    counts those that are left. The one that leads there counts too. -/
def Member.spent (rank : ω → Nat) (c : Nat) : Member α β ω → Nat
  | .before _ => 0
  | .behind _ _ w => c + 1 - rank w

/-- What holds of the processes behind their `exec` while `P` holds of the shared state: `J`
    from the start, and each step keeps both and brings the end nearer. -/
structure Stage.Keeps (stage : Stage β σ ω) (P : σ → Prop) (J : β → Table → ω → Prop)
    (rank : ω → Nat) (c : Nat) (outs : List (β × Table)) : Prop where
  start : ∀ b fds, (b, fds) ∈ outs → J b fds (stage.start b fds) ∧ rank (stage.start b fds) ≤ c
  next : ∀ {b fds s w s' w'}, P s → J b fds w → stage.Next s w s' w' →
    P s' ∧ J b fds w' ∧ rank w' < rank w

namespace Staged

variable {body : α → Prog α β} {stage : Stage β σ ω} {s t : Staged α β σ ω} {P : σ → Prop}
  {J : β → Table → ω → Prop} {rank : ω → Nat} {c : Nat} {outs : List (β × Table)} {r : Nat}

/-- All steps taken behind an `exec`. -/
def spent (rank : ω → Nat) (c : Nat) (s : Staged α β σ ω) : Nat :=
  (s.members.map (Member.spent rank c)).sum

/-- The state of a run of both stages; `r` counts the steps that are left of the first. -/
structure Inv (body : α → Prog α β) (P : σ → Prop) (J : β → Table → ω → Prop) (rank : ω → Nat)
    (c : Nat) (outs : List (β × Table)) (s : Staged α β σ ω) (r : Nat) : Prop where
  first : Processes.Inv body s.first outs r
  shared : P s.shared
  behind : ∀ b fds w, Member.behind b fds w ∈ s.members → J b fds w ∧ rank w ≤ c

/-- What is behind an `exec` is something that will be executed. -/
theorem Inv.mem_outs (h : Inv body P J rank c outs s r) {b : β} {fds : Table}
    (hexec : (b, fds) ∈ s.first.executing) : (b, fds) ∈ outs :=
  h.first.executing_sublist.subset hexec

/-- The steps taken, when a process is replaced by another. -/
theorem spent_replace (rank : ω → Nat) (c : Nat) (before behind : List (Member α β ω))
    (m m' : Member α β ω) (created : List (Proc α β)) (n n' : Nat) (a a' : σ) :
    (⟨before ++ m' :: behind ++ created.map .before, n', a'⟩ : Staged α β σ ω).spent rank c +
      m.spent rank c = (⟨before ++ m :: behind, n, a⟩ : Staged α β σ ω).spent rank c +
        m'.spent rank c := by
  have hcreated : ((created.map Member.before).map (Member.spent rank c)).sum = 0 := by
    simp [Function.comp_def, Member.spent]
  simp only [spent, List.map_append, List.map_cons, List.sum_append, List.sum_cons, hcreated]
  omega

/-- What holds behind the `exec`s of the others holds still when a process is replaced. -/
theorem behind_replace {Q : β → Table → ω → Prop} {before behind : List (Member α β ω)}
    {m m' : Member α β ω} (created : List (Proc α β))
    (hold : ∀ b fds w, Member.behind b fds w ∈ before ++ m :: behind → Q b fds w)
    (hnew : ∀ b fds w, m' = .behind b fds w → Q b fds w) (b : β) (fds : Table) (w : ω)
    (hmem : Member.behind b fds w ∈ before ++ m' :: behind ++ created.map .before) : Q b fds w := by
  simp only [List.mem_append, List.mem_cons, List.mem_map, reduceCtorEq, and_false,
    exists_false, or_false] at hmem
  rcases hmem with hmem | hmem | hmem
  · exact hold b fds w (List.mem_append_left _ hmem)
  · exact hnew b fds w hmem.symm
  · exact hold b fds w (List.mem_append_right _ (List.mem_cons_of_mem _ hmem))

/-- A step of either stage keeps what both keep, and brings the end nearer. -/
theorem Inv.step (hkeeps : stage.Keeps P J rank c outs) (h : Inv body P J rank c outs s r)
    (hstep : Step body stage s t) :
    ∃ r', Inv body P J rank c outs t r' ∧ r' + s.spent rank c + 1 ≤ r + t.spent rank c := by
  have hmem : ∀ b fds, (b, fds) ∈ s.first.executing → (b, fds) ∈ outs := fun _ _ => h.mem_outs
  obtain ⟨hinv, hshared, hbehind⟩ := h
  cases hstep with
  | @step n n' a a' m m' created before behind hmember =>
    have hspent := spent_replace rank c before behind m m' created n n' a a'
    have hfirst := first_replace before behind m' created n' a'
    have hfirst₀ := first_replace before behind m [] n a
    rw [List.map_nil, List.append_nil, List.append_nil] at hfirst₀
    rw [hfirst₀] at hinv hmem
    cases hmember with
    | @before _ _ p p' _ hproc =>
      -- a step of the first stage
      obtain ⟨r', hinv', rfl⟩ := hinv.step (.step (before.map Member.first) _ hproc)
      refine ⟨r', ⟨by rw [hfirst]; exact hinv', hshared, ?_⟩, ?_⟩
      · exact behind_replace created hbehind fun b fds w heq => by cases heq
      · simp only [Member.spent] at hspent
        omega
    | @enter _ b fds =>
      have hout : (b, fds) ∈ outs := by
        apply hmem
        simp [State.executing, Member.first, Proc.executing]
      have hstart := hkeeps.start b fds hout
      rw [← List.append_nil (_ ++ _)] at hinv
      refine ⟨r, ⟨by rw [hfirst]; exact hinv, hshared, ?_⟩, ?_⟩
      · apply behind_replace [] hbehind
        intro b' fds' w heq
        cases heq
        exact hstart
      · simp only [Member.spent] at hspent
        omega
    | @behind _ _ b fds w w' hnext =>
      obtain ⟨hJ, hrank⟩ := hbehind b fds w (by simp)
      obtain ⟨hP', hJ', hlt⟩ := hkeeps.next hshared hJ hnext
      rw [← List.append_nil (_ ++ _)] at hinv
      refine ⟨r, ⟨by rw [hfirst]; exact hinv, hP', ?_⟩, ?_⟩
      · apply behind_replace [] hbehind
        intro b' fds' v heq
        cases heq
        exact ⟨hJ', by omega⟩
      · simp only [Member.spent] at hspent
        omega

/-- What both stages keep, a run keeps. -/
theorem Inv.runs {k : Nat} (hkeeps : stage.Keeps P J rank c outs)
    (h : Inv body P J rank c outs s r) (hruns : Runs body stage k s t) :
    ∃ r', Inv body P J rank c outs t r' ∧ r' + s.spent rank c + k ≤ r + t.spent rank c := by
  induction hruns with
  | refl => exact ⟨r, h, Nat.le_refl _⟩
  | tail _ last ih =>
    obtain ⟨r', h', hle⟩ := ih h
    obtain ⟨r'', h'', hle'⟩ := h'.step hkeeps last
    exact ⟨r'', h'', by omega⟩

/-- All steps behind an `exec`, by what is executed. -/
theorem spent_le (rank : ω → Nat) (c : Nat) (s : Staged α β σ ω) :
    s.spent rank c ≤ s.entered.length * (c + 1) := by
  obtain ⟨members, n, shared⟩ := s
  -- induction on the members
  induction members with
  | nil => exact Nat.zero_le _
  | cons m members ih =>
    simp only [spent, entered, List.map_cons, List.sum_cons, List.flatMap_cons, List.length_append,
      Nat.add_mul] at ih ⊢
    -- one that entered has spent as much as its rank fell, and any other one nothing
    have hone : m.spent rank c ≤ m.entered.length * (c + 1) := by
      cases m with
      | before p => exact Nat.zero_le _
      | behind b fds w =>
        show c + 1 - rank w ≤ 1 * (c + 1)
        omega
    omega

/-- What holds along every run of both stages, from processes in their first. -/
theorem runs {k : Nat} {s₀ : State α β} {a₀ : σ} (hkeeps : stage.Keeps P J rank c outs)
    (hinv : Processes.Inv body s₀ outs r) (hP : P a₀) (hruns : Runs body stage k (ofState s₀ a₀) t) :
    (∃ r', Inv body P J rank c outs t r') ∧ k ≤ r + outs.length * (c + 1) := by
  -- at the start no member has entered
  have h₀ : Inv body P J rank c outs (ofState s₀ a₀ : Staged α β σ ω) r := by
    refine ⟨?_, hP, fun b fds w hw => ?_⟩
    · rw [first_ofState]
      exact hinv
    · simp [ofState] at hw
  -- so nothing is spent
  have hspent : (ofState s₀ a₀ : Staged α β σ ω).spent rank c = 0 := by
    have hle := (ofState s₀ a₀ : Staged α β σ ω).spent_le rank c
    rw [entered_ofState, List.length_nil, Nat.zero_mul] at hle
    exact Nat.le_zero.mp hle
  obtain ⟨r', hinv', hle⟩ := h₀.runs hkeeps hruns
  refine ⟨⟨r', hinv'⟩, ?_⟩
  -- no more members enter than there are results
  have hentered : t.entered.length ≤ outs.length :=
    (t.entered_sublist.trans hinv'.first.executing_sublist).length_le
  have hmul := Nat.mul_le_mul_right (c + 1) hentered
  have hall := t.spent_le rank c
  omega

/-- What is behind an `exec` at any time, and at the end. -/
theorem Inv.entered_sublist (h : Inv body P J rank c outs s r) : s.entered.Sublist outs :=
  s.entered_sublist.trans h.first.executing_sublist

theorem Inv.entered_of_final (h : Inv body P J rank c outs s r)
    (hfinal : ∀ t, ¬ Step body stage s t) : s.entered = outs :=
  (entered_eq hfinal).trans (h.first.executing_of_final (first_final hfinal))

/-- At the end, a process that has not got to an `exec` waits for another. -/
theorem Inv.waits_of_final (h : Inv body P J rank c outs s r)
    (hfinal : ∀ t, ¬ Step body stage s t) {p : Proc α β} (hp : .before p ∈ s.members) :
    ∃ k, p.prog = .waitid k := by
  have hmem : p ∈ s.first.procs := List.mem_map.mpr ⟨_, hp, rfl⟩
  rcases h.first.exec_or_waitid (first_final hfinal) hmem with ⟨b, hexec⟩ | hwaits
  · -- it could go on behind its `exec`
    obtain ⟨members, n, a⟩ := s
    obtain ⟨prog, fds⟩ := p
    obtain rfl : prog = .exec b := hexec
    obtain ⟨l, r, rfl⟩ := List.append_of_mem hp
    exact absurd (.step l r .enter) (hfinal _)
  · exact hwaits

/-- At the end, no process behind its `exec` can take a step. -/
theorem not_next_of_final (hfinal : ∀ t, ¬ Step body stage s t) {b : β} {fds : Table} {w : ω}
    (hw : .behind b fds w ∈ s.members) (a' : σ) (w' : ω) : ¬ stage.Next s.shared w a' w' := by
  intro hnext
  obtain ⟨members, n, a⟩ := s
  obtain ⟨l, r, rfl⟩ := List.append_of_mem hw
  exact hfinal _ (.step l r (.behind hnext))

end Staged

end Processes
