/-!
# Runs of a fallible step

A machine whose step either fails or returns an output and a new state, fed a
list of inputs.

* `run_simulates`: a run that succeeds is a run of any abstract machine that
  simulates the step, and keeps what every step keeps (`run_keeps`)
* `steps_of_meets`: no step fails when a condition on the state holds before each

A condition is checked on the states the run itself reaches, so it may depend on
everything that happened before.
-/

namespace Run

variable {σ α β ε : Type}

/-- A bind that returns has a first part that returns. -/
theorem bind_eq_ok {γ δ : Type} {x : Except ε γ} {f : γ → Except ε δ} {d : δ} :
    x >>= f = .ok d ↔ ∃ c, x = .ok c ∧ f c = .ok d := by
  cases x with
  | error e => simp [bind, Except.bind]
  | ok c => simp [bind, Except.bind]

/-- A value is handed on. -/
@[simp] theorem ok_bind {γ δ : Type} (c : γ) (f : γ → Except ε δ) :
    (Except.ok c : Except ε γ) >>= f = f c := rfl

/-- A fault is handed on. -/
@[simp] theorem error_bind {γ δ : Type} (e : ε) (f : γ → Except ε δ) :
    (Except.error e : Except ε γ) >>= f = .error e := rfl

/-- Two continuations that agree on what the first part returns. -/
theorem bind_congr {γ δ : Type} {x : Except ε γ} {f g : γ → Except ε δ}
    (h : ∀ c, x = .ok c → f c = g c) : x >>= f = x >>= g := by
  cases x with
  | error e => rfl
  | ok c => exact h c rfl

/-- A value is no fault. -/
theorem ok_ne_error {γ : Type} {c : γ} {e : ε} : (Except.ok c : Except ε γ) ≠ .error e := by
  intro h
  cases h

/-- Different faults. -/
theorem error_ne_error {γ : Type} {e e' : ε} (h : e ≠ e') :
    (Except.error e : Except ε γ) ≠ .error e' :=
  fun heq => h (Except.error.inj heq)

/-- A bind fails with an error only if one of its parts does. -/
theorem bind_ne_error {γ δ : Type} {x : Except ε γ} {f : γ → Except ε δ} {e : ε}
    (hx : x ≠ .error e) (hf : ∀ c, f c ≠ .error e) : x >>= f ≠ .error e := by
  cases x with
  | error e' => exact fun heq => hx (congrArg Except.error (Except.error.inj heq))
  | ok c => exact hf c

/-- A fault of neither branch. -/
theorem ite_ne_error {γ : Type} {p : Prop} [Decidable p] {x y : Except ε γ} {e : ε}
    (hx : x ≠ .error e) (hy : y ≠ .error e) : (if p then x else y) ≠ .error e := by
  split
  · exact hx
  · exact hy

/-- `map` changes values only: what it returns is the image of a value. -/
theorem map_eq_ok {γ δ : Type} {x : Except ε γ} {f : γ → δ} {d : δ} :
    x.map f = .ok d ↔ ∃ c, x = .ok c ∧ d = f c := by
  cases x with
  | error e => simp [Except.map]
  | ok c => simp [Except.map, eq_comm]

/-- `map` keeps the errors. -/
theorem map_eq_error {γ δ : Type} {x : Except ε γ} {f : γ → δ} {e : ε} :
    x.map f = .error e ↔ x = .error e := by
  cases x with
  | error e' => simp [Except.map]
  | ok c => simp [Except.map]

/-- `mapError` changes errors only. -/
theorem mapError_eq_ok {γ ε' : Type} {x : Except ε γ} {f : ε → ε'} {c : γ} :
    x.mapError f = .ok c ↔ x = .ok c := by
  cases x with
  | error e => exact ⟨nofun, nofun⟩
  | ok c' => exact ⟨fun h => by cases h; rfl, fun h => by cases h; rfl⟩

/-- Feed the inputs to the machine one after another and collect the outputs. -/
def run (step : σ → α → Except ε (β × σ)) : σ → List α → Except ε (List β × σ)
  | s, [] => .ok ([], s)
  | s, a :: as => do
    let (b, s') ← step s a
    let (bs, t) ← run step s' as
    return (b :: bs, t)

variable {step : σ → α → Except ε (β × σ)}

/-- A run is its first step and the others. -/
theorem run_cons {s t : σ} {a : α} {as : List α} {bs : List β} :
    run step s (a :: as) = .ok (bs, t) ↔
      ∃ b s' bs', step s a = .ok (b, s') ∧ run step s' as = .ok (bs', t) ∧ bs = b :: bs' := by
  rw [run, bind_eq_ok]
  constructor
  · rintro ⟨⟨b, s'⟩, hstep, hrun⟩
    obtain ⟨⟨bs', t'⟩, hrun, h⟩ := bind_eq_ok.mp hrun
    cases h
    exact ⟨b, s', bs', hstep, hrun, rfl⟩
  · rintro ⟨b, s', bs', hstep, hrun, rfl⟩
    exact ⟨(b, s'), hstep, bind_eq_ok.mpr ⟨(bs', t), hrun, rfl⟩⟩

/-- A run that returns has an output for every input. -/
theorem run_length {s t : σ} {as : List α} {bs : List β} (h : run step s as = .ok (bs, t)) :
    bs.length = as.length := by
  induction as generalizing s bs with
  | nil =>
    cases h
    rfl
  | cons a as ih =>
    obtain ⟨b, s', bs', -, hrun, rfl⟩ := run_cons.mp h
    rw [List.length_cons, List.length_cons, ih hrun]

/-! ## Simulation -/

/-- The runs of an abstract machine, given by what one step may do. -/
inductive Runs {τ : Type} (Step : τ → α → β → τ → Prop) : τ → List α → List β → τ → Prop where
  | nil (x : τ) : Runs Step x [] [] x
  | cons {x y z : τ} {a : α} {b : β} {as : List α} {bs : List β} (head : Step x a b y)
      (tail : Runs Step y as bs z) : Runs Step x (a :: as) (b :: bs) z

/-- When every step on the inputs is one of the abstract machine, so is the run. -/
theorem run_simulates {τ : Type} {Step : τ → α → β → τ → Prop} {R : σ → τ → Prop} {as : List α}
    (hstep : ∀ s x a b s', a ∈ as → R s x → step s a = .ok (b, s') → ∃ y, Step x a b y ∧ R s' y)
    {s t : σ} {x : τ} {bs : List β} (hs : R s x) (h : run step s as = .ok (bs, t)) :
    ∃ y, Runs Step x as bs y ∧ R t y := by
  -- induction on the actions, with one step of the other side for each
  induction as generalizing s x bs with
  | nil =>
    cases h
    exact ⟨x, .nil x, hs⟩
  | cons a as ih =>
    obtain ⟨b, s', bs', ha, hrun, rfl⟩ := run_cons.mp h
    obtain ⟨y, hxy, hs'⟩ := hstep s x a b s' List.mem_cons_self hs ha
    obtain ⟨z, hyz, ht⟩ := ih
      (fun s x a b s' hmem => hstep s x a b s' (List.mem_cons_of_mem _ hmem)) hs' hrun
    exact ⟨z, .cons hxy hyz, ht⟩

/-- What every step keeps, a run that succeeds keeps. -/
theorem run_keeps {P : σ → Prop} (hstep : ∀ s a b s', P s → step s a = .ok (b, s') → P s')
    {s t : σ} {as : List α} {bs : List β} (hs : P s) (h : run step s as = .ok (bs, t)) : P t := by
  -- the abstract machine with one state, which takes every step
  obtain ⟨-, -, ht⟩ := @run_simulates σ α β ε step Unit (fun _ _ _ _ => True) (fun s _ => P s) as
    (fun s _ a b s' _ hs hok => ⟨(), trivial, hstep s a b s' hs hok⟩) s t () bs hs h
  exact ht

/-! ## Runs that do not fail -/

/-- `C` holds before every step of the run from `s`, as far as the run gets. -/
def Meets (step : σ → α → Except ε (β × σ)) (C : σ → α → Prop) : σ → List α → Prop
  | _, [] => True
  | s, a :: as => C s a ∧ ∀ b s', step s a = .ok (b, s') → Meets step C s' as

/-- Every step of the run from `s` returns, and `Q` holds of each. -/
def Steps (step : σ → α → Except ε (β × σ)) (Q : σ → α → β → Prop) : σ → List α → Prop
  | _, [] => True
  | s, a :: as => ∃ b s', step s a = .ok (b, s') ∧ Q s a b ∧ Steps step Q s' as

/-- A run whose steps all meet a condition under which a step returns and keeps
    `P` returns from every step. -/
theorem steps_of_meets {P : σ → Prop} {C : σ → α → Prop} {Q : σ → α → β → Prop} {as : List α}
    (hstep : ∀ s a, P s → C s a → ∃ b s', step s a = .ok (b, s') ∧ Q s a b ∧ P s') {s : σ}
    (hs : P s) (h : Meets step C s as) : Steps step Q s as := by
  induction as generalizing s with
  | nil => trivial
  | cons a as ih =>
    obtain ⟨hC, hrest⟩ := h
    obtain ⟨b, s', ha, hQ, hs'⟩ := hstep s a hs hC
    exact ⟨b, s', ha, hQ, ih hs' (hrest b s' ha)⟩

/-- What every step keeps that meets the condition, a run that succeeds keeps. -/
theorem Meets.run_keeps {P : σ → Prop} {C : σ → α → Prop} {as : List α}
    (hstep : ∀ s a b s', P s → C s a → step s a = .ok (b, s') → P s') {s t : σ} {bs : List β}
    (hs : P s) (h : Meets step C s as) (hrun : run step s as = .ok (bs, t)) : P t := by
  induction as generalizing s bs with
  | nil =>
    cases hrun
    exact hs
  | cons a as ih =>
    obtain ⟨hC, hrest⟩ := h
    obtain ⟨b, s', bs', ha, htail, rfl⟩ := run_cons.mp hrun
    exact ih (hstep s a b s' hs hC ha) (hrest b s' ha) htail

/-- When every step returns, the run does. -/
theorem Steps.run_ok {Q : σ → α → β → Prop} {s : σ} {as : List α} (h : Steps step Q s as) :
    ∃ bs t, run step s as = .ok (bs, t) := by
  induction as generalizing s with
  | nil => exact ⟨[], s, rfl⟩
  | cons a as ih =>
    obtain ⟨b, s', ha, -, hrest⟩ := h
    obtain ⟨bs, t, hrun⟩ := ih hrest
    exact ⟨b :: bs, t, run_cons.mpr ⟨b, s', bs, ha, hrun, rfl⟩⟩

end Run
