import Tlibc.Spec.Sh

/-!
# The segments of a command line

`system` cuts a command line at its separators and passes each segment on, empty ones
too. `system_single` compares the first word of a segment with the names of its own
commands, so there has to be one.

* `scan_segment`: what the loop of `system_single` makes of any tokens
* `handled_iff`: the command lines whose segments are all handled without a null pointer
-/

namespace Tlibc.Sh

/-! ## Tokens and arrays -/

/-- The token announces the target of a redirection. -/
def isOperator (t : List UInt8) : Bool := t = [0x3c] || t = [0x3e] || t = [0x32, 0x3e]

/-- An operator is the one of some redirection. -/
private theorem isOperator_iff {t : List UInt8} :
    isOperator t = true ↔ ∃ r, t = Redir.operator r := by
  simp only [isOperator, Bool.or_eq_true, decide_eq_true_eq]
  constructor
  · intro h
    rcases h with (rfl | rfl) | rfl
    · exact ⟨.stdin, rfl⟩
    · exact ⟨.stdout, rfl⟩
    · exact ⟨.stderr, rfl⟩
  · intro h
    obtain ⟨r, rfl⟩ := h
    cases r <;> simp [Redir.operator]

/-- How much of the arrays is taken: the bars so far, the words of the stage, the bytes
    of the buffer, and whether the next token is a target. -/
structure Place where
  stage : Nat
  words : Nat
  used : Nat
  target : Bool

namespace Place

/-- In front of the first token. -/
def start : Place := ⟨0, 0, 0, false⟩

/-- There is room for the token. Only an operator that is no target goes into no job. -/
def Fits (p : Place) (t : List UInt8) : Prop :=
  p.used + t.length < bufSize ∧
    if t = bar then p.stage + (if p.target then 1 else 0) < 4
    else if isOperator t then p.target = true → p.stage < 4
    else p.stage < 4 ∧ (p.target = true ∨ p.words < 64)

/-- Behind one token more. -/
def next (p : Place) (t : List UInt8) : Place where
  stage := if t = bar then p.stage + 1 else p.stage
  words := if t = bar then 0 else if isOperator t || p.target then p.words else p.words + 1
  used := p.used + t.length + 1
  target := isOperator t

end Place

/-- There is room for all tokens, one after the other. -/
def Fits : Place → List (List UInt8) → Prop
  | _, [] => True
  | p, t :: ts => p.Fits t ∧ Fits (p.next t) ts

/-- The first word in front of the first bar. -/
def firstWord : Bool → List (List UInt8) → Option (List UInt8)
  | _, [] => none
  | target, t :: ts =>
    if t = bar then none
    else if isOperator t then firstWord true ts
    else if target then firstWord false ts
    else some t

/-- All tokens are bars, operators and targets. -/
def Wordless : Bool → List (List UInt8) → Prop
  | _, [] => True
  | target, t :: ts => (t = bar ∨ isOperator t = true ∨ target = true) ∧ Wordless (isOperator t) ts

/-- Tokens without a word have no first word. -/
private theorem firstWord_wordless {target : Bool} {ts : List (List UInt8)}
    (h : Wordless target ts) :
    firstWord target ts = none := by
  -- induction on the tokens: a word is a target, or else it ends the search
  induction ts generalizing target with
  | nil => rfl
  | cons t ts ih =>
    obtain ⟨ht, hts⟩ := h
    rw [firstWord]
    split
    case isTrue => rfl
    case isFalse hbar =>
      cases hop : isOperator t with
      | true =>
        rw [hop] at hts
        exact ih hts
      | false =>
        rw [hop] at hts
        have htarget : target = true := by simpa [hbar, hop] using ht
        rw [if_neg Bool.false_ne_true, if_pos htarget]
        exact ih hts

/-! ## Tokens that do not fit -/

section Token

variable {s : Parse} {t : List UInt8} {old : Nat} {r r' : Redir}

/-- A job behind the fourth is outside of `jobs`. -/
private theorem setJob_error (hcur : ¬ s.cur < 4) (f : Job → Job) :
    s.setJob f = .error .outOfBounds :=
  if_neg hcur

/-- A token that does not fit is stored beyond the buffer. -/
private theorem takeToken_full (hroom : ¬ s.buf.length + t.length < bufSize) :
    takeToken s t = .error .outOfBounds := by
  have hstore : s.store t = .error .outOfBounds := if_neg hroom
  rw [takeToken, hstore, Run.error_bind]

/-- Behind the fourth job a bar faults. -/
private theorem takePipe_error (hcur : ¬ s.cur < 4) : takePipe bar s = .error .outOfBounds := by
  rw [takePipe, if_pos (by decide), setJob_error hcur, Run.error_bind]

/-- So does a target. -/
private theorem takeTarget_error {isArgv : Bool} (h : s.pending r = true) (hcur : ¬ s.cur < 4) :
    takeTarget old r (s, isArgv) = .error .outOfBounds := by
  rw [takeTarget, if_pos h]
  exact congrArg (· >>= fun s => pure (s, false))
    (setJob_error (s := { s with pending := Function.update s.pending r false }) hcur _)

/-- A target that has no job. -/
private theorem takeTargets_error {isArgv : Bool}
    (h : ∀ r', s.pending r' = decide (some r' = some r))
    (hcur : ¬ s.cur < 4) : takeTargets old (s, isArgv) = .error .outOfBounds := by
  have hself : takeTarget old r (s, isArgv) = .error .outOfBounds :=
    takeTarget_error (by rw [h, decide_eq_true rfl]) hcur
  have hother : ∀ r', r' ≠ r → takeTarget old r' (s, isArgv) = .ok (s, isArgv) := by
    intro r' hne
    apply takeTarget_other
    rw [h, decide_eq_false (mt Option.some.inj hne)]
  rw [takeTargets]
  cases r with
  | stdin => rw [hself, Run.error_bind]
  | stdout => rw [hother .stdin (by decide), Run.ok_bind, hself, Run.error_bind]
  | stderr =>
    rw [hother .stdin (by decide), Run.ok_bind, hother .stdout (by decide), Run.ok_bind, hself]

/-- So does an argument, and the 65th one of any job. -/
private theorem takeArg_error (h : ¬ (s.cur < 4 ∧ s.narg < 64)) :
    takeArg old (s, true) = .error .outOfBounds := by
  rw [takeArg, if_pos rfl]
  by_cases hcur : s.cur < 4
  · -- the job is full, so the word is not its first
    have hnarg : ¬ s.narg < 64 := fun hnarg => h ⟨hcur, hnarg⟩
    simp only [if_neg (show ¬ s.narg = 0 by omega)]
    show (if s.narg < 64 then _ else _) = _
    rw [if_neg hnarg]
  · by_cases hnarg : s.narg = 0
    · simp only [if_pos hnarg, setJob_error hcur, Run.error_bind]
    · simp only [if_neg hnarg]
      show (if s.narg < 64 then _ else _) = _
      split
      · rw [setJob_error hcur, Run.error_bind]
      · rfl

/-! ### Bars and operators that are targets -/

/-- The state behind a bar. -/
def Parse.nextJob (s : Parse) : Parse :=
  { s.update (fun job => { job with pipe := false }) with
    jobcnt := s.jobcnt + 1, cur := s.cur + 1, narg := 0 }

/-- The state behind the target of `r`. -/
def Parse.redirect (s : Parse) (r : Redir) (old : Nat) : Parse :=
  Parse.update { s with pending := fun _ => false }
    (fun job => { job with fo := Function.update job.fo r (some old) })

/-- A bar goes on to the next job. -/
private theorem takePipe_nextJob (hcur : s.cur < 4) : takePipe bar s = .ok (s.nextJob, false) :=
  takePipe_bar hcur

/-- A bar behind an operator is its target, in the next job. -/
private theorem takeToken_bar_target (hpend : ∀ r', s.pending r' = decide (some r' = some r))
    (hcur : s.cur + 1 < 4) (hroom : s.buf.length + bar.length < bufSize) :
    takeToken s bar = .ok ((s.push bar).nextJob.redirect r s.buf.length) := by
  rw [takeToken_eq bar_plain hroom, takePipe_nextJob (s := s.push bar) (Nat.lt_of_succ_lt hcur),
    Run.ok_bind, takeTargets_pending (s := (s.push bar).nextJob) hpend hcur, Run.ok_bind,
    takeOperators_other bar_plain fun r => (operator_ne_bar r).symm, takeArg_false]
  rfl

/-- So is a second operator, which is pending itself then. -/
private theorem takeToken_operator_target (hpend : ∀ r', s.pending r' = decide (some r' = some r))
    (hcur : s.cur < 4) (hroom : s.buf.length + r'.operator.length < bufSize) :
    takeToken s r'.operator = .ok
      { (s.push r'.operator).redirect r s.buf.length with
        pending := fun r => decide (some r = some r') } := by
  have hset : Function.update (fun _ => false) r' true = fun r => decide (some r = some r') := by
    funext r
    by_cases hr : r = r'
    · rw [hr, Function.update_self, decide_eq_true rfl]
    · rw [Function.update_of_ne hr, decide_eq_false (mt Option.some.inj hr)]
  rw [takeToken_eq (operator_plain r') hroom, takePipe_other (operator_plain r') (operator_ne_bar r'),
    Run.ok_bind, takeTargets_pending (s := s.push r'.operator) hpend hcur, Run.ok_bind,
    takeOperators_self, takeArg_false, ← hset]
  rfl

/-! ### Tokens without a job or an argument -/

/-- Behind the fourth job a bar faults, as a token. -/
private theorem takeToken_bar_error (hcur : ¬ s.cur < 4) :
    takeToken s bar = .error .outOfBounds := by
  by_cases hroom : s.buf.length + bar.length < bufSize
  · rw [takeToken_eq bar_plain hroom, takePipe_error (s := s.push bar) hcur, Run.error_bind]
  · exact takeToken_full hroom

/-- As a target it does so behind the third. -/
private theorem takeToken_bar_target_error (hpend : ∀ r', s.pending r' = decide (some r' = some r))
    (hcur : ¬ s.cur + 1 < 4) : takeToken s bar = .error .outOfBounds := by
  by_cases hlast : s.cur < 4
  case neg => exact takeToken_bar_error hlast
  by_cases hroom : s.buf.length + bar.length < bufSize
  case neg => exact takeToken_full hroom
  rw [takeToken_eq bar_plain hroom, takePipe_nextJob (s := s.push bar) hlast, Run.ok_bind,
    takeTargets_error (s := (s.push bar).nextJob) hpend hcur, Run.error_bind]

/-- A token other than a bar, as the target of `r`. -/
private theorem takeToken_target_error (ht : ∀ c ∈ t, c ∉ special) (hne : t ≠ bar)
    (hpend : ∀ r', s.pending r' = decide (some r' = some r)) (hcur : ¬ s.cur < 4) :
    takeToken s t = .error .outOfBounds := by
  by_cases hroom : s.buf.length + t.length < bufSize
  · rw [takeToken_eq ht hroom, takePipe_other ht hne, Run.ok_bind,
      takeTargets_error (s := s.push t) hpend hcur, Run.error_bind]
  · exact takeToken_full hroom

/-- A word faults where there is no room for it. -/
private theorem takeToken_word_error {w : Word} (hpend : ∀ r, s.pending r = false)
    (h : ¬ (s.cur < 4 ∧ s.narg < 64)) : takeToken s w.chars = .error .outOfBounds := by
  by_cases hroom : s.buf.length + w.chars.length < bufSize
  · rw [takeToken_eq w.plain hroom, takePipe_other w.plain w.ne_bar, Run.ok_bind,
      takeTargets_none (x := (s.push w.chars, true)) hpend, Run.ok_bind,
      takeOperators_other w.plain w.ne_operator]
    exact takeArg_error (s := s.push w.chars) h
  · exact takeToken_full hroom

end Token

/-! ## Any token -/

/-- A pointer into the buffer is null, or points to the word. -/
def Points (buf : List UInt8) (o : Option Nat) (exe : Option (List UInt8)) : Prop :=
  Option.Rel (fun off w => Stored buf off w ∧ ∀ c ∈ w, c ∉ special) o exe

/-- A pointer stays valid when the buffer grows. -/
private theorem Points.append {buf : List UInt8} {o : Option Nat} {exe : Option (List UInt8)}
    (h : Points buf o exe) (more : List UInt8) : Points (buf ++ more) o exe := by
  cases h with
  | none => exact Option.Rel.none
  | some h => exact Option.Rel.some ⟨h.1.append more, h.2⟩

/-- The parse is at a place, and `exe` is the first word of the first stage so far. -/
structure Tracks (p : Place) (exe : Option (List UInt8)) (s : Parse) : Prop where
  stage : s.cur = p.stage
  words : s.narg = p.words
  used : s.buf.length = p.used
  pending : ∃ waits : Option Redir, waits.isSome = p.target ∧
    ∀ r, s.pending r = decide (some r = waits)
  points : Points s.buf (s.jobs 0).exe exe
  first : s.cur = 0 → (s.narg = 0 ↔ exe = none)

/-- In front of the first token. -/
theorem Tracks.start : Tracks .start none .start :=
  ⟨rfl, rfl, rfl, ⟨none, rfl, fun _ => rfl⟩, Option.Rel.none, fun _ => iff_of_true rfl rfl⟩

section Step

variable {p : Place} {exe : Option (List UInt8)} {s : Parse} {t : List UInt8}

/-- A token takes its characters and a NUL. -/
private theorem push_length (s : Parse) (t : List UInt8) :
    (s.push t).buf.length = s.buf.length + t.length + 1 := by
  rw [Parse.push, List.length_append, List.length_append]
  rfl

/-- What is done to a job other than to its words leaves the executable alone. -/
private theorem update_exe (s : Parse) {f : Job → Job} (hf : ∀ job, (f job).exe = job.exe) :
    ((s.update f).jobs 0).exe = (s.jobs 0).exe := by
  rw [Parse.update]
  by_cases hcur : 0 = s.cur
  · rw [← hcur]
    simp only [Function.update_self, hf]
  · simp only [Function.update_of_ne hcur]

/-- The program of the first job does not change with the current one. -/
private theorem nextJob_exe (s : Parse) : (s.nextJob.jobs 0).exe = (s.jobs 0).exe :=
  update_exe s (f := fun job => { job with pipe := false }) fun _ => rfl

/-- Nor does a redirection change it. -/
private theorem redirect_exe (s : Parse) (r : Redir) (old : Nat) :
    ((s.redirect r old).jobs 0).exe = (s.jobs 0).exe :=
  update_exe { s with pending := fun _ => false }
    (f := fun job => { job with fo := Function.update job.fo r (some old) }) fun _ => rfl

/-- A bar. When it is a target too, the target belongs to the next job. -/
private theorem Tracks.bar (h : Tracks p exe s) :
    (p.Fits Sh.bar → ∃ s', takeToken s Sh.bar = .ok s' ∧ Tracks (p.next Sh.bar) exe s') ∧
      (¬ p.Fits Sh.bar → takeToken s Sh.bar = .error .outOfBounds) := by
  obtain ⟨waits, htarget, hpend⟩ := h.pending
  have hstage := h.stage
  have hused := h.used
  have hlength := push_length s Sh.bar
  have hexe := (h.points.append Sh.bar).append [0]
  -- the bytes of the bar, and its place
  rw [hused] at hlength
  rw [Place.Fits, if_pos rfl, ← htarget, ← hstage, ← hused]
  cases waits with
  | none =>
    constructor
    · intro hfits
      refine ⟨_, takeToken_bar hpend hfits.2 hfits.1, ?_⟩
      refine ⟨congrArg (· + 1) hstage, rfl, hlength, ⟨none, rfl, hpend⟩, ?_, ?_⟩
      · show Points _ ((s.push Sh.bar).nextJob.jobs 0).exe exe
        rw [nextJob_exe]
        exact hexe
      · exact fun hzero => absurd hzero (Nat.succ_ne_zero _)
    · intro hfits
      by_cases hcur : s.cur < 4
      · exact takeToken_full fun hroom => hfits ⟨hroom, hcur⟩
      · exact takeToken_bar_error hcur
  | some r =>
    constructor
    · intro hfits
      refine ⟨_, takeToken_bar_target hpend hfits.2 hfits.1, ?_⟩
      refine ⟨congrArg (· + 1) hstage, rfl, hlength, ⟨none, rfl, fun _ => rfl⟩, ?_, ?_⟩
      · rw [redirect_exe, nextJob_exe]
        exact hexe
      · exact fun hzero => absurd hzero (Nat.succ_ne_zero _)
    · intro hfits
      by_cases hcur : s.cur + 1 < 4
      · exact takeToken_full fun hroom => hfits ⟨hroom, hcur⟩
      · exact takeToken_bar_target_error hpend hcur

/-- An operator. Only when it is a target does it need a job. -/
private theorem Tracks.operator (h : Tracks p exe s) (r' : Redir) :
    (p.Fits r'.operator → ∃ s', takeToken s r'.operator = .ok s' ∧
        Tracks (p.next r'.operator) exe s') ∧
      (¬ p.Fits r'.operator → takeToken s r'.operator = .error .outOfBounds) := by
  obtain ⟨waits, htarget, hpend⟩ := h.pending
  have hstage := h.stage
  have hused := h.used
  have hlength := push_length s r'.operator
  have hpoints := (h.points.append r'.operator).append [0]
  have hbar := operator_ne_bar r'
  have hop : isOperator r'.operator = true := isOperator_iff.mpr ⟨r', rfl⟩
  -- an operator takes room in the buffer only
  have hnext : p.next r'.operator = ⟨p.stage, p.words, p.used + r'.operator.length + 1, true⟩ := by
    simp only [Place.next, if_neg hbar, hop, Bool.true_or, if_true]
  rw [hused] at hlength
  rw [Place.Fits, if_neg hbar, if_pos hop, ← htarget, ← hstage, ← hused, hnext]
  cases waits with
  -- no redirection is pending, so that only the buffer may be too small
  | none =>
    constructor
    · intro hfits
      refine ⟨_, takeToken_operator hpend hfits.1, ?_⟩
      refine ⟨hstage, h.words, hlength, ⟨some r', rfl, fun r => ?_⟩, hpoints, h.first⟩
      -- this redirection is pending now
      show Function.update s.pending r' true r = _
      by_cases hr : r = r'
      · rw [hr, Function.update_self, decide_eq_true rfl]
      · rw [Function.update_of_ne hr, hpend, decide_eq_false (mt Option.some.inj hr)]
        rfl
    · intro hfits
      exact takeToken_full fun hroom => hfits ⟨hroom, fun hnone => absurd hnone Bool.false_ne_true⟩
  | some r =>
    -- one is pending, whose target the operator becomes
    constructor
    · intro hfits
      refine ⟨_, takeToken_operator_target hpend (hfits.2 rfl) hfits.1, ?_⟩
      refine ⟨hstage, h.words, hlength, ⟨some r', rfl, fun _ => rfl⟩, ?_, h.first⟩
      show Points _ (((s.push r'.operator).redirect r s.buf.length).jobs 0).exe exe
      rw [redirect_exe]
      exact hpoints
    · intro hfits
      -- either the buffer is too small, or the job is outside of `jobs`
      by_cases hcur : s.cur < 4
      · exact takeToken_full fun hroom => hfits ⟨hroom, fun _ => hcur⟩
      · exact takeToken_target_error (operator_plain r') hbar hpend hcur

/-- Any other token behind an operator. -/
private theorem Tracks.target (h : Tracks p exe s) (w : Word) (htarget : p.target = true) :
    (p.Fits w.chars → ∃ s', takeToken s w.chars = .ok s' ∧ Tracks (p.next w.chars) exe s') ∧
      (¬ p.Fits w.chars → takeToken s w.chars = .error .outOfBounds) := by
  obtain ⟨waits, hwaits, hpend⟩ := h.pending
  have hstage := h.stage
  have hused := h.used
  have hlength := push_length s w.chars
  have hpoints := (h.points.append w.chars).append [0]
  -- a word is no operator, so it is the target
  have hop : isOperator w.chars = false := by
    rw [Bool.eq_false_iff]
    intro hop
    obtain ⟨r, hr⟩ := isOperator_iff.mp hop
    exact w.ne_operator r hr
  have hnext : p.next w.chars = ⟨p.stage, p.words, p.used + w.chars.length + 1, false⟩ := by
    simp only [Place.next, if_neg w.ne_bar, hop, htarget, Bool.or_true, if_true]
  rw [hused] at hlength
  rw [htarget] at hwaits
  -- the redirection that waits for it
  obtain ⟨r, rfl⟩ := Option.isSome_iff_exists.mp hwaits
  rw [Place.Fits, if_neg w.ne_bar, if_neg (by rw [hop]; exact Bool.false_ne_true), htarget,
    ← hstage, ← hused, hnext]
  constructor
  · intro hfits
    refine ⟨_, takeToken_target hpend hfits.2.1 hfits.1, ?_⟩
    refine ⟨hstage, h.words, hlength, ⟨none, rfl, fun _ => rfl⟩, ?_, h.first⟩
    show Points _ (((s.push w.chars).redirect r s.buf.length).jobs 0).exe exe
    rw [redirect_exe]
    exact hpoints
  · intro hfits
    -- either the buffer is too small, or the job is outside of `jobs`
    by_cases hcur : s.cur < 4
    · exact takeToken_full fun hroom => hfits ⟨hroom, hcur, .inl rfl⟩
    · exact takeToken_target_error w.plain w.ne_bar hpend hcur

/-- A word. In the first stage the first one is the executable. -/
theorem Tracks.word (h : Tracks p exe s) (w : Word) (htarget : p.target = false) :
    (p.Fits w.chars → ∃ s', takeToken s w.chars = .ok s' ∧
        Tracks (p.next w.chars) (if exe = none ∧ p.stage = 0 then some w.chars else exe) s') ∧
      (¬ p.Fits w.chars → takeToken s w.chars = .error .outOfBounds) := by
  obtain ⟨waits, hwaits, hpend⟩ := h.pending
  have hstage := h.stage
  have hused := h.used
  have hlength := push_length s w.chars
  have hpoints := (h.points.append w.chars).append [0]
  have hop : isOperator w.chars = false := by
    rw [Bool.eq_false_iff]
    intro hop
    obtain ⟨r, hr⟩ := isOperator_iff.mp hop
    exact w.ne_operator r hr
  have hnext : p.next w.chars = ⟨p.stage, p.words + 1, p.used + w.chars.length + 1, false⟩ := by
    simp only [Place.next, if_neg w.ne_bar, hop, htarget, Bool.or_false, Bool.false_eq_true,
      if_false]
  rw [hused] at hlength
  rw [htarget] at hwaits
  obtain rfl : waits = none := Option.isNone_iff_eq_none.mp (by rw [← Option.not_isSome, hwaits]; rfl)
  rw [Place.Fits, if_neg w.ne_bar, if_neg (by rw [hop]; exact Bool.false_ne_true), htarget,
    ← hstage, ← h.words, ← hused, hnext]
  constructor
  · intro hfits
    have hnarg : s.narg < 64 := by simpa using hfits.2.2
    refine ⟨_, takeToken_word hpend hfits.2.1 hnarg hfits.1, ?_⟩
    refine ⟨hstage, congrArg (· + 1) h.words, hlength, ⟨none, rfl, hpend⟩, ?_, ?_⟩
    · show Points _ (((s.push w.chars).update (Job.addArg s.narg s.buf.length)).jobs 0).exe _
      rw [Parse.update]
      by_cases hcur : s.cur = 0
      · have hself : (s.push w.chars).cur = 0 := hcur
        simp only [hself, Function.update_self, Job.addArg, hcur, and_true]
        by_cases hfirst : s.narg = 0
        · rw [if_pos hfirst, if_pos ((h.first hcur).mp hfirst)]
          exact Option.Rel.some ⟨stored_store s.buf w.chars, w.plain⟩
        · rw [if_neg hfirst, if_neg (mt (h.first hcur).mpr hfirst)]
          exact hpoints
      · -- a later stage
        have hother : (0 : Nat) ≠ (s.push w.chars).cur := Ne.symm hcur
        simp only [Function.update_of_ne hother, hcur, and_false, if_false]
        exact hpoints
    · intro hcur
      have hcur : s.cur = 0 := hcur
      refine iff_of_false (Nat.succ_ne_zero _) ?_
      by_cases hnone : exe = none
      · rw [if_pos ⟨hnone, hcur⟩]
        exact Option.some_ne_none _
      · rw [if_neg fun hboth => hnone hboth.1]
        exact hnone
  · intro hfits
    by_cases hcur : s.cur < 4 ∧ s.narg < 64
    · exact takeToken_full fun hroom => hfits ⟨hroom, hcur.1, .inr hcur.2⟩
    · exact takeToken_word_error hpend hcur

end Step

/-! ## A segment -/

/-- A token of any kind, and what is left of the first stage behind it. -/
theorem Tracks.token {p : Place} {exe : Option (List UInt8)} {s : Parse} {t : List UInt8}
    (h : Tracks p exe s) (hne : t ≠ []) (ht : ∀ c ∈ t, c ∉ special) (ts : List (List UInt8)) :
    ∃ exe', (p.Fits t → ∃ s', takeToken s t = .ok s' ∧ Tracks (p.next t) exe' s') ∧
      (¬ p.Fits t → takeToken s t = .error .outOfBounds) ∧
      (if exe' = none ∧ (p.next t).stage = 0 then firstWord (p.next t).target ts else exe') =
        if exe = none ∧ p.stage = 0 then firstWord p.target (t :: ts) else exe := by
  rw [firstWord]
  by_cases hbar : t = Sh.bar
  · subst hbar
    refine ⟨exe, h.bar.1, h.bar.2, ?_⟩
    have hstage : (p.next Sh.bar).stage ≠ 0 := Nat.succ_ne_zero _
    rw [if_neg fun hboth => hstage hboth.2, if_pos rfl]
    split
    case isTrue hnone => exact hnone.1
    case isFalse => rfl
  have hstage : (p.next t).stage = p.stage := if_neg hbar
  rw [if_neg hbar, hstage]
  by_cases hop : isOperator t = true
  · obtain ⟨r, rfl⟩ := isOperator_iff.mp hop
    refine ⟨exe, (h.operator r).1, (h.operator r).2, ?_⟩
    rw [if_pos hop]
    show (if _ then firstWord (isOperator r.operator) ts else _) = _
    rw [hop]
  -- a word, or the target of an operator
  let w : Word := ⟨t, hne, ht, hbar, fun r hr => hop (isOperator_iff.mpr ⟨r, hr⟩)⟩
  have hnext : (p.next t).target = false := Bool.eq_false_iff.mpr hop
  rw [if_neg hop, hnext]
  cases htarget : p.target with
  | true => exact ⟨exe, (h.target w htarget).1, (h.target w htarget).2, by rw [if_pos rfl]⟩
  | false =>
    refine ⟨_, (h.word w htarget).1, (h.word w htarget).2, ?_⟩
    rw [if_neg Bool.false_ne_true]
    by_cases hfirst : exe = none ∧ p.stage = 0
    · rw [if_pos hfirst, if_neg fun hboth => Option.some_ne_none _ hboth.1]
    · rw [if_neg hfirst, if_neg hfirst]

/-- The loop over tokens without blanks and separators: it runs out of an array, or the
    executable of the first job points to the first word. -/
theorem Tracks.run {p : Place} {exe : Option (List UInt8)} {s : Parse} (h : Tracks p exe s)
    {ts : List (List UInt8)} (hts : ∀ t ∈ ts, t ≠ [] ∧ ∀ c ∈ t, c ∉ special) :
    (Fits p ts → ∃ s', ts.foldlM takeToken s = .ok s' ∧ Points s'.buf (s'.jobs 0).exe
        (if exe = none ∧ p.stage = 0 then firstWord p.target ts else exe)) ∧
      (¬ Fits p ts → ts.foldlM takeToken s = .error .outOfBounds) := by
  induction ts generalizing p exe s with
  | nil =>
    refine ⟨fun _ => ⟨s, rfl, ?_⟩, fun hfits => absurd trivial hfits⟩
    have hpoints := h.points
    split
    case isTrue hnone =>
      rw [hnone.1] at hpoints
      exact hpoints
    case isFalse => exact hpoints
  | cons t ts ih =>
    obtain ⟨ht, hts⟩ := List.forall_mem_cons.mp hts
    -- the step, and what is left of the first stage behind the token
    obtain ⟨exe', hstep, herror, hfirst⟩ : ∃ exe',
        (p.Fits t → ∃ s', takeToken s t = .ok s' ∧ Tracks (p.next t) exe' s') ∧
        (¬ p.Fits t → takeToken s t = .error .outOfBounds) ∧
        (if exe' = none ∧ (p.next t).stage = 0 then firstWord (p.next t).target ts else exe') =
          if exe = none ∧ p.stage = 0 then firstWord p.target (t :: ts) else exe :=
      h.token ht.1 ht.2 ts
    constructor
    · intro hfits
      obtain ⟨s₁, hs₁, htracks⟩ := hstep hfits.1
      obtain ⟨s₂, hs₂, hpoints⟩ := (ih htracks hts).1 hfits.2
      refine ⟨s₂, ?_, hfirst ▸ hpoints⟩
      rw [List.foldlM_cons, hs₁]
      exact hs₂
    · intro hfits
      rw [List.foldlM_cons]
      by_cases hfit : p.Fits t
      · obtain ⟨s₁, hs₁, htracks⟩ := hstep hfit
        rw [hs₁]
        exact (ih htracks hts).2 fun hrest => hfits ⟨hfit, hrest⟩
      · rw [herror hfit]
        rfl

/-- The tokens of the first `stop` characters of a command. -/
def segmentTokens (cmd : List UInt8) (stop : Nat) : List (List UInt8) :=
  Tokens.tokens (contains blank) (cmd.take stop)

/-- A character that is no blank and does not end the command is plain. -/
private theorem not_special {c : UInt8} (hblank : contains blank c = false)
    (heoc : contains eoc c = false) :
    c ∉ special := by
  simp only [contains, blank, eoc, special, Bool.or_eq_false_iff, decide_eq_false_iff_not,
    List.contains_eq_mem, List.mem_cons, List.not_mem_nil, or_false, not_or] at hblank heoc ⊢
  exact ⟨hblank.1, hblank.2.1, hblank.2.2.1, hblank.2.2.2.1, hblank.2.2.2.2, heoc.2.2.1, heoc.2.2.2⟩

section Segment

variable {cmd : List UInt8} {stop : Nat}

/-- So the tokens of a command are made of plain characters. -/
theorem segmentTokens_plain (heoc : ∀ c ∈ cmd.take stop, contains eoc c = false) :
    ∀ t ∈ segmentTokens cmd stop, t ≠ [] ∧ ∀ c ∈ t, c ∉ special := by
  intro t ht
  obtain ⟨hne, hchars⟩ := Tokens.mem_tokens ht
  exact ⟨hne, fun c hc => not_special (hchars c hc).1 (heoc c (hchars c hc).2)⟩

variable (hcmd : cmd ≠ []) (heoc : ∀ c ∈ cmd.take stop, contains eoc c = false)
include hcmd heoc

/-- The tokens do not fit. -/
private theorem systemSingle_full (hfits : ¬ Fits .start (segmentTokens cmd stop)) :
    systemSingle cmd stop = .error .outOfBounds := by
  rw [systemSingle, if_neg hcmd, scan_eq]
  exact congrArg (· >>= _) ((Tracks.start.run (segmentTokens_plain heoc)).2 hfits)

/-- There is no word to compare. -/
private theorem systemSingle_null (hfits : Fits .start (segmentTokens cmd stop))
    (hnone : firstWord false (segmentTokens cmd stop) = none) :
    systemSingle cmd stop = .error .nullPointer := by
  obtain ⟨s, hs, hpoints⟩ := (Tracks.start.run (segmentTokens_plain heoc)).1 hfits
  rw [if_pos ⟨rfl, rfl⟩, Place.start, hnone] at hpoints
  rw [systemSingle, if_neg hcmd, scan_eq]
  refine (congrArg (· >>= _) hs).trans ?_
  cases hexe : (s.jobs 0).exe with
  | none =>
    rw [Run.ok_bind]
    simp only [hexe]
  | some off =>
    rw [hexe] at hpoints
    cases hpoints

/-- There is one, and it decides the call. -/
private theorem systemSingle_word (hfits : Fits .start (segmentTokens cmd stop)) {w : List UInt8}
    (hw : firstWord false (segmentTokens cmd stop) = some w) :
    ∃ call, systemSingle cmd stop = .ok (some call) ∧ (call = .exit ↔ w ∈ [exitName, qName]) := by
  obtain ⟨s, hs, hpoints⟩ := (Tracks.start.run (segmentTokens_plain heoc)).1 hfits
  rw [if_pos ⟨rfl, rfl⟩, Place.start, hw] at hpoints
  obtain ⟨off, hexe, hstored, hplain⟩ :
      ∃ off, (s.jobs 0).exe = some off ∧ Stored s.buf off w ∧ ∀ c ∈ w, c ∉ special := by
    cases hexe : (s.jobs 0).exe with
    | none =>
      rw [hexe] at hpoints
      cases hpoints
    | some off =>
      rw [hexe] at hpoints
      cases hpoints with
      | some h => exact ⟨off, rfl, h⟩
  have hstring : stringAt s.buf off = w := hstored.stringAt fun c hc => plain_ne_zero (hplain c hc)
  -- the comparisons are comparisons of the word
  have hname : ∀ name ∈ builtins, (strcmp name w = 0 ↔ name = w) := fun name hin =>
    strcmp_plain (plain_of_all (builtins_plain name hin)) hplain
  have hcd := hname cdName (by decide)
  have hexit := hname exitName (by decide)
  have hq := hname qName (by decide)
  have hsingle : systemSingle cmd stop =
      if cdName = w then .ok (some (.chdir (((s.jobs 0).argv 1).map (stringAt s.buf))))
      else if exitName = w ∨ qName = w then .ok (some .exit)
      else if strcmp pidName w = 0 then .ok (some .getpid)
      else .ok (some (.execJob s.jobs s.jobcnt s.buf)) := by
    rw [systemSingle, if_neg hcmd, scan_eq]
    refine (congrArg (· >>= _) hs).trans ?_
    rw [Run.ok_bind]
    simp only [hexe, hstring, hcd, hexit, hq]
    rfl
  have hmem : w ∈ [exitName, qName] ↔ exitName = w ∨ qName = w := by
    simp only [List.mem_cons, List.not_mem_nil, or_false, eq_comm]
  rw [hsingle, hmem]
  by_cases h₁ : cdName = w
  · have hother : ¬ (exitName = w ∨ qName = w) := by
      rw [← h₁]
      decide
    rw [if_pos h₁]
    exact ⟨_, rfl, iff_of_false Call.noConfusion hother⟩
  by_cases h₂ : exitName = w ∨ qName = w
  · rw [if_neg h₁, if_pos h₂]
    exact ⟨_, rfl, iff_of_true rfl h₂⟩
  rw [if_neg h₁, if_neg h₂]
  split
  · exact ⟨_, rfl, iff_of_false Call.noConfusion h₂⟩
  · exact ⟨_, rfl, iff_of_false Call.noConfusion h₂⟩

end Segment

/-! ## The segments `system` passes on -/

/-- Where the first segment ends. -/
def segmentLength (cmd : List UInt8) : Nat := (cmd.takeWhile fun c => !contains eoc c).length

/-- `system` passes the first `stop` characters of `text` to `system_single`. -/
inductive Passed : List UInt8 → List UInt8 → Nat → Prop where
  | first {cmd : List UInt8} (h : cmd ≠ []) : Passed cmd cmd (segmentLength cmd)
  | later {cmd text : List UInt8} {stop : Nat} {call : Option Call} (h : cmd ≠ [])
    (hret : systemSingle cmd (segmentLength cmd) = .ok call) (hexit : call ≠ some .exit)
    (hrest : Passed (cmd.drop (segmentLength cmd + 1)) text stop) : Passed cmd text stop

/-- The tokens of the segments of a command line. -/
def segments (cmd : List UInt8) : List (List (List UInt8)) :=
  match cmd with
  | [] => []
  | c :: cmd =>
    segmentTokens (c :: cmd) (segmentLength (c :: cmd)) ::
      segments ((c :: cmd).drop (segmentLength (c :: cmd) + 1))
termination_by cmd.length
decreasing_by simp only [List.length_drop, List.length_cons]; omega

/-- The empty command is not passed. -/
private theorem not_passed_nil {text : List UInt8} {stop : Nat} : ¬ Passed [] text stop := by
  intro h
  cases h with
  | first h => exact h rfl
  | later h => exact h rfl

/-- A fault in the first command is one of `system`. -/
private theorem system_error {c : UInt8} {cmd : List UInt8} {f : Fault}
    (h : systemSingle (c :: cmd) (segmentLength (c :: cmd)) = .error f) :
    (system (c :: cmd)).fault = some f := by
  unfold segmentLength at h
  rw [system]
  simp only [h]

/-- `exit` ends `system` without one. -/
private theorem system_exit {c : UInt8} {cmd : List UInt8}
    (h : systemSingle (c :: cmd) (segmentLength (c :: cmd)) = .ok (some .exit)) :
    (system (c :: cmd)).fault = none := by
  unfold segmentLength at h
  rw [system]
  simp only [h]

/-- Any other call leads to what is behind the separator. -/
private theorem system_next {c : UInt8} {cmd : List UInt8} {call : Option Call}
    (h : systemSingle (c :: cmd) (segmentLength (c :: cmd)) = .ok call)
    (hexit : call ≠ some .exit) : (system (c :: cmd)).fault =
      (system ((c :: cmd).drop (segmentLength (c :: cmd) + 1))).fault := by
  unfold segmentLength at h ⊢
  rw [system]
  simp only [h]

/-- A call of `system` ends in a fault exactly when a segment it passes on does. -/
private theorem system_fault_iff (cmd : List UInt8) (f : Fault) : (system cmd).fault = some f ↔
    ∃ text stop, Passed cmd text stop ∧ systemSingle text stop = .error f := by
  induction cmd using segments.induct with
  | case1 =>
    rw [system]
    refine iff_of_false (Option.some_ne_none f).symm ?_
    intro h
    obtain ⟨text, stop, hpassed, -⟩ := h
    exact not_passed_nil hpassed
  | case2 c cmd ih =>
    have hne := List.cons_ne_nil c cmd
    -- the first segment, and those behind it
    have hcases : (∃ text stop, Passed (c :: cmd) text stop ∧ systemSingle text stop = .error f) ↔
        systemSingle (c :: cmd) (segmentLength (c :: cmd)) = .error f ∨
          ∃ call, systemSingle (c :: cmd) (segmentLength (c :: cmd)) = .ok call ∧
            call ≠ some .exit ∧
            ∃ text stop, Passed ((c :: cmd).drop (segmentLength (c :: cmd) + 1)) text stop ∧
              systemSingle text stop = .error f := by
      constructor
      · intro h
        obtain ⟨text, stop, hpassed, herror⟩ := h
        cases hpassed with
        | first => exact .inl herror
        | later _ hret hexit hrest => exact .inr ⟨_, hret, hexit, text, stop, hrest, herror⟩
      · intro h
        rcases h with herror | ⟨call, hret, hexit, text, stop, hrest, herror⟩
        · exact ⟨_, _, .first hne, herror⟩
        · exact ⟨text, stop, .later hne hret hexit hrest, herror⟩
    rw [hcases, ← ih]
    cases hsingle : systemSingle (c :: cmd) (segmentLength (c :: cmd)) with
    | error f' =>
      rw [system_error hsingle]
      simp
    | ok call =>
      by_cases hexit : call = some .exit
      · rw [hexit] at hsingle ⊢
        rw [system_exit hsingle]
        simp
      · rw [system_next hsingle hexit]
        simp [hexit, segmentLength]

/-- Each segment has a word, and if it fits in the arrays it has one in front of its
    first bar. What is behind a segment that does not fit, or whose first word is
    `exit` or `q`, does not matter. -/
def HaveWords : List (List (List UInt8)) → Prop
  | [] => True
  | ts :: segs => ¬ Wordless false ts ∧
    (Fits .start ts → ∃ w, firstWord false ts = some w ∧ (w ∉ [exitName, qName] → HaveWords segs))

/-- No segment that is passed on makes `system_single` read through a null pointer, and
    one without words makes it do nothing. -/
structure Handled (cmd : List UInt8) : Prop where
  noNull : ∀ text stop, Passed cmd text stop → systemSingle text stop ≠ .error .nullPointer
  wordless : ∀ text stop, Passed cmd text stop → Wordless false (segmentTokens text stop) →
    systemSingle text stop = .ok none

/-- Inside a command no character ends it. -/
theorem segment_eoc (cmd : List UInt8) :
    ∀ c ∈ cmd.take (segmentLength cmd), contains eoc c = false := by
  have htake : cmd.take (segmentLength cmd) = cmd.takeWhile fun c => !contains eoc c :=
    List.prefix_iff_eq_take.mp (List.takeWhile_prefix _) |>.symm
  intro c hc
  rw [htake] at hc
  have hnot := List.all_eq_true.mp List.all_takeWhile c hc
  simpa using hnot

/-- Exactly the command lines whose segments have words are handled. -/
theorem handled_iff (cmd : List UInt8) : Handled cmd ↔ HaveWords (segments cmd) := by
  induction cmd using segments.induct with
  | case1 =>
    rw [segments]
    exact iff_of_true ⟨fun _ _ h => absurd h not_passed_nil, fun _ _ h => absurd h not_passed_nil⟩
      trivial
  | case2 c cmd ih =>
    have hne := List.cons_ne_nil c cmd
    have heoc := segment_eoc (c :: cmd)
    have hfirst := Passed.first hne
    rw [segments, HaveWords, ← ih]
    constructor
    · intro h
      refine ⟨fun hwordless => ?_, fun hfits => ?_⟩
      · -- without words the segment ends in a fault, one way or the other
        have hnothing := h.wordless _ _ hfirst hwordless
        by_cases hfits : Fits .start (segmentTokens (c :: cmd) (segmentLength (c :: cmd)))
        · rw [systemSingle_null hne heoc hfits (firstWord_wordless hwordless)] at hnothing
          cases hnothing
        · rw [systemSingle_full hne heoc hfits] at hnothing
          cases hnothing
      · cases hw : firstWord false (segmentTokens (c :: cmd) (segmentLength (c :: cmd))) with
        | none => exact absurd (systemSingle_null hne heoc hfits hw) (h.noNull _ _ hfirst)
        | some w =>
          refine ⟨w, rfl, fun hexit => ?_⟩
          obtain ⟨call, hret, hcall⟩ := systemSingle_word hne heoc hfits hw
          have hgo : some call ≠ some .exit := fun heq => hexit (hcall.mp (Option.some.inj heq))
          exact ⟨fun text stop hrest => h.noNull text stop (.later hne hret hgo hrest),
            fun text stop hrest => h.wordless text stop (.later hne hret hgo hrest)⟩
    · intro h
      obtain ⟨hwords, hfirstWord⟩ := h
      -- behind a segment that returned, the others are handled
      have hlater : ∀ call, systemSingle (c :: cmd) (segmentLength (c :: cmd)) = .ok call →
          call ≠ some .exit → Handled ((c :: cmd).drop (segmentLength (c :: cmd) + 1)) := by
        intro call hret hgo
        by_cases hfits : Fits .start (segmentTokens (c :: cmd) (segmentLength (c :: cmd)))
        · obtain ⟨w, hw, hrest⟩ := hfirstWord hfits
          obtain ⟨call', hret', hcall⟩ := systemSingle_word hne heoc hfits hw
          obtain rfl := Except.ok.inj (hret.symm.trans hret')
          exact hrest fun hexit => hgo (congrArg some (hcall.mpr hexit))
        · rw [systemSingle_full hne heoc hfits] at hret
          cases hret
      constructor
      · intro text stop hpassed
        cases hpassed with
        | first =>
          by_cases hfits : Fits .start (segmentTokens (c :: cmd) (segmentLength (c :: cmd)))
          · obtain ⟨w, hw, -⟩ := hfirstWord hfits
            obtain ⟨call, hret, -⟩ := systemSingle_word hne heoc hfits hw
            rw [hret]
            exact nofun
          · rw [systemSingle_full hne heoc hfits]
            exact fun heq => Fault.noConfusion (Except.error.inj heq)
        | later _ hret hgo hrest => exact (hlater _ hret hgo).noNull text stop hrest
      · intro text stop hpassed hwordless
        cases hpassed with
        | first => exact absurd hwordless hwords
        | later _ hret hgo hrest => exact (hlater _ hret hgo).wordless text stop hrest hwordless

/-- An empty line is a segment, and it has no word. -/
theorem newline_not_handled :
    (system [0x0a]).fault = some .nullPointer ∧ ¬ Handled [0x0a] := by
  have hpassed : Passed [0x0a] [0x0a] 0 := .first (List.cons_ne_nil _ _)
  have hnull : systemSingle [0x0a] 0 = .error .nullPointer :=
    systemSingle_null (List.cons_ne_nil _ _) (fun c hc => absurd hc List.not_mem_nil)
      (by rw [segmentTokens, List.take_zero, Tokens.tokens]; trivial)
      (by rw [segmentTokens, List.take_zero, Tokens.tokens]; rfl)
  exact ⟨(system_fault_iff _ _).mpr ⟨_, _, hpassed, hnull⟩,
    fun h => h.noNull _ _ hpassed hnull⟩

end Tlibc.Sh
