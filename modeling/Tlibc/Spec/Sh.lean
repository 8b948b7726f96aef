import Tlibc.Lib.Run
import Tlibc.Native.Sh

/-!
# What `system` makes of a command line

A command line is written from pipelines: their words and redirections with any blanks
between them, and a separator behind each pipeline.

* `system_calls`: for each pipeline there is one call of `exec_job`, with jobs that read as
  its stages
-/

namespace Tlibc.Sh

/-! ## Command lines -/

/-- NUL, the blanks and the separators. -/
def special : List UInt8 := [0x00, 0x20, 0x09, 0x0d, 0x0a, 0x3b, 0x26]

/-- A word, or the target of a redirection. -/
structure Word where
  chars : List UInt8
  ne_nil : chars ≠ []
  plain : ∀ c ∈ chars, c ∉ special
  ne_bar : chars ≠ bar
  ne_operator : ∀ r, chars ≠ Redir.operator r

/-- What a stage is made of. -/
inductive Item where
  | word (w : Word)
  | redir (r : Redir) (target : Word)

namespace Item

/-- The tokens that an item is written as. -/
def tokens : Item → List (List UInt8)
  | word w => [w.chars]
  | redir r target => [r.operator, target.chars]

/-- The item as a word of the command. -/
def word? : Item → Option Word
  | word w => some w
  | redir .. => none

/-- The item as the target of the redirection `r`. -/
def target? (r : Redir) : Item → Option Word
  | word _ => none
  | redir r' target => if r' = r then some target else none

end Item

/-- The words among the items, in their order. -/
def words (items : List Item) : List Word := items.filterMap Item.word?

/-- The targets of the redirection `r`, in their order. -/
def targets (r : Redir) (items : List Item) : List Word := items.filterMap (Item.target? r)

/-- A stage of a pipeline. -/
structure Stage where
  items : List Item
  words_pos : 1 ≤ (words items).length
  words_le : (words items).length ≤ 63
  targets_le : ∀ r, (targets r items).length ≤ 1

/-- The tokens of a stage. -/
def Stage.tokens (stage : Stage) : List (List UInt8) := stage.items.flatMap Item.tokens

/-- The words of a stage. -/
def Stage.words (stage : Stage) : List Word := Sh.words stage.items

/-- Where a stage redirects a file to. -/
def Stage.target (stage : Stage) (r : Redir) : Option Word := (targets r stage.items).head?

/-- The commands that `system_single` runs itself. -/
def builtins : List (List UInt8) := [cdName, exitName, qName, pidName]

/-- One to four stages. The first word of the first stage is not a command that `system` runs
    itself. -/
structure Pipeline where
  stages : List Stage
  stages_pos : 1 ≤ stages.length
  stages_le : stages.length ≤ 4
  not_builtin : ∀ stage ∈ stages.head?, ∀ w ∈ stage.words.head?, w.chars ∉ builtins

/-- The stages with a bar between them. -/
def stagesTokens (stages : List Stage) : List (List UInt8) :=
  [bar].intercalate (stages.map Stage.tokens)

/-- A pipeline as it is written on a command line, with its separator. -/
structure Line where
  pipeline : Pipeline
  text : List UInt8
  renders : Tokens.Renders (· ∈ [0x20, 0x09, 0x0d]) (stagesTokens pipeline.stages) text
  length_le : text.length ≤ 3544
  sep : UInt8
  sep_mem : sep ∈ [0x3b, 0x26, 0x0a]

/-- The characters of the line, its separator included. -/
def Line.chars (line : Line) : List UInt8 := line.text ++ [line.sep]

/-- A job reads as a stage: each of its pointers is null, or it points to the string it should. -/
structure Job.Reads (buf : List UInt8) (job : Job) (stage : Stage) : Prop where
  exe : job.exe.map (stringAt buf) = stage.words.head?.map Word.chars
  argv : ∀ i < 64, (job.argv i).map (stringAt buf) = stage.words[i]?.map Word.chars
  fo : ∀ r, (job.fo r).map (stringAt buf) = (stage.target r).map Word.chars

/-- The call is one of `exec_job` for the pipeline. -/
def Passes (p : Pipeline) : Call → Prop
  | .execJob jobs cnt buf =>
    cnt = p.stages.length ∧ ∀ i stage, p.stages[i]? = some stage → (jobs i).Reads buf stage
  | _ => False

/-! ## Characters and strings -/

/-- A NUL has the value 0. -/
private theorem charValue_zero : charValue 0 = 0 := rfl

/-- Two characters with the same value are the same. -/
private theorem charValue_inj {c d : UInt8} (h : charValue c = charValue d) : c = d :=
  congrArg Int8.toUInt8 (Int8.toInt_inj.mp h)

/-- `Strcmp` tells strings apart. -/
theorem strcmp_eq_zero {s t : List UInt8} (hs : ∀ c ∈ s, c ≠ 0) (ht : ∀ c ∈ t, c ≠ 0) :
    strcmp s t = 0 ↔ s = t := by
  induction s generalizing t with
  | nil =>
    cases t with
    | nil => exact iff_of_true rfl rfl
    | cons d t =>
      refine iff_of_false (fun h => ht d List.mem_cons_self ?_) (List.cons_ne_nil d t).symm
      exact charValue_inj (by rw [strcmp] at h; rw [charValue_zero]; omega)
  | cons c s ih =>
    -- a character is not the NUL at the end of the other string
    cases t with
    | nil =>
      refine iff_of_false (fun h => hs c List.mem_cons_self ?_) (List.cons_ne_nil c s)
      exact charValue_inj (by rw [strcmp] at h; rw [charValue_zero]; omega)
    | cons d t =>
      rw [strcmp, List.cons.injEq]
      by_cases hcd : c = d
      · rw [if_neg (not_not.mpr hcd), ih (fun c hc => hs c (List.mem_cons_of_mem _ hc))
          fun c hc => ht c (List.mem_cons_of_mem _ hc), and_iff_right hcd]
      · rw [if_pos hcd]
        exact iff_of_false (fun h => hcd (charValue_inj (by omega))) fun h => hcd h.1

/-- A NUL-terminated string of the buffer. -/
def Stored (buf : List UInt8) (off : Nat) (chars : List UInt8) : Prop :=
  ∃ tail, buf.drop off = chars ++ 0 :: tail

/-- A string stays where it is when the buffer grows. -/
theorem Stored.append {buf : List UInt8} {off : Nat} {chars : List UInt8} (h : Stored buf off chars)
    (more : List UInt8) : Stored (buf ++ more) off chars := by
  obtain ⟨tail, h⟩ := h
  have hoff : off ≤ buf.length := by
    by_contra hlt
    rw [List.drop_eq_nil_of_le (by omega)] at h
    exact List.append_ne_nil_of_right_ne_nil chars (List.cons_ne_nil 0 tail) h.symm
  exact ⟨tail ++ more, by rw [List.drop_append_of_le_length hoff, h, List.append_assoc,
    List.cons_append]⟩

/-- A stored string is read back from its offset. -/
theorem Stored.stringAt {buf : List UInt8} {off : Nat} {chars : List UInt8}
    (h : Stored buf off chars)
    (hchars : ∀ c ∈ chars, c ≠ 0) : stringAt buf off = chars := by
  obtain ⟨tail, h⟩ := h
  rw [Sh.stringAt, h]
  exact (Tokens.span_append (fun c hc => decide_eq_true (hchars c hc))
    fun c hc => by obtain rfl := Option.some.inj hc; rfl).1

/-- The token that has just been copied. -/
theorem stored_store (buf chars : List UInt8) : Stored (buf ++ chars ++ [0]) buf.length chars :=
  ⟨[], by rw [List.append_assoc, List.drop_left]⟩

/-! ## One token -/

/-- The characters of words are not NULs. -/
theorem plain_ne_zero {c : UInt8} (h : c ∉ special) : c ≠ 0 := by
  rintro rfl
  exact h (by decide)

/-- A way to check that all characters of a token are plain. -/
theorem plain_of_all {t : List UInt8} (h : (t.all fun c => decide (c ∉ special)) = true) :
    ∀ c ∈ t, c ∉ special := fun c hc => of_decide_eq_true (List.all_eq_true.mp h c hc)

/-- A bar is made of plain characters. -/
theorem bar_plain : ∀ c ∈ bar, c ∉ special := plain_of_all (by decide)

/-- So are the operators of redirections. -/
theorem operator_plain (r : Redir) : ∀ c ∈ r.operator, c ∉ special :=
  plain_of_all (by cases r <;> decide)

/-- No operator is a bar. -/
theorem operator_ne_bar (r : Redir) : r.operator ≠ bar := by cases r <;> decide

section Token

variable {s : Parse} {token : List UInt8} {old : Nat} {r : Redir} {x : Parse × Bool}

/-- The token is copied. -/
def Parse.push (s : Parse) (token : List UInt8) : Parse := { s with buf := s.buf ++ token ++ [0] }

/-- The current job is changed. -/
def Parse.update (s : Parse) (f : Job → Job) : Parse :=
  { s with jobs := Function.update s.jobs s.cur (f (s.jobs s.cur)) }

/-- A change of the current job stays inside of `jobs`. -/
private theorem setJob_eq (hcur : s.cur < 4) (f : Job → Job) : s.setJob f = .ok (s.update f) := by
  rw [Parse.setJob, if_pos hcur, Parse.update]

/-- The comparisons of a token are comparisons of its characters. -/
theorem strcmp_plain {t : List UInt8} (htoken : ∀ c ∈ token, c ∉ special)
    (ht : ∀ c ∈ t, c ∉ special) :
    strcmp token t = 0 ↔ token = t :=
  strcmp_eq_zero (fun c hc => plain_ne_zero (htoken c hc)) fun c hc => plain_ne_zero (ht c hc)

/-- The three targets. -/
def takeTargets (old : Nat) (x : Parse × Bool) : Except Fault (Parse × Bool) := do
  let x ← takeTarget old .stdin x
  let x ← takeTarget old .stdout x
  takeTarget old .stderr x

/-- The three operators. -/
def takeOperators (str : List UInt8) (x : Parse × Bool) : Parse × Bool :=
  takeOperator str .stderr (takeOperator str .stdout (takeOperator str .stdin x))

/-- `takeToken` once the token is copied. -/
theorem takeToken_eq (htoken : ∀ c ∈ token, c ∉ special)
    (hroom : s.buf.length + token.length < bufSize) :
    takeToken s token = (do
      let x ← takePipe token (s.push token)
      let x ← takeTargets s.buf.length x
      takeArg s.buf.length (takeOperators token x)) := by
  have hstr : stringAt (s.push token).buf s.buf.length = token :=
    (stored_store s.buf token).stringAt fun c hc => plain_ne_zero (htoken c hc)
  have hstore : s.store token = .ok (s.push token) := if_pos hroom
  rw [takeToken, hstore, Run.ok_bind]
  simp only [hstr, takeTargets, takeOperators, bind_assoc]

/-- A bar ends the current job and begins the next one. -/
theorem takePipe_bar (hcur : s.cur < 4) : takePipe bar s = .ok
    ({ s.update (fun job => { job with pipe := false }) with
        jobcnt := s.jobcnt + 1, cur := s.cur + 1, narg := 0 }, false) := by
  rw [takePipe, if_pos (by decide), setJob_eq hcur]
  rfl

/-- Any other token leaves the current job. -/
theorem takePipe_other (htoken : ∀ c ∈ token, c ∉ special) (hne : token ≠ bar) :
    takePipe token s = .ok (s, true) := by
  rw [takePipe, if_neg (mt (strcmp_plain htoken bar_plain).mp hne)]
  rfl

/-- Without a pending redirection a token is not taken as its target. -/
theorem takeTarget_other (h : x.1.pending r = false) : takeTarget old r x = .ok x := by
  rw [takeTarget, if_neg (by rw [h]; exact Bool.false_ne_true)]
  rfl

/-- With one it is, and the redirection is not pending any more. -/
private theorem takeTarget_pending {isArgv : Bool} (h : s.pending r = true) (hcur : s.cur < 4) :
    takeTarget old r (s, isArgv) =
      .ok (Parse.update { s with pending := Function.update s.pending r false }
        (fun job => { job with fo := Function.update job.fo r (some old) }), false) := by
  rw [takeTarget, if_pos h]
  exact congrArg (· >>= fun s => pure (s, false))
    (setJob_eq (s := { s with pending := Function.update s.pending r false }) hcur _)

/-- A token that is not the operator changes nothing. -/
private theorem takeOperator_other (htoken : ∀ c ∈ token, c ∉ special) (hne : token ≠ r.operator) :
    takeOperator token r x = x := by
  rw [takeOperator, if_neg (mt (strcmp_plain htoken (operator_plain r)).mp hne)]

/-- The operator makes its redirection pending, and is no argument. -/
private theorem takeOperator_self : takeOperator r.operator r x =
    ({ x.1 with pending := Function.update x.1.pending r true }, false) := by
  rw [takeOperator, if_pos ((strcmp_plain (operator_plain r) (operator_plain r)).mpr rfl)]

/-- With no redirection pending the token is left for the other tests. -/
theorem takeTargets_none (h : ∀ r, x.1.pending r = false) : takeTargets old x = .ok x := by
  rw [takeTargets, takeTarget_other (h _), Run.ok_bind, takeTarget_other (h _), Run.ok_bind,
    takeTarget_other (h _)]

/-- Only the file that is pending gets its target. -/
theorem takeTargets_pending {isArgv : Bool} (h : ∀ r', s.pending r' = decide (some r' = some r))
    (hcur : s.cur < 4) :
    takeTargets old (s, isArgv) = .ok (Parse.update { s with pending := fun _ => false }
      (fun job => { job with fo := Function.update job.fo r (some old) }), false) := by
  have hself : s.pending r = true := by rw [h, decide_eq_true rfl]
  have hother : ∀ r', r' ≠ r → s.pending r' = false := fun r' hne => by
    rw [h, decide_eq_false (mt Option.some.inj hne)]
  -- no other flag is set, so the checks behind `r` see none
  have hclear : Function.update s.pending r false = fun _ => false := by
    funext r'
    by_cases hr : r' = r
    · rw [hr, Function.update_self]
    · rw [Function.update_of_ne hr, hother r' hr]
  have hset : takeTarget old r (s, isArgv) = .ok (Parse.update { s with pending := fun _ => false }
      (fun job => { job with fo := Function.update job.fo r (some old) }), false) := by
    rw [takeTarget_pending hself hcur, hclear]
  rw [takeTargets]
  cases r with
  | stdin => rw [hset, Run.ok_bind, takeTarget_other rfl, Run.ok_bind, takeTarget_other rfl]
  | stdout =>
    rw [takeTarget_other (hother .stdin (by decide)), Run.ok_bind, hset, Run.ok_bind,
      takeTarget_other rfl]
  | stderr =>
    rw [takeTarget_other (hother .stdin (by decide)), Run.ok_bind,
      takeTarget_other (hother .stdout (by decide)), Run.ok_bind, hset]

/-- A word is none of the operators. -/
theorem takeOperators_other (htoken : ∀ c ∈ token, c ∉ special)
    (hne : ∀ r, token ≠ Redir.operator r) :
    takeOperators token x = x := by
  rw [takeOperators, takeOperator_other htoken (hne _), takeOperator_other htoken (hne _),
    takeOperator_other htoken (hne _)]

/-- Of the operators only the one that was read becomes pending. -/
theorem takeOperators_self : takeOperators r.operator x =
    ({ x.1 with pending := Function.update x.1.pending r true }, false) := by
  rw [takeOperators]
  cases r with
  | stdin =>
    rw [takeOperator_self, takeOperator_other (operator_plain _) (by decide),
      takeOperator_other (operator_plain _) (by decide)]
  | stdout =>
    rw [takeOperator_other (operator_plain _) (by decide), takeOperator_self,
      takeOperator_other (operator_plain _) (by decide)]
  | stderr =>
    rw [takeOperator_other (r := .stdin) (operator_plain _) (by decide),
      takeOperator_other (r := .stdout) (operator_plain _) (by decide), takeOperator_self]

/-- A job with one more argument, its number `narg`. -/
def Job.addArg (narg old : Nat) (job : Job) : Job :=
  { job with
    exe := if narg = 0 then some old else job.exe
    argv := Function.update job.argv narg (some old) }

/-- An argument is put behind those before. -/
private theorem takeArg_true (hcur : s.cur < 4) (hnarg : s.narg < 64) : takeArg old (s, true) =
    .ok { s.update (Job.addArg s.narg old) with narg := s.narg + 1 } := by
  have hexe : (if s.narg = 0 then s.setJob fun job => { job with exe := some old } else pure s) =
      .ok (s.update fun job => { job with exe := if s.narg = 0 then some old else job.exe }) := by
    by_cases h : s.narg = 0
    · simp only [if_pos h]
      exact setJob_eq hcur _
    · simp only [if_neg h, Parse.update, Function.update_eq_self]
      rfl
  rw [takeArg, if_pos rfl, hexe, Run.ok_bind, if_pos (show Parse.narg (s.update _) < 64 from hnarg),
    @setJob_eq (s.update _) hcur, Run.ok_bind]
  refine congrArg (fun t : Parse => Except.ok { t with narg := s.narg + 1 }) ?_
  simp only [Parse.update, Function.update_idem, Function.update_self, Job.addArg]

/-- What is no argument is not stored in `argv`. -/
theorem takeArg_false : takeArg old (s, false) = .ok s := rfl

/-! ### The four kinds of tokens -/

/-- A word where no redirection is pending becomes an argument. -/
theorem takeToken_word {w : Word} (hpend : ∀ r, s.pending r = false) (hcur : s.cur < 4)
    (hnarg : s.narg < 64) (hroom : s.buf.length + w.chars.length < bufSize) :
    takeToken s w.chars = .ok
      { (s.push w.chars).update (Job.addArg s.narg s.buf.length) with narg := s.narg + 1 } := by
  rw [takeToken_eq w.plain hroom, takePipe_other w.plain w.ne_bar, Run.ok_bind,
    takeTargets_none (x := (s.push w.chars, true)) hpend, Run.ok_bind,
    takeOperators_other w.plain w.ne_operator]
  exact takeArg_true (s := s.push w.chars) hcur hnarg

/-- A word behind an operator becomes the target, and no argument. -/
theorem takeToken_target {w : Word} (hpend : ∀ r', s.pending r' = decide (some r' = some r))
    (hcur : s.cur < 4)
    (hroom : s.buf.length + w.chars.length < bufSize) :
    takeToken s w.chars = .ok (Parse.update { s.push w.chars with pending := fun _ => false }
      (fun job => { job with fo := Function.update job.fo r (some s.buf.length) })) := by
  rw [takeToken_eq w.plain hroom, takePipe_other w.plain w.ne_bar, Run.ok_bind,
    takeTargets_pending (s := s.push w.chars) hpend hcur, Run.ok_bind,
    takeOperators_other w.plain w.ne_operator, takeArg_false]

/-- An operator is remembered until the next token. -/
theorem takeToken_operator (hpend : ∀ r, s.pending r = false)
    (hroom : s.buf.length + r.operator.length < bufSize) :
    takeToken s r.operator = .ok
      { s.push r.operator with pending := Function.update s.pending r true } := by
  rw [takeToken_eq (operator_plain r) hroom, takePipe_other (operator_plain r) (operator_ne_bar r),
    Run.ok_bind, takeTargets_none (x := (s.push r.operator, true)) hpend, Run.ok_bind,
    takeOperators_self, takeArg_false]
  rfl

/-- A bar goes on to the next job, which has no arguments yet. -/
theorem takeToken_bar (hpend : ∀ r, s.pending r = false) (hcur : s.cur < 4)
    (hroom : s.buf.length + bar.length < bufSize) :
    takeToken s bar = .ok { (s.push bar).update (fun job => { job with pipe := false }) with
      jobcnt := s.jobcnt + 1, cur := s.cur + 1, narg := 0 } := by
  rw [takeToken_eq bar_plain hroom, takePipe_bar (s := s.push bar) hcur, Run.ok_bind,
    takeTargets_none (by exact hpend), Run.ok_bind,
    takeOperators_other bar_plain fun r => (operator_ne_bar r).symm, takeArg_false]
  rfl

end Token

/-! ## What a job holds -/

/-- Every pointer of a job is null, or it points to what the last of its items says. -/
structure Job.Holds (buf : List UInt8) (job : Job) (items : List Item) : Prop where
  exe : Option.Rel (fun off w => Stored buf off (Word.chars w)) job.exe (words items).head?
  argv : ∀ i, Option.Rel (fun off w => Stored buf off (Word.chars w)) (job.argv i) (words items)[i]?
  fo : ∀ r, Option.Rel (fun off w => Stored buf off (Word.chars w)) (job.fo r)
    (targets r items).getLast?

section Items

variable {buf : List UInt8} {job : Job} {items : List Item} {w : Word} {r : Redir} {old : Nat}

/-- A word behind the items is their last word. -/
private theorem words_word (items : List Item) (w : Word) :
    words (items ++ [.word w]) = words items ++ [w] := by
  rw [words, List.filterMap_append]
  rfl

/-- A redirection adds no word. -/
private theorem words_redir (items : List Item) (r : Redir) (w : Word) :
    words (items ++ [.redir r w]) = words items := by
  rw [words, List.filterMap_append]
  exact List.append_nil _

/-- A word adds no target. -/
private theorem targets_word (items : List Item) (w : Word) (r : Redir) :
    targets r (items ++ [.word w]) = targets r items := by
  rw [targets, List.filterMap_append]
  exact List.append_nil _

/-- A redirection adds its target. -/
private theorem targets_self (items : List Item) (r : Redir) (w : Word) :
    targets r (items ++ [.redir r w]) = targets r items ++ [w] := by
  have hself : Item.target? r (.redir r w) = some w := if_pos rfl
  rw [targets, List.filterMap_append, List.filterMap_cons_some hself]
  rfl

/-- It adds no target to another redirection. -/
private theorem targets_other (items : List Item) {r r' : Redir} (h : r ≠ r') (w : Word) :
    targets r' (items ++ [.redir r w]) = targets r' items := by
  have hother : Item.target? r' (.redir r w) = none := if_neg h
  rw [targets, List.filterMap_append, List.filterMap_cons_none hother]
  exact List.append_nil _

namespace Job.Holds

/-- What comes behind a string does not matter. -/
private theorem append (h : job.Holds buf items) (more : List UInt8) :
    job.Holds (buf ++ more) items := by
  have hmore : ∀ {o : Option Nat} {w : Option Word},
      Option.Rel (fun off w => Stored buf off (Word.chars w)) o w →
        Option.Rel (fun off w => Stored (buf ++ more) off (Word.chars w)) o w := by
    intro o w h
    cases h with
    | none => exact .none
    | some h => exact .some (h.append more)
  exact ⟨hmore h.exe, fun i => hmore (h.argv i), fun r => hmore (h.fo r)⟩

/-- A job that is all zero holds no items. -/
private theorem zero (buf : List UInt8) :
    Job.zero.Holds buf [] := ⟨.none, fun _ => .none, fun _ => .none⟩

/-- With one more argument a job holds one more word. -/
private theorem addArg (h : job.Holds buf items) (hold : Stored buf old w.chars) :
    (job.addArg (words items).length old).Holds buf (items ++ [.word w]) where
  exe := by
    -- the first word is the executable too
    rw [words_word, Job.addArg]
    cases hw : words items with
    | nil => exact .some hold
    | cons v ws =>
      have hexe := h.exe
      rw [hw] at hexe
      exact hexe
  argv i := by
    rw [words_word]
    show Option.Rel _ (Function.update job.argv (words items).length (some old) i) _
    by_cases hi : i = (words items).length
    · rw [hi, Function.update_self, List.getElem?_concat_length]
      exact .some hold
    · have hargv := h.argv i
      rw [Function.update_of_ne hi]
      by_cases hlt : i < (words items).length
      · rwa [List.getElem?_append_left hlt]
      · rw [List.getElem?_eq_none (by omega)] at hargv
        rwa [List.getElem?_eq_none (by rw [List.length_append, List.length_singleton]; omega)]
  fo r := by
    rw [targets_word]
    exact h.fo r

/-- With a target a job holds one more redirection. -/
private theorem redirect (h : job.Holds buf items) (hold : Stored buf old w.chars) :
    Job.Holds buf { job with fo := Function.update job.fo r (some old) } (items ++ [.redir r w]) where
  exe := by
    rw [words_redir]
    exact h.exe
  argv i := by
    rw [words_redir]
    exact h.argv i
  fo r' := by
    show Option.Rel _ (Function.update job.fo r (some old) r') _
    by_cases hr : r' = r
    · rw [hr, Function.update_self, targets_self, List.getLast?_concat]
      exact .some hold
    · rw [Function.update_of_ne hr, targets_other items (Ne.symm hr)]
      exact h.fo r'

/-- The flag for the pipe is none of the items. -/
private theorem bar (h : job.Holds buf items) : Job.Holds buf { job with pipe := false } items :=
  ⟨h.exe, h.argv, h.fo⟩

end Job.Holds

end Items

/-! ## The tokens of a pipeline -/

/-- The jobs hold the items that were read, `f i` those of job `i`, and the target of `waits`
    is the next token. -/
structure Parsed (f : Nat → List Item) (waits : Option Redir) (s : Parse) : Prop where
  holds : ∀ i, (s.jobs i).Holds s.buf (f i)
  later : ∀ i, s.cur < i → f i = []
  narg : s.narg = (words (f s.cur)).length
  jobcnt : s.jobcnt = s.cur + 1
  pending : ∀ r, s.pending r = decide (some r = waits)

/-- The bytes that tokens take in the buffer. -/
def size (tokens : List (List UInt8)) : Nat := (tokens.map fun t => t.length + 1).sum

/-- The room that tokens take in the buffer, each with its NUL, adds up. -/
private theorem size_append (ts us : List (List UInt8)) : size (ts ++ us) = size ts + size us := by
  rw [size, List.map_append, List.sum_append]
  rfl

/-- A token takes one character more than it has. -/
private theorem size_singleton (t : List UInt8) : size [t] = t.length + 1 := rfl

/-- The parse comes from `s` to `s'` with the tokens. -/
structure Reaches (s : Parse) (tokens : List (List UInt8)) (s' : Parse) : Prop where
  run : tokens.foldlM takeToken s = .ok s'
  length : s'.buf.length = s.buf.length + size tokens

/-- Tokens that are taken one list behind another. -/
private theorem Reaches.trans {s s' s'' : Parse} {ts us : List (List UInt8)} (h : Reaches s ts s')
    (h' : Reaches s' us s'') : Reaches s (ts ++ us) s'' where
  run := by
    rw [List.foldlM_append, h.run]
    exact h'.run
  length := by
    rw [size_append, h'.length, h.length, Nat.add_assoc]

/-- A single token that is taken. -/
private theorem Reaches.single {s s' : Parse} {t : List UInt8} (h : takeToken s t = .ok s')
    (hbuf : s'.buf = (s.push t).buf) : Reaches s [t] s' where
  run := by
    rw [List.foldlM_cons, h]
    rfl
  length := by
    rw [hbuf, size_singleton, Parse.push, List.length_append, List.length_append, Nat.add_assoc]
    rfl

section Pipeline

variable {f : Nat → List Item} {s : Parse} {w : Word} {r : Redir} {o : Option Redir}

namespace Parsed

/-- Before the first token nothing has been parsed. -/
private theorem start : Parsed (fun _ => []) none .start :=
  ⟨fun _ => .zero _, fun _ _ => rfl, rfl, rfl, fun _ => rfl⟩

/-- Only the current job changes. -/
private theorem holds_update (h : Parsed f o s) {job : Job} {items : List Item} {more : List UInt8}
    (hjob : job.Holds (s.buf ++ more) items) (i : Nat) :
    (Function.update s.jobs s.cur job i).Holds (s.buf ++ more) (Function.update f s.cur items i) := by
  by_cases hi : i = s.cur
  · rw [hi, Function.update_self, Function.update_self]
    exact hjob
  · rw [Function.update_of_ne hi, Function.update_of_ne hi]
    exact (h.holds i).append more

/-- The jobs behind the current one are still empty. -/
private theorem later_update (h : Parsed f o s) (items : List Item) (i : Nat) (hi : s.cur < i) :
    Function.update f s.cur items i = [] := by
  rw [Function.update_of_ne (by omega)]
  exact h.later i hi

/-- A word is taken, and is the last item of the current job. -/
private theorem word (h : Parsed f none s) (hcur : s.cur < 4) (hnarg : s.narg < 64)
    (hroom : s.buf.length + size [w.chars] ≤ bufSize) :
    ∃ s', Reaches s [w.chars] s' ∧ s'.cur = s.cur ∧
      Parsed (Function.update f s.cur (f s.cur ++ [.word w])) none s' := by
  rw [size_singleton] at hroom
  have hjob : Job.Holds (s.buf ++ (w.chars ++ [0])) ((s.jobs s.cur).addArg s.narg s.buf.length)
      (f s.cur ++ [.word w]) := by
    rw [h.narg]
    refine ((h.holds s.cur).append _).addArg ?_
    rw [← List.append_assoc]
    exact stored_store s.buf w.chars
  refine ⟨_, .single (takeToken_word h.pending hcur hnarg (by omega)) rfl, rfl, ?_⟩
  refine ⟨fun i => ?_, h.later_update _, ?_, h.jobcnt, h.pending⟩
  · -- the other jobs point into what was there before
    have hholds := h.holds_update hjob i
    rwa [← List.append_assoc] at hholds
  · show s.narg + 1 = (words (Function.update f s.cur (f s.cur ++ [.word w]) s.cur)).length
    rw [Function.update_self, words_word, List.length_append, ← h.narg]
    rfl

/-- An operator is taken, and its redirection is pending. -/
private theorem operator (h : Parsed f none s) (r : Redir)
    (hroom : s.buf.length + size [r.operator] ≤ bufSize) :
    ∃ s', Reaches s [r.operator] s' ∧ s'.cur = s.cur ∧ Parsed f (some r) s' := by
  rw [size_singleton] at hroom
  refine ⟨_, .single (takeToken_operator h.pending (by omega)) rfl, rfl, ?_⟩
  refine ⟨fun i => ((h.holds i).append _).append _, h.later, h.narg, h.jobcnt, fun r' => ?_⟩
  show Function.update s.pending r true r' = _
  by_cases hr : r' = r
  · rw [hr, Function.update_self, decide_eq_true rfl]
  · rw [Function.update_of_ne hr, h.pending, decide_eq_false (mt Option.some.inj hr)]
    rfl

/-- The word behind it is taken, and they are the last item of the current job. -/
private theorem target (h : Parsed f (some r) s) (hcur : s.cur < 4)
    (hroom : s.buf.length + size [w.chars] ≤ bufSize) :
    ∃ s', Reaches s [w.chars] s' ∧ s'.cur = s.cur ∧
      Parsed (Function.update f s.cur (f s.cur ++ [.redir r w])) none s' := by
  rw [size_singleton] at hroom
  -- the token is the target of the redirection that waits
  have hjob : Job.Holds (s.buf ++ (w.chars ++ [0]))
      { s.jobs s.cur with fo := Function.update (s.jobs s.cur).fo r (some s.buf.length) }
      (f s.cur ++ [.redir r w]) := by
    refine ((h.holds s.cur).append _).redirect ?_
    rw [← List.append_assoc]
    exact stored_store s.buf w.chars
  refine ⟨_, .single (takeToken_target h.pending hcur (by omega)) rfl, rfl, ?_⟩
  -- nothing waits any more, and there are as many words as before
  refine ⟨fun i => ?_, h.later_update _, ?_, h.jobcnt, fun _ => rfl⟩
  · have hholds := h.holds_update hjob i
    rwa [← List.append_assoc] at hholds
  · show s.narg = (words (Function.update f s.cur (f s.cur ++ [.redir r w]) s.cur)).length
    rw [Function.update_self, words_redir, h.narg]

/-- A bar is taken, and the next job is the current one. -/
private theorem bar (h : Parsed f none s) (hcur : s.cur < 4)
    (hroom : s.buf.length + size [Sh.bar] ≤ bufSize) :
    ∃ s', Reaches s [Sh.bar] s' ∧ s'.cur = s.cur + 1 ∧ Parsed f none s' := by
  rw [size_singleton] at hroom
  have hjob : Job.Holds (s.buf ++ (Sh.bar ++ [0])) { s.jobs s.cur with pipe := false } (f s.cur) :=
    ((h.holds s.cur).append _).bar
  refine ⟨_, .single (takeToken_bar h.pending hcur (by omega)) rfl, rfl, ?_⟩
  refine ⟨fun i => ?_, fun i hi => h.later i (Nat.lt_of_succ_lt hi), ?_, ?_, h.pending⟩
  · have hholds := h.holds_update hjob i
    rwa [← List.append_assoc, Function.update_eq_self] at hholds
  · -- the next job is still empty
    show 0 = (words (f (s.cur + 1))).length
    rw [h.later (s.cur + 1) (Nat.lt_succ_self _)]
    rfl
  · exact congrArg (· + 1) h.jobcnt

/-- An item, which is one token or two. -/
private theorem item (h : Parsed f none s) (hcur : s.cur < 4) (x : Item)
    (hwords : (words (f s.cur ++ [x])).length ≤ 64) (hroom : s.buf.length + size x.tokens ≤ bufSize) :
    ∃ s', Reaches s x.tokens s' ∧ s'.cur = s.cur ∧
      Parsed (Function.update f s.cur (f s.cur ++ [x])) none s' := by
  -- a word is one token, and a redirection two
  cases x with
  | word w =>
    refine h.word hcur ?_ hroom
    rw [words_word, List.length_append, List.length_singleton, ← h.narg] at hwords
    exact hwords
  | redir r w =>
    have hsize : size (Item.redir r w).tokens = size [r.operator] + size [w.chars] :=
      size_append [r.operator] [w.chars]
    -- the operator is pending, and then gets its target
    obtain ⟨s₁, hreaches₁, hcur₁, h₁⟩ := h.operator r (by omega)
    have hlength := hreaches₁.length
    obtain ⟨s₂, hreaches₂, hcur₂, h₂⟩ := h₁.target (w := w) (by omega) (by omega)
    rw [hcur₁] at hcur₂ h₂
    exact ⟨s₂, hreaches₁.trans hreaches₂, hcur₂, h₂⟩

/-- All items of a job are taken, by induction on them. -/
private theorem items (h : Parsed f none s) (hcur : s.cur < 4) (xs : List Item)
    (hwords : (words (f s.cur ++ xs)).length ≤ 64)
    (hroom : s.buf.length + size (xs.flatMap Item.tokens) ≤ bufSize) :
    ∃ s', Reaches s (xs.flatMap Item.tokens) s' ∧ s'.cur = s.cur ∧
      Parsed (Function.update f s.cur (f s.cur ++ xs)) none s' := by
  induction xs generalizing f s with
  | nil =>
    refine ⟨s, ⟨rfl, rfl⟩, rfl, ?_⟩
    rwa [List.append_nil, Function.update_eq_self]
  | cons x xs ih =>
    rw [List.flatMap_cons, size_append] at hroom
    rw [List.append_cons] at hwords
    have hfirst : (words (f s.cur ++ [x])).length ≤ 64 := by
      rw [words, List.filterMap_append, List.length_append] at hwords
      exact Nat.le_trans (Nat.le_add_right _ _) hwords
    -- the first item takes its bytes of the buffer, and the rest follows in the same job
    obtain ⟨s₁, hreaches₁, hcur₁, h₁⟩ := h.item hcur x hfirst (by omega)
    have hlength := hreaches₁.length
    have hitems : Function.update f s.cur (f s.cur ++ [x]) s₁.cur = f s.cur ++ [x] := by
      rw [hcur₁, Function.update_self]
    obtain ⟨s₂, hreaches₂, hcur₂, h₂⟩ := ih h₁ (by omega) (by rwa [hitems]) (by omega)
    rw [hitems, hcur₁, Function.update_idem, ← List.append_cons] at h₂
    rw [List.flatMap_cons]
    exact ⟨s₂, hreaches₁.trans hreaches₂, hcur₂.trans hcur₁, h₂⟩

/-- A whole stage is taken as the items of one job. -/
private theorem stage (h : Parsed f none s) (hcur : s.cur < 4) (hempty : f s.cur = []) (x : Stage)
    (hroom : s.buf.length + size x.tokens ≤ bufSize) :
    ∃ s', Reaches s x.tokens s' ∧ s'.cur = s.cur ∧
      Parsed (Function.update f s.cur x.items) none s' := by
  have hitems := h.items hcur x.items
  rw [hempty, List.nil_append] at hitems
  exact hitems (Nat.le_trans x.words_le (by decide)) hroom

/-- The stages of a pipeline, one job for each. -/
theorem stages (h : Parsed f none s) (hempty : f s.cur = []) {xs : List Stage} (hne : xs ≠ [])
    (hcur : s.cur + xs.length ≤ 4) (hroom : s.buf.length + size (stagesTokens xs) ≤ bufSize) :
    ∃ s' f', Reaches s (stagesTokens xs) s' ∧ s'.cur + 1 = s.cur + xs.length ∧ Parsed f' none s' ∧
      (∀ i, i < s.cur → f' i = f i) ∧
      ∀ i x, xs[i]? = some x → f' (s.cur + i) = Stage.items x := by
  induction xs generalizing f s with
  | nil => exact absurd rfl hne
  | cons x xs ih =>
    rw [List.length_cons] at hcur ⊢
    cases xs with
    | nil =>
      have htokens : stagesTokens [x] = x.tokens := List.intercalate_singleton
      rw [htokens] at hroom ⊢
      obtain ⟨s', hreaches, hcur', h'⟩ := h.stage (by omega) hempty x hroom
      refine ⟨s', _, hreaches, congrArg (· + 1) hcur', h', ?_, ?_⟩
      · exact fun i hi => Function.update_of_ne (Nat.ne_of_lt hi) ..
      · intro i y hy
        cases i with
        | zero =>
          obtain rfl := Option.some.inj hy
          exact Function.update_self ..
        | succ i => cases hy
    | cons y ys =>
      have htokens : stagesTokens (x :: y :: ys) = x.tokens ++ ([Sh.bar] ++ stagesTokens (y :: ys)) :=
        List.intercalate_cons_cons.trans (List.append_assoc ..)
      rw [htokens, size_append, size_append] at hroom
      -- the first stage, the bar behind it, and the stages that are left
      obtain ⟨s₁, hreaches₁, hcur₁, h₁⟩ := h.stage (by omega) hempty x (by omega)
      have hlength₁ := hreaches₁.length
      obtain ⟨s₂, hreaches₂, hcur₂, h₂⟩ := h₁.bar (by omega) (by omega)
      have hlength₂ := hreaches₂.length
      have hnext : Function.update f s.cur x.items s₂.cur = [] := by
        rw [Function.update_of_ne (by omega)]
        exact h.later _ (by omega)
      obtain ⟨s₃, f₃, hreaches₃, hcur₃, h₃, hbefore, hstages⟩ :=
        ih h₂ hnext (List.cons_ne_nil y ys) (by omega) (by omega)
      rw [htokens]
      -- the later stages leave the job of the first alone
      refine ⟨s₃, f₃, hreaches₁.trans (hreaches₂.trans hreaches₃), by omega, h₃, ?_, ?_⟩
      · intro i hi
        rw [hbefore i (by omega), Function.update_of_ne (Nat.ne_of_lt hi)]
      · intro i z hz
        cases i with
        | zero =>
          obtain rfl := Option.some.inj hz
          rw [Nat.add_zero, hbefore s.cur (by omega), Function.update_self]
        | succ i =>
          have hi : s.cur + (i + 1) = s₂.cur + i := by omega
          rw [hi]
          exact hstages i z hz

end Parsed

end Pipeline

/-! ## The loop of `system_single` -/

/-- The loop takes the tokens one after the other. -/
theorem scan_eq (s : Parse) (text : List UInt8) :
    scan s text = (Tokens.tokens (contains blank) text).foldlM takeToken s := by
  induction text using Tokens.tokens.induct (contains blank) generalizing s with
  | case1 =>
    rw [scan, Tokens.tokens]
    rfl
  | case2 c text hpos ih =>
    rw [scan, if_pos hpos, Tokens.tokens, if_pos hpos, List.foldlM_cons]
    exact bind_congr fun s => ih s
  | case3 c text hempty ih =>
    rw [scan, if_neg hempty, Tokens.tokens, if_neg hempty]
    exact ih s

/-- The tokens of an item are not empty, and plain. -/
private theorem item_plain (x : Item) : ∀ t ∈ x.tokens, t ≠ [] ∧ ∀ c ∈ t, c ∉ special := by
  have hword : ∀ w : Word, w.chars ≠ [] ∧ ∀ c ∈ w.chars, c ∉ special := fun w => ⟨w.ne_nil, w.plain⟩
  cases x with
  | word w => exact List.forall_mem_singleton.mpr (hword w)
  | redir r w =>
    exact List.forall_mem_cons.mpr ⟨⟨by cases r <;> decide, operator_plain r⟩,
      List.forall_mem_singleton.mpr (hword w)⟩

/-- The tokens of a pipeline have no blank and no separator. -/
theorem stages_plain (xs : List Stage) :
    ∀ t ∈ stagesTokens xs, t ≠ [] ∧ ∀ c ∈ t, c ∉ special := by
  have hstage : ∀ x : Stage, ∀ t ∈ x.tokens, t ≠ [] ∧ ∀ c ∈ t, c ∉ special := by
    intro x t ht
    obtain ⟨item, -, ht⟩ := List.mem_flatMap.mp ht
    exact item_plain item t ht
  -- induction on the stages, with a bar between two of them
  induction xs with
  | nil => exact fun t ht => absurd ht List.not_mem_nil
  | cons x xs ih =>
    cases xs with
    | nil =>
      rw [stagesTokens, List.map_singleton, List.intercalate_singleton]
      exact hstage x
    | cons y ys =>
      rw [stagesTokens, List.map_cons, List.map_cons, List.intercalate_cons_cons, ← List.map_cons]
      intro t ht
      rcases List.mem_append.mp ht with ht | ht
      · rcases List.mem_append.mp ht with ht | ht
        · exact hstage x t ht
        · obtain rfl := List.mem_singleton.mp ht
          exact ⟨List.cons_ne_nil _ _, bar_plain⟩
      · exact ih t ht

/-- A plain character is no blank. -/
theorem contains_blank {c : UInt8} (h : c ∉ special) : contains blank c = false := by
  simp only [special, List.mem_cons, List.not_mem_nil, not_or, or_false] at h
  simp [contains, blank, h]

/-- Nor does it end a command. -/
theorem contains_eoc {c : UInt8} (h : c ∉ special) : contains eoc c = false := by
  simp only [special, List.mem_cons, List.not_mem_nil, not_or, or_false] at h
  simp [contains, eoc, h]

/-- What is between tokens is a blank for the tokenizer. -/
theorem gap_blank (c : UInt8) (h : c ∈ [0x20, 0x09, 0x0d]) : contains blank c = true := by
  simp only [List.mem_cons, List.not_mem_nil, or_false] at h
  rcases h with rfl | rfl | rfl <;> rfl

/-- It does not end a command. -/
private theorem gap_not_eoc (c : UInt8) (h : c ∈ [0x20, 0x09, 0x0d]) : contains eoc c = false := by
  simp only [List.mem_cons, List.not_mem_nil, or_false] at h
  rcases h with rfl | rfl | rfl <;> rfl

/-- A separator does. -/
private theorem sep_eoc (c : UInt8) (h : c ∈ [0x3b, 0x26, 0x0a]) : contains eoc c = true := by
  simp only [List.mem_cons, List.not_mem_nil, or_false] at h
  rcases h with rfl | rfl | rfl <;> rfl

/-! ## One pipeline -/

/-- What a pointer points to. -/
private theorem map_stringAt {buf : List UInt8} {o : Option Nat} {w : Option Word}
    (h : Option.Rel (fun off w => Stored buf off (Word.chars w)) o w) :
    o.map (stringAt buf) = w.map Word.chars := by
  cases h with
  | none => rfl
  | @some off w h => exact congrArg some (h.stringAt fun c hc => plain_ne_zero (w.plain c hc))

/-- A job that holds the items of a stage reads as the stage. -/
private theorem Job.Holds.reads {buf : List UInt8} {job : Job} {x : Stage}
    (h : job.Holds buf x.items) :
    job.Reads buf x where
  exe := map_stringAt h.exe
  argv i _ := map_stringAt (h.argv i)
  fo r := by
    have hlast : (targets r x.items).getLast? = x.target r := by
      have hle := x.targets_le r
      rw [Stage.target]
      generalize targets r x.items = ts at hle
      match ts, hle with
      | [], _ => rfl
      | [_], _ => rfl
      | _ :: _ :: _, hle => simp at hle
    rw [← hlast]
    exact map_stringAt (h.fo r)

/-- The names of the commands that `system` runs itself are plain. -/
theorem builtins_plain : ∀ name ∈ builtins, (name.all fun c => decide (c ∉ special)) = true := by
  decide

section Line

variable (line : Line) (more : List UInt8)

/-- The loop of `system_single` over a line. -/
private theorem scan_line :
    ∃ s, scan .start line.text = .ok s ∧ s.jobcnt = line.pipeline.stages.length ∧
    ∀ i x, line.pipeline.stages[i]? = some x → (s.jobs i).Holds s.buf (Stage.items x) := by
  obtain ⟨p, text, hrenders, hlength, -, -⟩ := line
  have htokens : Tokens.tokens (contains blank) text = stagesTokens p.stages :=
    Tokens.tokens_renders gap_blank (fun t ht => ⟨(stages_plain _ t ht).1, fun c hc =>
      contains_blank ((stages_plain _ t ht).2 c hc)⟩) hrenders
  -- each token needs one byte more than its characters, which the blanks make up for
  have hroom : size (stagesTokens p.stages) ≤ bufSize :=
    Nat.le_trans hrenders.length_le (Nat.succ_le_succ hlength)
  obtain ⟨s, f, hreaches, hcur, hparsed, -, hstages⟩ := Parsed.start.stages rfl
    (List.length_pos_iff.mp p.stages_pos) (by rw [Parse.start, Nat.zero_add]; exact p.stages_le)
    (by rw [Parse.start, List.length_nil, Nat.zero_add]; exact hroom)
  refine ⟨s, ?_, ?_, fun i x hx => ?_⟩
  · rw [scan_eq, htokens, hreaches.run]
  · rw [hparsed.jobcnt, hcur]
    exact Nat.zero_add _
  · have hf := hstages i x hx
    have hi : Parse.start.cur + i = i := Nat.zero_add i
    rw [hi] at hf
    rw [← hf]
    exact hparsed.holds i

/-- `system_single` calls `exec_job`. -/
private theorem systemSingle_line : ∃ call,
    systemSingle (line.chars ++ more) line.text.length = .ok (some call) ∧
      Passes line.pipeline call := by
  obtain ⟨s, hscan, hjobcnt, hjobs⟩ := scan_line line
  have hne : line.chars ++ more ≠ [] :=
    List.append_ne_nil_of_left_ne_nil (List.append_ne_nil_of_right_ne_nil _ (List.cons_ne_nil _ _)) _
  have htake : (line.chars ++ more).take line.text.length = line.text := by
    rw [Line.chars, List.append_assoc, List.take_left]
  -- the first word of the first stage
  obtain ⟨x, hx⟩ : ∃ x, line.pipeline.stages[0]? = some x :=
    ⟨_, List.getElem?_eq_getElem line.pipeline.stages_pos⟩
  obtain ⟨w, hw⟩ : ∃ w, x.words.head? = some w :=
    ⟨_, List.head?_eq_some_head (List.length_pos_iff.mp x.words_pos)⟩
  have hreads := hjobs 0 x hx
  obtain ⟨exe, hexe, hstored⟩ : ∃ exe, (s.jobs 0).exe = some exe ∧ Stored s.buf exe w.chars := by
    have h := hreads.exe
    rw [show (words x.items).head? = some w from hw] at h
    generalize (s.jobs 0).exe = o at h
    cases h with
    | some h => exact ⟨_, rfl, h⟩
  have hw₀ : ∀ c ∈ w.chars, c ≠ 0 := fun c hc => plain_ne_zero (w.plain c hc)
  have hbuiltin : ∀ name ∈ builtins, strcmp name w.chars ≠ 0 := by
    intro name hname h
    have heq := (strcmp_plain (plain_of_all (builtins_plain name hname)) w.plain).mp h
    exact line.pipeline.not_builtin x (List.head?_eq_getElem?.trans hx) w hw (heq ▸ hname)
  refine ⟨.execJob s.jobs s.jobcnt s.buf, ?_, hjobcnt, fun i y hy => (hjobs i y hy).reads⟩
  rw [systemSingle, if_neg hne, htake, hscan, Run.ok_bind, hexe]
  simp only [hstored.stringAt hw₀]
  rw [if_neg (hbuiltin _ (by decide)),
    if_neg (not_or.mpr ⟨hbuiltin _ (by decide), hbuiltin _ (by decide)⟩),
    if_neg (hbuiltin _ (by decide))]
  rfl

/-! ## The whole command line -/

/-- `system` finds the end of a line. -/
private theorem takeWhile_line :
    ((line.chars ++ more).takeWhile fun c => !contains eoc c) = line.text := by
  have htext : ∀ c ∈ line.text, contains eoc c = false := by
    intro c hc
    rcases line.renders.mem hc with hgap | ⟨t, ht, hc⟩
    · exact gap_not_eoc c hgap
    · exact contains_eoc ((stages_plain _ t ht).2 c hc)
  have hsep : contains eoc line.sep = true := sep_eoc line.sep line.sep_mem
  rw [Line.chars, List.append_assoc]
  exact (Tokens.span_token htext fun c hc => by obtain rfl := Option.some.inj hc; exact hsep).1

/-- `system` makes one call for a line, and goes on behind its separator. -/
theorem system_line : ∃ call, Passes line.pipeline call ∧
    system (line.chars ++ more) = ⟨call :: (system more).calls, (system more).fault⟩ := by
  obtain ⟨call, hcall, hpasses⟩ := systemSingle_line line more
  have htake := takeWhile_line line more
  have hrest : (line.chars ++ more).drop (line.text.length + 1) = more := by
    have hlength : line.text.length + 1 = line.chars.length := by
      rw [Line.chars, List.length_append, List.length_singleton]
    rw [hlength, List.drop_left]
  obtain ⟨c, cmd, hcmd⟩ : ∃ c cmd, line.chars ++ more = c :: cmd :=
    List.exists_cons_of_ne_nil
      (List.append_ne_nil_of_left_ne_nil
        (List.append_ne_nil_of_right_ne_nil _ (List.cons_ne_nil _ _)) _)
  rw [hcmd] at hcall htake hrest ⊢
  refine ⟨call, hpasses, ?_⟩
  rw [system, htake, hcall, hrest]
  -- the only call of a pipeline, so `system` does not end here
  cases call with
  | execJob => rfl
  | chdir | exit | getpid => exact hpasses.elim

end Line

/-- A command line makes one call of `exec_job` for each of its pipelines, in their order, and
    the jobs read as the stages of the pipeline. -/
theorem system_calls (lines : List Line) :
    (system (lines.flatMap Line.chars)).fault = none ∧
      List.Forall₂ Passes (lines.map Line.pipeline) (system (lines.flatMap Line.chars)).calls := by
  induction lines with
  | nil =>
    rw [List.flatMap_nil, system]
    exact ⟨rfl, .nil⟩
  | cons line lines ih =>
    obtain ⟨call, hpasses, hsystem⟩ := system_line line (lines.flatMap Line.chars)
    rw [List.flatMap_cons, hsystem]
    exact ⟨ih.1, .cons hpasses ih.2⟩

/-- `ls  <\ta` is such a line. -/
example : ∃ line : Line, line.chars = [0x6c, 0x73, 0x20, 0x20, 0x3c, 0x09, 0x61, 0x0a] := by
  let ls : Word :=
    ⟨[0x6c, 0x73], by decide, plain_of_all (by decide), by decide, fun r => by cases r <;> decide⟩
  let a : Word :=
    ⟨[0x61], by decide, plain_of_all (by decide), by decide, fun r => by cases r <;> decide⟩
  let stage : Stage :=
    ⟨[.word ls, .redir .stdin a], by decide, by decide, fun r => by cases r <;> decide⟩
  refine ⟨⟨⟨[stage], by decide, by decide, ?_⟩, [0x6c, 0x73, 0x20, 0x20, 0x3c, 0x09, 0x61], ?_,
    by decide, 0x0a,
    by decide⟩, rfl⟩
  · rintro x ⟨⟩ w ⟨⟩
    decide
  · show Tokens.Renders _ (stagesTokens [stage])
      ([] ++ ([0x6c, 0x73] ++ ([0x20, 0x20] ++ ([0x3c] ++ ([0x09] ++ ([0x61] ++ []))))))
    rw [show stagesTokens [stage] = [[0x6c, 0x73], [0x3c], [0x61]] from List.intercalate_singleton]
    exact .lead (by simp) (.cons (by simp) (by simp) (.cons (by simp) (by simp) (.last (by simp))))

end Tlibc.Sh
