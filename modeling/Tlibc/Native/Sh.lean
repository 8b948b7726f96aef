import Tlibc.Lib.Tokens
import Mathlib.Data.Int.Basic
import Mathlib.Logic.Function.Basic

/-!
# `tlibc/sh.c`

`system` and `system_single`, up to the calls they make. A command line is the list of its
characters before the terminating NUL, and a pointer into `buf` of the first job is an
offset there. The buffer is filled from its start and holds zeros behind what was stored.
Indices and counters are natural numbers. What the calls return, what `system` makes of
that and what it prints, and the member `used` of a job are left out.
-/

namespace Tlibc.Sh

/-- The ways a call ends without returning. -/
inductive Fault where
  /-- a store outside `jobs`, `argv` or `buf` -/
  | outOfBounds
  /-- a string is read through a null pointer -/
  | nullPointer
  deriving DecidableEq, Repr

/-- `contains`. -/
def contains (s : List UInt8) (ch : UInt8) : Bool := ch = 0 || s.contains ch

/-- `blank`: `" \t\r\n"`. -/
def blank : List UInt8 := [0x20, 0x09, 0x0d, 0x0a]

/-- `eoc`: `"\n;&"`. -/
def eoc : List UInt8 := [0x0a, 0x3b, 0x26]

/-- `(int) *s`, of a signed `char`. -/
def charValue (c : UInt8) : Int := c.toInt8.toInt

/-- `Strcmp`, of the characters before the NULs. -/
def strcmp : List UInt8 → List UInt8 → Int
  | [], [] => 0
  | [], d :: _ => -charValue d
  | c :: _, [] => charValue c
  | c :: s, d :: t => if c ≠ d then charValue c - charValue d else strcmp s t

/-- The three files that can be redirected. -/
inductive Redir where
  | stdin
  | stdout
  | stderr
  deriving DecidableEq, Repr

/-- `"<"`, `">"` and `"2>"`. -/
def Redir.operator : Redir → List UInt8
  | stdin => [0x3c]
  | stdout => [0x3e]
  | stderr => [0x32, 0x3e]

/-- `"|"`. -/
def bar : List UInt8 := [0x7c]

/-- `job_t`. `fo` holds `stdin_fo`, `stdout_fo` and `stderr_fo`. -/
structure Job where
  fo : Redir → Option Nat
  exe : Option Nat
  argv : Nat → Option Nat
  pipe : Bool

/-- A job after `Memset`. -/
def Job.zero : Job := ⟨fun _ => none, none, fun _ => none, false⟩

/-- The variables of `system_single`. `pending` holds `prein`, `preout` and `preerr`, `cur`
    is the index of the job it points to, and `cp` is behind the bytes of `buf`. -/
structure Parse where
  jobs : Nat → Job
  jobcnt : Nat
  narg : Nat
  cur : Nat
  buf : List UInt8
  pending : Redir → Bool

/-- Before the first token. -/
def Parse.start : Parse := ⟨fun _ => .zero, 1, 0, 0, [], fun _ => false⟩

/-- The string that begins at an offset of the buffer. -/
def stringAt (buf : List UInt8) (off : Nat) : List UInt8 := (buf.drop off).takeWhile (· ≠ 0)

/-- `sizeof(buf)`. -/
def bufSize : Nat := 3545

/-- Copy a token to `cp`, with its NUL. -/
def Parse.store (s : Parse) (token : List UInt8) : Except Fault Parse :=
  if s.buf.length + token.length < bufSize then
    .ok { s with buf := s.buf ++ token ++ [0] }
  else
    .error .outOfBounds

/-- A store to the job that `cur` points to. -/
def Parse.setJob (s : Parse) (f : Job → Job) : Except Fault Parse :=
  if s.cur < 4 then
    .ok { s with jobs := Function.update s.jobs s.cur (f (s.jobs s.cur)) }
  else
    .error .outOfBounds

/-- A pipe ends a job. The result says whether the token may still be an argument. -/
def takePipe (str : List UInt8) (s : Parse) : Except Fault (Parse × Bool) :=
  if strcmp str bar = 0 then do
    let s ← s.setJob fun job => { job with pipe := false }
    return ({ s with jobcnt := s.jobcnt + 1, cur := s.cur + 1, narg := 0 }, false)
  else
    return (s, true)

/-- The token is the destination of a redirection. -/
def takeTarget (old : Nat) (r : Redir) (x : Parse × Bool) : Except Fault (Parse × Bool) :=
  if x.1.pending r then do
    let s := { x.1 with pending := Function.update x.1.pending r false }
    let s ← s.setJob fun job => { job with fo := Function.update job.fo r (some old) }
    return (s, false)
  else
    return x

/-- The next token is the destination of a redirection. -/
def takeOperator (str : List UInt8) (r : Redir) (x : Parse × Bool) : Parse × Bool :=
  if strcmp str r.operator = 0 then
    ({ x.1 with pending := Function.update x.1.pending r true }, false)
  else
    x

/-- The token is an argument. -/
def takeArg (old : Nat) (x : Parse × Bool) : Except Fault Parse :=
  if x.2 then do
    let s ← (if x.1.narg = 0 then x.1.setJob fun job => { job with exe := some old } else pure x.1)
    if s.narg < 64 then
      let s ← s.setJob fun job => { job with argv := Function.update job.argv s.narg (some old) }
      return { s with narg := s.narg + 1 }
    else
      .error .outOfBounds
  else
    return x.1

/-- What the loop of `system_single` does with a token. -/
def takeToken (s : Parse) (token : List UInt8) : Except Fault Parse := do
  let old := s.buf.length
  let s ← s.store token
  let str := stringAt s.buf old
  let x ← takePipe str s
  let x ← takeTarget old .stdin x
  let x ← takeTarget old .stdout x
  let x ← takeTarget old .stderr x
  let x := takeOperator str .stdin x
  let x := takeOperator str .stdout x
  let x := takeOperator str .stderr x
  takeArg old x

/-- The loop of `system_single`, from `text` to the end of the command. -/
def scan (s : Parse) (text : List UInt8) : Except Fault Parse :=
  match text with
  | [] => return s
  | c :: text => do
    let token := Tokens.first (contains blank) (c :: text)
    let s ← (if token.length > 0 then takeToken s token else pure s)
    scan s (Tokens.rest (contains blank) (c :: text))
termination_by text.length
decreasing_by exact Tokens.length_rest_lt (List.cons_ne_nil _ _)

/-- The calls of `system_single`. `exec_job` gets the jobs, their number and the buffer that
    they point into. -/
inductive Call where
  | execJob (jobs : Nat → Job) (cnt : Nat) (buf : List UInt8)
  | chdir (path : Option (List UInt8))
  | exit
  | getpid

/-- `"cd"`, `"exit"`, `"q"` and `"pid"`. -/
def cdName : List UInt8 := [0x63, 0x64]
def exitName : List UInt8 := [0x65, 0x78, 0x69, 0x74]
def qName : List UInt8 := [0x71]
def pidName : List UInt8 := [0x70, 0x69, 0x64]

/-- `system_single`, of the first `end` characters of `cmd`. -/
def systemSingle (cmd : List UInt8) (stop : Nat) : Except Fault (Option Call) :=
  if cmd = [] then
    .ok none
  else do
    let s ← scan .start (cmd.take stop)
    match (s.jobs 0).exe with
    | none => .error .nullPointer
    | some exe =>
      let exe := stringAt s.buf exe
      if strcmp cdName exe = 0 then
        return some (.chdir (((s.jobs 0).argv 1).map (stringAt s.buf)))
      else if strcmp exitName exe = 0 ∨ strcmp qName exe = 0 then
        return some .exit
      else if strcmp pidName exe = 0 then
        return some .getpid
      else
        return some (.execJob s.jobs s.jobcnt s.buf)

/-- The calls of `system`, and how it ended if it did not return. -/
structure Calls where
  calls : List Call
  fault : Option Fault

/-- `system`. A call of `exit` is the last one. -/
def system (cmd : List UInt8) : Calls :=
  match cmd with
  | [] => ⟨[], none⟩
  | c :: cmd =>
    let next := ((c :: cmd).takeWhile fun c => !contains eoc c).length
    let rest := (c :: cmd).drop (next + 1)
    match systemSingle (c :: cmd) next with
    | .error f => ⟨[], some f⟩
    | .ok (some .exit) => ⟨[.exit], none⟩
    | .ok call => ⟨call.toList ++ (system rest).calls, (system rest).fault⟩
termination_by cmd.length
decreasing_by all_goals simp only [List.length_drop, List.length_cons]; omega

end Tlibc.Sh
