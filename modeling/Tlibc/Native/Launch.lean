import Tlibc.Lib.Stages
import Tlibc.Native.Sh
import Tlibc.Native.Strings
import Tlibc.Native.System

/-!
# `tlibc/system.c`: `exec_single` and `Execve`

What the process of a job does from `exec_single` on: it opens the files of its
redirections and looks for the file to execute. The members of a job point into the buffer
of the first one. The environment that `Execve` passes is empty and left out, and so are
the mode that a file is created with, which is not passed, and what the programs do that are
executed, but for what `Kernel.others` says of it.
-/

namespace Tlibc.System

open Processes

/-! ## System calls -/

/-- What a file descriptor refers to from `exec_single` on. -/
inductive Held where
  /-- a file that the process came with -/
  | first (f : File)
  /-- a file that `exec_single` opened -/
  | opened (path : List UInt8) (flags : Nat)
  deriving DecidableEq

/-- A table of file descriptors. -/
abbrev Files := Nat → Option Held

/-- `dup2`, which does nothing when `old` is not open. -/
def Files.dup2 (fds : Files) (old : Int) (new : Nat) : Files :=
  if 0 ≤ old then
    match fds old.toNat with
    | none => fds
    | some f => Function.update fds new (some f)
  else
    fds

/-- What the calls make of the file system. -/
structure Kernel (σ : Type) where
  /-- `open` of a path with flags: the state behind it, unless it fails -/
  opens : σ → List UInt8 → Nat → Option σ
  /-- whether `execve` of a path succeeds -/
  runs : σ → List UInt8 → Bool
  /-- what all other processes may do before a call -/
  others : σ → σ → Prop
  others_refl : ∀ s, others s s

/-- `O_RDONLY` and `O_CREAT | O_RDWR`. -/
def oRdonly : Nat := 0
def oCreatRdwr : Nat := 64 ||| 2

/-- The ways the process of a job ends without executing anything. -/
inductive LaunchFault where
  /-- a store outside the `buf` of `Execve`, or an `argv` without a null pointer -/
  | outOfBounds
  /-- a string is read through a null pointer -/
  | nullPointer
  /-- `exec_single` returns, although it is declared `noreturn` -/
  | returned
  deriving DecidableEq, Repr

/-- What the process of a job still has to do, by its next system call. -/
inductive Launch where
  | sysOpen (path : List UInt8) (flags : Nat) (k : Int → Launch)
  | sysDup2 (old : Int) (new : Nat) (k : Launch)
  | sysExecve (exe : Option (List UInt8)) (argv : List (List UInt8)) (k : Launch)
  /-- the process executes a file -/
  | image (exe : List UInt8) (argv : List (List UInt8))
  | fault (f : LaunchFault)

/-! ## `Execve` -/

/-- The elements of the local `dir`: `"/"`, `"/bin/"`, `"/usr/bin/"` and
    `"/usr/local/bin/"`. -/
def dir : List (List UInt8) :=
  [[0x2f],
    [0x2f, 0x62, 0x69, 0x6e, 0x2f],
    [0x2f, 0x75, 0x73, 0x72, 0x2f, 0x62, 0x69, 0x6e, 0x2f],
    [0x2f, 0x75, 0x73, 0x72, 0x2f, 0x6c, 0x6f, 0x63, 0x61, 0x6c, 0x2f, 0x62, 0x69, 0x6e, 0x2f]]

/-- `sizeof(buf)`. -/
def pathSize : Nat := 128

/-- `chp = Strcpy(chp, src)` for a `chp` into `buf`. -/
def copyPath (buf : Mem) (chp : Nat) (src : List UInt8) : Except LaunchFault (Mem × Nat) :=
  if chp + src.length < pathSize then .ok (Strings.strcpy buf chp src) else .error .outOfBounds

/-- A string at the begin of `buf`. -/
def pathIn (buf : Mem) : List UInt8 := Strings.stringAt buf 0 pathSize

/-- Copy the name of a directory to `buf`, and `exe` behind it. -/
def joinPath (buf : Mem) (path : List UInt8) (exe : Option (List UInt8)) :
    Except LaunchFault Mem := do
  let (buf, chp) ← copyPath buf 0 path
  match exe with
  | none => .error .nullPointer
  | some exe =>
    let (buf, _) ← copyPath buf chp exe
    return buf

/-- The loop of `Execve`, from an element of `dir` on. -/
def execveLoop (exe : Option (List UInt8)) (argv : List (List UInt8)) (k : Launch) :
    List (List UInt8) → Mem → Launch
  | [], _ => k
  | path :: dirs, buf =>
    match joinPath buf path exe with
    | .error f => .fault f
    | .ok buf => .sysExecve (some (pathIn buf)) argv (execveLoop exe argv k dirs buf)

/-- `Execve`, whose `buf` holds zeros in a process that has not called it. -/
def execve (exe : Option (List UInt8)) (argv : List (List UInt8)) (k : Launch) : Launch :=
  .sysExecve exe argv (execveLoop exe argv k dir fun _ => 0)

/-! ## `exec_single` -/

/-- The strings of `argv` before its null pointer, if it has one. -/
def argvStrings (buf : List UInt8) (job : Sh.Job) : Option (List (List UInt8)) :=
  let ptrs := (List.range 64).map job.argv
  if none ∈ ptrs then
    some ((ptrs.takeWhile Option.isSome).filterMap fun p => p.map (Sh.stringAt buf))
  else
    none

/-- `if (job->fo) { int fd = sys_open(job->fo, flags); sys_dup2(fd, std); }` -/
def redirect (buf : List UInt8) (fo : Option Nat) (flags : Nat) (std : Nat) (k : Launch) : Launch :=
  match fo with
  | none => k
  | some fo => .sysOpen (Sh.stringAt buf fo) flags fun fd => .sysDup2 fd std k

/-- `Execve((char *)job->exe, (char **)job->argv)`, the last statement of `exec_single`. -/
def execJobFile (buf : List UInt8) (job : Sh.Job) : Launch :=
  match argvStrings buf job with
  | none => .fault .outOfBounds
  | some argv => execve (job.exe.map (Sh.stringAt buf)) argv (.fault .returned)

/-- `exec_single`. -/
def execSingle (buf : List UInt8) (job : Sh.Job) : Launch :=
  redirect buf (job.fo .stdin) oRdonly 0 <|
  redirect buf (job.fo .stdout) oCreatRdwr 1 <|
  redirect buf (job.fo .stderr) oCreatRdwr 2 <|
  execJobFile buf job

/-! ## The processes of a pipeline -/

/-- A process from `exec_single` on. -/
structure Running where
  prog : Launch
  fds : Files

variable {σ : Type}

/-- A step of such a process: its next call, before which other processes may have taken
    theirs. `open` returns a number that is not in use. -/
inductive Running.Next (K : Kernel σ) : σ → Running → σ → Running → Prop where
  | opens {s s' s'' : σ} {path : List UInt8} {flags fd : Nat} {k : Int → Launch} {fds : Files}
    (hothers : K.others s s') (h : K.opens s' path flags = some s'') (hfree : fds fd = none) :
    Running.Next K s ⟨.sysOpen path flags k, fds⟩ s''
      ⟨k fd, Function.update fds fd (some (.opened path flags))⟩
  | openFails {s s' : σ} {path : List UInt8} {flags : Nat} {ret : Int} {k : Int → Launch}
    {fds : Files} (hothers : K.others s s') (h : K.opens s' path flags = none) (hret : ret < 0) :
    Running.Next K s ⟨.sysOpen path flags k, fds⟩ s' ⟨k ret, fds⟩
  | dup2 {s s' : σ} {old : Int} {new : Nat} {k : Launch} {fds : Files} (hothers : K.others s s') :
    Running.Next K s ⟨.sysDup2 old new k, fds⟩ s' ⟨k, fds.dup2 old new⟩
  | execs {s s' : σ} {exe : List UInt8} {argv : List (List UInt8)} {k : Launch} {fds : Files}
    (hothers : K.others s s') (h : K.runs s' exe = true) :
    Running.Next K s ⟨.sysExecve (some exe) argv k, fds⟩ s' ⟨.image exe argv, fds⟩
  | execFails {s s' : σ} {exe : Option (List UInt8)} {argv : List (List UInt8)} {k : Launch}
    {fds : Files} (hothers : K.others s s') (h : ∀ e ∈ exe, K.runs s' e = false) :
    Running.Next K s ⟨.sysExecve exe argv k, fds⟩ s' ⟨k, fds⟩

/-- What is behind the `exec` of a job. -/
def launchStage (K : Kernel σ) (buf : List UInt8) (jobs : Nat → Sh.Job) : Stage Int σ Running where
  start job fds := ⟨execSingle buf (jobs job.toNat), fun fd => (fds fd).map .first⟩
  Next := Running.Next K

end Tlibc.System
