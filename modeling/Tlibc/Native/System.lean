import Tlibc.Lib.Processes

/-!
# `tlibc/system.c`

The processes that run the jobs of a pipeline, up to `exec_single`: what it does with the
files of a job, and `Execve`, are left out. A job is its index in the array. The parameter
`stdout_fd` of `exec_recur_noret`, which is not used, is left out too.
-/

namespace Tlibc.System

open Processes

/-- `exec_recur_noret` with the arguments `cur` and `total`. -/
def execRecurNoret : Int × Int → Prog (Int × Int) Int
  | (cur, total) =>
    if ¬ cur ≤ total then
      .exit 1
    else if cur = 0 then
      .exec 0
    else
      .pipe fun ret pip =>
        if ret ≠ 0 then
          .exit 1
        else
          .fork fun pid =>
            if pid < 0 then
              .exit 1
            else if pid = 0 then
              .dup2 pip.2 1 <| .close pip.1 <| .close pip.2 <| .call (cur - 1, total)
            else
              .dup2 pip.1 0 <| .close pip.1 <| .close pip.2 <| .exec cur

/-- `exec_job`. -/
def execJob (cnt : Int) : Prog (Int × Int) Int :=
  if ¬ 0 ≤ cnt then
    .exit 1
  else
    .fork fun pid =>
      if pid < 0 then
        .ret (-1)
      else if pid = 0 then
        .call (cnt - 1, cnt)
      else
        .waitid fun ret => .ret ret

/-- The shell calls `exec_job`, with the files `own` open. -/
def shell (own : Nat → Option Nat) (cnt : Int) : State (Int × Int) Int where
  procs := [⟨execJob cnt, fun fd => (own fd).map File.own⟩]
  pipes := 0

end Tlibc.System
