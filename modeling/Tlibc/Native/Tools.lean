import Tlibc.Native.Process
import Tlibc.Native.Sh
import Tlibc.Native.Wc

/-!
# `tlibc/echo.c`, `env.c`, `seq.c`, `kill.c` and `cat.c`

The static `buf` of `Printf` is at `buf`.
-/

namespace Tlibc

open Process

/-! ## `echo` -/

namespace Echo

/-- `"%s "`. -/
def format : CString where
  chars := [0x25, 0x73, 0x20]
  nul_free := by decide

/-- A pass of the loop. -/
def pass (buf : Nat) (argc : Int32) (argv : UInt64) (s : Counter) :
    Fueled Crash (While.Next Counter Console) :=
  if s.i < argc then do
    let arg ← stringAt s.console.mem (pointerAt s.console.mem argv s.i)
    let c ← printf buf s.console format [.string arg]
    let i ← increment s.i
    return .again { i := i, console := c }
  else
    return .done s.console

/-- `main`. -/
def main (buf : Nat) : Program := fun argc argv _ c => do
  let c ← Fueled.loop (pass buf argc argv) { i := 1, console := c }
  return (0, c.write 1 [0x0a])

end Echo

/-! ## `env` -/

namespace Env

/-- `"%s\n"`. -/
def format : CString where
  chars := [0x25, 0x73, 0x0a]
  nul_free := by decide

/-- A pass of the loop. -/
def pass (buf : Nat) (envp : UInt64) (s : Counter) : Fueled Crash (While.Next Counter Console) :=
  if pointerAt s.console.mem envp s.i ≠ 0 then do
    let arg ← stringAt s.console.mem (pointerAt s.console.mem envp s.i)
    let c ← printf buf s.console format [.string arg]
    let i ← increment s.i
    return .again { i := i, console := c }
  else
    return .done s.console

/-- `main`. -/
def main (buf : Nat) : Program := fun _ _ envp c => do
  let c ← Fueled.loop (pass buf envp) { i := 0, console := c }
  return (0, c)

end Env

/-! ## `seq` -/

namespace Seq

/-- `"%d\n"`. -/
def format : CString where
  chars := [0x25, 0x64, 0x0a]
  nul_free := by decide

/-- `"usage: seq <first> <last> or seq <last>\n"`. -/
def usage : List UInt8 :=
  [0x75, 0x73, 0x61, 0x67, 0x65, 0x3a, 0x20, 0x73, 0x65, 0x71, 0x20, 0x3c, 0x66, 0x69, 0x72, 0x73,
    0x74, 0x3e, 0x20, 0x3c, 0x6c, 0x61, 0x73, 0x74, 0x3e, 0x20, 0x6f, 0x72, 0x20, 0x73, 0x65, 0x71,
    0x20, 0x3c, 0x6c, 0x61, 0x73, 0x74, 0x3e, 0x0a]

/-- A pass of the loop. -/
def pass (buf : Nat) (last : Int32) (s : Counter) : Fueled Crash (While.Next Counter Console) :=
  if s.i ≤ last then do
    let c ← printf buf s.console format [.int s.i]
    let i ← increment s.i
    return .again { i := i, console := c }
  else
    return .done s.console

/-- The loop. -/
def count (buf : Nat) (first last : Int32) (c : Console) : Fueled Crash (Int32 × Console) := do
  let c ← Fueled.loop (pass buf last) { i := first, console := c }
  return (0, c)

/-- `main`. -/
def main (buf : Nat) : Program := fun argc argv _ c =>
  if argc = 2 then do
    let last ← atoi c.mem (pointerAt c.mem argv 1)
    count buf 1 last c
  else if argc = 3 then do
    let first ← atoi c.mem (pointerAt c.mem argv 1)
    let last ← atoi c.mem (pointerAt c.mem argv 2)
    count buf first last c
  else
    return (1, c.write 1 usage)

end Seq

/-! ## `kill` -/

namespace Kill

/-- `"Usage: kill [-h] or kill [-s signo] pid\n"`, with its NUL. -/
def help : List UInt8 :=
  [0x55, 0x73, 0x61, 0x67, 0x65, 0x3a, 0x20, 0x6b, 0x69, 0x6c, 0x6c, 0x20, 0x5b, 0x2d, 0x68, 0x5d,
    0x20, 0x6f, 0x72, 0x20, 0x6b, 0x69, 0x6c, 0x6c, 0x20, 0x5b, 0x2d, 0x73, 0x20, 0x73, 0x69, 0x67,
    0x6e, 0x6f, 0x5d, 0x20, 0x70, 0x69, 0x64, 0x0a, 0x00]

/-- `"-h"`. -/
def helpFlag : List UInt8 := [0x2d, 0x68]

/-- `"-s"`. -/
def signoFlag : List UInt8 := [0x2d, 0x73]

/-- `SIGKILL`. -/
def sigkill : Int32 := 9

/-- The variables that the loop sets. -/
structure Options where
  signo : Int32
  pid : Int32
  h : Bool
  deriving DecidableEq, Repr

/-- Before the loop. -/
def Options.start : Options where
  signo := sigkill
  pid := -1
  h := false

/-- The variables of the loop. -/
structure Parse where
  i : Int32
  opts : Options

/-- A pass of the loop. `Strcmp` is the one of `sh.c`. -/
def pass (m : Mem) (argc : Int32) (argv : UInt64) (s : Parse) :
    Fueled Crash (While.Next Parse Options) :=
  if s.i < argc then do
    let arg ← stringAt m (pointerAt m argv s.i)
    let arg ← deref arg
    if Sh.strcmp arg.chars helpFlag = 0 then
      let i ← increment s.i
      return .again { i := i, opts := { s.opts with h := true } }
    else if Sh.strcmp arg.chars signoFlag = 0 then
      let i ← increment s.i
      let signo ← atoi m (pointerAt m argv i)
      let i ← increment i
      return .again { i := i, opts := { s.opts with signo := signo } }
    else
      let pid ← atoi m (pointerAt m argv s.i)
      let i ← increment s.i
      return .again { i := i, opts := { s.opts with pid := pid } }
  else
    return .done s.opts

/-- A call of `sys_kill`. -/
structure Signal where
  pid : Int32
  signo : Int32
  deriving DecidableEq, Repr

/-- What is left at the end: the console, and the calls of `sys_kill` that were made. -/
structure Ended where
  console : Console
  signals : List Signal

/-- `main`, with what a call of `sys_kill` returns. -/
def main (sysKill : Signal → Int32) : ProgramOf Ended := fun argc argv _ c =>
  if argc < 2 then
    return (1, { console := c.write 2 help, signals := [] })
  else do
    let opts ← Fueled.loop (pass c.mem argc argv) { i := 1, opts := .start }
    if opts.h then
      return (0, { console := c.write 1 help, signals := [] })
    else
      let signal := { pid := opts.pid, signo := opts.signo }
      return (sysKill signal, { console := c, signals := [signal] })

end Kill

/-! ## `cat` -/

namespace Cat

/-- `while ((ret = sys_read(0, buf, sizeof(buf))) > 0) { sys_write(1, buf, ret); }`, for
    what the calls deliver. -/
def copyInput (buf : Nat) : List Wc.Chunk → Console → Console
  | [], c => c
  | chunk :: input, c =>
    let mem := c.mem.write buf chunk.bytes
    copyInput buf input ({ c with mem := mem }.write 1 (mem.read buf chunk.bytes.length))

/-- `"Bad mmap, abort\n"`. -/
def badMmap : List UInt8 :=
  [0x42, 0x61, 0x64, 0x20, 0x6d, 0x6d, 0x61, 0x70, 0x2c, 0x20, 0x61, 0x62, 0x6f, 0x72, 0x74, 0x0a]

/-- What the system calls do. -/
structure Calls where
  /-- `sys_open(path, O_RDONLY)` -/
  sysOpen : Option CString → Int32
  /-- `sys_lseek(fd, 0, SEEK_END)` -/
  sysLseek : Int32 → Int64
  /-- `sys_mmap(NULL, fsz, PROT_READ, MAP_PRIVATE, fd, 0)` -/
  sysMmap : UInt64 → Int32 → UInt64
  /-- the memory behind that call -/
  mapped : Mem → Mem

/-- `main`, whose static `buf` is at `buf`. The file is asked to be written in one call,
    whatever that call returns. The `sys_munmap` and the `sys_close` at the end of the process
    are left out. -/
def main (calls : Calls) (input : List Wc.Chunk) (buf : Nat) : Program := fun argc argv _ c =>
  if argc < 2 then
    return (0, copyInput buf input c)
  else do
    let path ← stringAt c.mem (pointerAt c.mem argv 1)
    let fd := calls.sysOpen path
    if fd < 0 then
      return (1, c)
    else
      let fsz := (calls.sysLseek fd).toUInt64
      let dat := calls.sysMmap fsz fd
      let c := { c with mem := calls.mapped c.mem }
      if dat = -1 ∨ dat &&& 0xfff ≠ 0 then
        return (1, c.write 2 badMmap)
      else
        return (0, c.write 1 (c.mem.read dat.toNat fsz.toNat))

end Cat

end Tlibc
