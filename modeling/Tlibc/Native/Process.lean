import Tlibc.Lib.Fueled
import Tlibc.Lib.Machine
import Tlibc.Native.Atoi
import Tlibc.Native.Printf
import Tlibc.Native.Strings

/-!
# `tlibc/sys.S`: the entry of a program

`_start` for x86-64, and what a `main` sees: the memory, in which its static variables are
at any addresses, and the `sys_write` calls that were made. No program looks at what these
return, so they are kept as they were made, also when fewer bytes are written than asked for.
`sys_exit` ends the process as a return from `main` does.
-/

namespace Tlibc.Process

open Machine (Reg State loadWord storeWord)

/-! ## `_start` -/

/-- The instructions of `_start`, with their operands in the order of the AT&T syntax. -/
inductive Instr where
  /-- a `movq` -/
  | move (i : Machine.Instr)
  /-- `addq $v, %dst` -/
  | addImm (v : UInt64) (dst : Reg)
  /-- `addq %src, %dst` -/
  | add (src dst : Reg)
  /-- `shlq $n, %dst` -/
  | shl (n : UInt64) (dst : Reg)
  /-- `xor %src, %dst` -/
  | xor (src dst : Reg)
  /-- `call`, which pushes the address behind it -/
  | call (back : UInt64)
  deriving DecidableEq, Repr

def Instr.exec (s : State) : Instr → State
  | move i => i.exec s
  | addImm v dst => s.setReg dst (s.regs dst + v)
  | add src dst => s.setReg dst (s.regs dst + s.regs src)
  | shl n dst => s.setReg dst (s.regs dst <<< n)
  | xor src dst => s.setReg dst (s.regs dst ^^^ s.regs src)
  | call back =>
    { s.setReg .rsp (s.regs .rsp - 8) with mem := storeWord s.mem (s.regs .rsp - 8) back }

/-- `_start` up to its `call main`. -/
def start (back : UInt64) : List Instr :=
  [.move (.load 0 .rsp .rdi),
    .move (.mov .rsp .rsi),
    .addImm 0x8 .rsi,
    .move (.mov .rdi .rax),
    .addImm 2 .rax,
    .shl 3 .rax,
    .move (.mov .rsp .rdx),
    .add .rax .rdx,
    .xor .rax .rax,
    .call back]

/-! ## What a program does -/

/-- The ways a program goes wrong. -/
inductive Crash where
  /-- in `Printf` -/
  | printf (f : Printf.Fault)
  /-- a signed overflow -/
  | overflow
  /-- a string is read through a null pointer -/
  | nullPointer
  /-- an access outside an array -/
  | outOfBounds
  deriving DecidableEq, Repr

/-- The memory of a process, and the `sys_write` calls it has made. -/
structure Console where
  mem : Mem
  written : List Printf.Written

/-- `sys_write(fd, s, n)`, of what memory holds there. -/
def Console.write (c : Console) (fd : Nat) (bytes : List UInt8) : Console :=
  { c with written := c.written ++ [{ fd := fd, bytes := bytes }] }

/-- `sizeof(buf)` of `Printf`. -/
def printfSize : Nat := 2048

/-- `Printf`, whose static `buf` is at `buf`. -/
def printf (buf : Nat) (c : Console) (fmt : CString) (args : List Printf.Arg) :
    Fueled Crash Console := do
  let r ← Fueled.ofRun fun fuel =>
    (Printf.printf fuel c.mem buf fmt args).map fun r => r.mapError .printf
  if r.result.ret.toNat < printfSize then
    return { mem := r.result.mem, written := c.written ++ [r.written] }
  else
    Fueled.ofExcept (.error .outOfBounds)

/-- The string at an address. -/
def stringOf (m : Mem) (a : Nat) : Fueled Crash CString :=
  Fueled.ofRun fun fuel => (Strings.strlenFrom m a fuel 0).map fun n => .ok
    { chars := Strings.stringAt m a n
      nul_free := Strings.stringAt_nul_free m a n }

/-- What a pointer leads to. -/
def stringAt (m : Mem) (p : UInt64) : Fueled Crash (Option CString) :=
  if p = 0 then
    return none
  else do
    let s ← stringOf m p.toNat
    return some s

/-- A string that is read through a pointer. -/
def deref : Option CString → Fueled Crash CString
  | none => Fueled.ofExcept (.error .nullPointer)
  | some s => return s

/-- `atoi` of what a pointer leads to. -/
def atoi (m : Mem) (p : UInt64) : Fueled Crash Int32 := do
  let nptr ← stringAt m p
  let nptr ← deref nptr
  Fueled.ofExcept ((Atoi.atoi nptr).mapError fun _ => .overflow)

/-- The variables of a loop that counts in an `int i`. -/
structure Counter where
  i : Int32
  console : Console

/-- `i++`. -/
def increment (i : Int32) : Fueled Crash Int32 :=
  Fueled.ofExcept ((Atoi.toInt32 (i.toInt + 1)).mapError fun _ => .overflow)

/-- `p[i]` of an array of pointers. -/
def pointerAt (m : Mem) (p : UInt64) (i : Int32) : UInt64 :=
  loadWord m (p + 8 * i.toInt64.toUInt64)

/-- A `main`, of `argc`, `argv` and `envp`: the value it returns, or passes to `sys_exit`, and
    what it leaves. -/
abbrev ProgramOf (σ : Type) : Type :=
  Int32 → UInt64 → UInt64 → Console → Fueled Crash (Int32 × σ)

/-- A `main` that leaves the console. -/
abbrev Program : Type := ProgramOf Console

/-- The process from `_start` on, to the `sys_exit` of what `main` returns. -/
def process {σ : Type} (main : ProgramOf σ) (back : UInt64) (s : State) :
    Fueled Crash (Int32 × σ) :=
  let s := (start back).foldl Instr.exec s
  main (s.regs .rdi).toUInt32.toInt32 (s.regs .rsi) (s.regs .rdx) { mem := s.mem, written := [] }

end Tlibc.Process
