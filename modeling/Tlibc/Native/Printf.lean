import Tlibc.Lib.While
import Tlibc.Native.Basic

/-!
# `tlibc/stdio.c`: formatted output

`Sprintf`, `Printf` and the functions that put one argument. The format and the strings
of `%s` are values: `dst` does not reach into them. Negation wraps, and so do `i` and
`ret`. A `long` has 64 bits.
-/

namespace Tlibc.Printf

/-- The ways a call ends without returning. -/
inductive Fault where
  /-- a store outside a local buffer -/
  | outOfBounds
  /-- the format is read outside its characters and their NUL -/
  | format
  /-- `va_arg` finds no argument left, or one of another type -/
  | argument
  deriving DecidableEq, Repr

def minus : UInt8 := 0x2d

def zero : UInt8 := 0x30

def letterX : UInt8 := 0x78

def percent : UInt8 := 0x25

/-- `digits`: `"0123456789abcdef"`. -/
def digits : List UInt8 :=
  [0x30, 0x31, 0x32, 0x33, 0x34, 0x35, 0x36, 0x37, 0x38, 0x39, 0x61, 0x62, 0x63, 0x64, 0x65, 0x66]

/-- `digits[i]`. -/
def digit (i : Nat) : UInt8 := digits.getD i 0

/-- The memory that is written from `dst` on, and the count `ret`. -/
structure Out where
  mem : Mem
  ret : UInt32

/-- `dst[ret++] = c`. -/
def Out.put (out : Out) (dst : Nat) (c : UInt8) : Out :=
  { mem := out.mem.write (dst + out.ret.toNat) [c], ret := out.ret + 1 }

/-- `while (val > 0) { buf[i++] = digits[low(val)]; val = high(val); }` for a local
    `char buf[size]`: the buffer, and `i`. -/
def digitLoop (low high : Nat → Nat) (size : Nat) (buf : Mem) (i val : Nat) :
    Except Fault (Mem × Nat) :=
  if 0 < val then
    if i < size then
      digitLoop low high size (buf.write i [digit (low val)]) (i + 1) (high val)
    else
      .error .outOfBounds
  else
    .ok (buf, i)
termination_by size - i

/-- A local buffer. None of its elements is read before it is stored. -/
def localBuf : Mem := fun _ => 0

/-- The loop for base 10. -/
def decimalLoop (size val : Nat) : Except Fault (Mem × Nat) :=
  digitLoop (fun v => v % 0xa) (fun v => v / 0xa) size localBuf 0 val

/-- The loop for base 16. -/
def hexLoop (size val : Nat) : Except Fault (Mem × Nat) :=
  digitLoop (fun v => v &&& 0xf) (fun v => v >>> 4) size localBuf 0 val

/-- `while (i > 0) { i--; dst[ret++] = buf[i]; }` -/
def copyBack (dst : Nat) (buf : Mem) : Nat → Out → Out
  | 0, out => out
  | i + 1, out => copyBack dst buf i (out.put dst (buf i))

/-- `putint`. The `-val` of the least `int` is a signed overflow, which is taken as wrapping
    here, as compilers make it; the one in `atoi` is a fault. -/
def putint (m : Mem) (dst : Nat) (val : Int32) : Except Fault Out :=
  let out : Out := { mem := m, ret := 0 }
  let (out, v) := if val < 0 then (out.put dst minus, (-val).toUInt32) else (out, val.toUInt32)
  if v = 0 then
    .ok { mem := out.mem.write dst [zero], ret := 1 }
  else do
    let (buf, i) ← decimalLoop 16 v.toNat
    return copyBack dst buf i out

/-- `putuint`. -/
def putuint (m : Mem) (dst : Nat) (val : UInt32) : Except Fault Out :=
  if val = 0 then
    .ok { mem := m.write dst [zero], ret := 1 }
  else do
    let (buf, i) ← decimalLoop 16 val.toNat
    return copyBack dst buf i { mem := m, ret := 0 }

/-- `puthex`. -/
def puthex (m : Mem) (dst : Nat) (val : UInt32) : Except Fault Out := do
  let out : Out := { mem := m, ret := 0 }
  let out := (out.put dst zero).put dst letterX
  let (buf, i) ← hexLoop 8 val.toNat
  return copyBack dst buf i out

/-- `putptr`. -/
def putptr (m : Mem) (dst : Nat) (val : UInt64) : Except Fault Out :=
  let out : Out := { mem := m, ret := 0 }
  let out := (out.put dst zero).put dst letterX
  if val = 0 then
    -- the zero is stored in `buf`, and not in `dst`
    .ok { out with ret := out.ret + 1 }
  else do
    let (buf, i) ← hexLoop 16 val.toNat
    return copyBack dst buf i out

/-- `putl`. The `-val` of the least `long` is taken as wrapping, as in `putint`. -/
def putl (m : Mem) (dst : Nat) (val : Int64) : Except Fault Out := do
  let out : Out := { mem := m, ret := 0 }
  let (out, v) := if val < 0 then (out.put dst minus, (-val).toUInt64) else (out, val.toUInt64)
  let (buf, i) ← decimalLoop 24 v.toNat
  return copyBack dst buf i out

/-- `for (i = 0; i < n; i++) dst[i] = buf[ret - 1 - i];` -/
def copyReversed (m : Mem) (dst : Nat) (buf : Mem) (ret : Nat) : Nat → Mem
  | 0 => m
  | i + 1 => (copyReversed m dst buf ret i).write (dst + i) [buf (ret - 1 - i)]

/-- `putul`. -/
def putul (m : Mem) (dst : Nat) (val : UInt64) : Except Fault Out :=
  if val = 0 then
    .ok { mem := m.write dst [zero], ret := 1 }
  else do
    let (buf, ret) ← decimalLoop 24 val.toNat
    return { mem := copyReversed m dst buf ret ret, ret := UInt32.ofNat ret }

/-- `"(null)"`. -/
def nullText : List UInt8 := [0x28, 0x6e, 0x75, 0x6c, 0x6c, 0x29]

/-- `putstr`, of a string or of a null pointer. -/
def putstr (m : Mem) (dst : Nat) (src : Option CString) : Out :=
  let text := match src with
    | none => nullText
    | some src => src.chars
  text.foldl (fun out c => out.put dst c) { mem := m, ret := 0 }

/-! ## The scanner -/

/-- An argument of the call, with its type. -/
inductive Arg where
  | int (v : Int32)
  | uint (v : UInt32)
  | long (v : Int64)
  | ulong (v : UInt64)
  | string (s : Option CString)

/-- The conversions, under their letters. -/
inductive Conversion where
  | d
  | u
  | x
  | p
  | l
  | s
  | L
  deriving DecidableEq, Repr

namespace Conversion

def letter : Conversion → UInt8
  | d => 0x64
  | u => 0x75
  | x => 0x78
  | p => 0x70
  | l => 0x6c
  | s => 0x73
  | L => 0x4c

/-- The case of the `switch` for a character: none is the default. -/
def ofChar (c : UInt8) : Option Conversion :=
  [d, u, x, p, l, s, L].find? fun k => k.letter = c

/-- The case of a conversion: what the `put` function does with the next argument, and
    the arguments behind it. -/
def put (k : Conversion) (m : Mem) (dst : Nat) (args : List Arg) :
    Except Fault (Out × List Arg) :=
  match k, args with
  | d, .int v :: args => (putint m dst v).map (·, args)
  | u, .uint v :: args => (putuint m dst v).map (·, args)
  | x, .uint v :: args => (puthex m dst v).map (·, args)
  | p, .ulong v :: args => (putptr m dst v).map (·, args)
  | l, .long v :: args => (putl m dst v).map (·, args)
  | s, .string v :: args => .ok (putstr m dst v, args)
  | L, .ulong v :: args => (putul m dst v).map (·, args)
  | _, _ => .error .argument

end Conversion

/-- `fmt[i]`. -/
def charAt (fmt : CString) (i : Int32) : Except Fault UInt8 :=
  if 0 ≤ i.toInt ∧ i.toInt ≤ fmt.chars.length then
    .ok (fmt.chars.getD i.toInt.toNat 0)
  else
    .error .format

/-- The variables of the loop. -/
structure Scan where
  i : Int32
  args : List Arg
  out : Out

/-- The state when `Sprintf` returns: the memory, its result, and the arguments that
    `va_end` leaves. -/
structure Result where
  mem : Mem
  ret : UInt32
  args : List Arg

/-- A pass of the loop, and `dst[ret] = 0` behind the last one. -/
def scan (fmt : CString) (dst : Nat) (s : Scan) : Except Fault (While.Next Scan Result) := do
  let c ← charAt fmt s.i
  if c = 0 then
    let mem := s.out.mem.write (dst + s.out.ret.toNat) [0]
    return .done { mem := mem, ret := s.out.ret, args := s.args }
  else if c = percent then
    let c ← charAt fmt (s.i + 1)
    match Conversion.ofChar c with
    | some k =>
      let (put, args) ← k.put s.out.mem (dst + s.out.ret.toNat) s.args
      let out : Out := { mem := put.mem, ret := s.out.ret + put.ret }
      return .again { i := s.i + 2, args := args, out := out }
    | none =>
      let i := s.i - 1
      return .again { i := i + 2, args := s.args, out := s.out.put dst percent }
  else
    return .again { i := s.i + 1, args := s.args, out := s.out.put dst c }

/-- `Sprintf`, with at most `fuel` passes of its loop. -/
def sprintf (fuel : Nat) (m : Mem) (dst : Nat) (fmt : CString) (args : List Arg) :
    Option (Except Fault Result) :=
  While.run (scan fmt dst) fuel { i := 0, args := args, out := { mem := m, ret := 0 } }

/-- A `sys_write` that was made. -/
structure Written where
  fd : Nat
  bytes : List UInt8

/-- The state when `Printf` returns. -/
structure Printed where
  result : Result
  written : Written

/-- `Printf`: the loop of `Sprintf` over its static buffer, which is at `buf`. -/
def printf (fuel : Nat) (m : Mem) (buf : Nat) (fmt : CString) (args : List Arg) :
    Option (Except Fault Printed) :=
  (sprintf fuel m buf fmt args).map fun r => do
    let r ← r
    return { result := r, written := { fd := 1, bytes := r.mem.read buf r.ret.toNat } }

end Tlibc.Printf
