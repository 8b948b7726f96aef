import Tlibc.Lib.While
import Tlibc.Native.Installer

/-!
# `gpt/installer.c`: the arguments

The loop of `main` over `argv`. `argv` is the list of the strings in front of the null
pointer `argv[argc]`, and `i` is a natural number. `atoi` is a parameter.
-/

namespace Tlibc.Arguments

/-- The ways the loop ends without returning. -/
inductive Fault where
  /-- a read beyond `argv[argc]` -/
  | pastEnd
  /-- a string is read through a null pointer -/
  | nullPointer
  deriving DecidableEq, Repr

/-- The variables that the loop sets. -/
structure Options where
  pathBzimage : Option CString
  pathBusybox : Option CString
  dst : Option CString
  bootSize : UInt64
  printHelp : Bool

/-- Before the loop. -/
def Options.start : Options where
  pathBzimage := none
  pathBusybox := none
  dst := none
  bootSize := 64
  printHelp := false

/-- `"-h"`. -/
def shortHelp : List UInt8 := [0x2d, 0x68]

/-- `"--help"`. -/
def longHelp : List UInt8 := [0x2d, 0x2d, 0x68, 0x65, 0x6c, 0x70]

/-- `"-k"`. -/
def kernelFlag : List UInt8 := [0x2d, 0x6b]

/-- `"-d"`. -/
def dstFlag : List UInt8 := [0x2d, 0x64]

/-- `"-s"`. -/
def sizeFlag : List UInt8 := [0x2d, 0x73]

/-- `"-busybox"`. -/
def busyboxFlag : List UInt8 := [0x2d, 0x62, 0x75, 0x73, 0x79, 0x62, 0x6f, 0x78]

/-- `argv[i]`: none is the null pointer. -/
def argAt (argv : List CString) (i : Nat) : Except Fault (Option CString) :=
  if i ≤ argv.length then .ok argv[i]? else .error .pastEnd

/-- A pointer through which a string is read. -/
def deref : Option CString → Except Fault CString
  | none => .error .nullPointer
  | some s => .ok s

/-- The variables of the loop. -/
structure Parse where
  i : Nat
  opts : Options

/-- A pass of the loop. An argument that is no option leaves `i` as it is. -/
def pass (atoi : CString → Int32) (argv : List CString) (s : Parse) :
    Except Fault (While.Next Parse Options) :=
  if s.i < argv.length then do
    let cur ← argAt argv s.i
    let cur ← deref cur
    if cur.chars = shortHelp ∨ cur.chars = longHelp then
      return .done { s.opts with printHelp := true }
    else if cur.chars = kernelFlag then do
      let arg ← argAt argv (s.i + 1)
      return .again { i := s.i + 2, opts := { s.opts with pathBzimage := arg } }
    else if cur.chars = dstFlag then do
      let arg ← argAt argv (s.i + 1)
      return .again { i := s.i + 2, opts := { s.opts with dst := arg } }
    else if cur.chars = sizeFlag then do
      let arg ← argAt argv (s.i + 1)
      let arg ← deref arg
      let bootSize := Installer.bootSizeOf (atoi arg)
      return .again { i := s.i + 2, opts := { s.opts with bootSize := bootSize } }
    else if cur.chars = busyboxFlag then do
      let arg ← argAt argv (s.i + 1)
      return .again { i := s.i + 2, opts := { s.opts with pathBusybox := arg } }
    else
      return .again s
  else
    return .done s.opts

/-- The loop, for at most `fuel` passes: what it leaves in the variables. -/
def parse (fuel : Nat) (atoi : CString → Int32) (argv : List CString) :
    Option (Except Fault Options) :=
  While.run (pass atoi argv) fuel { i := 1, opts := .start }

end Tlibc.Arguments
