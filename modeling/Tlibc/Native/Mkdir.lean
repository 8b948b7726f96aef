import Tlibc.Lib.Directory
import Tlibc.Lib.Tokens
import Tlibc.Native.Basic

/-!
# `tlibc/mkdir.c`

The kernel's part is a tree of directories and a working directory: `sys_open` succeeds
on the paths that resolve, and `sys_mkdir` creates a directory that does not exist where
the one above it does. Of the `int`s that `mkdir` and `main` or together, it is kept
whether they are 0.
-/

namespace Tlibc.Mkdir

/-- The ways a call ends without returning. -/
inductive Fault where
  /-- a store outside `buf` -/
  | outOfBounds
  deriving DecidableEq, Repr

/-- `'/'`. -/
def slash : UInt8 := 0x2f

/-! ## The file system -/

abbrev Name := List UInt8

/-- A component of a path, `.` and `..` apart from the names. -/
def component (name : Name) : Directory.Step Name :=
  if name = [0x2e] then .here else if name = [0x2e, 0x2e] then .up else .down name

/-- The components of a path. Slashes that follow each other count as one. -/
def components (path : List UInt8) : List (Directory.Step Name) :=
  (Tokens.tokens (· = slash) path).map component

/-- The directories, and the one that the process is in. -/
structure Filesystem where
  tree : Directory.Tree Name
  cwd : Directory.Dir Name
  cwd_isDir : tree.isDir cwd = true

/-- Where a path starts. -/
def Filesystem.start (fs : Filesystem) (path : List UInt8) : Directory.Dir Name :=
  if path.head? = some slash then [] else fs.cwd

/-- `sys_open(path, O_RDONLY) >= 0`. -/
def sysOpen (fs : Filesystem) (path : List UInt8) : Bool :=
  (fs.tree.walk (fs.start path) (components path)).isSome

/-- `sys_mkdir(path, 0777)`, and whether it returns 0. -/
def sysMkdir (fs : Filesystem) (path : List UInt8) : Bool × Filesystem :=
  match h : fs.tree.make (fs.start path) (components path) with
  | some tree =>
    (true, { tree := tree, cwd := fs.cwd, cwd_isDir := Directory.Tree.isDir_make h fs.cwd_isDir })
  | none => (false, fs)

/-! ## The program -/

/-- The variables of `mkdir` but for `i`, and the file system. `ret` is whether `ret` is not
    0, and `buf` is 0 at first in every process. -/
structure Scan where
  fs : Filesystem
  buf : Mem
  ret : Bool
  isEnd : Bool

/-- `buf[i] = c`. -/
def store (buf : Mem) (i : Nat) (c : UInt8) : Except Fault Mem :=
  if i < 256 then .ok (buf.write i [c]) else .error .outOfBounds

/-- The string at `buf`. -/
def text (buf : Mem) : List UInt8 := (buf.read 0 256).takeWhile (· ≠ 0)

/-- `sys_open` of `buf`, and `sys_mkdir` if that fails. -/
def createMissing (s : Scan) : Scan :=
  if sysOpen s.fs (text s.buf) then s
  else
    let (made, fs) := sysMkdir s.fs (text s.buf)
    { s with fs := fs, ret := s.ret || !made }

/-- The `while` loop, from the character `i` of the path on. -/
def scan : List UInt8 → Nat → Scan → Except Fault Scan
  | [], _, s => .ok s
  | c :: rest, i, s => do
    let buf ← store s.buf i c
    if c = slash then
      let buf ← store buf i 0
      let s := createMissing { s with buf := buf }
      let buf ← store s.buf i slash
      scan rest (i + 1) { s with buf := buf, isEnd := true }
    else
      scan rest (i + 1) { s with buf := buf, isEnd := false }

/-- `mkdir`, up to its result. -/
def mkdir (fs : Filesystem) (buf : Mem) (dir : CString) : Except Fault Scan := do
  let s : Scan := { fs := fs, buf := buf, ret := false, isEnd := true }
  let s ←
    match dir.chars with
    | [] => .ok s
    | c :: rest =>
      if c = slash then do
        let buf ← store buf 0 c
        scan rest 1 { s with buf := buf }
      else
        scan (c :: rest) 0 s
  return if s.isEnd then s else createMissing s

/-- What is left when `main` ends: its result, and what it wrote to descriptor 2. -/
structure Ended where
  fs : Filesystem
  status : Nat
  err : List UInt8

/-- `"Usage mkdir <dir name>\n"`, with its NUL. -/
def usage : List UInt8 :=
  [0x55, 0x73, 0x61, 0x67, 0x65, 0x20, 0x6d, 0x6b, 0x64, 0x69, 0x72, 0x20, 0x3c, 0x64, 0x69, 0x72,
    0x20, 0x6e, 0x61, 0x6d, 0x65, 0x3e, 0x0a, 0x00]

/-- The `for` loop of `main`. -/
def mkdirEach (fs : Filesystem) (buf : Mem) (ret : Bool) : List CString → Except Fault Ended
  | [] => .ok { fs := fs, status := if ret then 1 else 0, err := [] }
  | dir :: dirs => do
    let s ← mkdir fs buf dir
    mkdirEach s.fs s.buf (ret || s.ret) dirs

/-- `main`, of the arguments behind the name of the program. -/
def main (fs : Filesystem) (dirs : List CString) : Except Fault Ended :=
  if dirs = [] then
    .ok { fs := fs, status := 1, err := usage }
  else
    mkdirEach fs (fun _ => 0) false dirs

end Tlibc.Mkdir
