import Tlibc.Native.Printf

/-!
# `tlibc/wc.c`

`wc` up to its `Printf`, whose arguments it returns. The descriptor is the list of chunks
its `sys_read` calls will deliver, and what the call behind the last one returns. A
`char` is signed.
-/

namespace Tlibc.Wc

/-- The ways a call ends without returning. -/
inductive Fault where
  /-- `sys_exit(1)` -/
  | exit
  /-- `chtype` is read outside its elements -/
  | outOfBounds
  deriving DecidableEq, Repr

/-- `BUFSZ`. -/
def bufsz : Nat := 4096

/-- What a `sys_read` that asks for `BUFSZ` bytes stores when it returns a positive count. -/
structure Chunk where
  bytes : List UInt8
  nonempty : bytes ≠ []
  length_le : bytes.length ≤ bufsz

/-- `'\n'`. -/
def newline : UInt8 := 0x0a

/-- ``"~`!@#$%^&*()-_[]{}\"\'':<>,.\\/?"``. -/
def miscellaneous : List UInt8 :=
  [0x7e, 0x60, 0x21, 0x40, 0x23, 0x24, 0x25, 0x5e, 0x26, 0x2a, 0x28, 0x29, 0x2d, 0x5f, 0x5b, 0x5d,
    0x7b, 0x7d, 0x22, 0x27, 0x27, 0x3a, 0x3c, 0x3e, 0x2c, 0x2e, 0x5c, 0x2f, 0x3f]

/-- The elements of `chtype` that are set: `a` to `z`, `A` to `Z`, `0` to `9`, and the
    others. -/
def chtype (i : Nat) : Bool :=
  (0x61 ≤ i && i ≤ 0x7a) || (0x41 ≤ i && i ≤ 0x5a) || (0x30 ≤ i && i ≤ 0x39) ||
    miscellaneous.any fun c => c.toNat = i

/-- `chtype[c]`. -/
def chtypeAt (c : UInt8) : Except Fault Bool :=
  let i := c.toInt8.toInt
  if 0 ≤ i ∧ i < 256 then .ok (chtype i.toNat) else .error .outOfBounds

/-- The variables of the loop but for `nbyte`; `ended` is `end`. -/
structure Scan where
  nline : UInt32
  nword : UInt32
  white : Bool
  ended : Bool
  deriving DecidableEq, Repr

/-- The line part of the loop over a chunk. -/
def countLine (s : Scan) (c : UInt8) : Scan :=
  if c = newline then { s with nline := s.nline + 1, ended := true } else s

/-- The loop over a chunk, for one byte. -/
def count (s : Scan) (c : UInt8) : Except Fault Scan := do
  let s := countLine s c
  if s.white then
    if ← chtypeAt c then
      return { s with white := false, nword := s.nword + 1 }
    else
      return s
  else
    if !(← chtypeAt c) then
      return { s with white := true }
    else
      return s

/-- The loop over the chunks. -/
def countChunks (nbyte : UInt32) (s : Scan) : List Chunk → Except Fault (UInt32 × Scan)
  | [] => .ok (nbyte, s)
  | chunk :: chunks => do
    let s ← chunk.bytes.foldlM count s
    countChunks (nbyte + UInt32.ofNat chunk.bytes.length) s chunks

/-- What is passed to `Printf`. -/
structure Counts where
  nline : UInt32
  nword : UInt32
  nbyte : UInt32
  deriving DecidableEq, Repr

/-- `wc`, of a descriptor whose last `sys_read` returns `last`, which is not positive. -/
def wc (chunks : List Chunk) (last : Int) : Except Fault Counts :=
  let nread : Int := match chunks with
    | [] => last
    | chunk :: _ => chunk.bytes.length
  if nread < 0 then
    .error .exit
  else do
    let (nbyte, s) ← countChunks 0 { nline := 0, nword := 0, white := true, ended := nread = 0 } chunks
    let nline := if !s.ended then s.nline + 1 else s.nline
    return { nline := nline, nword := s.nword, nbyte := nbyte }

/-- `"\t%u\t%u\t%u\n"`. -/
def format : CString where
  chars := [0x09, 0x25, 0x75, 0x09, 0x25, 0x75, 0x09, 0x25, 0x75, 0x0a]
  nul_free := by decide

/-- The arguments behind the format. -/
def Counts.args (counts : Counts) : List Printf.Arg :=
  [.uint counts.nline, .uint counts.nword, .uint counts.nbyte]

end Tlibc.Wc
