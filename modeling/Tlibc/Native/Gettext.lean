import Tlibc.Lib.Loop
import Tlibc.Native.Endian

/-!
# `bootloader/gettext.c`

The tool is compiled for x86, so it reads the headers as little-endian structs. It writes
to another file than it reads, and `write` always writes all of its buffer.
-/

namespace Tlibc.Gettext

/-- What `perror` says when the tool exits early. -/
inductive Fault where
  | seek
  | read
  deriving DecidableEq, Repr

/-- The file that is read. An `off_t` can point to all of it. -/
structure File where
  bytes : List UInt8
  addressable : bytes.length < 2 ^ 63

/-- `count` bytes of a file, or as many as there are. -/
def slice (bytes : List UInt8) (offset count : Nat) : List UInt8 :=
  (bytes.drop offset).take count

/-- `xreadat`: what is read, and where the file is then; it was at `pos`. The offset is the
    bits of an `off_t`. `lseek` refuses a negative one and returns -1, which is what the
    tool asked for when the offset is -1 itself: it then reads on from where the file is. -/
def xreadat (src : File) (pos : Nat) (offset count : UInt64) : Except Fault (List UInt8 × Nat) :=
  if 2 ^ 63 ≤ offset.toNat ∧ offset ≠ -1 then
    .error .seek
  else
    let start := if offset = -1 then pos else offset.toNat
    let buf := slice src.bytes start count.toNat
    if buf.length ≠ count.toNat then .error .read else .ok (buf, start + count.toNat)

/-- `nr`. -/
def chunk (count : UInt64) : UInt64 := if count > 512 then 512 else count

theorem toNat_chunk (count : UInt64) : (chunk count).toNat = min 512 count.toNat := by
  rw [chunk]
  split
  · next h =>
    have hgt : 512 < count.toNat := UInt64.lt_iff_toNat_lt.mp h
    show 512 = _
    omega
  · next h =>
    have hngt : ¬ 512 < count.toNat := fun hgt => h (UInt64.lt_iff_toNat_lt.mpr hgt)
    omega

theorem toNat_sub_chunk (count : UInt64) :
    (count - chunk count).toNat = count.toNat - (chunk count).toNat := by
  refine UInt64.toNat_sub_of_le _ _ (UInt64.le_iff_toNat_le.mpr ?_)
  rw [toNat_chunk]
  exact Nat.min_le_right _ _

/-- What `dstFd` has, and where `srcFd` is. -/
structure Fds where
  dst : List UInt8
  pos : Nat
  deriving DecidableEq, Repr

/-- `xfcopy`. -/
def xfcopy (src : File) (fds : Fds) (count offset : UInt64) : Except Fault Fds :=
  if _hend : count = 0 then
    .ok fds
  else do
    let nr := chunk count
    let (buf, pos) ← xreadat src fds.pos offset nr
    -- the source advances `count` and `offset` before it calls `write`
    xfcopy src ⟨fds.dst ++ buf, pos⟩ (count - nr) (offset + nr)
termination_by count.toNat
decreasing_by
  have hpos : count.toNat ≠ 0 := fun h0 => _hend (UInt64.toNat_inj.mp h0)
  rw [toNat_sub_chunk, toNat_chunk]
  omega

/-- The member `f` of a struct. -/
def member (struct : List UInt8) (f : Field) : Nat :=
  Mem.leNat (slice struct f.off f.width.bytes)

/-! ## The structs -/

/-- `e_machine`, the same in both. -/
def eMachine : Field := ⟨18, .two⟩

/-- `EM_X86_64`. -/
def emX86_64 : Nat := 62

/-- `PT_LOAD`. -/
def ptLoad : Nat := 1

/-- `PF_X`. -/
def pfX : Nat := 1

/-- The members of the ELF header and of the program headers that are used, and the sizes
    of these structs. -/
structure Layout where
  ehdrSize : UInt64
  ePhoff : Field
  ePhnum : Field
  phdrSize : UInt64
  pType : Field
  pFlags : Field
  pOffset : Field
  pFilesz : Field

/-- `Elf32_Ehdr` and `Elf32_Phdr`. -/
def elf32 : Layout where
  ehdrSize := 52
  ePhoff := ⟨28, .four⟩
  ePhnum := ⟨44, .two⟩
  phdrSize := 32
  pType := ⟨0, .four⟩
  pFlags := ⟨24, .four⟩
  pOffset := ⟨4, .four⟩
  pFilesz := ⟨16, .four⟩

/-- `Elf64_Ehdr` and `Elf64_Phdr`. -/
def elf64 : Layout where
  ehdrSize := 64
  ePhoff := ⟨32, .eight⟩
  ePhnum := ⟨56, .two⟩
  phdrSize := 56
  pType := ⟨0, .four⟩
  pFlags := ⟨4, .four⟩
  pOffset := ⟨8, .eight⟩
  pFilesz := ⟨32, .eight⟩

/-- The loop of `main` for one program header. -/
def copyHeader (src : File) (l : Layout) (phoff : UInt64) (i : Nat) (fds : Fds) :
    Except Fault Fds := do
  let (phdr, pos) ← xreadat src fds.pos (phoff + l.phdrSize * UInt64.ofNat i) l.phdrSize
  if member phdr l.pFlags &&& pfX ≠ 0 ∧ member phdr l.pType = ptLoad then
    xfcopy src ⟨fds.dst, pos⟩ (UInt64.ofNat (member phdr l.pFilesz))
      (UInt64.ofNat (member phdr l.pOffset))
  else
    return ⟨fds.dst, pos⟩

/-- The loop of `main`, which is there once for each layout: what it writes. -/
def copyHeaders (src : File) (l : Layout) (ehdr : List UInt8) (pos : Nat) :
    Except Fault (List UInt8) := do
  let fds ← Loop.forLoop (copyHeader src l (UInt64.ofNat (member ehdr l.ePhoff)))
    (member ehdr l.ePhnum) ⟨[], pos⟩
  return fds.dst

/-- `main`: what it writes. -/
def main (src : File) : Except Fault (List UInt8) := do
  -- `e_machine` is at the same offset in both headers
  let (e32, pos) ← xreadat src 0 0 elf32.ehdrSize
  if member e32 eMachine = emX86_64 then
    let (e64, pos) ← xreadat src pos 0 elf64.ehdrSize
    copyHeaders src elf64 e64 pos
  else
    copyHeaders src elf32 e32 pos

end Tlibc.Gettext
