import Tlibc.Native.Endian
import Tlibc.Lib.Loop

/-!
# `bootloader/bzimage.c` and `bootloader/vmlinux.c`

The two loaders of a kernel. Both run at 0x1200 in 32-bit mode on the stack that `mbr.S`
(or `biosmbr.S`) set up below 0xA000, and read the disk sector by sector with `read_disk`
of `bootloader/serial.h`. What a loader prints is left out; `data`, a local variable of
`vmlinux.c`, is not part of the memory.
-/

namespace Tlibc.Boot

/-- `SECTSIZE`, and `LINUX_SECTOR_SIZE`. -/
def sectSize : Nat := 512

/-- A disk: 512 bytes for each sector number. -/
structure Disk where
  sector : UInt32 → List UInt8
  length_sector : ∀ s, (sector s).length = sectSize

/-- Where the stack begins: `movl $0xa000, %esp`. -/
def stackTop : Nat := 0xa000

/-- How much of the stack is in use while a loader runs, which is up to the compiler. At
    least a return address is there, and it does not reach down to the loader itself, which
    has up to three sectors. -/
structure Stack where
  size : Nat
  pos : 0 < size
  fits : size ≤ stackTop - 0x1800

/-- The `n` bytes from `lo` on are not on the stack. -/
def Stack.Off (stack : Stack) (lo n : Nat) : Prop :=
  lo + n ≤ stackTop - stack.size ∨ stackTop ≤ lo

instance (stack : Stack) (lo n : Nat) : Decidable (stack.Off lo n) :=
  inferInstanceAs (Decidable (_ ∨ _))

/-- The ways a loader ends without starting the kernel. -/
inductive Fault where
  /-- `die()` -/
  | die
  /-- a store into the loader's own stack -/
  | stack
  /-- a load outside `data` -/
  | outOfBounds
  deriving DecidableEq, Repr

/-- Store a byte. A store into the loader's own code, below 0x1800, is no fault here: the
    results about `vmlinux.c` leave out what would be loaded there. -/
def store (stack : Stack) (m : Mem) (a : UInt32) (b : UInt8) : Except Fault Mem :=
  if stack.Off a.toNat 1 then .ok (Function.update m a.toNat b) else .error .stack

/-- Store the 128 double words of a sector. -/
def storeSector (stack : Stack) (m : Mem) (buf : UInt32) (bytes : List UInt8) :
    Except Fault Mem :=
  if stack.Off buf.toNat sectSize then .ok (m.write buf.toNat bytes) else .error .stack

/-- How `read_disk` was compiled: without `__BIOS__` or with it. -/
inductive DiskAccess where
  | ports
  | bios
  deriving DecidableEq, Repr

/-- `read_disk`, as far as it stores the sector. The BIOS reads below 1 MiB only, and to the
    beginning of a segment; what `bios_read_disk` stores among its own variables is left out. -/
def readDisk (access : DiskAccess) (stack : Stack) (d : Disk) (m : Mem) (buf sect : UInt32) :
    Except Fault Mem :=
  match access with
  | .ports => storeSector stack m buf (d.sector sect)
  | .bios => do
    let addr := if 0x100000 ≤ buf then 0x1000 else buf
    let m ← storeSector stack m (16 * (addr / 16)) (d.sector sect)
    if addr ≠ buf then storeSector stack m buf (m.read addr.toNat sectSize) else return m

/-- Read `n` sectors, from `sect` on, to consecutive addresses, with the given `read_disk`. -/
def readSectorsBy (read : Mem → UInt32 → UInt32 → Except Fault Mem) (m : Mem) (buf sect : UInt32)
    (n : Nat) : Except Fault Mem :=
  Loop.forLoop (fun i m => read m (buf + 512 * UInt32.ofNat i) (sect + UInt32.ofNat i)) n m

/-- Reads `n` sectors to `buf`, one after another. -/
def readSectors (access : DiskAccess) (stack : Stack) (d : Disk) (m : Mem) (buf sect : UInt32)
    (n : Nat) : Except Fault Mem :=
  readSectorsBy (readDisk access stack d) m buf sect n

/-- The member `f` of the struct at `base`. -/
def getField (m : Mem) (base : Nat) (f : Field) : Nat := m.load (base + f.off) f.width.bytes

/-- Stores a field. -/
def setField (m : Mem) (base : Nat) (f : Field) (v : Nat) : Mem :=
  m.write (base + f.off) (Mem.leBytes f.width.bytes v)

/-! ## `bzimage.c` -/

namespace BzImage

/-! `struct KernelHeader`. -/

/-- `setup_sects`. -/
def setupSects : Field := ⟨0x1f1, .one⟩
/-- `syssize`. -/
def syssize : Field := ⟨0x1f4, .four⟩
/-- `boot_flag`. -/
def bootFlag : Field := ⟨0x1fe, .two⟩
/-- `header`. -/
def header : Field := ⟨0x202, .four⟩
/-- `version`. -/
def version : Field := ⟨0x206, .two⟩
/-- `type_of_loader`. -/
def typeOfLoader : Field := ⟨0x210, .one⟩
/-- `loadflags`. -/
def loadflags : Field := ⟨0x211, .one⟩
/-- `heap_end_ptr`. -/
def heapEndPtr : Field := ⟨0x224, .two⟩
/-- `cmd_line_ptr`. -/
def cmdLinePtr : Field := ⟨0x228, .four⟩

/-- `LOADED_HIGH`. -/
def loadedHigh : Nat := 1

/-- The sector where the bzImage begins. -/
def sector : UInt32 := 539

/-- Where the setup code is read to. -/
def loadStart : UInt32 := 0x2000

/-- Where the protected-mode kernel goes. -/
def loadAddr : UInt32 := 0x100000

/-- The end of the heap of the setup code. -/
def heapEnd : Nat := 0x10000

/-- `LINUX_CMD_LINE`. -/
def linuxCmdLine : List UInt8 :=
  "init=/init trace_clock=local console=ttyS0 earlyprintk root=/dev/sda1 rw".toList.map
    fun c => UInt8.ofNat c.toNat

/-- `code16`. -/
def code16 : List UInt8 :=
  [0x31, 0xc0, 0x05, 0x00, 0x02, 0x8e, 0xd8, 0x8e, 0xd0, 0x8e, 0xc0, 0x8e, 0xe0, 0x8e, 0xe8,
    0x31, 0xc0, 0xff, 0xe0]

/-- `setup_sects` as the loader uses it: one more than in the header, in eight bits. -/
def countOf (sects : UInt8) : UInt8 := (if sects = 0 then 4 else sects) + 1

/-- What is stored once the kernel is loaded: the header, the command line and the 16-bit
    code at the start of the heap. -/
def prepare (m : Mem) : Mem :=
  let khdr := loadStart.toNat
  let m := setField m khdr typeOfLoader 0xff
  let m := setField m khdr heapEndPtr (heapEnd - 0x200)
  let m := setField m khdr loadflags (getField m khdr loadflags ||| 0x80)
  let m := m.write (khdr + heapEnd) (linuxCmdLine ++ [0])
  let m := setField m khdr cmdLinePtr (khdr + heapEnd)
  m.write (khdr + 0x8000) code16

/-- `__elf_main`, with the given `read_disk`: the memory when it calls `jump_to_setup`. -/
def elfMainBy (read : Mem → UInt32 → UInt32 → Except Fault Mem) (m : Mem) : Except Fault Mem := do
  let khdr := loadStart.toNat
  let m ← read m loadStart sector
  let m ← read m (loadStart + 512) (sector + 1)
  let sects := countOf (UInt8.ofNat (getField m khdr setupSects))
  if getField m khdr bootFlag ≠ 0xaa55 ∨ getField m khdr header ≠ 0x53726448 then
    .error .die
  else do
    let m ← readSectorsBy read m (loadStart + 1024) (sector + 2) (sects.toNat - 2)
    let imgSize : UInt32 := sects.toUInt32 * 512 + UInt32.ofNat (getField m khdr syssize) * 16
    if getField m khdr loadflags &&& loadedHigh = 0 ∨ getField m khdr version < 0x202 then
      .error .die
    else do
      let m ← readSectorsBy read m loadAddr (sector + sects.toUInt32)
        (imgSize.toNat / sectSize - sects.toNat)
      return prepare m

/-- `__elf_main`. -/
def elfMain (access : DiskAccess) (stack : Stack) (d : Disk) (m : Mem) : Except Fault Mem :=
  elfMainBy (readDisk access stack d) m

end BzImage

/-! ## `vmlinux.c` -/

namespace Vmlinux

/-- `SECTOR_DATA_START`. -/
def sectorDataStart : UInt32 := 0x1000

/-- `__k_memzero`. -/
def kMemzero (stack : Stack) (m : Mem) (addr size : UInt32) : Except Fault Mem :=
  Loop.forLoop (fun i m => store stack m (addr + UInt32.ofNat i) 0) size.toNat m

/-- The loop of `__k_readfile` over the bytes of a sector. -/
def copySector (stack : Stack) (m : Mem) (dst src : UInt32) (nb : Nat) : Except Fault Mem :=
  Loop.forLoop (fun i m => store stack m (dst + UInt32.ofNat i) (m (src + UInt32.ofNat i).toNat))
    nb m

/-- `nb`: the bytes wanted of the sector that `foff` is in. -/
def chunk (foff fsize : UInt32) : UInt32 :=
  let nb := 512 - foff % 512
  if nb > fsize then fsize else nb

/-- A chunk ends with its sector, or with the file. -/
theorem toNat_chunk (foff fsize : UInt32) :
    (chunk foff fsize).toNat = min (512 - foff.toNat % 512) fsize.toNat := by
  have hmod : (foff % 512).toNat = foff.toNat % 512 := UInt32.toNat_mod _ _
  have hlt : foff.toNat % 512 < 512 := Nat.mod_lt _ (by decide)
  have hle : foff % 512 ≤ 512 := UInt32.le_iff_toNat_le.mpr (by rw [hmod]; exact Nat.le_of_lt hlt)
  have hnb : (512 - foff % 512).toNat = 512 - foff.toNat % 512 := by
    rw [UInt32.toNat_sub_of_le _ _ hle, hmod]
    rfl
  rw [chunk]
  split
  · next h =>
    have hgt := UInt32.lt_iff_toNat_lt.mp h
    rw [hnb] at hgt
    exact (Nat.min_eq_right (Nat.le_of_lt hgt)).symm
  · next h =>
    have hngt : ¬ fsize.toNat < 512 - foff.toNat % 512 := by
      rw [← hnb]
      exact fun hlt => h (UInt32.lt_iff_toNat_lt.mpr hlt)
    rw [hnb, Nat.min_eq_left (Nat.not_lt.mp hngt)]

/-- What is left behind a chunk. -/
theorem toNat_sub_chunk (foff fsize : UInt32) :
    (fsize - chunk foff fsize).toNat = fsize.toNat - (chunk foff fsize).toNat :=
  UInt32.toNat_sub_of_le _ _
    (UInt32.le_iff_toNat_le.mpr (by rw [toNat_chunk]; exact Nat.min_le_right _ _))

/-- It is less than before. -/
theorem sub_chunk_lt {foff fsize : UInt32} (h : fsize ≠ 0) :
    (fsize - chunk foff fsize).toNat < fsize.toNat := by
  have hpos : fsize.toNat ≠ 0 := fun h0 => h (UInt32.toNat_inj.mp h0)
  have hlt : foff.toNat % 512 < 512 := Nat.mod_lt _ (by decide)
  rw [toNat_sub_chunk, toNat_chunk]
  omega

/-- `__k_readfile`. -/
def kReadfile (stack : Stack) (d : Disk) (m : Mem) (addr fstart foff fsize : UInt32) :
    Except Fault Mem :=
  if _hend : fsize = 0 then
    .ok m
  else do
    let readStart := foff % 512
    let sector := fstart + foff / 512
    let nb := chunk foff fsize
    let m ← readDisk .ports stack d m sectorDataStart sector
    let m ← copySector stack m addr (sectorDataStart + readStart) nb.toNat
    kReadfile stack d m (addr + nb) fstart (foff + nb) (fsize - nb)
termination_by fsize.toNat
decreasing_by exact sub_chunk_lt _hend

/-! `Elf64_Ehdr` and `Elf64_Phdr`. -/

/-- `e_entry`. -/
def eEntry : Field := ⟨24, .eight⟩
/-- `e_phoff`. -/
def ePhoff : Field := ⟨32, .eight⟩
/-- `e_phnum`. -/
def ePhnum : Field := ⟨56, .two⟩
/-- `p_type`. -/
def pType : Field := ⟨0, .four⟩
/-- `p_offset`. -/
def pOffset : Field := ⟨8, .eight⟩
/-- `p_paddr`. -/
def pPaddr : Field := ⟨24, .eight⟩
/-- `p_filesz`. -/
def pFilesz : Field := ⟨32, .eight⟩
/-- `p_memsz`. -/
def pMemsz : Field := ⟨40, .eight⟩

/-- `sizeof(Elf64_Phdr)`. -/
def phdrSize : UInt32 := 56

/-- `PT_LOAD`. -/
def ptLoad : UInt32 := 1

/-- The member `f` of the struct at offset `pos` of `data`. -/
def dataField (data : List UInt8) (pos : Nat) (f : Field) : Except Fault Nat :=
  if pos + f.off + f.width.bytes ≤ data.length then
    .ok (Mem.leNat ((data.drop (pos + f.off)).take f.width.bytes))
  else
    .error .outOfBounds

/-- The loop of `__elf_main` for one program header. -/
def loadHeader (stack : Stack) (d : Disk) (sector phoff : UInt32) (i : Nat) (m : Mem) :
    Except Fault Mem := do
  let off := phoff + UInt32.ofNat i * phdrSize
  let data := d.sector (sector + off / 512)
  let phdr := (off % 512).toNat
  let type ← dataField data phdr pType
  if UInt32.ofNat type &&& ptLoad ≠ 0 then
    let paddr := UInt64.ofNat (← dataField data phdr pPaddr)
    let offset := UInt64.ofNat (← dataField data phdr pOffset)
    let filesz := UInt64.ofNat (← dataField data phdr pFilesz)
    let memsz := UInt64.ofNat (← dataField data phdr pMemsz)
    let m ← kReadfile stack d m paddr.toUInt32 sector offset.toUInt32 filesz.toUInt32
    kMemzero stack m (paddr + filesz).toUInt32 (memsz - filesz).toUInt32
  else
    return m

/-- `__elf_main`: the entry and the memory when it calls `kernel_entry`. -/
def elfMain (stack : Stack) (d : Disk) (sector : UInt32) (m : Mem) :
    Except Fault (UInt32 × Mem) := do
  let data := d.sector sector
  let kernelEntry := UInt64.ofNat (← dataField data 0 eEntry)
  let phnum ← dataField data 0 ePhnum
  let phoff := UInt64.ofNat (← dataField data 0 ePhoff)
  let m ← Loop.forLoop (loadHeader stack d sector phoff.toUInt32) phnum m
  return (kernelEntry.toUInt32, m)

end Vmlinux

end Tlibc.Boot
