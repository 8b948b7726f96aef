import Tlibc.Native.Fat
import Tlibc.Native.Gpt

/-!
# `gpt/installer.c` and the sectors the boot code reads

The installer writes a partition table, formats the first partition, copies four
files into it and ends with the boot code. The boot code does not look into the
file system: the sectors it reads are constants of its sources.
-/

namespace Tlibc.Installer

open Gpt Fat

/-- `"loader"`. -/
def loaderName : CString where
  chars := [0x6c, 0x6f, 0x61, 0x64, 0x65, 0x72]
  nul_free := by decide

/-- `"kernel"`. -/
def kernelName : CString where
  chars := [0x6b, 0x65, 0x72, 0x6e, 0x65, 0x6c]
  nul_free := by decide

/-- `"busybox"`. -/
def busyboxName : CString where
  chars := [0x62, 0x75, 0x73, 0x79, 0x62, 0x6f, 0x78]
  nul_free := by decide

/-- `"init"`. -/
def initName : CString where
  chars := [0x69, 0x6e, 0x69, 0x74]
  nul_free := by decide

/-- The ways the installer ends before it is done. -/
inductive Exit where
  /-- `_exit(1)` -/
  | failure
  /-- a call that does not return -/
  | fault (f : Fault)
  deriving DecidableEq, Repr

/-- The argument of `-s`: the `int` that `atoi` returned, converted to `size_t`. -/
def bootSizeOf (atoi : Int32) : UInt64 := atoi.toInt64.toUInt64

/-- `mkpart`, with `boot_size` in MiB. -/
def mkpart (h : Host) (m : Mem) (buf : Nat) (diskSize bootSize : UInt64) : Except Exit GPTResult :=
  let volume := diskSize / blockSize
  let bootSize := bootSize * (1024 * 1024)
  if bootSize + blockSize * 64 > diskSize then
    .error .failure
  else
    let config := twoPartitions volume (bootSize / blockSize)
    let result := gptGenerate h m buf config
    if config.numPart ≠ result.ret then .error .failure else .ok result

/-- `fconfig`, for the first partition. -/
def fconfig (boot : PartitionConfig) : FATConfig where
  nSector := boot.volume.toUInt32
  bytesPerSector := 512
  clusterSize := 8
  isFixed := true

/-- `sectorForFAT`. -/
def sectorForFAT (buf : Nat) (boot : PartitionConfig) : Nat :=
  buf + (blockSize * boot.startLBA).toNat

/-- `sysFlag`: `FAT_ATTR_READ_ONLY | FAT_ATTR_SYSTEM`. -/
def sysFlag : Nat := 0x01 ||| 0x04

/-- `copyin` of the file that `open` returned, if it returned one. -/
def copyin (h : Host) (m : Mem) (fat : Nat) (src : Option Fd) (name : CString) :
    Except Exit (Nat × Mem) :=
  match src with
  | none => .error .failure
  | some fd =>
    match fat32Copyin h m fat fd name sysFlag with
    | .error f => .error (.fault f)
    | .ok r => if r.ret = 0 then .error .failure else .ok (r.ret, r.mem)

/-- The files the installer opens, each if `open` succeeds. -/
structure Sources where
  /-- `linuz.bin` -/
  loader : Option Fd
  /-- `path_bzimage` -/
  kernel : Option Fd
  /-- `path_busybox` -/
  busybox : Option Fd
  /-- `init.elf` -/
  init : Option Fd
  /-- `mbr.img` -/
  mbr : Option Fd

/-- The disk the installer leaves: the partitions, the sectors `copyin` printed,
    and the memory the disk is mapped to. -/
structure Installed where
  partitions : List PartitionConfig
  loader : Nat
  kernel : Nat
  busybox : Nat
  init : Nat
  mem : Mem

/-- `read(mbr_fd, buf, 440)`: a descriptor that is not open makes it fail. -/
def readMbr (m : Mem) (buf : Nat) : Option Fd → Except Exit Mem
  | none => .error .failure
  | some fd => if fd.readRet 440 < 0 then .error .failure else .ok (m.write buf (fd.data 440))

/-- `main` behind the arguments, with the destination mapped at `buf`. The result
    of `createFAT32` is ignored. -/
def install (h : Host) (m : Mem) (buf : Nat) (fdSize bootSize : UInt64) (files : Sources) :
    Except Exit Installed := do
  let diskSize := fdSize / 4096 * 4096
  let result ← mkpart h m buf diskSize bootSize
  match result.partitions with
  | [] => .error .failure
  | boot :: _ => do
    let fat := sectorForFAT buf boot
    let (_, m) ← (createFAT32 h result.mem fat (fconfig boot)).mapError .fault
    let (loader, m) ← copyin h m fat files.loader loaderName
    let (kernel, m) ← copyin h m fat files.kernel kernelName
    let (busybox, m) ← copyin h m fat files.busybox busyboxName
    let (init, m) ← copyin h m fat files.init initName
    let m ← readMbr m buf files.mbr
    return { partitions := result.partitions, loader, kernel, busybox, init, mem := m }

/-! ## The boot code -/

/-- The sector `mbr.c` reads the second stage from. -/
def mbrLoaderSector : Nat := 3 + 528

/-- The sector `mbr.c` tells the second stage to read the kernel from. -/
def mbrKernelSector : Nat := 3 + 536

/-- `ksector` of `biosmbr.S`. -/
def biosmbrSector : Nat := 531

/-- `sector` of `bzimage.c`. -/
def bzimageSector : Nat := 539

end Tlibc.Installer
