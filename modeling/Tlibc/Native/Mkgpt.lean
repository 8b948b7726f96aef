import Tlibc.Native.Installer

/-!
# `gpt/mkgpt.c`

The image of a disk of 256 MiB: a table of two partitions, a volume on the first one
with four files, and the boot code. Its standard output becomes `config.h`.
-/

namespace Tlibc.Mkgpt

open Gpt Fat Installer

/-- `disk_size`. -/
def diskSize : Nat := 1024 * 1024 * 256

/-- `"linuz"`. -/
def linuzName : CString where
  chars := [0x6c, 0x69, 0x6e, 0x75, 0x7a]
  nul_free := by decide

/-- The files, as the calls on their descriptors go. On the -1 of an `open` that failed they
    fail too. -/
structure Sources where
  linuz : Fd
  kernel : Fd
  busybox : Fd
  init : Fd
  mbr : Fd

/-- What a run that returns 0 leaves: the partitions, the results of `FAT32Copyin`, and the
    memory that was written to `a.img`. -/
structure Image where
  partitions : List PartitionConfig
  linuz : Nat
  kernel : Nat
  busybox : Nat
  init : Nat
  mem : Mem

/-- `a.img`, for the buffer that was mapped at `buf`. -/
def Image.file (d : Image) (buf : Nat) : List UInt8 := d.mem.read buf diskSize

/-- A line of the loop over the partitions. -/
def startLine (i : Nat) (p : PartitionConfig) : String :=
  "#define PARTITION_" ++ toString i ++ "_START " ++ toString p.startLBA.toInt64.toInt

/-- A result of `FAT32Copyin`, printed as an `int`. -/
def offsetLine (name : String) (ret : Nat) : String :=
  "#define " ++ name ++ "_OFFSET " ++ toString (UInt32.ofNat ret).toInt32.toInt

/-- The lines of `config.h`. -/
def Image.header (d : Image) : List String :=
  ["#ifndef __CONFIG_H", "#define __CONFIG_H", ""] ++ d.partitions.mapIdx startLine ++
    [offsetLine "BOOTLOADER" d.linuz, offsetLine "KERNEL" d.kernel, offsetLine "BUSYBOX" d.busybox,
      offsetLine "INIT" d.init, "", "#define BOOT_PARTITION_START PARTITION_0_START", "",
      "#endif // __CONFIG_H"]

/-- `FAT32Copyin`, whose result is only printed. -/
def copyin (h : Host) (m : Mem) (fat : Nat) (fd : Fd) (name : CString) (attr : Nat) :
    Except Exit (Nat × Mem) :=
  match fat32Copyin h m fat fd name attr with
  | .error f => .error (.fault f)
  | .ok r => .ok (r.ret, r.mem)

/-- `FAT_ATTR_READ_ONLY`. -/
def attrReadOnly : Nat := 0x01

/-- `main` once `a.img` is open and the disk is mapped at `buf`. The results of `createFAT32`
    and of reading `mbr.img` are ignored; `written` is what the final `write` returns. -/
def main (h : Host) (m : Mem) (buf : Nat) (files : Sources) (written : Int) :
    Except Exit Image := do
  let config := mkgptConfig
  let result := gptGenerate h m buf config
  if config.numPart ≠ result.ret then
    .error .failure
  else
    match result.partitions with
    | [] => .error .failure
    | boot :: _ => do
      let fat := sectorForFAT buf boot
      let (_, m) ← (createFAT32 h result.mem fat (fconfig boot)).mapError .fault
      let (linuz, m) ← copyin h m fat files.linuz linuzName sysFlag
      let (kernel, m) ← copyin h m fat files.kernel kernelName sysFlag
      let (busybox, m) ← copyin h m fat files.busybox busyboxName attrReadOnly
      let (init, m) ← copyin h m fat files.init initName attrReadOnly
      let m := m.write buf (files.mbr.data 440)
      if written ≠ diskSize then
        .error .failure
      else
        return { partitions := result.partitions, linuz, kernel, busybox, init, mem := m }

end Tlibc.Mkgpt
