import Tlibc.Lib.Segments
import Tlibc.Native.ReadDisk

/-!
# `bootloader/mbr.S`, `mbr.c`, `biosmbr.S`, `bzimage.S`, `bzsetup.S`, `bios/bios.S` and `biosboot.S`

From the boot code in the first sector to the kernel's setup code. What is linked
somewhere is at an address that is a parameter. `SegmentDescriptor` of `bootloader/serial.h`
is `X86.Descriptor`.
-/

namespace Tlibc.Boot

open X86

/-- `GDT_ENTRY`. -/
def gdtEntry (n : Nat) : UInt16 := UInt16.ofNat (n <<< 3)

/-! ## `mbr.S` -/

/-- `SEG_NULLASM`. -/
def segNullAsm : List UInt8 := [0, 0, 0, 0, 0, 0, 0, 0]

/-- `SEG_ASM`. -/
def segAsm (type base lim : Nat) : List UInt8 :=
  Mem.leBytes 2 ((lim >>> 12) &&& 0xffff) ++ Mem.leBytes 2 (base &&& 0xffff) ++
    [UInt8.ofNat ((base >>> 16) &&& 0xff), UInt8.ofNat (0x90 ||| type),
      UInt8.ofNat (0xC0 ||| ((lim >>> 28) &&& 0xf)), UInt8.ofNat ((base >>> 24) &&& 0xff)]

namespace Mbr

/-- `gdt`. -/
def gdt : List UInt8 := segNullAsm ++ segAsm 0xA 0x0 0xffffffff ++ segAsm 0x2 0x0 0xffffffff

/-- `gdtdesc`, behind a table at `addr`. -/
def gdtdesc (addr : Nat) : List UInt8 := Mem.leBytes 2 (gdt.length - 1) ++ Mem.leBytes 4 addr

/-- `CR0_PE`. -/
def cr0Pe : UInt32 := 1

/-- From 16-bit code with its data at 0 to protected mode. -/
def switch (gdt start32 : Nat) : List Instr :=
  [.clear .word .eax,
    .movSeg .eax .ds,
    .movSeg .eax .es,
    .movSeg .eax .ss,
    .lgdt (UInt32.ofNat (gdt + Mbr.gdt.length)),
    .fromCr0 .eax,
    .or cr0Pe .eax,
    .toCr0 .eax,
    .ljmp (gdtEntry 1) start32]

/-- `_start`, with `gdt` at the given address. -/
def start (gdt start32 : Nat) : List Instr := .cli :: switch gdt start32

/-- `start32`. The call returns to `back`. -/
def start32 (elfStart back : Nat) : List Instr :=
  [.imm .word (gdtEntry 2).toUInt32 .eax,
    .movSeg .eax .ds,
    .movSeg .eax .es,
    .movSeg .eax .ss,
    .imm .long 0xa000 .esp,
    .call elfStart back]

/-- Where the parts of the boot code are linked. -/
structure Linked where
  gdt : Nat
  start32 : Nat
  elfStart : Nat
  back : Nat

/-- From `_start` to the entry of `__elf_start`. -/
def enter (l : Linked) (c : Cpu) : Option Cpu := do
  let c ← run false (start l.gdt l.start32) c
  run true (start32 l.elfStart l.back) c

end Mbr

/-! ## The loaders -/

/-- `__elf_start` of `mbr.c`: the memory when it calls the loader at 0x1200. -/
def elfStart (stack : Stack) (d : Disk) (m : Mem) : Except Fault Mem :=
  readDisk .ports stack d m 0x1200 (3 + 528)

/-- `_start` of `bzimage.S`, up to `jump_to_setup`. -/
def BzImage.start (stack : Stack) (d : Disk) (m : Mem) : Except Fault Mem := do
  let m ← readDisk .ports stack d m 0x1400 532
  elfMain .ports stack d m

/-- `_start` of `biosboot.S`, up to `jump_to_setup`. `bios_read_disk` has its variables in the
    loader's first sector, which is in memory already. -/
def Biosboot.start {d : Disk} (bios : Bios d) (loader : Loader) (stack : Stack) (m : Mem) :
    Except Fault Mem := do
  let m ← bios.readSectorOn loader stack 532 0x1400 m
  let m ← bios.readSectorOn loader stack 533 0x1600 m
  BzImage.elfMainBy (bios.readDiskOn loader stack) m

/-! ## `bzsetup.S` -/

/-- The code and the data segment of 16-bit code in `.descriptors`. -/
def descriptors16 : List UInt8 :=
  [0xff, 0xff, 0x00, 0x00, 0x00, 0x9a, 0x00, 0x00, 0xff, 0xff, 0x00, 0x00, 0x00, 0x92, 0x00, 0x00]

/-- `.table`, for descriptors at `addr`. -/
def table (descriptors : List UInt8) (addr : Nat) : List UInt8 :=
  Mem.leBytes 2 (descriptors.length - 1) ++ Mem.leBytes 4 addr

/-- The segment registers get the data segment of 16-bit code, and `PE` is cleared. -/
def toReal : List Instr :=
  [.imm .long (gdtEntry 2).toUInt32 .eax,
    .movSeg .eax .ds,
    .movSeg .eax .es,
    .movSeg .eax .fs,
    .movSeg .eax .gs,
    .movSeg .eax .ss,
    .fromCr0 .eax,
    .and (~~~1) .eax,
    .toCr0 .eax]

namespace BzSetup

/-- `.descriptors`. -/
def descriptors : List UInt8 := segNullAsm ++ descriptors16

/-- `jump_to_setup`, with `.table` at the given address. -/
def jumpToSetup (table next : Nat) : List Instr :=
  [.pop .eax,
    .pop .edi,
    .pop .edx,
    .mov .edx .esp,
    .push .eax,
    .cli,
    .lgdt (UInt32.ofNat table),
    .ljmp (gdtEntry 1) next]

/-- `next`. -/
def next : List Instr := toReal ++ [.ljmp 0x220 (0xa000 - 0x2200)]

/-- From `jump_to_setup` to the code at the start of the heap. -/
def enter (table nextAddr : Nat) (c : Cpu) : Option Cpu := do
  let c ← run true (jumpToSetup table nextAddr) c
  run false next c

end BzSetup

/-- `code16` of `bzimage.c`, up to the jump. -/
def code16Segments : List Instr :=
  [.clear .word .eax,
    .add .word 0x200 .eax,
    .movSeg .eax .ds,
    .movSeg .eax .ss,
    .movSeg .eax .es,
    .movSeg .eax .fs,
    .movSeg .eax .gs,
    .clear .word .eax]

/-! ## `bios.S` -/

namespace BiosReadDisk

/-- `.descriptors`: those of 16-bit code, and two for protected mode. -/
def descriptors : List UInt8 :=
  segNullAsm ++ descriptors16 ++
    [0xff, 0xff, 0x00, 0x00, 0x00, 0x9a, 0xcf, 0x00, 0xff, 0xff, 0x00, 0x00, 0x00, 0x92, 0xcf, 0x00]

/-- `step 0`: the registers are saved. -/
def save : List Instr :=
  [.load .long 4 (some .esp) .eax,
    .push .ebx,
    .load .long 12 (some .esp) .ebx,
    .push .ecx,
    .push .edx,
    .push .esi,
    .push .edi,
    .push .ebp]

/-- The sector and the segment of the buffer are stored. -/
def request (packet : Nat) : List Instr :=
  [.imm .long (UInt32.ofNat (packet + 14)) .ecx,
    .store .long .eax 0 (some .ecx),
    .shr .long 4 .ebx,
    .imm .long (UInt32.ofNat packet) .ecx,
    .add .long 6 .ecx,
    .store .word .ebx 0 (some .ecx)]

/-- `step 1`. -/
def toStep2 (table step2 : Nat) : List Instr :=
  [.cli, .lgdt (UInt32.ofNat table), .ljmp (gdtEntry 1) step2]

/-- `step 2` and `step 3`. -/
def step2 (doReadDisk : Nat) : List Instr := toReal ++ [.ljmp 0 doReadDisk]

/-- `step 4`: the data segments of real mode. -/
def dataSegments : List Instr :=
  [.clear .long .eax,
    .movSeg .eax .ds,
    .movSeg .eax .es,
    .movSeg .eax .fs,
    .movSeg .eax .gs,
    .movSeg .eax .ss]

/-- The packet at `%si`, but for the segment of the buffer. -/
def fillPacket (packet : Nat) : List Instr :=
  [.clear .word .eax,
    .store .word .eax 4 (some .esi),
    .add .word 1 .eax,
    .store .byte .eax (-1) (some .esi),
    .store .word .eax 2 (some .esi),
    .storeImm .word 0x0010 0 (some .esi),
    .load .long (UInt32.ofNat (packet + 14)) none .ebx,
    .store .long .ebx 8 (some .esi),
    .load .long (UInt32.ofNat (packet + 18)) none .ebx,
    .store .long .ebx 12 (some .esi)]

/-- From `movw $disk_address_packet, %si` to the interrupt. -/
def fill (packet : Nat) : List Instr :=
  .imm .word (UInt32.ofNat packet) .esi :: fillPacket packet ++
    [.immHigh 0x42 .eax, .imm .byte 0x80 .edx]

/-- Behind the interrupt. -/
def toProtected (restore : Nat) : List Instr :=
  [.shr .word 8 .eax,
    .fromCr0 .ebx,
    .or 1 .ebx,
    .toCr0 .ebx,
    .ljmp (gdtEntry 3) restore]

/-- `restore`. -/
def restore : List Instr :=
  [.cli,
    .imm .long (gdtEntry 4).toUInt32 .ebx,
    .movSeg .ebx .ds,
    .movSeg .ebx .es,
    .movSeg .ebx .fs,
    .movSeg .ebx .gs,
    .movSeg .ebx .ss,
    .pop .ebp,
    .pop .edi,
    .pop .esi,
    .pop .edx,
    .pop .ecx,
    .pop .ebx,
    .ret]

/-- Where the parts of `bios.S` are linked. -/
structure Linked where
  packet : Nat
  table : Nat
  step2 : Nat
  doReadDisk : Nat
  restore : Nat

/-- The registers that `int $0x13` looks at. -/
def callOf (c : Cpu) : Call where
  ah := UInt8.ofNat ((c.regs .eax).toNat / 256)
  dl := UInt8.ofNat (c.regs .edx).toNat
  ds := (c.seg .ds).selector
  si := UInt16.ofNat (c.regs .esi).toNat

/-- `int $0x13` in real mode. It returns a status in `%ah`, and leaves the other registers as
    they are. -/
def interrupt {d : Disk} (bios : Bios d) (status : UInt8) (c : Cpu) : Option Cpu :=
  if c.pe then
    none
  else
    Instr.exec { c with mem := bios.int13 (callOf c) c.mem } (.immHigh status .eax)

/-- `bios_read_disk`. -/
def exec {d : Disk} (bios : Bios d) (status : UInt8) (l : Linked) (c : Cpu) : Option Cpu := do
  let c ← run true (save ++ request l.packet ++ toStep2 l.table l.step2) c
  let c ← run false (step2 l.doReadDisk) c
  let c ← run false (dataSegments ++ fill l.packet) c
  let c ← interrupt bios status c
  let c ← run false (toProtected l.restore) c
  run true restore c

end BiosReadDisk

/-! ## `biosmbr.S` -/

namespace BiosMbr

/-- Where the parts of the boot code are linked. -/
structure Linked where
  gdt : Nat
  packet : Nat
  start32 : Nat

/-- Up to the first `int $0x13`. -/
def probe (packet : Nat) : List Instr :=
  [.cli,
    .immHigh 0x41 .eax,
    .imm .word 0x55aa .ebx,
    .imm .word 0x80 .edx,
    .imm .byte 0xff .eax,
    .imm .word (UInt32.ofNat packet) .esi]

/-- What function 0x41 of the BIOS returns. -/
structure Reply where
  carry : Bool
  ax : UInt16
  bx : UInt16
  cx : UInt16

/-- The registers behind it. -/
def Reply.store (reply : Reply) (c : Cpu) : Cpu :=
  ((c.setPart .word .eax reply.ax.toUInt32).setPart .word .ebx reply.bx.toUInt32).setPart .word .ecx
    reply.cx.toUInt32

/-- `jc`, `jne` and `jz`, which go to `.L1`. -/
def check (carry : Bool) (c : Cpu) : Option Cpu :=
  if carry then
    none
  else if (c.regs .ebx).toUInt16 ≠ 0xaa55 then
    none
  else
    let c := c.setPart .word .ecx (c.regs .ecx &&& 1)
    if (c.regs .ecx).toUInt16 = 0 then none else some c

/-- Up to the second `int $0x13`. -/
def fill (packet : Nat) : List Instr :=
  BiosReadDisk.fillPacket packet ++ [.storeImm .word 0x120 6 (some .esi), .immHigh 0x42 .eax]

/-- `start32`. -/
def start32 : List Instr :=
  [.imm .word (gdtEntry 2).toUInt32 .eax,
    .movSeg .eax .ds,
    .movSeg .eax .es,
    .movSeg .eax .ss,
    .imm .long 0xa000 .esp,
    .imm .long 0x1200 .eax,
    .jmp .eax]

/-- From `_start` to the loader, or to `.L1`: there the processor is stopped. -/
def enter {d : Disk} (bios : Bios d) (reply : Reply) (status : UInt8) (l : Linked) (c : Cpu) :
    Option (Option Cpu) := do
  let c ← run false (probe l.packet) c
  if c.pe then
    none
  else
    (check reply.carry (reply.store c)).mapM fun c => do
      let c ← run false (fill l.packet) c
      let c ← BiosReadDisk.interrupt bios status c
      let c ← run false (Mbr.switch l.gdt l.start32) c
      run true start32 c

end BiosMbr

end Tlibc.Boot
