import Tlibc.Native.Boot

/-!
# `bootloader/serial.h` and `bios/bios.S`

`read_disk` down to what it tells the hardware: the ports of the disk controller, or the
packet of `int $0x13`. The modes that `bios.S` switches between and the registers that it
saves on the stack are left out.
-/

namespace Tlibc.Boot

/-- The address of double word `i` of an array. -/
def wordAddr (buf : UInt32) (i : Nat) : Nat := (buf + 4 * UInt32.ofNat i).toNat

/-! ## Ports -/

/-- The disk of the first drive, which takes some time to get a sector. -/
structure Drive where
  disk : Disk
  time : UInt32 → Nat

/-- The disk controller: its registers, how often its status will still be busy, and what
    it has for the data port. -/
structure Controller where
  count : UInt8
  lbaLow : UInt8
  lbaMid : UInt8
  lbaHigh : UInt8
  device : UInt8
  busy : Nat
  data : List UInt8

namespace Controller

/-- The number of a sector, of 28 bits in four registers. -/
def lba (c : Controller) : UInt32 :=
  UInt32.ofNat (c.lbaLow.toNat + 2 ^ 8 * c.lbaMid.toNat + 2 ^ 16 * c.lbaHigh.toNat +
    2 ^ 24 * (c.device &&& 0xf).toNat)

/-- How many sectors are to be read: 256 if the register is 0. -/
def sectors (c : Controller) : Nat := if c.count = 0 then 256 else c.count.toNat

/-- The command 0x20 on the first drive, with sector numbers. -/
def readSectors (c : Controller) (drive : Drive) : Controller :=
  { c with
    busy := drive.time c.lba
    data := (List.range c.sectors).flatMap fun i => drive.disk.sector (c.lba + UInt32.ofNat i) }

/-- `outb`, which has no effect while the controller is busy. -/
def outb (c : Controller) (drive : Drive) (port : Nat) (data : UInt8) : Controller :=
  if c.busy ≠ 0 then c
  else match port with
    | 0x1f2 => { c with count := data }
    | 0x1f3 => { c with lbaLow := data }
    | 0x1f4 => { c with lbaMid := data }
    | 0x1f5 => { c with lbaHigh := data }
    | 0x1f6 => { c with device := data }
    -- any other command, drive or addressing is ignored
    | 0x1f7 => if data = 0x20 ∧ c.device &&& 0x50 = 0x40 then c.readSectors drive else c
    | _ => c

/-- `inb(0x1f7)`: the status. -/
def status (c : Controller) : UInt8 × Controller :=
  if c.busy = 0 then (if c.data = [] then 0x40 else 0x48, c)
  else (0x80, { c with busy := c.busy - 1 })

/-- `inl(0x1f0)`: the next double word. -/
def inl (c : Controller) : UInt32 × Controller :=
  (UInt32.ofNat (Mem.leNat (c.data.take 4)), { c with data := c.data.drop 4 })

theorem busy_of_status {c : Controller} (h : c.status.1 &&& 0xc0 ≠ 0x40) : c.busy ≠ 0 := by
  intro hzero
  rw [status, if_pos hzero] at h
  split at h
  · exact h (show (0x40 : UInt8) &&& 0xc0 = 0x40 by decide)
  · exact h (show (0x48 : UInt8) &&& 0xc0 = 0x40 by decide)

/-- `wait_disk`. -/
def wait (c : Controller) : Controller :=
  if _h : c.status.1 &&& 0xc0 ≠ 0x40 then c.status.2.wait else c.status.2
termination_by c.busy
decreasing_by
  have hbusy := busy_of_status _h
  rw [status, if_neg hbusy]
  exact Nat.sub_one_lt hbusy

end Controller

namespace Ports

/-- What `read_disk` tells the controller between its two calls of `wait_disk`. -/
def request (drive : Drive) (sect : UInt32) (c : Controller) : Controller :=
  -- one sector, its number from the low bits on, and the command
  let c := c.outb drive 0x1f2 1
  let c := c.outb drive 0x1f3 sect.toUInt8
  let c := c.outb drive 0x1f4 (sect >>> 8).toUInt8
  let c := c.outb drive 0x1f5 (sect >>> 16).toUInt8
  let c := c.outb drive 0x1f6 (sect >>> 24 ||| 0xE0).toUInt8
  c.outb drive 0x1f7 0x20

/-- `((uint32_t *)buf)[i] = inl(0x1f0)`. -/
def readWord (buf : UInt32) (i : Nat) (s : Controller × Mem) : Controller × Mem :=
  (s.1.inl.2, s.2.write (wordAddr buf i) (Mem.leBytes 4 s.1.inl.1.toNat))

/-- `read_disk` without `__BIOS__`. -/
def readDisk (drive : Drive) (buf sect : UInt32) (s : Controller × Mem) : Controller × Mem :=
  let c := request drive sect s.1.wait
  Nat.fold (sectSize / 4) (fun i _ s => readWord buf i s) (c.wait, s.2)

/-- The loop of `__k_readfile` over the bytes of a sector. -/
def copySector (dst readStart : UInt32) (nb : Nat) (m : Mem) : Mem :=
  Loop.copyUp (fun i => (dst + UInt32.ofNat i).toNat)
    (fun i => (Vmlinux.sectorDataStart + (UInt32.ofNat i + readStart)).toNat) nb m

/-- `__k_readfile`. -/
def kReadfile (drive : Drive) (addr fstart foff fsize : UInt32) (s : Controller × Mem) :
    Controller × Mem :=
  if _hend : fsize = 0 then
    s
  else
    let readStart := foff % 512
    let sector := fstart + foff / 512
    let nb := Vmlinux.chunk foff fsize
    let s := readDisk drive Vmlinux.sectorDataStart sector s
    -- only the wanted part of the sector is copied
    let m := copySector addr readStart nb.toNat s.2
    kReadfile drive (addr + nb) fstart (foff + nb) (fsize - nb) (s.1, m)
termination_by fsize.toNat
decreasing_by exact Vmlinux.sub_chunk_lt _hend

end Ports

/-! ## The BIOS -/

/-- Where `bios.S` has its variables: at `disk_address_packet`, with `mode` in front of it.
    The loader is linked at 0x1200 and its addresses fit into `%si`. -/
structure Loader where
  packet : Nat
  stop : Nat
  begins : 0x1200 < packet
  fits : packet + 22 ≤ stop
  short : stop ≤ 0x10000

/-! `disk_address_packet` as it is filled in, and what is behind it. The packet itself ends
inside of `ksector`. -/

namespace Packet

def size : Field := ⟨0, .two⟩
def blocks : Field := ⟨2, .two⟩
def bufOffset : Field := ⟨4, .two⟩
def bufSegment : Field := ⟨6, .two⟩
def lba : Field := ⟨8, .four⟩
def lbaHigh : Field := ⟨12, .four⟩
def ksector : Field := ⟨14, .four⟩
def ksectorHigh : Field := ⟨18, .four⟩

end Packet

/-- The registers that `int $0x13` looks at. -/
structure Call where
  ah : UInt8
  dl : UInt8
  ds : UInt16
  si : UInt16

namespace Call

/-- `%ds:%si`. -/
def packet (call : Call) : Nat := 16 * call.ds.toNat + call.si.toNat

/-- One sector of the first disk is to be read. -/
structure ReadsOne (call : Call) (m : Mem) : Prop where
  ah : call.ah = 0x42
  dl : call.dl = 0x80
  size : getField m call.packet Packet.size = 0x10
  blocks : getField m call.packet Packet.blocks = 1
  lbaHigh : getField m call.packet Packet.lbaHigh = 0

/-- The address of the buffer in the packet. -/
def buffer (call : Call) (m : Mem) : Nat :=
  16 * getField m call.packet Packet.bufSegment + getField m call.packet Packet.bufOffset

/-- The sector in the packet. -/
def sector (call : Call) (m : Mem) : UInt32 := UInt32.ofNat (getField m call.packet Packet.lba)

end Call

/-- A BIOS, as far as it reads the disk: function 0x42 fills the buffer in the packet. -/
structure Bios (d : Disk) where
  int13 : Call → Mem → Mem
  reads : ∀ call m, call.ReadsOne m → ∀ i, i < 512 →
    int13 call m (call.buffer m + i) = (d.sector (call.sector m)).getD i 0

/-- What `bios_read_disk` stores for the BIOS. -/
def Loader.fill (loader : Loader) (sector addr : UInt32) (m : Mem) : Mem :=
  let si := loader.packet
  -- in protected mode: `shr $4` and `movw` keep 16 bits of the segment
  let m := setField m si Packet.ksector sector.toNat
  let m := setField m si Packet.bufSegment (addr >>> 4).toNat
  -- in real mode, with `%ds` zero
  let m := setField m si Packet.bufOffset 0
  let m := setField m (si - 1) ⟨0, .one⟩ 1
  let m := setField m si Packet.blocks 1
  let m := setField m si Packet.size 0x10
  let m := setField m si Packet.lba (getField m si Packet.ksector)
  -- this overwrites half of `ksector`, which is in the packet already
  setField m si Packet.lbaHigh (getField m si Packet.ksectorHigh)

/-- The interrupt of `bios_read_disk`. -/
def Loader.call (loader : Loader) : Call := ⟨0x42, 0x80, 0, UInt16.ofNat loader.packet⟩

namespace Bios

variable {d : Disk}

/-- `bios_read_disk`. -/
def readSector (bios : Bios d) (loader : Loader) (sector addr : UInt32) (m : Mem) : Mem :=
  bios.int13 loader.call (loader.fill sector addr m)

/-- `((uint32_t *)buf)[i] = ((uint32_t *)addr)[i]`. -/
def copyWord (buf addr : UInt32) (i : Nat) (m : Mem) : Mem :=
  m.write (wordAddr buf i) (m.read (wordAddr addr i) 4)

/-- `read_disk` with `__BIOS__`. -/
def readDisk (bios : Bios d) (loader : Loader) (buf sect : UInt32) (m : Mem) : Mem :=
  -- the buffer at 0x1000 is for what the BIOS cannot reach
  let addr := if 0x100000 ≤ buf then 0x1000 else buf
  let m := bios.readSector loader sect addr m
  if addr ≠ buf then Nat.fold (sectSize / 4) (fun i _ m => copyWord buf addr i m) m else m

/-! A loader calls them on its stack, which is not the place for a sector. -/

/-- Where the BIOS is told to store. -/
def target (loader : Loader) (sector addr : UInt32) (m : Mem) : Nat :=
  loader.call.buffer (loader.fill sector addr m)

/-- `bios_read_disk`, called by a loader. -/
def readSectorOn (bios : Bios d) (loader : Loader) (stack : Stack) (sector addr : UInt32)
    (m : Mem) : Except Fault Mem :=
  if stack.Off (target loader sector addr m) sectSize then
    .ok (bios.readSector loader sector addr m)
  else
    .error .stack

/-- `read_disk` with `__BIOS__`, called by a loader. -/
def readDiskOn (bios : Bios d) (loader : Loader) (stack : Stack) (m : Mem) (buf sect : UInt32) :
    Except Fault Mem :=
  let addr := if 0x100000 ≤ buf then 0x1000 else buf
  if stack.Off (target loader sect addr m) sectSize ∧ (addr ≠ buf → stack.Off buf.toNat sectSize) then
    .ok (bios.readDisk loader buf sect m)
  else
    .error .stack

end Bios

end Tlibc.Boot
