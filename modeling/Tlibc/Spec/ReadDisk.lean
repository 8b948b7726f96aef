import Tlibc.Native.ReadDisk
import Tlibc.Spec.BootDisk

/-!
# The two implementations of `read_disk`

Ports take the sector to any address. The BIOS takes it to the beginning of a segment, and
`bios_read_disk` drops the last four bits of an address below 1 MiB to get one.

* `Ports.readDisk_ok`: the 28-bit sector number and the 128 double words
* `Bios.readDisk_low`, `Bios.readDisk_high`: without and with the buffer at 0x1000
* `agree_iff`: the two agree exactly when the address is a multiple of 16 or above 1 MiB
* `Bios.readDiskOn_of_bios`: what a loader reads with the BIOS is what `readDisk` says, outside
  of the variables of `bios_read_disk`
-/

namespace Tlibc.Boot

variable {d : Disk} {m : Mem} {buf sect : UInt32} {n : Nat}

/-- The address of a word does not wrap. -/
private theorem toNat_wordAddr {i : Nat} (h : buf.toNat + 4 * i < 2 ^ 32) :
    wordAddr buf i = buf.toNat + 4 * i := by
  rw [wordAddr, UInt32.toNat_add, UInt32.toNat_mul, UInt32.toNat_ofNat',
    show (4 : UInt32).toNat = 4 from rfl]
  omega

/-- A shift is a division. -/
theorem toNat_shiftRight (a : UInt32) {k : UInt32} (hk : k.toNat < 32) :
    (a >>> k).toNat = a.toNat / 2 ^ k.toNat := by
  rw [UInt32.toNat_shiftRight, Nat.mod_eq_of_lt hk, Nat.shiftRight_eq_div_pow]

/-! ## Ports -/

namespace Controller

variable {c : Controller} {drive : Drive}

/-- Waiting changes nothing else. -/
private theorem wait_eq (c : Controller) : c.wait = { c with busy := 0 } := by
  -- the recursion is on how often the status is still busy
  fun_induction wait c with
  | case1 c h ih =>
    have hbusy := busy_of_status h
    rw [ih, status, if_neg hbusy]
  | case2 c h =>
    by_cases hbusy : c.busy = 0
    · rw [status, if_pos hbusy, ← hbusy]
    · rw [status, if_neg hbusy] at h
      exact absurd (show (0x80 : UInt8) &&& 0xc0 ≠ 0x40 by decide) h

end Controller

/-- The device register: four bits of the sector number, and the first drive. -/
private theorem device_bits (h : sect.toNat < 2 ^ 28) :
    ((sect >>> 24 ||| 0xE0).toUInt8 &&& 0xf).toNat = sect.toNat / 2 ^ 24 ∧
      (sect >>> 24 ||| 0xE0).toUInt8 &&& 0x50 = 0x40 := by
  have hhigh : (sect >>> 24).toNat = sect.toNat / 2 ^ 24 := toNat_shiftRight sect (by decide)
  have hlt : (sect >>> 24).toNat < 16 := by
    rw [hhigh]
    omega
  -- four bits are few enough to try them all
  have hall : ∀ k, k < 16 → ((UInt32.ofNat k ||| 0xE0).toUInt8 &&& 0xf).toNat = k ∧
      (UInt32.ofNat k ||| 0xE0).toUInt8 &&& 0x50 = 0x40 := by decide
  have hbits := hall _ hlt
  rwa [UInt32.ofNat_toNat, hhigh] at hbits

/-- Four registers hold the number of the sector. -/
private theorem lba_registers {c : Controller} (hsect : sect.toNat < 2 ^ 28)
    (hlow : c.lbaLow = sect.toUInt8) (hmid : c.lbaMid = (sect >>> 8).toUInt8)
    (hhigh : c.lbaHigh = (sect >>> 16).toUInt8)
    (hdevice : c.device = (sect >>> 24 ||| 0xE0).toUInt8) : c.lba = sect := by
  have hshift : ∀ k : UInt32, k.toNat < 32 →
      (sect >>> k).toUInt8.toNat = sect.toNat / 2 ^ k.toNat % 256 := by
    intro k hk
    rw [UInt32.toNat_toUInt8, toNat_shiftRight sect hk]
  rw [← UInt32.toNat_inj, Controller.lba, hlow, hmid, hhigh, hdevice, (device_bits hsect).1,
    UInt32.toNat_toUInt8, hshift 8 (by decide), hshift 16 (by decide),
    show (8 : UInt32).toNat = 8 from rfl, show (16 : UInt32).toNat = 16 from rfl,
    UInt32.toNat_ofNat']
  omega

namespace Ports

variable {drive : Drive} {s : Controller × Mem}

/-- `n` double words are taken from the controller and stored one behind another. -/
private theorem readWords_ok (hbuf : buf.toNat + 4 * n ≤ 2 ^ 32) (hdata : 4 * n ≤ s.1.data.length) :
    Nat.fold n (fun i _ s => readWord buf i s) s =
      ({ s.1 with data := s.1.data.drop (4 * n) }, s.2.write buf.toNat (s.1.data.take (4 * n))) := by
  induction n with
  | zero => rw [Nat.fold_zero, Nat.mul_zero, List.take_zero, List.drop_zero, Mem.write_nil]
  | succ n ih =>
    have hlen : (s.1.data.take (4 * n)).length = 4 * n := List.length_take_of_le (by omega)
    -- the next word is the next four bytes
    have hword : ((s.1.data.drop (4 * n)).take 4).length = 4 := by
      rw [List.length_take, List.length_drop]
      omega
    have hvalue := Mem.leNat_lt ((s.1.data.drop (4 * n)).take 4)
    rw [hword] at hvalue
    rw [Nat.fold_succ, ih (by omega) (by omega), readWord]
    simp only [Controller.inl]
    rw [UInt32.toNat_ofNat_of_lt' hvalue, Mem.leBytes_leNat hword, toNat_wordAddr (by omega),
      List.drop_drop, Nat.mul_succ, List.take_add]
    have hnext := Mem.write_append s.2 buf.toNat (s.1.data.take (4 * n))
      ((s.1.data.drop (4 * n)).take 4)
    rw [hlen] at hnext
    rw [hnext]

/-- One sector is asked for, with its number in four registers. -/
private theorem request_data (drive : Drive) {c : Controller} (hbusy : c.busy = 0)
    (hsect : sect.toNat < 2 ^ 28) : (request drive sect c).data = drive.disk.sector sect := by
  obtain ⟨count, lbaLow, lbaMid, lbaHigh, device, busy, data⟩ := c
  obtain rfl : busy = 0 := hbusy
  have hselect := (device_bits hsect).2
  simp only [request, Controller.outb, ne_eq, not_true_eq_false, if_false, hselect, and_self, if_true]
  -- the count register says one sector, so the data is this one
  have hone : ∀ c : Controller, c.count = 1 → c.sectors = 1 := by
    intro c hcount
    rw [Controller.sectors, hcount]
    rfl
  rw [Controller.readSectors, hone _ rfl, lba_registers hsect rfl rfl rfl rfl]
  show drive.disk.sector (sect + 0) ++ [] = _
  rw [List.append_nil, UInt32.add_zero]

/-- With ports, the sector is stored at the address. -/
theorem readDisk_ok (drive : Drive) (s : Controller × Mem) (hbuf : buf.toNat + 512 ≤ 2 ^ 32)
    (hsect : sect.toNat < 2 ^ 28) :
    (readDisk drive buf sect s).2 = s.2.write buf.toNat (drive.disk.sector sect) := by
  have hlen : (drive.disk.sector sect).length = 512 := drive.disk.length_sector sect
  have hdata : ((request drive sect s.1.wait).wait).data = drive.disk.sector sect := by
    rw [Controller.wait_eq, ← request_data drive (c := s.1.wait) (by rw [Controller.wait_eq]) hsect]
  have hwords : 4 * (sectSize / 4) = 512 := rfl
  rw [readDisk, readWords_ok (by rw [hwords]; exact hbuf)
    (by rw [hdata, hlen, hwords]), hdata, hwords, List.take_of_length_le (Nat.le_of_eq hlen)]

end Ports

/-! ## The BIOS -/

namespace Loader

variable {loader : Loader} {addr : UInt32}

/-- The variables that `bios_read_disk` stores. -/
def vars (loader : Loader) : Set Nat := Set.Ico (loader.packet - 1) (loader.packet + 18)

/-- Filling the packet changes the variables of the loader only. -/
theorem fill_frame (loader : Loader) (sect addr : UInt32) (m : Mem) :
    Mem.Frame loader.vars m (loader.fill sect addr m) := by
  have hbegins := loader.begins
  have hfield : ∀ (f : Field), f.off + f.width.bytes ≤ 18 → ∀ (m : Mem) (v : Nat),
      Mem.Frame loader.vars m (setField m loader.packet f v) := fun f hf m v =>
    (frame_setField _ f v).mono (Set.Ico_subset_Ico (by omega) (by omega))
  have hmode : ∀ m : Mem, Mem.Frame loader.vars m (setField m (loader.packet - 1) ⟨0, .one⟩ 1) :=
    fun m => (frame_setField _ ⟨0, .one⟩ 1).mono
      (Set.Ico_subset_Ico (Nat.le_refl _) (by dsimp only [Width.bytes]; omega))
  exact ((((((((hfield Packet.ksector (by decide) _ _).trans
    (hfield Packet.bufSegment (by decide) _ _)).trans
    (hfield Packet.bufOffset (by decide) _ _)).trans (hmode _)).trans
    (hfield Packet.blocks (by decide) _ _)).trans (hfield Packet.size (by decide) _ _)).trans
    (hfield Packet.lba (by decide) _ _)).trans (hfield Packet.lbaHigh (by decide) _ _))

/-- A field that was set is read back. -/
theorem getField_packet_self (f : Field) (m : Mem) (v : Nat) :
    getField (setField m loader.packet f v) loader.packet f = v % 256 ^ f.width.bytes :=
  Mem.load_write_self _ _ _ _

/-- A field is not changed by a store to another one of the packet, or to `mode`. -/
theorem getField_packet_ne {f g : Field}
    (h : f.off + f.width.bytes ≤ g.off ∨ g.off + g.width.bytes ≤ f.off) (m : Mem) (v : Nat) :
    getField (setField m loader.packet g v) loader.packet f = getField m loader.packet f :=
  getField_setField_ne (by omega)

/-- Setting the mode does not change the packet. -/
theorem getField_mode (f : Field) (m : Mem) (v : Nat) :
    getField (setField m (loader.packet - 1) ⟨0, .one⟩ v) loader.packet f =
      getField m loader.packet f := by
  have hbegins := loader.begins
  exact getField_setField_ne (.inr (by dsimp only [Width.bytes]; omega))

/-- The packet of the call is the one of the loader. -/
theorem packet_call (loader : Loader) : loader.call.packet = loader.packet := by
  have hfits := loader.fits
  have hshort := loader.short
  have hsi : (UInt16.ofNat loader.packet).toNat = loader.packet :=
    UInt16.toNat_ofNat_of_lt' (show loader.packet < 2 ^ 16 by omega)
  rw [Call.packet, call, hsi, UInt16.toNat_zero, Nat.mul_zero, Nat.zero_add]

/-- The packet asks for one sector. -/
private theorem fill_readsOne (loader : Loader) (sect addr : UInt32)
    (hhigh : getField m loader.packet Packet.ksectorHigh = 0) :
    loader.call.ReadsOne (loader.fill sect addr m) := by
  refine ⟨rfl, rfl, ?_, ?_, ?_⟩
  · rw [packet_call, fill]
    simp (disch := decide) only [getField_packet_ne, getField_packet_self]
    rfl
  · rw [packet_call, fill]
    simp (disch := decide) only [getField_packet_ne, getField_packet_self]
    rfl
  · rw [packet_call, fill]
    simp (disch := decide) only [getField_packet_ne, getField_packet_self, getField_mode, hhigh]
    rfl

/-- Below 1 MiB, the last four bits of an address are lost. -/
theorem fill_buffer (loader : Loader) (sect : UInt32) (haddr : addr.toNat < 0x100000) :
    loader.call.buffer (loader.fill sect addr m) = 16 * (addr.toNat / 16) := by
  have hsegment : (addr >>> 4).toNat = addr.toNat / 2 ^ 4 := toNat_shiftRight addr (by decide)
  rw [Call.buffer, packet_call, fill]
  simp (disch := decide) only [getField_packet_ne, getField_packet_self, getField_mode, hsegment]
  show 16 * (addr.toNat / 2 ^ 4 % 256 ^ 2) + 0 % 256 ^ 2 = _
  omega

/-- The call is for the sector. -/
private theorem fill_sector (loader : Loader) (sect addr : UInt32) :
    loader.call.sector (loader.fill sect addr m) = sect := by
  have hlt : sect.toNat < 256 ^ 4 := sect.toNat_lt
  rw [Call.sector, packet_call, fill]
  simp (disch := decide) only [getField_packet_ne, getField_packet_self, getField_mode]
  show UInt32.ofNat (sect.toNat % 256 ^ 4 % 256 ^ 4) = sect
  rw [Nat.mod_mod, Nat.mod_eq_of_lt hlt, UInt32.ofNat_toNat]

end Loader

namespace Bios

variable {bios : Bios d} {loader : Loader} {addr : UInt32}

/-- The interrupt leaves the sector at the beginning of the segment. -/
theorem readSector_ok (haddr : addr.toNat < 0x100000)
    (hhigh : getField m loader.packet Packet.ksectorHigh = 0) :
    (bios.readSector loader sect addr m).read (16 * (addr.toNat / 16)) 512 = d.sector sect := by
  have hlen : (d.sector sect).length = 512 := d.length_sector sect
  have hreads := bios.reads _ _ (loader.fill_readsOne sect addr hhigh)
  rw [loader.fill_buffer sect haddr, loader.fill_sector] at hreads
  refine List.ext_getElem (by rw [Mem.length_read, hlen]) fun i h₁ h₂ => ?_
  rw [Mem.getElem_read, readSector, hreads i (by rwa [hlen] at h₂), List.getD_eq_getElem _ _ h₂]

/-- `n` double words are copied from a place that they do not overlap. -/
private theorem copyWords_ok (hbuf : buf.toNat + 4 * n ≤ 2 ^ 32)
    (haddr : addr.toNat + 4 * n ≤ 2 ^ 32)
    (hapart : addr.toNat + 4 * n ≤ buf.toNat ∨ buf.toNat + 4 * n ≤ addr.toNat) :
    Nat.fold n (fun i _ m => copyWord buf addr i m) m =
      m.write buf.toNat (m.read addr.toNat (4 * n)) := by
  induction n with
  | zero =>
    rw [Nat.fold_zero, Nat.mul_zero, show m.read addr.toNat 0 = [] from rfl, Mem.write_nil]
  | succ n ih =>
    -- the words copied before have not touched the next one to be read
    have hkept : (m.write buf.toNat (m.read addr.toNat (4 * n))).read (addr.toNat + 4 * n) 4 =
        m.read (addr.toNat + 4 * n) 4 := Mem.read_congr fun i hi => by
      rw [Mem.write_apply_out (by rw [Mem.length_read]; omega)]
    have hnext := Mem.write_append m buf.toNat (m.read addr.toNat (4 * n))
      (m.read (addr.toNat + 4 * n) 4)
    rw [Mem.length_read] at hnext
    rw [Nat.fold_succ, ih (by omega) (by omega) (by omega), copyWord, toNat_wordAddr (by omega),
      toNat_wordAddr (by omega), hkept, hnext, Nat.mul_succ, Mem.read_add]

/-- A buffer below 1 MiB is read to directly. -/
theorem readDisk_low (bios : Bios d) (h : buf.toNat < 0x100000) :
    bios.readDisk loader buf sect m = bios.readSector loader sect buf m := by
  have hlow : ¬ 0x100000 ≤ buf := fun hle =>
    absurd (UInt32.le_iff_toNat_le.mp hle) (Nat.not_le.mpr h)
  rw [readDisk]
  simp only [if_neg hlow, ne_eq, not_true_eq_false, if_false]

/-- The sector is copied out of the buffer at 0x1000. -/
theorem readDisk_high (bios : Bios d) (h : 0x100000 ≤ buf.toNat) (hbuf : buf.toNat + 512 ≤ 2 ^ 32)
    (hhigh : getField m loader.packet Packet.ksectorHigh = 0) :
    bios.readDisk loader buf sect m =
      (bios.readSector loader sect 0x1000 m).write buf.toNat (d.sector sect) := by
  have hle : 0x100000 ≤ buf := UInt32.le_iff_toNat_le.mpr h
  have hne : (0x1000 : UInt32) ≠ buf := by
    rintro rfl
    exact absurd h (by decide)
  have hbounce : (bios.readSector loader sect 0x1000 m).read 0x1000 512 = d.sector sect :=
    @readSector_ok d m sect bios loader 0x1000 (by decide) hhigh
  have hcopy := @copyWords_ok (bios.readSector loader sect 0x1000 m) buf 128 0x1000 hbuf
    (by decide) (.inl (Nat.le_trans (by decide) h))
  rw [readDisk]
  simp only [if_pos hle, if_pos hne]
  exact hcopy.trans (congrArg _ hbounce)

/-- At the beginning of a segment, and above 1 MiB, the sector is left at the address. -/
theorem readDisk_ok (bios : Bios d) (hbuf : buf.toNat + 512 ≤ 2 ^ 32)
    (hhigh : getField m loader.packet Packet.ksectorHigh = 0)
    (h : buf.toNat % 16 = 0 ∨ 0x100000 ≤ buf.toNat) :
    (bios.readDisk loader buf sect m).read buf.toNat sectSize = d.sector sect := by
  by_cases habove : 0x100000 ≤ buf.toNat
  · -- by way of the buffer, which begins a segment
    rw [bios.readDisk_high habove hbuf hhigh]
    exact read_sector d sect _ _
  · -- straight to its place
    have hbelow : buf.toNat < 0x100000 := Nat.not_le.mp habove
    have halign : 16 * (buf.toNat / 16) = buf.toNat := by omega
    have hsector := @readSector_ok d m sect bios loader buf hbelow hhigh
    rw [halign] at hsector
    rw [bios.readDisk_low hbelow]
    exact hsector

/-- Only the buffer in the packet is stored to. -/
def Quiet (bios : Bios d) : Prop :=
  ∀ call m, Mem.Frame (Set.Ico (call.buffer m) (call.buffer m + 512)) m (bios.int13 call m)

namespace Quiet

/-- A BIOS that changes nothing else reads the sector to its paragraph. -/
private theorem readSector (hquiet : bios.Quiet) (haddr : addr.toNat < 0x100000)
    (hhigh : getField m loader.packet Packet.ksectorHigh = 0) :
    bios.readSector loader sect addr m =
      (loader.fill sect addr m).write (16 * (addr.toNat / 16)) (d.sector sect) := by
  have hlen : (d.sector sect).length = 512 := d.length_sector sect
  have hreads := bios.reads _ _ (loader.fill_readsOne sect addr hhigh)
  have hframe := hquiet loader.call (loader.fill sect addr m)
  rw [loader.fill_buffer sect haddr] at hreads hframe
  rw [loader.fill_sector] at hreads
  funext a
  by_cases hin : 16 * (addr.toNat / 16) ≤ a ∧ a < 16 * (addr.toNat / 16) + 512
  · obtain ⟨i, rfl⟩ := Nat.exists_eq_add_of_le hin.1
    have hi : i < 512 := by omega
    rw [Bios.readSector, hreads i hi, write_sector _ _ _ _ hi]
  · rw [Bios.readSector, hframe.apply hin, Mem.write_apply_out (by rw [hlen]; omega)]

/-- The last byte at an address inside of a segment stays as it was. -/
private theorem readDisk_last (hquiet : bios.Quiet) (hlow : loader.stop ≤ buf.toNat)
    (hunaligned : buf.toNat % 16 ≠ 0) (hbelow : buf.toNat < 0x100000)
    (hhigh : getField m loader.packet Packet.ksectorHigh = 0) :
    bios.readDisk loader buf sect m (buf.toNat + 511) = m (buf.toNat + 511) := by
  have hlen : (d.sector sect).length = 512 := d.length_sector sect
  have hfits := loader.fits
  rw [bios.readDisk_low hbelow, hquiet.readSector hbelow hhigh,
    Mem.write_apply_out (.inr (by rw [hlen]; omega))]
  apply (loader.fill_frame sect buf m).apply
  rintro ⟨-, hlt⟩
  omega

/-- `ksector_high` is not touched by a read to an address above the loader. -/
private theorem readDisk_keeps (hquiet : bios.Quiet) (hlow : loader.stop ≤ buf.toNat)
    (hbuf : buf.toNat + 512 ≤ 2 ^ 32) (h : buf.toNat % 16 = 0 ∨ 0x100000 ≤ buf.toNat)
    (hhigh : getField m loader.packet Packet.ksectorHigh = 0) :
    getField (bios.readDisk loader buf sect m) loader.packet Packet.ksectorHigh = 0 := by
  have hlen : (d.sector sect).length = 512 := d.length_sector sect
  have hbegins := loader.begins
  have hfits := loader.fits
  -- the packet is filled below its high half
  have hfill : ∀ addr, getField (loader.fill sect addr m) loader.packet Packet.ksectorHigh = 0 := by
    intro addr
    rw [← hhigh]
    apply (loader.fill_frame sect addr m).load
    rintro i - ⟨-, hlt⟩
    have hlt : loader.packet + 18 + i < loader.packet + 18 := hlt
    omega
  -- a sector that is stored beside the packet does not change it, either
  have hapart : ∀ (m : Mem) (off : Nat), off + 512 ≤ loader.packet ∨ loader.packet + 22 ≤ off →
      getField (m.write off (d.sector sect)) loader.packet Packet.ksectorHigh =
        getField m loader.packet Packet.ksectorHigh := by
    intro m off hout
    apply Mem.load_write_ne
    show loader.packet + 18 + 4 ≤ off ∨ off + (d.sector sect).length ≤ loader.packet + 18
    rw [hlen]
    omega
  -- the sector is stored to the buffer, in two steps above 1 MiB
  by_cases habove : 0x100000 ≤ buf.toNat
  · have hscratch : 16 * ((0x1000 : UInt32).toNat / 16) = 0x1000 := rfl
    rw [bios.readDisk_high habove hbuf hhigh, hapart _ _ (.inr (by omega)),
      hquiet.readSector (by decide) hhigh, hscratch, hapart _ _ (.inl (by omega)), hfill]
  · rw [bios.readDisk_low (by omega), hquiet.readSector (by omega) hhigh,
      hapart _ _ (.inr (by omega)), hfill]

end Quiet

end Bios

/-! ## When the two agree -/

/-- Both implementations leave the sector at the address, whatever the state of the
    controller, the BIOS and the memory. `ksector_high` is zero as it is linked. -/
structure Agree (loader : Loader) (d : Disk) (buf sect : UInt32) : Prop where
  ports : ∀ (time : UInt32 → Nat) (s : Controller × Mem),
    (Ports.readDisk ⟨d, time⟩ buf sect s).2.read buf.toNat sectSize = d.sector sect
  bios : ∀ (bios : Bios d) (m : Mem), getField m loader.packet Packet.ksectorHigh = 0 →
    (bios.readDisk loader buf sect m).read buf.toNat sectSize = d.sector sect

instance (call : Call) (m : Mem) : Decidable (call.ReadsOne m) :=
  decidable_of_iff ((call.ah = 0x42 ∧ call.dl = 0x80) ∧
    getField m call.packet Packet.size = 0x10 ∧ getField m call.packet Packet.blocks = 1 ∧
      getField m call.packet Packet.lbaHigh = 0)
    ⟨fun ⟨⟨ah, dl⟩, size, blocks, lbaHigh⟩ => ⟨ah, dl, size, blocks, lbaHigh⟩,
      fun ⟨ah, dl, size, blocks, lbaHigh⟩ => ⟨⟨ah, dl⟩, size, blocks, lbaHigh⟩⟩

/-- A BIOS that does nothing else. -/
def Bios.plain (d : Disk) : Bios d where
  int13 call m :=
    if call.ReadsOne m then m.write (call.buffer m) (d.sector (call.sector m)) else m
  reads call m h i hi := by
    rw [if_pos h]
    exact write_sector _ _ _ _ hi

/-- A BIOS that only reads changes nothing else. -/
theorem Bios.plain_quiet (d : Disk) : (plain d).Quiet := by
  intro call m
  rw [plain]
  dsimp only
  split
  · exact frame_sector d _ m _
  · exact Mem.Frame.refl _ _

/-- Inside of a segment the BIOS does not leave the sector, on any disk. -/
private theorem not_agree {loader : Loader} (hlow : loader.stop ≤ buf.toNat)
    (hunaligned : buf.toNat % 16 ≠ 0) (hbelow : buf.toNat < 0x100000) :
    ¬ Agree loader d buf sect := by
  intro hagree
  have hfits := loader.fits
  -- the last byte is not stored, and was another one before
  let m := setField (fun _ => (d.sector sect).getD 511 0 + 1) loader.packet Packet.ksectorHigh 0
  have hhigh : getField m loader.packet Packet.ksectorHigh = 0 :=
    getField_setField_self _ _ (by decide)
  have hbefore : m (buf.toNat + 511) = (d.sector sect).getD 511 0 + 1 := by
    apply (frame_setField loader.packet Packet.ksectorHigh 0).apply
    rintro ⟨-, hlt⟩
    have hlt : buf.toNat + 511 < loader.packet + 18 + 4 := hlt
    omega
  have hin : 511 < (((Bios.plain d).readDisk loader buf sect m).read buf.toNat sectSize).length := by
    rw [Mem.length_read]
    decide
  have hafter := congrArg (fun bytes => bytes.getD 511 0) (hagree.bios (Bios.plain d) m hhigh)
  simp only [List.getD_eq_getElem _ _ hin, Mem.getElem_read] at hafter
  rw [(Bios.plain_quiet d).readDisk_last hlow hunaligned hbelow hhigh, hbefore] at hafter
  exact byte_succ_ne _ hafter

/-- At the beginning of a segment, and above 1 MiB, they agree. -/
theorem agree {loader : Loader} (hbuf : buf.toNat + 512 ≤ 2 ^ 32) (hsect : sect.toNat < 2 ^ 28)
    (h : buf.toNat % 16 = 0 ∨ 0x100000 ≤ buf.toNat) : Agree loader d buf sect := by
  refine ⟨fun time s => ?_, fun bios m hhigh => bios.readDisk_ok hbuf hhigh h⟩
  rw [Ports.readDisk_ok ⟨d, time⟩ s hbuf hsect]
  exact read_sector d sect _ _

/-- Ports and BIOS agree exactly on the addresses that a segment begins at and on those that
    are read by way of the buffer at 0x1000. -/
theorem agree_iff (loader : Loader) (d : Disk) (buf sect : UInt32)
    (hlow : loader.stop ≤ buf.toNat) (hbuf : buf.toNat + 512 ≤ 2 ^ 32)
    (hsect : sect.toNat < 2 ^ 28) :
    Agree loader d buf sect ↔ buf.toNat % 16 = 0 ∨ 0x100000 ≤ buf.toNat := by
  constructor
  · intro hagree
    by_contra hnot
    exact not_agree hlow (fun h => hnot (.inl h)) (Nat.not_le.mp fun h => hnot (.inr h)) hagree
  · exact agree hbuf hsect

/-- A loader of two sectors, and a disk of zeros. -/
def twoSectors : Loader := ⟨0x1500, 0x1600, by decide, by decide, by decide⟩

/-- A disk of zeros. -/
def blank : Disk := ⟨fun _ => List.replicate 512 0, fun _ => List.length_replicate⟩

theorem agree_blank : Agree twoSectors blank 0x8000 539 ∧ Agree twoSectors blank 0x100001 539 :=
  ⟨(agree_iff twoSectors blank 0x8000 539 (by decide) (by decide) (by decide)).mpr (.inl (by decide)),
    (agree_iff twoSectors blank 0x100001 539 (by decide) (by decide) (by decide)).mpr
      (.inr (by decide))⟩

/-- A buffer that is one byte off. -/
theorem unaligned_disagree : ¬ ∀ (loader : Loader) (d : Disk) (buf sect : UInt32),
    loader.stop ≤ buf.toNat → buf.toNat + 512 ≤ 2 ^ 32 → sect.toNat < 2 ^ 28 →
      Agree loader d buf sect := by
  intro hall
  exact not_agree (by decide) (by decide) (by decide)
    (hall twoSectors blank 0x8001 539 (by decide) (by decide) (by decide))

/-! ## What the loaders are given -/

section Loaders

variable {stack : Stack} {m' : Mem}

/-- The ports are one of the ways that `readDisk` reads. -/
theorem readDisk_of_ports (time : UInt32 → Nat) (c : Controller)
    (hbuf : buf.toNat + 512 ≤ 2 ^ 32) (hsect : sect.toNat < 2 ^ 28)
    (h : readDisk .ports stack d m buf sect = .ok m') :
    (Ports.readDisk ⟨d, time⟩ buf sect (c, m)).2 = m' := by
  rw [Ports.readDisk_ok ⟨d, time⟩ (c, m) hbuf hsect, storeSector_ok h]

/-- The BIOS is the other one, outside of the variables of `bios_read_disk`. -/
private theorem readDisk_of_bios {bios : Bios d} (hquiet : bios.Quiet) (loader : Loader)
    (hbuf : buf.toNat + 512 ≤ 2 ^ 32)
    (hhigh : getField m loader.packet Packet.ksectorHigh = 0)
    (h : readDisk .bios stack d m buf sect = .ok m') :
    Mem.Frame loader.vars m' (bios.readDisk loader buf sect m) := by
  have hfill := fun addr => loader.fill_frame sect addr m
  by_cases hle : 0x100000 ≤ buf
  · -- both store the sector twice, into memories that differ in the variables only
    have habove : 0x100000 ≤ buf.toNat := UInt32.le_iff_toNat_le.mp hle
    rw [readDisk_bios_high_ok hle h, bios.readDisk_high habove hbuf hhigh,
      hquiet.readSector (by decide) hhigh]
    exact ((hfill 0x1000).write _ _).write _ _
  · have hbelow : buf.toNat < 0x100000 := Nat.not_le.mp fun h => hle (UInt32.le_iff_toNat_le.mpr h)
    rw [readDisk_bios_below hle] at h
    rw [storeSector_ok h, toNat_segment, bios.readDisk_low hbelow,
      hquiet.readSector hbelow hhigh]
    exact (hfill buf).write _ _

/-- It does not look at the memory. -/
private theorem readDisk_bios_frame {S : Set Nat} {m₁ : Mem} (hframe : Mem.Frame S m m₁)
    (h : readDisk .bios stack d m buf sect = .ok m') :
    ∃ m₂, readDisk .bios stack d m₁ buf sect = .ok m₂ ∧ Mem.Frame S m' m₂ := by
  -- above 1 MiB the sector is stored twice, and in both memories alike
  by_cases hle : 0x100000 ≤ buf
  · have hoff : stack.Off buf.toNat sectSize := stack.off_high (UInt32.le_iff_toNat_le.mp hle) _
    have hscratch : stack.Off (0x1000 : UInt32).toNat sectSize := stack.off_scratch
    obtain ⟨m₂, h₂⟩ := (@storeSector_returns_iff stack m₁ 0x1000 (d.sector sect)).mpr hscratch
    obtain ⟨m₃, h₃⟩ := (@storeSector_returns_iff stack m₂ buf (m₂.read 0x1000 sectSize)).mpr hoff
    have hok : readDisk .bios stack d m₁ buf sect = .ok m₃ := by
      rw [readDisk_bios_high hle]
      exact Run.bind_eq_ok.mpr ⟨m₂, h₂, h₃⟩
    refine ⟨m₃, hok, ?_⟩
    rw [readDisk_bios_high_ok hle h, readDisk_bios_high_ok hle hok]
    exact (hframe.write _ _).write _ _
  · -- below 1 MiB it is stored once
    rw [readDisk_bios_below hle] at h ⊢
    have hoff := storeSector_returns_iff.mp ⟨m', h⟩
    refine ⟨m₁.write (16 * (buf / 16)).toNat (d.sector sect), if_pos hoff, ?_⟩
    rw [storeSector_ok h]
    exact hframe.write _ _

/-- A memory as the loader has it, for one as `readDisk` leaves it: the variables of
    `bios_read_disk` may differ, but `ksector_high` is zero. -/
structure Loader.Same (loader : Loader) (m m₁ : Mem) : Prop where
  frame : Mem.Frame loader.vars m m₁
  high : getField m₁ loader.packet Packet.ksectorHigh = 0

namespace Bios

variable {bios : Bios d} {loader : Loader} {m₁ : Mem}

/-- Below 1 MiB it is a call of `bios_read_disk`. -/
theorem readDiskOn_low (bios : Bios d) (h : buf.toNat < 0x100000) :
    bios.readDiskOn loader stack m buf sect = bios.readSectorOn loader stack sect buf m := by
  have hlow : ¬ 0x100000 ≤ buf := fun hle =>
    absurd (UInt32.le_iff_toNat_le.mp hle) (Nat.not_le.mpr h)
  simp only [readDiskOn, readSectorOn, if_neg hlow, bios.readDisk_low h, ne_eq, not_true_eq_false,
    false_implies, and_true]

/-- A loader that reads with the BIOS goes where `readDisk` goes, and the memories stay the
    same. -/
theorem readDiskOn_of_bios (hquiet : bios.Quiet) (hlow : loader.stop ≤ buf.toNat)
    (hbuf : buf.toNat + 512 ≤ 2 ^ 32) (hplace : buf.toNat % 16 = 0 ∨ 0x100000 ≤ buf.toNat)
    (hsame : loader.Same m m₁) (h : Boot.readDisk .bios stack d m buf sect = .ok m') :
    ∃ m₂, bios.readDiskOn loader stack m₁ buf sect = .ok m₂ ∧ loader.Same m' m₂ := by
  obtain ⟨m₂, hok, hframe⟩ := readDisk_bios_frame hsame.frame h
  refine ⟨bios.readDisk loader buf sect m₁, ?_,
    hframe.trans (readDisk_of_bios hquiet loader hbuf hsame.high hok),
    hquiet.readDisk_keeps hlow hbuf hplace hsame.high⟩
  by_cases hle : 0x100000 ≤ buf
  · -- neither the scratch buffer nor the place is on the stack
    have hoff : stack.Off buf.toNat sectSize := stack.off_high (UInt32.le_iff_toNat_le.mp hle) _
    have htarget : target loader sect 0x1000 m₁ = 0x1000 := loader.fill_buffer sect (by decide)
    simp only [readDiskOn, if_pos hle, htarget]
    exact if_pos ⟨stack.off_scratch, fun _ => hoff⟩
  · have hbelow : buf.toNat < 0x100000 := Nat.not_le.mp fun h => hle (UInt32.le_iff_toNat_le.mpr h)
    have htarget : target loader sect buf m₁ = 16 * (buf.toNat / 16) := loader.fill_buffer sect hbelow
    rw [readDisk_bios_below hle] at hok
    have hoff := storeSector_returns_iff.mp ⟨m₂, hok⟩
    rw [toNat_segment] at hoff
    rw [bios.readDiskOn_low hbelow, readSectorOn, htarget, if_pos hoff, bios.readDisk_low hbelow]

/-- Consecutive sectors, one pass after another. -/
theorem readSectorsBy_of_bios (hquiet : bios.Quiet) {n : Nat} (hlow : loader.stop ≤ buf.toNat)
    (hbuf : buf.toNat + 512 * n ≤ 2 ^ 32) (halign : buf.toNat % 16 = 0) (hsame : loader.Same m m₁)
    (h : readSectors .bios stack d m buf sect n = .ok m') :
    ∃ m₂, readSectorsBy (bios.readDiskOn loader stack) m₁ buf sect n = .ok m₂ ∧
      loader.Same m' m₂ := by
  refine Loop.forLoop_simulates loader.Same (fun i s s' x hi hR hok => ?_) hsame h
  have haddr := toNat_add_sectors (show buf.toNat + 512 * i < 2 ^ 32 by omega)
  exact readDiskOn_of_bios hquiet (by omega) (by omega) (.inl (by omega)) hR hok

end Bios

end Loaders

end Tlibc.Boot
