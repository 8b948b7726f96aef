import Tlibc.Spec.ReadDisk
import Tlibc.Spec.BootImage

/-!
# The loader that reads with the BIOS

The loader of `biosboot.S` is the one of `bzimage.c`, compiled with `__BIOS__`. Every read of it
stores into `bios.S`, which is part of the loader; what it loads is the same.

* `elfMain_of_bios`: `__elf_main` on the BIOS follows the one on `readDisk`
* `start_ok`: a loader with its first sector in memory loads itself and the kernel, and changes
  nothing of itself but those variables
-/

namespace Tlibc.Boot

variable {d : Disk} {stack : Stack}

/-! ## The kernel -/

section Kernel

variable {m m₁ m' : Mem} {linked : Loader}

/-- The setup code is not where the loader is. -/
private theorem Loader.Same.holds {n : Nat} (hstop : linked.stop ≤ 0x2000) (h : linked.Same m m₁)
    (hold : BzImage.Holds d n m) : BzImage.Holds d n m₁ := by
  intro j hj
  have hfits := linked.fits
  rw [h.frame.apply, hold j hj]
  rintro ⟨-, hlt⟩
  omega

/-- What is stored between reading `loadflags` and the end. -/
private def flagged (flags : Nat) (m : Mem) : Mem :=
  let m := setField m 0x2000 BzImage.loadflags (flags ||| 0x80)
  let m := m.write 0x12000 (BzImage.linuxCmdLine ++ [0])
  let m := setField m 0x2000 BzImage.cmdLinePtr 0x12000
  m.write 0xa000 BzImage.code16

/-- The last stores are the same on both: `loadflags` is the one member that is read. -/
private theorem prepare_frame_vars (hstop : linked.stop ≤ 0x2000)
    (h : Mem.Frame linked.vars m m₁) :
    Mem.Frame linked.vars (BzImage.prepare m) (BzImage.prepare m₁) := by
  have hfits := linked.fits
  -- what is stored before the flags are read
  let told (m : Mem) : Mem := setField (setField m 0x2000 BzImage.typeOfLoader 0xff) 0x2000
    BzImage.heapEndPtr (BzImage.heapEnd - 0x200)
  have hprepare : ∀ m, BzImage.prepare m =
      flagged (getField (told m) 0x2000 BzImage.loadflags) (told m) :=
    fun _ => rfl
  have htold : Mem.Frame linked.vars (told m) (told m₁) := (h.write _ _).write _ _
  -- the flags are read from the header, above the variables
  have hflags : getField (told m₁) 0x2000 BzImage.loadflags =
      getField (told m) 0x2000 BzImage.loadflags := by
    apply htold.load
    rintro i - ⟨-, hlt⟩
    have hlt : 0x2000 + 0x211 + i < linked.packet + 18 := hlt
    omega
  -- the rest is stored at the same addresses
  rw [hprepare, hprepare, hflags]
  exact (((htold.write _ _).write _ _).write _ _).write _ _

/-- With a header that passes, each of the three loops follows the one on `readDisk`. -/
theorem BzImage.elfMain_of_bios {bios : Bios d} (hquiet : bios.Quiet) (hstop : linked.stop ≤ 0x2000)
    (hd : HeaderOk d) (hP : kernelSize d < 2 ^ 28) (hsame : linked.Same m m₁)
    (h : elfMain .bios stack d m = .ok m') :
    ∃ m₂, elfMainBy (bios.readDiskOn linked stack) m₁ = .ok m₂ ∧ Mem.Frame linked.vars m' m₂ := by
  have hle := count_le d
  have hrest : (loadStart + 1024).toNat = 0x2400 := rfl
  have hhigh : loadAddr.toNat = 0x100000 := rfl
  rw [elfMain_eq hd hP] at h
  obtain ⟨n₁, h₁, h⟩ := Run.bind_eq_ok.mp h
  obtain ⟨n₂, h₂, h⟩ := Run.bind_eq_ok.mp h
  obtain ⟨n₃, h₃, h⟩ := Run.bind_eq_ok.mp h
  obtain rfl := Except.ok.inj h
  obtain ⟨k₁, hk₁, hsame₁⟩ :=
    Bios.readSectorsBy_of_bios hquiet hstop (by decide) (by decide) hsame h₁
  obtain ⟨k₂, hk₂, hsame₂⟩ :=
    Bios.readSectorsBy_of_bios hquiet (by rw [hrest]; omega) (by rw [hrest]; omega) (by decide)
      hsame₁ h₂
  obtain ⟨k₃, hk₃, hsame₃⟩ :=
    Bios.readSectorsBy_of_bios hquiet (by rw [hhigh]; omega) (by rw [hhigh]; omega) (by decide)
      hsame₂ h₃
  refine ⟨prepare k₃, ?_, prepare_frame_vars hstop hsame₃.frame⟩
  -- the header is read from memory as it is on the disk
  have htwo := hsame₁.holds hstop (holds_two h₁)
  have hall := hsame₂.holds hstop ((holds_two h₁).append rfl (by omega) h₂)
  rw [elfMainBy_eq hd hP]
  · exact Run.bind_eq_ok.mpr ⟨k₁, hk₁, Run.bind_eq_ok.mpr ⟨k₂, hk₂, Run.bind_eq_ok.mpr ⟨k₃, hk₃, rfl⟩⟩⟩
  · intro k hk
    obtain rfl := Except.ok.inj (hk₁.symm.trans hk)
    exact htwo
  · intro k l hk hl
    obtain rfl := Except.ok.inj (hk₁.symm.trans hk)
    obtain rfl := Except.ok.inj (hk₂.symm.trans hl)
    exact hall

end Kernel

/-! ## The whole loader -/

namespace Biosboot

/-- The loader as it is linked: code for 0x1200. `biosboot.S` and `bios.S` come first, so the
    variables of `bios_read_disk` are in the sector that is in memory before the others, and
    `bzsetup.S` is behind them. -/
structure File (packet : Nat) (a : BzSetup.Addresses) (loader : List UInt8) : Prop where
  begins : 0x1200 < packet
  first : packet + 22 ≤ 0x1400
  ksectorHigh : PartAt loader 0x1200 (packet + 18) (Mem.leBytes 4 0)
  setup : BzSetup.File a loader
  table : packet + 22 ≤ a.table
  descriptors : packet + 22 ≤ a.descriptors

variable {packet : Nat} {a : BzSetup.Addresses} {loader kernel : List UInt8}

/-- Its variables. -/
def File.linked (h : File packet a loader) : Loader where
  packet := packet
  stop := 0x1400
  begins := h.begins
  fits := h.first
  short := by decide

/-- The loader is in memory, but for the variables of `bios_read_disk`. -/
def Held (linked : Loader) (loader : List UInt8) (m : Mem) : Prop :=
  ∀ j, j < loader.length → 0x1200 + j ∉ linked.vars → m (0x1200 + j) = loader.getD j 0

/-- `ksector_high` is zero, as it is linked. -/
private theorem File.high (h : File packet a loader) {m : Mem}
    (hfirst : m.read 0x1200 512 = d.sector 531)
    (hloader : ∀ j, j < loader.length → d.file 531 j = loader.getD j 0) :
    getField m h.linked.packet Packet.ksectorHigh = 0 := by
  have hbegins := h.begins
  have hend := h.first
  have hbelow := h.ksectorHigh.below
  have hlen : (Mem.leBytes 4 0).length = 4 := rfl
  -- it is in the first sector
  have hread := h.ksectorHigh.read_of_bytes (m := m) fun i hi => by
    rw [hlen] at hi
    have hjlt : packet + 18 - 0x1200 + i < 512 := by omega
    have haddr : packet + 18 + i = 0x1200 + (packet + 18 - 0x1200 + i) := by omega
    have hsector := file_sector d 531 (i := 0) hjlt
    rw [Nat.mul_zero, Nat.zero_add] at hsector
    rw [haddr, ← getD_read m 0x1200 hjlt, hfirst, ← hloader _ (by omega), hsector]
    rfl
  show Mem.leNat (m.read (packet + 18) 4) = 0
  rw [hlen] at hread
  rw [hread]
  rfl

/-- The tables of `bzsetup.S` are behind the variables. -/
theorem File.held (h : File packet a loader) {m : Mem} (hm : Held h.linked loader m) :
    BzSetup.Held a m := by
  have hbegins := h.begins
  have hkept : ∀ {addr : Nat} {part : List UInt8}, packet + 22 ≤ addr →
      PartAt loader 0x1200 addr part → m.read addr part.length = part := by
    intro addr part hbehind hpart
    have hbelow := hpart.below
    refine hpart.read_of_bytes fun i hi => ?_
    have haddr : addr + i = 0x1200 + (addr - 0x1200 + i) := by omega
    rw [haddr]
    apply hm _ (by omega)
    rintro ⟨-, hlt⟩
    have hlt : 0x1200 + (addr - 0x1200 + i) < packet + 18 := hlt
    omega
  exact ⟨hkept h.table h.setup.table, hkept h.descriptors h.setup.descriptors⟩

/-- The two sectors that `biosboot.S` reads are read as in a loop. -/
private theorem start_eq (bios : Bios d) (linked : Loader) (stack : Stack) (m : Mem) :
    start bios linked stack m = readSectorsBy (bios.readDiskOn linked stack) m 0x1400 532 2 >>=
      BzImage.elfMainBy (bios.readDiskOn linked stack) := by
  have hone : (0x1400 : UInt32) + 512 * UInt32.ofNat 0 = 0x1400 := by decide
  have htwo : (0x1400 : UInt32) + 512 * UInt32.ofNat 1 = 0x1600 := by decide
  have hsect : (532 : UInt32) + UInt32.ofNat 0 = 532 := by decide
  have hnext : (532 : UInt32) + UInt32.ofNat 1 = 533 := by decide
  rw [readSectorsBy, Loop.forLoop, Loop.forLoop, Loop.forLoop, Run.ok_bind, bind_assoc, hone, htwo,
    hsect, hnext, start, bios.readDiskOn_low (by decide)]
  refine Run.bind_congr fun n _ => ?_
  rw [bios.readDiskOn_low (by decide)]

/-- A loader of up to three sectors with the first one in memory loads the others and the
    kernel. -/
theorem start_ok (h : File packet a loader) (hk : BzImage.Bootable stack kernel)
    (hlen : loader.length ≤ 1536) (hloader : ∀ j, j < loader.length → d.file 531 j = loader.getD j 0)
    (hkernel : ∀ j, j < kernel.length → d.file 539 j = kernel.getD j 0) {bios : Bios d}
    (hquiet : bios.Quiet) {m : Mem} (hfirst : m.read 0x1200 512 = d.sector 531) :
    ∃ m', start bios h.linked stack m = .ok m' ∧ Held h.linked loader m' ∧
      BzImage.Loaded (BzImage.kernelDisk kernel) m' ∧ BzImage.Told (BzImage.kernelDisk kernel) m' ∧
      m'.read 0xa000 19 = BzImage.code16 := by
  have hend := h.first
  have hstop : h.linked.stop ≤ 0x2000 := by
    show 0x1400 ≤ 0x2000
    decide
  have hsame : h.linked.Same m m := ⟨Mem.Frame.refl _ _, h.high hfirst hloader⟩
  obtain ⟨n, hok, hread, hloaded, htold, hcode⟩ :=
    @loader_ok stack d .bios loader kernel hk 2 (by decide) hlen hloader hkernel m hfirst
  obtain ⟨n₁, h₁, h₂⟩ := Run.bind_eq_ok.mp hok
  -- the loader's own sectors, and then the kernel's
  obtain ⟨k₁, hk₁, hsame₁⟩ :=
    Bios.readSectorsBy_of_bios hquiet (Nat.le_refl 0x1400) (by decide) (by decide) hsame h₁
  have hP : BzImage.kernelSize d < 2 ^ 28 := by
    rw [hk.kernelSize_eq hkernel]
    exact hk.small
  obtain ⟨m', hm', hframe⟩ :=
    BzImage.elfMain_of_bios hquiet hstop (hk.headerOk hkernel) hP hsame₁ h₂
  have hkept : ∀ b, packet + 18 ≤ b → m' b = n b := by
    intro b hb
    apply hframe.apply
    rintro ⟨-, hlt⟩
    have hlt : b < packet + 18 := hlt
    omega
  refine ⟨m', ?_, fun j hj hout => ?_, hloaded.congr hk fun b hb _ _ => hkept b (by omega),
    htold.congr hk fun b hb _ _ => hkept b (by omega),
    (Mem.read_congr fun i _ => hkept _ (by omega)).trans hcode⟩
  · rw [start_eq]
    exact Run.bind_eq_ok.mpr ⟨k₁, hk₁, hm'⟩
  · have hbyte := getD_read n 0x1200 hj
    rw [hread] at hbyte
    rw [hframe.apply hout, ← hbyte]

end Biosboot

end Tlibc.Boot
