import Tlibc.Spec.DiskImage
import Tlibc.Spec.Startup

/-!
# Booting the image

The sectors that `mbr.c`, `bzimage.S` and `bzimage.c` read are written into the code. They
are those where `mkgpt` puts the loader and the kernel.

* `loader_ok`: a loader with its first sector in memory loads itself and the kernel
* `mkgpt_boots`: an image with a loader of two sectors and a kernel that can be loaded gets to
  the kernel's setup code
-/

namespace Tlibc.Boot

open Fat

/-! ## A file on a disk -/

/-- The disk with the given contents, and zeros behind them. -/
def Disk.ofBytes (bytes : List UInt8) : Disk where
  sector s := Mem.read (fun i => bytes.getD i 0) (512 * s.toNat) sectSize
  length_sector _ := Mem.length_read _ _ _

/-- The bytes of a range, one by one. -/
theorem getD_read (m : Mem) (off : Nat) {n i : Nat} (h : i < n) :
    (m.read off n).getD i 0 = m (off + i) := by
  have hlen : i < (m.read off n).length := by rwa [Mem.length_read]
  rw [List.getD_eq_getElem _ _ hlen, Mem.getElem_read]

/-- A sector of a file that is a disk. -/
private theorem sector_ofBytes (bytes : List UInt8) (s : UInt32) :
    (Disk.ofBytes bytes).sector s = Mem.read (fun i => bytes.getD i 0) (512 * s.toNat) sectSize := by
  simp only [Disk.ofBytes]

/-- A file on it. -/
private theorem file_ofBytes (bytes : List UInt8) {start : UInt32} {j : Nat}
    (h : start.toNat + j / 512 < 2 ^ 32) :
    (Disk.ofBytes bytes).file start j = bytes.getD (512 * start.toNat + j) 0 := by
  have hr : j % sectSize < sectSize := Nat.mod_lt _ (by decide)
  have hsector : (start + UInt32.ofNat (j / sectSize)).toNat = start.toNat + j / 512 := by
    have hdiv : (UInt32.ofNat (j / sectSize)).toNat = j / 512 :=
      UInt32.toNat_ofNat_of_lt' (show j / 512 < 2 ^ 32 by omega)
    rw [UInt32.toNat_add, hdiv, Nat.mod_eq_of_lt h]
  have hj : 512 * (start.toNat + j / 512) + j % sectSize = 512 * start.toNat + j := by
    rw [show sectSize = 512 from rfl]
    omega
  rw [Disk.file, sector_ofBytes, hsector, getD_read _ _ hr, hj]

namespace BzImage

variable {d d' : Disk} {stack : Stack} {m m' : Mem}

/-- The disk that has only a kernel on it. -/
def kernelDisk (kernel : List UInt8) : Disk := Disk.ofFile sector fun j => kernel.getD j 0

/-- A kernel that `bzimage.c` can load: a bzImage that is complete, with room for its setup
    code below the stack, and of whole sectors. -/
structure Bootable (stack : Stack) (kernel : List UInt8) : Prop where
  header : HeaderOk (kernelDisk kernel)
  notWrapped : headerField (kernelDisk kernel) setupSects ≠ 255
  fits : 512 * setupSize (kernelDisk kernel) + stack.size ≤ 0x8000
  whole : headerField (kernelDisk kernel) syssize % 32 = 0
  small : kernelSize (kernelDisk kernel) < 2 ^ 28
  complete : 512 * setupSize (kernelDisk kernel) + kernelSize (kernelDisk kernel) ≤ kernel.length

/-- The header is in the first two sectors of the kernel. -/
private theorem headerField_congr (h : ∀ j, j < 1024 → image d' j = image d j) {f : Field}
    (hf : f.off + f.width.bytes ≤ 1024) : headerField d' f = headerField d f := by
  apply Mem.load_congr
  intro i hi
  apply h
  omega

/-- The loader takes a kernel on a disk for the kernel alone. -/
private theorem kernelDisk_congr {kernel : List UInt8} (hlen : 1024 ≤ kernel.length)
    (hfile : ∀ j, j < kernel.length → image d j = kernel.getD j 0) {f : Field}
    (hf : f.off + f.width.bytes ≤ 1024) : headerField d f = headerField (kernelDisk kernel) f := by
  apply headerField_congr ?_ hf
  intro j hj
  rw [hfile j (by omega), image, kernelDisk, file_ofFile (by omega)]

section

variable {kernel : List UInt8} (h : Bootable stack kernel)
  (hfile : ∀ j, j < kernel.length → image d j = kernel.getD j 0)

include h

/-- A kernel has two sectors at least. -/
private theorem Bootable.length_ge : 1024 ≤ kernel.length := by
  have htwo := two_le_setupSize (kernelDisk kernel)
  have hcomplete := h.complete
  omega

include hfile

/-- The header on the disk is the one of the kernel. -/
private theorem Bootable.field (f : Field) (hf : f.off + f.width.bytes ≤ 1024) :
    headerField d f = headerField (kernelDisk kernel) f := kernelDisk_congr h.length_ge hfile hf

/-- A bootable kernel on a disk passes the loader's checks. -/
theorem Bootable.headerOk : HeaderOk d := by
  refine ⟨?_, ?_, ?_, ?_⟩
  · rw [h.field hfile bootFlag (by decide)]
    exact h.header.bootFlag
  · rw [h.field hfile BzImage.header (by decide)]
    exact h.header.header
  · rw [h.field hfile loadflags (by decide)]
    exact h.header.loadedHigh
  · rw [h.field hfile version (by decide)]
    exact h.header.version

/-- So is the size of the setup code. -/
private theorem Bootable.setupSize_eq : setupSize d = setupSize (kernelDisk kernel) := by
  rw [setupSize, setupSize, h.field hfile setupSects (by decide)]

/-- So is the size of what is behind it. -/
theorem Bootable.kernelSize_eq : kernelSize d = kernelSize (kernelDisk kernel) := by
  rw [kernelSize, kernelSize, h.field hfile syssize (by decide)]

end

/-- What the kernel is told: the fields of its header that the loader sets, and the command
    line. -/
structure Told (d : Disk) (m : Mem) : Prop where
  loader : getField m 0x2000 typeOfLoader = 0xff
  heap : getField m 0x2000 heapEndPtr = 0xfe00
  flags : getField m 0x2000 loadflags = headerField d loadflags ||| 0x80
  linePtr : getField m 0x2000 cmdLinePtr = 0x12000
  line : m.read 0x12000 (linuxCmdLine.length + 1) = linuxCmdLine ++ [0]

/-- The setup code that is put at the start of the heap. -/
private theorem read_code16 (m : Mem) :
    (prepare m).read 0xa000 19 = code16 := Mem.read_write_self _ 0xa000 code16

/-- `prepare` tells the kernel what it needs to know. -/
private theorem prepare_told {d : Disk} {n : Nat} (h : Holds d n m) (hn : 2 ≤ n) :
    Told d (prepare m) := by
  -- the stores one after another
  let m₁ := setField m 0x2000 typeOfLoader 0xff
  let m₂ := setField m₁ 0x2000 heapEndPtr (heapEnd - 0x200)
  let m₃ := setField m₂ 0x2000 loadflags (getField m₂ 0x2000 loadflags ||| 0x80)
  let m₄ := m₃.write 0x12000 (linuxCmdLine ++ [0])
  let m₅ := setField m₄ 0x2000 cmdLinePtr 0x12000
  have hm : prepare m = m₅.write 0xa000 code16 := rfl
  have hlen : (linuxCmdLine ++ [0]).length = 73 := by decide
  -- the last ones are apart from the header
  have hcode : ∀ f : Field, f.off + f.width.bytes ≤ 0x8000 →
      getField (prepare m) 0x2000 f = getField m₅ 0x2000 f := by
    intro f hf
    rw [hm]
    exact Mem.load_write_ne (.inl (by omega))
  have hline : ∀ f : Field, f.off + f.width.bytes ≤ 0x8000 →
      getField m₄ 0x2000 f = getField m₃ 0x2000 f := fun f hf => Mem.load_write_ne (.inl (by omega))
  have hflags : getField m₂ 0x2000 loadflags = headerField d loadflags := by
    rw [getField_setField_ne (by decide), getField_setField_ne (by decide)]
    exact h.getField hn loadflags (by decide)
  refine ⟨?_, ?_, ?_, ?_, ?_⟩
  · rw [hcode _ (by decide), getField_setField_ne (by decide), hline _ (by decide),
      getField_setField_ne (by decide), getField_setField_ne (by decide)]
    exact getField_setField_self _ _ (by decide)
  · rw [hcode _ (by decide), getField_setField_ne (by decide), hline _ (by decide),
      getField_setField_ne (by decide)]
    exact getField_setField_self _ _ (by decide)
  · have hlt : headerField d loadflags ||| 0x80 < 256 :=
      Nat.or_lt_two_pow (n := 8) (Mem.load_lt _ _ 1) (by decide)
    rw [hcode _ (by decide), getField_setField_ne (by decide), hline _ (by decide), ← hflags]
    exact getField_setField_self _ _ (hflags ▸ hlt)
  · rw [hcode _ (by decide)]
    exact getField_setField_self _ _ (by decide)
  · -- nothing behind the command line hits it
    have hcode : (m₅.write 0xa000 code16).read 0x12000 (linuxCmdLine.length + 1) =
        m₅.read 0x12000 (linuxCmdLine.length + 1) := (Mem.frame_write _ _ _).read fun i _ => by
      rintro ⟨-, hlt⟩
      have hlt : 0x12000 + i < 0xa013 := hlt
      omega
    have hptr : m₅.read 0x12000 (linuxCmdLine.length + 1) =
        m₄.read 0x12000 (linuxCmdLine.length + 1) := (frame_setField _ _ _).read fun i _ => by
      rintro ⟨-, hlt⟩
      have hlt : 0x12000 + i < 0x222c := hlt
      omega
    rw [hm, hcode, hptr]
    exact Mem.read_write_self m₃ 0x12000 (linuxCmdLine ++ [0])

/-- The kernel is in memory, and nothing between the loader and it was touched. -/
private theorem elfMain_boots {kernel : List UInt8} (h : Bootable stack kernel)
    (hfile : ∀ j, j < kernel.length → image d j = kernel.getD j 0) (access : DiskAccess) (m : Mem) :
    ∃ m', elfMain access stack d m = .ok m' ∧ Loaded (kernelDisk kernel) m' ∧
      Told (kernelDisk kernel) m' ∧ m'.read 0xa000 19 = code16 ∧
      ∀ a, 0x1200 ≤ a → a < 0x2000 → m' a = m a := by
  have hd := h.headerOk hfile
  have hsize := h.setupSize_eq hfile
  have hkernel := h.kernelSize_eq hfile
  have hcomplete := h.complete
  -- what was checked of the kernel's file is true of the disk it was copied to
  have hP : kernelSize d < 2 ^ 28 := by
    rw [hkernel]
    exact h.small
  have hwrap : headerField d setupSects ≠ 255 := by
    rw [h.field hfile setupSects (by decide)]
    exact h.notWrapped
  have hwhole : headerField d syssize % 32 = 0 := by
    rw [h.field hfile syssize (by decide)]
    exact h.whole
  -- the count of the loader is the size of the setup code, as it does not wrap
  have htwo := two_le_setupSize d
  have hcount : count d = setupSize d := by rw [count_eq, if_neg hwrap]
  have hoff : SetupOff stack d := by
    rw [setupOff_iff, hcount, Nat.sub_add_cancel htwo, hsize]
    exact h.fits
  obtain ⟨m', hok⟩ := elfMain_returns hd hP hoff m
  -- then the loader returns, and the claimed parts are where they belong
  have hloaded := loaded_of_ok hd hP hwrap hwhole hok
  obtain ⟨-, m₃, hloads, rfl⟩ := elfMain_ok hd hP hok
  -- up to the end of the kernel, the disk and the file agree
  have himage : ∀ j, j < 512 * setupSize (kernelDisk kernel) + kernelSize (kernelDisk kernel) →
      image (kernelDisk kernel) j = image d j := by
    intro j hj
    have hfits := h.fits
    rw [hfile j (by omega), image, kernelDisk, file_ofFile (by omega)]
  -- the setup code, the kernel, what the kernel is told, the code of the mode switch, and the
  -- loader
  refine ⟨_, hok, ⟨fun j hj hset => ?_, fun j hj => ?_⟩, ?_, read_code16 m₃, fun a hlo hhi => ?_⟩
  · rw [hloaded.setup j (by omega) hset, himage j (by omega)]
  · rw [hloaded.kernel j (by omega), himage _ (by omega), hsize]
  · have htold := prepare_told hloads.setup (Nat.le_add_left 2 _)
    have hflags := h.field hfile loadflags (by decide)
    exact ⟨htold.loader, htold.heap, hflags ▸ htold.flags, htold.linePtr, htold.line⟩
  · rw [(prepare_frame m₃).apply, hloads.frame.apply]
    · rintro ((⟨hge, -⟩ | ⟨hge, -⟩) | ⟨-, hlt⟩) <;> omega
    · rintro (⟨j, -, heq⟩ | ⟨hge, -⟩ | ⟨hge, -⟩) <;> omega

end BzImage

/-! ## The loaders -/

variable {stack : Stack} {d : Disk}

/-- The loader reads its other sectors behind the first one. -/
private theorem rest_ok {access : DiskAccess} {m : Mem} (hfirst : m.read 0x1200 512 = d.sector 531)
    {n : Nat}
    (hn : n ≤ 2) :
    ∃ m', readSectors access stack d m 0x1400 532 n = .ok m' ∧
      ∀ j, j < 512 * (n + 1) → m' (0x1200 + j) = d.file 531 j := by
  have hfits := stack.fits
  rw [stackTop] at hfits
  -- the sectors behind the first one are read behind it
  have hbuf : (0x1400 : UInt32).toNat = 0x1400 := rfl
  obtain ⟨m', hok⟩ := (@readSectors_returns_iff access stack d m 0x1400 532 n (by decide)
    (by rw [hbuf]; omega)).mpr fun i hi => .inl (by rw [hbuf, stackTop, sectSize]; omega)
  obtain ⟨hrest, hframe⟩ := readSectors_ok (by decide) (by decide) (by rw [hbuf]; omega) hok
  refine ⟨m', hok, fun j hj => ?_⟩
  by_cases hsec : j < 512
  · -- in the sector that was there
    have hfile := file_sector d 531 (i := 0) hsec
    rw [Nat.mul_zero, Nat.zero_add] at hfile
    have hbyte : m (0x1200 + j) = (d.sector 531).getD j 0 := by
      rw [← hfirst, getD_read _ _ hsec]
    rw [hfile, hframe.apply]
    · exact hbyte
    · rintro (⟨hge, -⟩ | ⟨-, hlt⟩)
      · rw [hbuf] at hge
        omega
      · omega
  · -- in one behind it
    obtain ⟨r, rfl⟩ := Nat.exists_eq_add_of_le (Nat.not_lt.mp hsec)
    have hbyte := hrest r (by omega)
    have hfile : d.file 532 r = d.file 531 (512 + r) := by
      have hdiv : (512 + r) / sectSize = 1 + r / sectSize := by rw [sectSize]; omega
      have hmod : (512 + r) % sectSize = r % sectSize := by rw [sectSize]; omega
      have hone : (531 : UInt32) + UInt32.ofNat 1 = 532 := by decide
      rw [Disk.file, Disk.file, hdiv, hmod, UInt32.ofNat_add, ← UInt32.add_assoc, hone]
    rw [← hfile, ← hbyte, hbuf, ← Nat.add_assoc]

/-- A loader with its first sector in memory loads the rest of itself and the kernel. -/
theorem loader_ok {access : DiskAccess} {loader kernel : List UInt8}
    (hk : BzImage.Bootable stack kernel) {n : Nat} (hn : n ≤ 2) (hlen : loader.length ≤ 512 * (n + 1))
    (hloader : ∀ j, j < loader.length → d.file 531 j = loader.getD j 0)
    (hkernel : ∀ j, j < kernel.length → d.file 539 j = kernel.getD j 0) {m : Mem}
    (hfirst : m.read 0x1200 512 = d.sector 531) :
    ∃ m', (readSectors access stack d m 0x1400 532 n >>= BzImage.elfMain access stack d) = .ok m' ∧
      m'.read 0x1200 loader.length = loader ∧
      BzImage.Loaded (BzImage.kernelDisk kernel) m' ∧ BzImage.Told (BzImage.kernelDisk kernel) m' ∧
      m'.read 0xa000 19 = BzImage.code16 := by
  obtain ⟨m₁, hok₁, hheld⟩ := @rest_ok stack d access m hfirst n hn
  obtain ⟨m₂, hok₂, hloaded, htold, hcode, hkept⟩ := BzImage.elfMain_boots hk hkernel access m₁
  refine ⟨m₂, Run.bind_eq_ok.mpr ⟨m₁, hok₁, hok₂⟩, ?_, hloaded, htold, hcode⟩
  apply List.ext_getElem (Mem.length_read _ _ _)
  intro j hj hj'
  rw [Mem.getElem_read, ← List.getD_eq_getElem _ 0 hj', ← hloader j hj',
    hkept _ (by omega) (by omega), hheld j (by omega)]

/-- The boot code reads the first sector of the loader, and the loader its second one and the
    kernel. -/
private theorem loaders_ok {loader kernel : List UInt8} (hk : BzImage.Bootable stack kernel)
    (hlen : loader.length ≤ 1024) (hloader : ∀ j, j < loader.length → d.file 531 j = loader.getD j 0)
    (hkernel : ∀ j, j < kernel.length → d.file 539 j = kernel.getD j 0) (m : Mem) :
    ∃ m₁ m₂, elfStart stack d m = .ok m₁ ∧ m₁.read 0x1200 512 = d.sector 531 ∧
      BzImage.start stack d m₁ = .ok m₂ ∧ m₂.read 0x1200 loader.length = loader ∧
      BzImage.Loaded (BzImage.kernelDisk kernel) m₂ ∧ BzImage.Told (BzImage.kernelDisk kernel) m₂ ∧
      m₂.read 0xa000 19 = BzImage.code16 := by
  have hfits := stack.fits
  rw [stackTop] at hfits
  have hbuf : (0x1200 : UInt32).toNat = 0x1200 := rfl
  -- `elf_start` reads the first sector of the loader
  obtain ⟨m₁, hok₁⟩ := (@readDisk_returns_iff .ports stack d m 0x1200 (3 + 528) (by decide)).mpr
    (.inl (by rw [hbuf, stackTop, sectSize]; omega))
  have hread := (readDisk_ok (by decide) hok₁).1
  have hfirst : m₁.read 0x1200 512 = d.sector 531 := by
    apply List.ext_getElem
    · rw [Mem.length_read, d.length_sector]
      rfl
    · intro i hi hi'
      rw [Mem.length_read] at hi
      rw [Mem.getElem_read, ← List.getD_eq_getElem _ 0 hi']
      exact hread i hi
  -- which then reads its second one, and the kernel
  obtain ⟨m₂, hok₂, hrest⟩ := @loader_ok stack d .ports loader kernel hk 1 (by decide) hlen
    hloader hkernel m₁
    hfirst
  refine ⟨m₁, m₂, hok₁, hfirst, ?_, hrest⟩
  rw [← hok₂, readSectors, readSectorsBy, Loop.forLoop, Loop.forLoop, Run.ok_bind]
  rfl

/-! ## Code that is linked -/

/-- A file that is loaded at `origin` has the given bytes at an address. -/
structure PartAt (file : List UInt8) (origin addr : Nat) (part : List UInt8) : Prop where
  above : origin ≤ addr
  below : addr + part.length ≤ origin + file.length
  held : (file.drop (addr - origin)).take part.length = part

/-- A part of a file is where the file was read to. -/
theorem PartAt.read {file part : List UInt8} {origin addr : Nat} (h : PartAt file origin addr part)
    {m : Mem} (hfile : m.read origin file.length = file) : m.read addr part.length = part := by
  have habove := h.above
  have hbelow := h.below
  have hslice := Mem.take_drop_read m origin file.length (addr - origin) part.length (by omega)
  rw [hfile, h.held, Nat.add_sub_cancel' habove] at hslice
  exact hslice.symm

/-- So it has in a memory with the file's bytes at those addresses. -/
theorem PartAt.read_of_bytes {file part : List UInt8} {origin addr : Nat}
    (h : PartAt file origin addr part) {m : Mem}
    (hbytes : ∀ i, i < part.length → m (addr + i) = file.getD (addr - origin + i) 0) :
    m.read addr part.length = part := by
  have habove := h.above
  have hbelow := h.below
  apply List.ext_getElem (Mem.length_read _ _ _)
  intro i hi hi'
  have hin : addr - origin + i < file.length := by omega
  have hpart : part[i] = file[addr - origin + i] := by
    rw [List.getElem_of_eq h.held.symm hi', List.getElem_take, List.getElem_drop]
  rw [Mem.getElem_read, hbytes i hi', List.getD_eq_getElem _ _ hin, hpart]

/-- `mbr.S` and `mbr.c` as they are linked: code for 0x7C00. -/
structure Mbr.File (l : Mbr.Linked) (code : List UInt8) : Prop where
  gdt : PartAt code 0x7c00 l.gdt Mbr.gdt
  gdtdesc : PartAt code 0x7c00 (l.gdt + 24) (Mbr.gdtdesc l.gdt)
  start32 : l.start32 < 0x8000
  elfStart : l.elfStart < 0x8000

/-- Where `bzsetup.S` is linked. -/
structure BzSetup.Addresses where
  table : Nat
  descriptors : Nat
  next : Nat

/-- The loader as it is linked: code for 0x1200. -/
structure BzSetup.File (a : BzSetup.Addresses) (loader : List UInt8) : Prop where
  table : PartAt loader 0x1200 a.table (Boot.table BzSetup.descriptors a.descriptors)
  descriptors : PartAt loader 0x1200 a.descriptors BzSetup.descriptors
  next : a.next < 0x10000

/-- What `jump_to_setup` needs of the loader. -/
structure BzSetup.Held (a : BzSetup.Addresses) (m : Mem) : Prop where
  table : m.read a.table 6 = Boot.table BzSetup.descriptors a.descriptors
  descriptors : m.read a.descriptors 24 = BzSetup.descriptors

/-- A loader that was read to `0x1200` holds the code. -/
private theorem BzSetup.File.held {a : BzSetup.Addresses} {loader : List UInt8} {m : Mem}
    (h : BzSetup.File a loader) (hloader : m.read 0x1200 loader.length = loader) : BzSetup.Held a m :=
  ⟨h.table.read hloader, h.descriptors.read hloader⟩

/-! ## The kernel is entered -/

open X86

/-- The kernel's setup code is entered as the boot protocol asks for: in real mode at the
    second sector of the kernel, with all data segments at its first one, the stack at the
    end of the heap and interrupts disabled. -/
structure Entered (kernel : List UInt8) (c : Cpu) : Prop where
  pe : c.pe = false
  code : (c.seg .cs).selector = 0x220 ∧ (c.seg .cs).base = 0x2200 ∧ c.ip = 0
  data : ∀ r ∈ dataRegs, (c.seg r).selector = 0x200 ∧ (c.seg r).base = 0x2000
  stack : (c.regs .esp).toNat = 0xfffc
  interrupts : c.interrupts = false
  loaded : BzImage.Loaded (BzImage.kernelDisk kernel) c.mem
  told : BzImage.Told (BzImage.kernelDisk kernel) c.mem

/-- What the loader leaves is still there in memory that differs on the stack and in the
    four bytes that `jump_to_setup` pushes. -/
theorem BzImage.Loaded.congr {kernel : List UInt8} {m m' : Mem}
    (hk : BzImage.Bootable stack kernel) (h : BzImage.Loaded (BzImage.kernelDisk kernel) m)
    (hsame : ∀ a, 0x2000 ≤ a → a ∉ stack.area → a ∉ Set.Ico 0xfffc 0x10000 → m' a = m a) :
    BzImage.Loaded (BzImage.kernelDisk kernel) m' := by
  have hfits := hk.fits
  refine ⟨fun j hj hset => ?_, fun j hj => ?_⟩
  · -- the setup code ends below the stack, and below the address of the heap's end
    rw [hsame _ (Nat.le_add_right _ _), h.setup j hj hset]
    · rintro ⟨hge, -⟩
      rw [stackTop] at hge
      omega
    · rintro ⟨hge, -⟩
      omega
  · -- the kernel is above 1 MiB
    rw [hsame _ (Nat.le_trans (by decide) (Nat.le_add_right _ j)), h.kernel j hj]
    · rintro ⟨-, hlt⟩
      rw [stackTop] at hlt
      omega
    · rintro ⟨-, hlt⟩
      omega

/-- What the kernel was told stays as it is when memory changes below it and on the stack only. -/
theorem BzImage.Told.congr {kernel : List UInt8} {m m' : Mem} (hk : BzImage.Bootable stack kernel)
    (h : BzImage.Told (BzImage.kernelDisk kernel) m)
    (hsame : ∀ a, 0x2000 ≤ a → a ∉ stack.area → a ∉ Set.Ico 0xfffc 0x10000 → m' a = m a) :
    BzImage.Told (BzImage.kernelDisk kernel) m' := by
  have hfits := hk.fits
  have htwo := BzImage.two_le_setupSize (BzImage.kernelDisk kernel)
  -- the fields of the header are in the first two sectors
  have hfield : ∀ f : Field, f.off + f.width.bytes ≤ 0x400 →
      getField m' 0x2000 f = getField m 0x2000 f := by
    intro f hf
    refine Mem.load_congr fun i hi => hsame _ (by omega) ?_ ?_
    · rintro ⟨hge, -⟩
      rw [stackTop] at hge
      omega
    · rintro ⟨hge, -⟩
      omega
  -- the command line is above both
  have hline : m'.read 0x12000 (BzImage.linuxCmdLine.length + 1) =
      m.read 0x12000 (BzImage.linuxCmdLine.length + 1) := by
    refine Mem.read_congr fun i hi => hsame _ (by omega) ?_ ?_
    · rintro ⟨-, hlt⟩
      rw [stackTop] at hlt
      omega
    · rintro ⟨-, hlt⟩
      omega
  exact ⟨(hfield _ (by decide)).trans h.loader, (hfield _ (by decide)).trans h.heap,
    (hfield _ (by decide)).trans h.flags, (hfield _ (by decide)).trans h.linePtr,
    hline.trans h.line⟩

/-- From `jump_to_setup` to the kernel. -/
theorem setup_entered {loader kernel : List UInt8} {a : BzSetup.Addresses} {m : Mem} {c : Cpu}
    {back : Nat} (hk : BzImage.Bootable stack kernel) (ha : BzSetup.File a loader)
    (hlen : loader.length ≤ 1536) (hheld : BzSetup.Held a m)
    (hloaded : BzImage.Loaded (BzImage.kernelDisk kernel) m)
    (htold : BzImage.Told (BzImage.kernelDisk kernel) m) (hcode : m.read 0xa000 19 = BzImage.code16)
    (hc : Flat c) (hcalled : BzSetup.Called c back 0x2000 0x10000)
    (hsame : ∀ a, a ∉ stack.area → c.mem a = m a) :
    ∃ c₁ c₂, BzSetup.enter a.table a.next c = some c₁ ∧ c₁.steps 9 = some c₂ ∧ Entered kernel c₂ := by
  have hfits := stack.fits
  rw [stackTop] at hfits
  have htable := ha.table.below
  have hdescriptors := ha.descriptors.below
  have hlen₁ : (Boot.table BzSetup.descriptors a.descriptors).length = 6 := rfl
  have hlen₂ : BzSetup.descriptors.length = 24 := rfl
  -- the loader is not on the stack
  have hkept : ∀ b n, b + n ≤ 0x1200 + loader.length → c.mem.read b n = m.read b n := by
    intro b n hb
    refine Mem.read_congr fun i hi => hsame _ ?_
    rintro ⟨hge, -⟩
    rw [stackTop] at hge
    omega
  have hlinked : BzSetup.Linked c.mem a.table a.descriptors a.next 0x10000 := by
    refine ⟨(hkept _ _ (by omega)).trans hheld.table,
      (hkept _ _ (by omega)).trans hheld.descriptors, ?_, ?_, ha.next, by decide⟩
    · omega
    · omega
  obtain ⟨c₁, henter, hpe, hcs, hip, hdata, hesp, hint, hmem⟩ :=
    BzSetup.enter_real hc hcalled hlinked
  -- the push is apart from what is in memory
  have hpush := Mem.frame_write c.mem (0x10000 - 4) (Mem.leBytes 4 back)
  have hkept : ∀ a, 0x2000 ≤ a → a ∉ stack.area → a ∉ Set.Ico 0xfffc 0x10000 →
      c₁.mem a = m a := by
    intro a _ harea hpushed
    rw [hmem, hpush.apply hpushed, hsame a harea]
  have hcode₁ : c₁.mem.read 0xa000 19 = BzImage.code16 := by
    refine (Mem.read_congr fun i hi => hkept _ (by omega) ?_ ?_).trans hcode
    · rintro ⟨-, hlt⟩
      rw [stackTop] at hlt
      omega
    · rintro ⟨hge, -⟩
      omega
  obtain ⟨c₂, hsteps, hpe₂, hcs₂, hip₂, hdata₂, hesp₂, hint₂, hmem₂⟩ := code16_ok hpe hcs hip hcode₁
  refine ⟨c₁, c₂, henter, hsteps, hpe₂, ?_, fun r hr => ?_, ?_, hint₂.trans hint, ?_, ?_⟩
  · rw [hcs₂, hcs]
    exact ⟨rfl, rfl, hip₂⟩
  · rw [hdata₂ r hr]
    exact ⟨rfl, rfl⟩
  · rw [hesp₂, hesp]
  · rw [hmem₂]
    exact hloaded.congr hk hkept
  · rw [hmem₂]
    exact htold.congr hk hkept

/-! ## The image -/

section Image

variable {m : Mem} {buf : Nat} {files : Mkgpt.Sources} {image : Mkgpt.Image}

/-- The bytes of the file are those of the image. -/
private theorem getD_file {i : Nat} (hi : i < Mkgpt.diskSize) :
    (image.file buf).getD i 0 = image.mem (buf + i) := getD_read image.mem buf hi

/-- A file that was put on the image is on the disk. -/
private theorem file_onDisk {c : FileCall} {ret : Nat} {start : UInt32} (hne : ret ≠ 0)
    (hc : Delivered .little image.mem (buf + 512 * 3) c ret) (hstart : start.toNat = 3 + ret)
    (hfit : 512 * start.toNat + c.bytes.length ≤ Mkgpt.diskSize) {j : Nat} (hj : j < c.bytes.length) :
    (Disk.ofBytes (image.file buf)).file start j = c.bytes.getD j 0 := by
  have hsize : Mkgpt.diskSize = 2 ^ 28 := rfl
  have hbytes := hc.placed hne
  have hbyte := getD_read image.mem (buf + 512 * 3 + 512 * ret) hj
  rw [hbytes] at hbyte
  have haddr : buf + (512 * start.toNat + j) = buf + 512 * 3 + 512 * ret + j := by omega
  rw [file_ofBytes _ (by omega), getD_file (by omega), haddr, hbyte]

/-- The first sector begins with the boot code. -/
private theorem bootCode_read {code : List UInt8} (hcode : code <+: image.mem.read buf 440)
    {m : Mem}
    (hm : m.read 0x7c00 512 = (Disk.ofBytes (image.file buf)).sector 0) :
    m.read 0x7c00 code.length = code := by
  -- the code is in the part of the sector that `mkgpt` copies
  have hlen : code.length ≤ 440 := by
    have hlen := hcode.length_le
    rwa [Mem.length_read] at hlen
  have hsize : Mkgpt.diskSize = 2 ^ 28 := rfl
  -- the sector is the first one of the image
  have hsector : (Disk.ofBytes (image.file buf)).sector 0 = image.mem.read buf 512 := by
    rw [sector_ofBytes, UInt32.toNat_zero, Nat.mul_zero, sectSize]
    apply Mem.read_congr
    intro i hi
    rw [Nat.zero_add]
    exact getD_file (by omega)
  -- both are the same bytes, so their initial parts are
  have htake := congrArg (List.take code.length) (hm.trans hsector)
  rw [Mem.take_read _ _ _ _ (by omega), Mem.take_read _ _ _ _ (by omega)] at htake
  rw [htake, ← Mem.take_read image.mem buf 440 code.length hlen]
  exact (List.prefix_iff_eq_take.mp hcode).symm

end Image

/-- The image of `mkgpt` boots. The firmware has loaded its first sector to 0x7C00; then the
    boot code gets to `__elf_start` in protected mode, which loads the loader, which loads
    the kernel; and from any stack with the arguments of `jump_to_setup` the kernel's setup
    code is entered, with the kernel in memory. -/
theorem mkgpt_boots (m : Mem) (buf : Nat) (files : Mkgpt.Sources)
    (loader kernel busybox init : FileCall)
    (hcalls : [loader.toCall, kernel.toCall, busybox.toCall, init.toCall] = files.calls)
    (hread : ∀ c ∈ [loader, kernel, busybox, init], c.Readable)
    (hsum : ([loader, kernel, busybox, init].map fun c => (c.bytes.length + 4095) / 4096).sum ≤ 32699)
    (hlen : loader.bytes.length ≤ 1024) (l : Mbr.Linked) (hmbr : Mbr.File l (files.mbr.data 440))
    (a : BzSetup.Addresses) (hsetup : BzSetup.File a loader.bytes) (stack : Stack)
    (hkernel : BzImage.Bootable stack kernel.bytes) :
    ∃ image, Mkgpt.main .little m buf files Mkgpt.diskSize = .ok image ∧
      let d := Disk.ofBytes (image.file buf)
      ∀ c, Real c → c.mem.read 0x7c00 512 = d.sector 0 →
        ∃ c₁, Mbr.enter l c = some c₁ ∧ Flat c₁ ∧ c₁.ip = l.elfStart ∧ c₁.regs .esp = 0x9ffc ∧
          ∃ m₁ m₂, elfStart stack d c₁.mem = .ok m₁ ∧ m₁.read 0x1200 512 = d.sector 531 ∧
            BzImage.start stack d m₁ = .ok m₂ ∧ m₂.read 0x1200 loader.bytes.length = loader.bytes ∧
            ∀ c₂ back, Flat c₂ → BzSetup.Called c₂ back 0x2000 0x10000 →
              (∀ a, a ∉ stack.area → c₂.mem a = m₂ a) →
              ∃ c₃ c₄, BzSetup.enter a.table a.next c₂ = some c₃ ∧ c₃.steps 9 = some c₄ ∧
                Entered kernel.bytes c₄ := by
  obtain ⟨image, hmain, -, -, -, hcode, hdelivered⟩ :=
    @Mkgpt.main_delivered files m buf [loader, kernel, busybox, init] hcalls
  have hrets := fun k hk => @Mkgpt.main_fits m buf files image [loader, kernel, busybox, init]
    hcalls hmain hread
    hsum k hk
  refine ⟨image, hmain, fun c hreal hsector => ?_⟩
  -- where the loader and the kernel are
  have hsum' : (loader.bytes.length + 4095) / 4096 + (kernel.bytes.length + 4095) / 4096 ≤ 32699 := by
    simp at hsum
    omega
  have hpos := List.length_pos_iff.mpr loader.nonempty
  have hsize : Mkgpt.diskSize = 2 ^ 28 := rfl
  have hret₀ : image.rets[0]? = some 528 := hrets 0 (by decide)
  have hret₁ : image.rets[1]? = some 536 := by
    have hret := hrets 1 (by decide)
    have hone : (loader.bytes.length + 4095) / 4096 = 1 := by omega
    simp [hone] at hret
    simp [hret]
  have hloader : ∀ j, j < loader.bytes.length →
      (Disk.ofBytes (image.file buf)).file 531 j = loader.bytes.getD j 0 := fun j hj =>
    file_onDisk (by decide) (hdelivered 0 loader 528 rfl hret₀) rfl
      (by rw [show (531 : UInt32).toNat = 531 from rfl]; omega) hj
  have hkernelFile : ∀ j, j < kernel.bytes.length →
      (Disk.ofBytes (image.file buf)).file 539 j = kernel.bytes.getD j 0 := fun j hj =>
    file_onDisk (by decide) (hdelivered 1 kernel 536 rfl hret₁) rfl
      (by rw [show (539 : UInt32).toNat = 539 from rfl]; omega) hj
  -- the boot code
  have hboot := bootCode_read hcode hsector
  have hgdt := hmbr.gdt.below
  have hlow := hmbr.gdtdesc.below
  have hcodeLen := files.mbr.data_le 440
  have hmbrLoaded : Mbr.Loaded l c.mem := by
    have hdesc : (Mbr.gdtdesc l.gdt).length = 6 := rfl
    exact ⟨hmbr.gdt.read hboot, hmbr.gdtdesc.read hboot, by omega, hmbr.start32, hmbr.elfStart⟩
  obtain ⟨c₁, henter, hflat, -, hesp, hip, -⟩ := Mbr.enter_flat hreal hmbrLoaded
  -- the loaders, and the way back to real mode
  obtain ⟨m₁, m₂, hstart, hfirst, hload, hheld, hloaded, htold, hcode16⟩ :=
    loaders_ok hkernel hlen hloader hkernelFile c₁.mem
  exact ⟨c₁, henter, hflat, hip, hesp, m₁, m₂, hstart, hfirst, hload, hheld,
    fun c₂ back hc₂ hcalled hsame =>
      setup_entered hkernel hsetup (Nat.le_trans hlen (by decide)) (hsetup.held hheld) hloaded htold
        hcode16 hc₂ hcalled hsame⟩

/-! A kernel of NOPs, on the least of boot code and loader. -/

namespace BzImage

/-- A kernel of three sectors. -/
@[irreducible] def nopKernel : List UInt8 := (nopImage 32).read 0 1536

/-- Its size. -/
theorem nopKernel_length : nopKernel.length = 1536 := by
  unfold nopKernel
  exact Mem.length_read _ _ _

/-- Its header. -/
private theorem nopKernel_field (f : Field) (hf : f.off + f.width.bytes ≤ 1024) :
    headerField (kernelDisk nopKernel) f = headerField (nopDisk 32) f := by
  refine headerField_congr (fun j hj => ?_) hf
  have hbyte : nopKernel.getD j 0 = nopImage 32 j := by
    unfold nopKernel
    rw [getD_read _ _ (by omega), Nat.zero_add]
  rw [image, image, kernelDisk, nopDisk, file_ofFile (by omega), file_ofFile (by omega), hbyte]

/-- It can be booted. -/
theorem nopKernel_bootable : Bootable smallStack nopKernel := by
  have hd := @headerOk_nopDisk 32 (.inr rfl)
  have hsects := @setupSects_nopDisk 32 (.inr rfl)
  have hsize := @kernelSize_nopDisk 32 (.inr rfl)
  -- the fields are those of the image that the kernel is read from
  have hsects' : headerField (kernelDisk nopKernel) setupSects = 1 :=
    (nopKernel_field setupSects (by decide)).trans hsects
  have hsize' : kernelSize (kernelDisk nopKernel) = 512 := by
    rw [kernelSize, nopKernel_field syssize (by decide)]
    exact hsize
  have hsetup : setupSize (kernelDisk nopKernel) = 2 := by rw [setupSize, hsects']; rfl
  refine ⟨⟨?_, ?_, ?_, ?_⟩, ?_, ?_, ?_, ?_, ?_⟩
  · -- the checks of the header
    rw [nopKernel_field bootFlag (by decide)]
    exact hd.bootFlag
  · rw [nopKernel_field BzImage.header (by decide)]
    exact hd.header
  · rw [nopKernel_field loadflags (by decide)]
    exact hd.loadedHigh
  · rw [nopKernel_field version (by decide)]
    exact hd.version
  · -- the number of setup sectors does not wrap, and the sizes are small
    rw [hsects']
    decide
  · rw [hsetup]
    decide
  · rw [kernelSize] at hsize'
    omega
  · rw [hsize']
    decide
  · rw [hsetup, hsize', nopKernel_length]

end BzImage

/-- The table of `mbr.S` alone. -/
def tableCode : List UInt8 := Mbr.gdt ++ Mbr.gdtdesc 0x7c00

/-- Where the code of the boot sector was linked to. -/
def tableLinked : Mbr.Linked := ⟨0x7c00, 0x7c40, 0x7c80, 0x7c60⟩

/-- The tables of `bzsetup.S` alone. -/
def tableLoader : List UInt8 := BzSetup.descriptors ++ table BzSetup.descriptors 0x1200

/-- The files of an image that boots. -/
def nopFiles : Mkgpt.Sources where
  linuz := Fd.ofBytes tableLoader
  kernel := Fd.ofBytes BzImage.nopKernel
  busybox := Fd.ofBytes [3]
  init := Fd.ofBytes [4]
  mbr := Fd.ofBytes tableCode

/-- The processor when the firmware has loaded a sector. -/
def firmware (sector : List UInt8) : Cpu where
  regs _ := 0
  seg _ := ⟨0, 0, 0xffff, false⟩
  ip := 0x7c00
  cr0 := 0
  gdtBase := 0
  gdtLimit := 0
  interrupts := true
  mem := Mem.write (fun _ => 0) 0x7c00 sector

/-- The processor when `jump_to_setup` is called on a small stack. -/
def callsSetup (m : Mem) : Cpu where
  regs _ := 0x9e00
  seg _ := ⟨8, 0, 2 ^ 32 - 1, true⟩
  ip := 0
  cr0 := 1
  gdtBase := 0
  gdtLimit := 0
  interrupts := false
  mem := m.write 0x9e00 (Mem.leBytes 4 0x1280 ++ Mem.leBytes 4 0x2000 ++ Mem.leBytes 4 0x10000)

/-- The firmware starts the boot sector in real mode. -/
theorem firmware_real (sector : List UInt8) : Real (firmware sector) where
  pe := show (0 : UInt32).toNat.testBit 0 = false by decide
  code := rfl
  data := Nat.le_refl _

/-- The segments of the processor that calls the setup code are flat. -/
theorem callsSetup_flat (m : Mem) : Flat (callsSetup m) where
  pe := show (1 : UInt32).toNat.testBit 0 = true by decide
  code := ⟨rfl, rfl, rfl⟩
  data _ _ := ⟨rfl, rfl, rfl⟩

/-- It calls the setup code. -/
theorem callsSetup_called (m : Mem) : BzSetup.Called (callsSetup m) 0x1280 0x2000 0x10000 := by
  have hargs : (callsSetup m).mem.read 0x9e00 (4 + (4 + 4)) =
      Mem.leBytes 4 0x1280 ++ (Mem.leBytes 4 0x2000 ++ Mem.leBytes 4 0x10000) :=
    Mem.read_write_self m 0x9e00 _
  rw [Mem.read_add, Mem.read_add] at hargs
  obtain ⟨hback, hargs⟩ := List.append_inj hargs (Mem.length_read _ _ _)
  obtain ⟨hbase, hheap⟩ := List.append_inj hargs (Mem.length_read _ _ _)
  have hfits : (0x9e00 : UInt32).toNat + 12 ≤ 2 ^ 32 := by decide
  exact ⟨hfits, congrArg Mem.leNat hback, congrArg Mem.leNat hbase, congrArg Mem.leNat hheap⟩

theorem mkgpt_boots_nops :
    ∃ image, Mkgpt.main .little (fun _ => 0) 0 nopFiles Mkgpt.diskSize = .ok image ∧
      ∃ c₁ m₁ m₂ c₃ c₄,
        Mbr.enter tableLinked (firmware ((Disk.ofBytes (image.file 0)).sector 0)) = some c₁ ∧
        elfStart BzImage.smallStack (Disk.ofBytes (image.file 0)) c₁.mem = .ok m₁ ∧
        BzImage.start BzImage.smallStack (Disk.ofBytes (image.file 0)) m₁ = .ok m₂ ∧
        BzSetup.enter 0x1218 0x1240 (callsSetup m₂) = some c₃ ∧ c₃.steps 9 = some c₄ ∧
        Entered BzImage.nopKernel c₄ := by
  have hlt : BzImage.nopKernel.length < 2 ^ 32 := by
    rw [BzImage.nopKernel_length]
    decide
  have hne : BzImage.nopKernel ≠ [] := by
    apply List.ne_nil_of_length_pos
    rw [BzImage.nopKernel_length]
    decide
  -- the four files: a loader with its table, a kernel, and two that are not looked at
  let loader := bytesCall tableLoader Mkgpt.linuzFile Installer.sysFlag (by decide) (by decide)
  let kernel := bytesCall BzImage.nopKernel Installer.kernelFile Installer.sysFlag hne hlt
  let busybox := byteCall 3 Installer.busyboxFile Mkgpt.attrReadOnly
  let init := byteCall 4 Installer.initFile Mkgpt.attrReadOnly
  have hread : ∀ c ∈ [loader, kernel, busybox, init], c.Readable := by
    intro c hc
    simp only [List.mem_cons, List.not_mem_nil, or_false] at hc
    rcases hc with rfl | rfl | rfl | rfl
    · exact bytesCall_readable _ _ _ _
    · exact bytesCall_readable _ _ _ _
    · exact byteCall_readable _ _ _
    · exact byteCall_readable _ _ _
  -- together they take few clusters
  have hsum : ([loader, kernel, busybox, init].map fun c => (c.bytes.length + 4095) / 4096).sum ≤
      32699 := by
    have hkernel : kernel.bytes.length = 1536 := BzImage.nopKernel_length
    simp only [List.map_cons, List.map_nil, hkernel]
    decide
  obtain ⟨image, hmain, hboots⟩ := mkgpt_boots (fun _ => 0) 0 nopFiles loader kernel busybox init rfl
    hread hsum (by decide) tableLinked
    ⟨⟨by decide, by decide, by decide⟩, ⟨by decide, by decide, by decide⟩, by decide, by decide⟩
    ⟨0x1218, 0x1200, 0x1240⟩
    ⟨⟨by decide, by decide, by decide⟩, ⟨by decide, by decide, by decide⟩, by decide⟩
    BzImage.smallStack BzImage.nopKernel_bootable
  refine ⟨image, hmain, ?_⟩
  -- the firmware has read the first sector of the image
  have hsector : (firmware ((Disk.ofBytes (image.file 0)).sector 0)).mem.read 0x7c00 512 =
      (Disk.ofBytes (image.file 0)).sector 0 := read_sector _ 0 _ _
  obtain ⟨c₁, henter, -, -, -, m₁, m₂, hstart, -, hload, -, hsetup⟩ :=
    hboots (firmware ((Disk.ofBytes (image.file 0)).sector 0)) (firmware_real _) hsector
  -- the call of the setup code has changed the stack only
  have hsame : ∀ a, a ∉ BzImage.smallStack.area → (callsSetup m₂).mem a = m₂ a := fun a ha =>
    (Mem.frame_write m₂ 0x9e00 _).apply fun hin => ha ⟨hin.1, Nat.lt_of_lt_of_le hin.2 (by decide)⟩
  obtain ⟨c₃, c₄, hreal, hsteps, hentered⟩ :=
    hsetup (callsSetup m₂) 0x1280 (callsSetup_flat m₂) (callsSetup_called m₂) hsame
  exact ⟨c₁, m₁, m₂, c₃, c₄, henter, hstart, hload, hreal, hsteps, hentered⟩

end Tlibc.Boot
