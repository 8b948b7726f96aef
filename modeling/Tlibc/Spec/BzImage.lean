import Tlibc.Spec.BootDisk

/-!
# What `bzimage.c` leaves in memory

The loader counts the sectors of the setup code in eight bits, reads whole sectors only,
and puts the setup code below its own stack.

* `bzImage_loads_iff`: a kernel is loaded completely, whatever was in memory, if and only if its
  header does not ask for 255 setup sectors, the setup code ends below the stack, and the
  protected-mode kernel ends with a sector
-/

namespace Tlibc.Boot.BzImage

variable {access : DiskAccess} {stack : Stack} {d : Disk} {m m' : Mem}

/-! ## The image -/

/-- The bzImage on the disk. -/
def image (d : Disk) : Mem := d.file sector

/-- A member of the header in the image. -/
def headerField (d : Disk) (f : Field) : Nat := getField (image d) 0 f

/-- The sectors of the setup code, the boot sector included: 0 in the header stands
    for 4. -/
def setupSize (d : Disk) : Nat :=
  (if headerField d setupSects = 0 then 4 else headerField d setupSects) + 1

/-- The bytes of the protected-mode kernel. -/
def kernelSize (d : Disk) : Nat := 16 * headerField d syssize

/-- What the loader checks. -/
structure HeaderOk (d : Disk) : Prop where
  bootFlag : headerField d bootFlag = 0xaa55
  header : headerField d header = 0x53726448
  loadedHigh : headerField d loadflags &&& loadedHigh ≠ 0
  version : 0x202 ≤ headerField d version

/-- The offset is in a member of the header that the loader sets. -/
def IsSet (j : Nat) : Prop :=
  ∃ f ∈ [typeOfLoader, heapEndPtr, loadflags, cmdLinePtr], f.off ≤ j ∧ j < f.off + f.width.bytes

/-- The setup code and the protected-mode kernel are in memory. -/
structure Loaded (d : Disk) (m : Mem) : Prop where
  setup : ∀ j, j < 512 * setupSize d → ¬ IsSet j → m (0x2000 + j) = image d j
  kernel : ∀ j, j < kernelSize d → m (0x100000 + j) = image d (512 * setupSize d + j)

/-! ## The stores behind the loading -/

/-- What the last stores change. -/
def prepared : Set Nat :=
  {a | ∃ j, IsSet j ∧ a = 0x2000 + j} ∪ (Set.Ico 0x12000 0x13000 ∪ Set.Ico 0xa000 0xa013)

/-- `prepare` changes the header and the end of the heap only. -/
theorem prepare_frame (m : Mem) : Mem.Frame prepared m (prepare m) := by
  have hfield : ∀ {m : Mem} (f : Field) (v : Nat),
      f ∈ [typeOfLoader, heapEndPtr, loadflags, cmdLinePtr] →
      Mem.Frame prepared m (setField m 0x2000 f v) := by
    intro m f v hf
    refine (frame_setField 0x2000 f v).mono fun a ha => .inl ?_
    obtain ⟨hge, hlt⟩ := ha
    exact ⟨a - 0x2000, ⟨f, hf, by omega, by omega⟩, by omega⟩
  have hline : ∀ m : Mem, Mem.Frame prepared m (m.write 0x12000 (linuxCmdLine ++ [0])) := fun m =>
    (Mem.frame_write m _ _).mono fun a ha => .inr (.inl ⟨ha.1, Nat.lt_of_lt_of_le ha.2 (by decide)⟩)
  have hcode : ∀ m : Mem, Mem.Frame prepared m (m.write 0xa000 code16) := fun m =>
    (Mem.frame_write m _ _).mono fun a ha => .inr (.inr ha)
  rw [prepare]
  exact (((((hfield typeOfLoader _ (by decide)).trans (hfield heapEndPtr _ (by decide))).trans
    (hfield loadflags _ (by decide))).trans (hline _)).trans (hfield cmdLinePtr _ (by decide))).trans
    (hcode _)

/-- The other bytes of the setup code are not among them. -/
private theorem notPrepared_setup {j : Nat} (hj : j < 0x8000) (hset : ¬ IsSet j) :
    0x2000 + j ∉ prepared := by
  rintro (⟨i, hi, heq⟩ | ⟨hge, -⟩ | ⟨hge, -⟩)
  · rw [Nat.add_left_cancel heq] at hset
    exact hset hi
  · omega
  · omega

/-- Nor are those of the kernel. -/
private theorem notPrepared_kernel (j : Nat) : 0x100000 + j ∉ prepared := by
  have hend : ∀ f ∈ [typeOfLoader, heapEndPtr, loadflags, cmdLinePtr],
      f.off + f.width.bytes ≤ 0x22c := by decide
  rintro (⟨i, ⟨f, hf, -, hlt⟩, heq⟩ | ⟨-, hlt⟩ | ⟨-, hlt⟩)
  · have := hend f hf
    omega
  · omega
  · omega

/-! ## The header in memory -/

/-- The first `n` sectors of the image are in memory. -/
def Holds (d : Disk) (n : Nat) (m : Mem) : Prop := ∀ j, j < 512 * n → m (0x2000 + j) = image d j

/-- The header is read from memory as it is in the image. -/
theorem Holds.getField {n : Nat} (h : Holds d n m) (hn : 2 ≤ n) (f : Field)
    (hf : f.off + f.width.bytes ≤ 1024) : getField m 0x2000 f = headerField d f := by
  rw [headerField, Boot.getField, Boot.getField]
  refine Mem.load_congr fun i hi => ?_
  rw [Nat.zero_add, Nat.add_assoc]
  exact h _ (by omega)

/-- Sectors read behind those in memory. -/
theorem Holds.append {n k : Nat} {buf : UInt32} (h : Holds d n m)
    (hbuf : buf.toNat = 0x2000 + 512 * n) (hfit : n + k ≤ 256)
    (hok : readSectors access stack d m buf (sector + UInt32.ofNat n) k = .ok m') :
    Holds d (n + k) m' := by
  obtain ⟨hread, hframe⟩ := readSectors_ok (by omega) (by omega) (by omega) hok
  intro j hj
  by_cases hold : j < 512 * n
  · rw [hframe.apply, h j hold]
    rintro (⟨hge, -⟩ | ⟨-, hlt⟩) <;> omega
  · obtain ⟨i, rfl⟩ := Nat.exists_eq_add_of_le (Nat.not_lt.mp hold)
    rw [← Nat.add_assoc, ← hbuf, hread i (by omega), file_add]
    rfl

/-! ## The loads -/

/-- The sectors of the setup code as the loader counts them. -/
def count (d : Disk) : Nat := (countOf (UInt8.ofNat (headerField d setupSects))).toNat

/-- The count is right unless it wraps around. -/
theorem count_eq (d : Disk) :
    count d = if headerField d setupSects = 255 then 0 else setupSize d := by
  have hlt : headerField d setupSects < 256 := Mem.load_lt _ _ 1
  rw [count, countOf, setupSize]
  generalize headerField d setupSects = s at hlt ⊢
  have htoNat : (UInt8.ofNat s).toNat = s := UInt8.toNat_ofNat_of_lt' hlt
  by_cases hzero : s = 0
  · subst hzero
    rfl
  · have hne : UInt8.ofNat s ≠ 0 := fun h => hzero (by rw [← htoNat, h]; rfl)
    rw [if_neg hne, UInt8.toNat_add, htoNat, if_neg hzero, show (1 : UInt8).toNat = 1 from rfl]
    split <;> omega

/-- The count is a byte. -/
theorem count_le (d : Disk) : count d ≤ 255 := Nat.le_of_lt_succ (UInt8.toNat_lt _)

/-- The setup code has two sectors at least. -/
theorem two_le_setupSize (d : Disk) : 2 ≤ setupSize d := by
  rw [setupSize]
  split <;> omega

/-- The sectors of the kernel that are read: what is behind the last whole one is not. -/
private theorem sectorsOf_kernel (hP : kernelSize d < 2 ^ 28) (c : UInt8) :
    (c.toUInt32 * 512 + UInt32.ofNat (headerField d syssize) * 16).toNat / sectSize - c.toNat =
      kernelSize d / 512 := by
  have hc : c.toNat < 256 := c.toNat_lt
  rw [kernelSize] at hP ⊢
  have hsize : headerField d syssize < 2 ^ 32 := by omega
  rw [UInt32.toNat_add, UInt32.toNat_mul, UInt32.toNat_mul, UInt8.toNat_toUInt32,
    UInt32.toNat_ofNat_of_lt' hsize, show (512 : UInt32).toNat = 512 from rfl,
    show (16 : UInt32).toNat = 16 from rfl, show sectSize = 512 from rfl]
  omega

/-- The three loops, the stores behind them left out. -/
structure Loads (d : Disk) (m m' : Mem) : Prop where
  setup : Holds d (count d - 2 + 2) m'
  kernel : ∀ j, j < 512 * (kernelSize d / 512) →
    m' (0x100000 + j) = image d (512 * count d + j)
  frame : Mem.Frame (Set.Ico 0x2000 (0x2000 + 512 * (count d - 2 + 2)) ∪
    Set.Ico 0x100000 (0x100000 + 512 * (kernelSize d / 512)) ∪ scratch) m m'

/-- All sectors of the setup code are off the stack. -/
def SetupOff (stack : Stack) (d : Disk) : Prop :=
  ∀ i, i < count d - 2 + 2 → stack.Off (0x2000 + 512 * i) sectSize

/-- The first two sectors. -/
private theorem readSectorsBy_two {read : Mem → UInt32 → UInt32 → Except Fault Mem} :
    readSectorsBy read m loadStart sector 2 =
      read m loadStart sector >>= fun m => read m (loadStart + 512) (sector + 1) := by
  rw [readSectorsBy, Loop.forLoop, Loop.forLoop, Loop.forLoop, Run.ok_bind]
  rfl

/-- Two sectors are there once they were read. -/
theorem holds_two (h : readSectors access stack d m loadStart sector 2 = .ok m') : Holds d 2 m' :=
  (readSectors_ok (by decide) (by decide) (by decide) h).1

/-- With a header that passes, the loader is its three loops, for every `read_disk` that leaves
    the setup code in memory. -/
theorem elfMainBy_eq {read : Mem → UInt32 → UInt32 → Except Fault Mem} (hd : HeaderOk d)
    (hP : kernelSize d < 2 ^ 28)
    (htwo : ∀ m₂, readSectorsBy read m loadStart sector 2 = .ok m₂ → Holds d 2 m₂)
    (hrest : ∀ m₂ m₃, readSectorsBy read m loadStart sector 2 = .ok m₂ →
      readSectorsBy read m₂ (loadStart + 1024) (sector + 2) (count d - 2) = .ok m₃ →
      Holds d (2 + (count d - 2)) m₃) :
    elfMainBy read m =
      readSectorsBy read m loadStart sector 2 >>= fun m =>
        readSectorsBy read m (loadStart + 1024) (sector + 2) (count d - 2) >>= fun m =>
          readSectorsBy read m loadAddr (sector + UInt32.ofNat (count d))
            (kernelSize d / 512) >>= fun m => .ok (prepare m) := by
  rw [elfMainBy, readSectorsBy_two, bind_assoc]
  refine Run.bind_congr fun m₁ h₁ => Run.bind_congr fun m₂ h₂ => ?_
  have h₁₂ := readSectorsBy_two.trans (Run.bind_eq_ok.mpr ⟨m₁, h₁, h₂⟩)
  have hold : Holds d 2 m₂ := htwo m₂ h₁₂
  -- the fields read before the rest of the setup code is there
  have hcount : countOf (UInt8.ofNat (getField m₂ loadStart.toNat setupSects)) =
      countOf (UInt8.ofNat (headerField d setupSects)) := by
    rw [← hold.getField (Nat.le_refl 2) setupSects (by decide)]
    rfl
  have hchecks : ¬ (getField m₂ loadStart.toNat bootFlag ≠ 0xaa55 ∨
      getField m₂ loadStart.toNat header ≠ 0x53726448) := by
    rintro (hne | hne)
    · exact hne ((hold.getField (Nat.le_refl 2) bootFlag (by decide)).trans hd.bootFlag)
    · exact hne ((hold.getField (Nat.le_refl 2) header (by decide)).trans hd.header)
  simp only [if_neg hchecks, hcount]
  refine Run.bind_congr fun m₃ h₃ => ?_
  have hold : Holds d (2 + (count d - 2)) m₃ := hrest m₂ m₃ h₁₂ h₃
  have hle : 2 ≤ 2 + (count d - 2) := Nat.le_add_right _ _
  have hchecks : ¬ (getField m₃ loadStart.toNat loadflags &&& loadedHigh = 0 ∨
      getField m₃ loadStart.toNat version < 0x202) := by
    rintro (hzero | hlt)
    · exact hd.loadedHigh (hold.getField hle loadflags (by decide) ▸ hzero)
    · exact absurd hd.version (Nat.not_le.mpr (hold.getField hle version (by decide) ▸ hlt))
  have hsize : getField m₃ loadStart.toNat syssize = headerField d syssize :=
    hold.getField hle syssize (by decide)
  have hsect : (countOf (UInt8.ofNat (headerField d setupSects))).toUInt32 =
      UInt32.ofNat (count d) := by
    rw [← UInt32.toNat_inj, UInt8.toNat_toUInt32, UInt32.toNat_ofNat_of_lt' (by
      have := count_le d
      rw [show UInt32.size = 4294967296 from rfl]
      omega)]
    rfl
  simp only [if_neg hchecks, hsize, sectorsOf_kernel hP]
  rw [hsect]
  rfl

/-- So it is with either of the two. -/
theorem elfMain_eq (hd : HeaderOk d) (hP : kernelSize d < 2 ^ 28) :
    elfMain access stack d m =
      readSectors access stack d m loadStart sector 2 >>= fun m =>
        readSectors access stack d m (loadStart + 1024) (sector + 2) (count d - 2) >>= fun m =>
          readSectors access stack d m loadAddr (sector + UInt32.ofNat (count d))
            (kernelSize d / 512) >>= fun m => .ok (prepare m) :=
  elfMainBy_eq hd hP (fun _ h₂ => holds_two h₂) fun _ _ h₂ h₃ =>
    (holds_two h₂).append rfl (by have := count_le d; omega) h₃

/-- What the loader has done when it calls `jump_to_setup`. -/
theorem elfMain_ok (hd : HeaderOk d) (hP : kernelSize d < 2 ^ 28)
    (h : elfMain access stack d m = .ok m') :
    SetupOff stack d ∧ ∃ m₃, Loads d m m₃ ∧ m' = prepare m₃ := by
  have hle := count_le d
  rw [elfMain_eq hd hP] at h
  obtain ⟨m₁, h₁, h⟩ := Run.bind_eq_ok.mp h
  obtain ⟨m₂, h₂, h⟩ := Run.bind_eq_ok.mp h
  obtain ⟨m₃, h₃, h⟩ := Run.bind_eq_ok.mp h
  obtain rfl := Except.ok.inj h
  -- the header's two sectors, and the rest of the setup code behind them
  have hhold : Holds d (2 + (count d - 2)) m₂ := (holds_two h₁).append rfl (by omega) h₂
  have hframe₁ := (readSectors_ok (by decide) (by decide) (by decide) h₁).2
  have hrest : (loadStart + 1024).toNat = 0x2400 := rfl
  have hframe₂ := (readSectors_ok (by rw [hrest]) (by rw [hrest]; decide)
    (by rw [hrest]; omega) h₂).2
  have hhigh : loadAddr.toNat = 0x100000 := rfl
  -- the protected-mode kernel
  obtain ⟨hkernel, hframe₃⟩ :=
    readSectors_ok (by rw [hhigh]) (by rw [hhigh]; decide) (by rw [hhigh]; omega) h₃
  rw [hrest] at hframe₂
  rw [hhigh] at hkernel hframe₃
  have hoff₁ := (readSectors_returns_iff (by decide) (by decide)).mp ⟨m₁, h₁⟩
  have hoff₂ := (readSectors_returns_iff (by rw [hrest]) (by rw [hrest]; omega)).mp ⟨m₂, h₂⟩
  refine ⟨fun i hi => ?_, m₃, ⟨fun j hj => ?_, fun j hj => ?_, ?_⟩, rfl⟩
  · by_cases hfirst : i < 2
    · exact hoff₁ i hfirst
    · obtain ⟨k, rfl⟩ := Nat.exists_eq_add_of_le (Nat.not_lt.mp hfirst)
      have hoff := hoff₂ k (by omega)
      rw [hrest] at hoff
      rwa [Nat.mul_add, ← Nat.add_assoc]
  · -- the protected-mode kernel is above the setup code
    rw [hframe₃.apply, hhold j (by omega)]
    rintro (⟨hge, -⟩ | ⟨-, hlt⟩) <;> omega
  · rw [hkernel j hj, file_add]
    rfl
  · refine ((hframe₁.mono ?_).trans (hframe₂.mono ?_)).trans (hframe₃.mono ?_)
    · exact Set.union_subset_union_left _ (Set.subset_union_of_subset_left
        (Set.Ico_subset_Ico (Nat.le_refl _) (by rw [show loadStart.toNat = 0x2000 from rfl]; omega)) _)
    · exact Set.union_subset_union_left _ (Set.subset_union_of_subset_left
        (Set.Ico_subset_Ico (by omega) (by omega)) _)
    · exact Set.union_subset_union_left _ Set.subset_union_right

/-- When the setup code is off the stack the loader gets to `jump_to_setup`. -/
theorem elfMain_returns (hd : HeaderOk d) (hP : kernelSize d < 2 ^ 28) (hoff : SetupOff stack d)
    (m : Mem) : ∃ m', elfMain access stack d m = .ok m' := by
  have hle := count_le d
  rw [elfMain_eq hd hP]
  have hrest : (loadStart + 1024).toNat = 0x2400 := rfl
  have hhigh : loadAddr.toNat = 0x100000 := rfl
  -- the first two sectors, the rest of the setup code, and the kernel above 1 MiB
  obtain ⟨m₁, h₁⟩ := (@readSectors_returns_iff access stack d m loadStart sector 2 (by decide)
    (by decide)).mpr
    fun i hi => hoff i (by omega)
  obtain ⟨m₂, h₂⟩ := (@readSectors_returns_iff access stack d m₁ (loadStart + 1024) (sector + 2)
    (count d - 2) (by rw [hrest]) (by rw [hrest]; omega)).mpr fun i hi => by
      have hoff := hoff (2 + i) (by omega)
      rwa [Nat.mul_add, ← Nat.add_assoc] at hoff
  obtain ⟨m₃, h₃⟩ := (@readSectors_returns_iff access stack d m₂ loadAddr
    (sector + UInt32.ofNat (count d)) (kernelSize d / 512) (by rw [hhigh])
    (by rw [hhigh]; omega)).mpr fun i _ =>
      stack.off_high (Nat.le_add_right _ _) _
  exact ⟨prepare m₃, Run.bind_eq_ok.mpr ⟨m₁, h₁, Run.bind_eq_ok.mpr ⟨m₂, h₂,
    Run.bind_eq_ok.mpr ⟨m₃, h₃, rfl⟩⟩⟩⟩

/-! ## When the kernel is loaded -/

/-- The setup code ends below the stack. -/
theorem setupOff_iff : SetupOff stack d ↔ 512 * (count d - 2 + 2) + stack.size ≤ 0x8000 := by
  have hpos := stack.pos
  have hfits := stack.fits
  rw [stackTop] at hfits
  constructor
  · intro hoff
    by_contra hover
    -- the last sector hits the stack, or the one that ends at its top
    have hhit := hoff (min (count d - 2 + 1) 63) (by omega)
    rw [Stack.Off, stackTop, sectSize] at hhit
    omega
  · intro hfit i hi
    rw [Stack.Off, stackTop, sectSize]
    omega

/-- Behind the last whole sector of the kernel memory is as it was. -/
private theorem kernel_tail_kept (hd : HeaderOk d) (hP : kernelSize d < 2 ^ 28)
    (h : elfMain access stack d m = .ok m') {j : Nat} (hj : 512 * (kernelSize d / 512) ≤ j) :
    m' (0x100000 + j) = m (0x100000 + j) := by
  have hle := count_le d
  obtain ⟨-, m₃, hloads, rfl⟩ := elfMain_ok hd hP h
  rw [(prepare_frame m₃).apply (notPrepared_kernel j), hloads.frame.apply]
  rintro ((⟨-, hlt⟩ | ⟨-, hlt⟩) | ⟨-, hlt⟩) <;> omega

/-- When the count wraps around, the setup code behind the second sector is not read. -/
private theorem setup_rest_kept (hd : HeaderOk d) (hP : kernelSize d < 2 ^ 28)
    (hwrap : headerField d setupSects = 255) (h : elfMain access stack d m = .ok m') :
    m' 0x2400 = m 0x2400 := by
  obtain ⟨-, m₃, hloads, rfl⟩ := elfMain_ok hd hP h
  have hcount : count d = 0 := by rw [count_eq, if_pos hwrap]
  -- nor does the loader set it
  have hset : ¬ IsSet 0x400 := by
    rintro ⟨f, hf, -, hlt⟩
    revert f
    decide
  have hframe := hloads.frame
  rw [hcount] at hframe
  rw [(prepare_frame m₃).apply (notPrepared_setup (show 0x400 < 0x8000 by decide) hset), hframe.apply]
  rintro ((⟨-, hlt⟩ | ⟨hge, -⟩) | ⟨-, hlt⟩) <;> omega

/-- A count that does not wrap around, and a kernel of whole sectors. -/
theorem loaded_of_ok (hd : HeaderOk d) (hP : kernelSize d < 2 ^ 28)
    (hwrap : headerField d setupSects ≠ 255) (hwhole : headerField d syssize % 32 = 0)
    (h : elfMain access stack d m = .ok m') : Loaded d m' := by
  obtain ⟨hoff, m₃, hloads, rfl⟩ := elfMain_ok hd hP h
  have hfit := setupOff_iff.mp hoff
  have htwo := two_le_setupSize d
  have hcount : count d = setupSize d := by rw [count_eq, if_neg hwrap]
  have hsetup := hloads.setup
  have hkernel := hloads.kernel
  rw [hcount] at hkernel hfit
  rw [hcount, Nat.sub_add_cancel htwo] at hsetup
  refine ⟨fun j hj hset => ?_, fun j hj => ?_⟩
  · rw [(prepare_frame m₃).apply (notPrepared_setup (by omega) hset), hsetup j hj]
  · rw [(prepare_frame m₃).apply (notPrepared_kernel j), hkernel j (by rw [kernelSize] at hj ⊢; omega)]

/-- The kernel is loaded from every memory if and only if its header does not ask for 255
    setup sectors, the setup code and the stack fit in the 32 KiB between them, and the
    protected-mode kernel is made of whole sectors. -/
theorem bzImage_loads_iff (access : DiskAccess) (stack : Stack) (d : Disk) (hd : HeaderOk d)
    (hP : kernelSize d < 2 ^ 28) :
    (∀ m, ∃ m', elfMain access stack d m = .ok m' ∧ Loaded d m') ↔
      headerField d setupSects ≠ 255 ∧ 512 * setupSize d + stack.size ≤ 0x8000 ∧
        headerField d syssize % 32 = 0 := by
  have htwo := two_le_setupSize d
  constructor
  · intro hall
    have hwrap : headerField d setupSects ≠ 255 := by
      intro hwrap
      -- a memory that differs from the image there
      obtain ⟨m', hok, hloaded⟩ := hall fun _ => image d 0x400 + 1
      have hsize : setupSize d = 256 := by rw [setupSize, hwrap]; rfl
      have hbyte := hloaded.setup 0x400 (by omega) (by
        rintro ⟨f, hf, -, hlt⟩
        revert f
        decide)
      rw [setup_rest_kept hd hP hwrap hok] at hbyte
      exact byte_succ_ne _ hbyte
    refine ⟨hwrap, ?_, ?_⟩
    · obtain ⟨m', hok, -⟩ := hall fun _ => 0
      have hfit := setupOff_iff.mp (elfMain_ok hd hP hok).1
      rwa [count_eq, if_neg hwrap, Nat.sub_add_cancel htwo] at hfit
    · by_contra hpart
      -- the first byte behind the last whole sector
      let j := 512 * (kernelSize d / 512)
      obtain ⟨m', hok, hloaded⟩ := hall fun _ => image d (512 * setupSize d + j) + 1
      have hbyte := hloaded.kernel j (by
        show 512 * (kernelSize d / 512) < kernelSize d
        rw [kernelSize]
        omega)
      rw [kernel_tail_kept hd hP hok (Nat.le_refl j)] at hbyte
      exact byte_succ_ne _ hbyte
  · rintro ⟨hwrap, hfit, hwhole⟩ m
    have hoff : SetupOff stack d := by
      rw [setupOff_iff, count_eq, if_neg hwrap, Nat.sub_add_cancel htwo]
      exact hfit
    obtain ⟨m', hok⟩ := elfMain_returns hd hP hoff m
    exact ⟨m', hok, loaded_of_ok hd hP hwrap hwhole hok⟩

/-- An image of NOPs with the header of a kernel of `paras` paragraphs. -/
def nopImage (paras : Nat) : Mem :=
  [(setupSects, 1), (syssize, paras), (bootFlag, 0xaa55), (header, 0x53726448), (version, 0x202),
    (loadflags, 1)].foldl (fun m s => setField m 0 s.1 s.2) fun _ => 0x90

/-- The disk it is on. -/
def nopDisk (paras : Nat) : Disk := Disk.ofFile sector (nopImage paras)

/-- A stack of 512 bytes. -/
def smallStack : Stack := ⟨512, by decide, by decide⟩

/-- The header of the image. -/
private theorem headerField_nopDisk (paras : Nat) {f : Field} (hf : f.off + f.width.bytes ≤ 1024) :
    headerField (nopDisk paras) f = getField (nopImage paras) 0 f :=
  Mem.load_congr fun i hi => file_ofFile (by omega)

/-- It passes the checks. -/
theorem headerOk_nopDisk {paras : Nat} (h : paras = 1 ∨ paras = 32) : HeaderOk (nopDisk paras) := by
  rcases h with rfl | rfl <;> constructor <;> rw [headerField_nopDisk _ (by decide)] <;> decide

/-- The size behind the setup code. -/
theorem kernelSize_nopDisk {paras : Nat} (h : paras = 1 ∨ paras = 32) :
    kernelSize (nopDisk paras) = 16 * paras := by
  rw [kernelSize, headerField_nopDisk _ (by decide)]
  rcases h with rfl | rfl <;> decide

/-- The number of its sectors. -/
theorem setupSects_nopDisk {paras : Nat} (h : paras = 1 ∨ paras = 32) :
    headerField (nopDisk paras) setupSects = 1 := by
  rw [headerField_nopDisk _ (by decide)]
  rcases h with rfl | rfl <;> decide

/-- A kernel of one sector is loaded. -/
theorem bzImage_loads_sector :
    ∃ m', elfMain .ports smallStack (nopDisk 32) (fun _ => 0) = .ok m' ∧ Loaded (nopDisk 32) m' := by
  have hsects := setupSects_nopDisk (.inr rfl)
  have hsize := kernelSize_nopDisk (.inr rfl)
  refine (bzImage_loads_iff .ports smallStack (nopDisk 32) (headerOk_nopDisk (.inr rfl)) ?_).mpr
    ⟨?_, ?_, ?_⟩ fun _ => 0
  · rw [hsize]
    decide
  · rw [hsects]
    decide
  · rw [setupSize, hsects]
    decide
  · rw [kernelSize] at hsize
    omega

/-- A kernel of one paragraph is not: its bytes stay what they were. -/
theorem paragraph_not_loaded : HeaderOk (nopDisk 1) ∧ kernelSize (nopDisk 1) = 16 ∧
    ∃ m', elfMain .ports smallStack (nopDisk 1) (fun _ => 0) = .ok m' ∧ ¬ Loaded (nopDisk 1) m' := by
  have hd := headerOk_nopDisk (.inl rfl)
  have hsize := kernelSize_nopDisk (.inl rfl)
  have hsects := setupSects_nopDisk (.inl rfl)
  -- the kernel is one paragraph long, which is not a whole sector
  have hP : kernelSize (nopDisk 1) < 2 ^ 28 := by
    rw [hsize]
    decide
  have hoff : SetupOff smallStack (nopDisk 1) := by
    rw [setupOff_iff, count_eq, setupSize, hsects]
    decide
  obtain ⟨m', hok⟩ := elfMain_returns hd hP hoff fun _ => 0
  refine ⟨hd, hsize, m', hok, fun hloaded => ?_⟩
  -- its first byte would have to be the one in the file
  have hbyte := hloaded.kernel 0 (by rw [hsize]; decide)
  rw [kernel_tail_kept hd hP hok (by rw [hsize]), setupSize, hsects] at hbyte
  -- which is a `nop`, while the memory was 0
  have hnop : image (nopDisk 1) (512 * ((if 1 = 0 then 4 else 1) + 1) + 0) = nopImage 1 1024 :=
    file_ofFile (by decide)
  rw [hnop] at hbyte
  exact absurd hbyte (by decide)

end Tlibc.Boot.BzImage
