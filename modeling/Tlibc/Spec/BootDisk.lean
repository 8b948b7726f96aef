import Tlibc.Native.Boot
import Mathlib.Data.List.GetD

/-!
# Reading a disk into memory

What `read_disk` and the loops over it leave in memory, for either way of compiling it, when
the address is a multiple of 16.

* `readSectors_ok`: consecutive sectors of a file go to consecutive addresses
* `readSectors_returns_iff`: they are read if none of them hits the stack
-/

namespace Tlibc.Boot

variable {access : DiskAccess} {stack : Stack} {d : Disk} {m m' : Mem} {buf sect : UInt32} {n : Nat}

/-- Every byte has another one next to it. -/
theorem byte_succ_ne (b : UInt8) : b + 1 ≠ b := by
  intro h
  have heq := congrArg UInt8.toNat h
  have hlt : b.toNat < 256 := b.toNat_lt
  rw [UInt8.toNat_add, show (1 : UInt8).toNat = 1 from rfl] at heq
  omega

/-- The file that begins at a sector, as far as the disk goes. -/
def Disk.file (d : Disk) (start : UInt32) : Mem :=
  fun j => (d.sector (start + UInt32.ofNat (j / sectSize))).getD (j % sectSize) 0

/-- The buffer that the BIOS reads into for addresses above 1 MiB. -/
def scratch : Set Nat := Set.Ico 0x1000 0x1200

/-- A byte of a file is in the sector that its offset says. -/
theorem file_sector (d : Disk) (start : UInt32) {i r : Nat} (hr : r < 512) :
    d.file start (512 * i + r) = (d.sector (start + UInt32.ofNat i)).getD r 0 := by
  have hdiv : (512 * i + r) / sectSize = i := by
    rw [show sectSize = 512 from rfl]
    omega
  have hmod : (512 * i + r) % sectSize = r := by
    rw [show sectSize = 512 from rfl]
    omega
  rw [Disk.file, hdiv, hmod]

/-- A file that begins `n` sectors further on. -/
theorem file_add (d : Disk) (start : UInt32) (n i : Nat) :
    d.file (start + UInt32.ofNat n) i = d.file start (512 * n + i) := by
  have hdiv : (512 * n + i) / sectSize = n + i / sectSize := Nat.mul_add_div (by decide) n i
  have hmod : (512 * n + i) % sectSize = i % sectSize := Nat.mul_add_mod 512 n i
  rw [Disk.file, Disk.file, hdiv, hmod, UInt32.ofNat_add, UInt32.add_assoc]

/-- A disk with a file from sector `start` on. -/
def Disk.ofFile (start : UInt32) (f : Mem) : Disk where
  sector s := f.read (512 * (s - start).toNat) sectSize
  length_sector _ := Mem.length_read _ _ _

/-- The file of such a disk is the one it was made of. -/
theorem file_ofFile {start : UInt32} {f : Mem} {j : Nat} (hj : j < 2 ^ 32) :
    (Disk.ofFile start f).file start j = f j := by
  have hr : j % sectSize < 512 := Nat.mod_lt _ (by decide)
  have hsub : start + UInt32.ofNat (j / sectSize) - start = UInt32.ofNat (j / sectSize) := by
    rw [UInt32.add_comm, UInt32.add_sub_cancel]
  have hdiv : j / sectSize < UInt32.size := Nat.lt_of_le_of_lt (Nat.div_le_self _ _) hj
  have hj' : 512 * (j / sectSize) + j % sectSize = j := Nat.div_add_mod j 512
  have hlen : j % sectSize < (f.read (512 * (j / sectSize)) sectSize).length := by
    rw [Mem.length_read]
    exact hr
  simp only [Disk.file, Disk.ofFile]
  rw [hsub, UInt32.toNat_ofNat_of_lt' hdiv, List.getD_eq_getElem _ _ hlen,
    Mem.getElem_read, hj']

/-! ## Fields -/

/-- A store to a member changes the bytes of that member only. -/
theorem frame_setField (base : Nat) (f : Field) (v : Nat) :
    Mem.Frame (Set.Ico (base + f.off) (base + f.off + f.width.bytes)) m (setField m base f v) := by
  have h := Mem.frame_write m (base + f.off) (Mem.leBytes f.width.bytes v)
  rwa [Mem.length_leBytes] at h

/-- A member is read back as it was stored, if it is wide enough. -/
theorem getField_setField_self (base : Nat) (f : Field) {v : Nat} (hv : v < 256 ^ f.width.bytes) :
    getField (setField m base f v) base f = v := Mem.load_write_of_lt hv

/-- A store to another member leaves it alone. -/
theorem getField_setField_ne {base base' : Nat} {f g : Field} {v : Nat}
    (h : base + f.off + f.width.bytes ≤ base' + g.off ∨
      base' + g.off + g.width.bytes ≤ base + f.off) :
    getField (setField m base' g v) base f = getField m base f :=
  Mem.load_write_ne (by rwa [Mem.length_leBytes])

/-! ## One sector -/

/-- A byte of a sector that was stored. -/
theorem write_sector (d : Disk) (sect : UInt32) (m : Mem) (off : Nat) {i : Nat} (hi : i < 512) :
    m.write off (d.sector sect) (off + i) = (d.sector sect).getD i 0 := by
  have hin : i < (d.sector sect).length := by rwa [d.length_sector sect]
  rw [Mem.write_apply_in hin, List.getD_eq_getElem _ _ hin]

/-- A sector is 512 bytes. -/
theorem frame_sector (d : Disk) (sect : UInt32) (m : Mem) (off : Nat) :
    Mem.Frame (Set.Ico off (off + 512)) m (m.write off (d.sector sect)) := by
  have hframe := Mem.frame_write m off (d.sector sect)
  rwa [d.length_sector sect] at hframe

/-- A sector is read back from where it was stored. -/
theorem read_sector (d : Disk) (sect : UInt32) (m : Mem) (off : Nat) :
    (m.write off (d.sector sect)).read off sectSize = d.sector sect := by
  rw [← d.length_sector sect]
  exact Mem.read_write_self _ _ _

/-- A store that is no fault stores the sector. -/
theorem storeSector_ok {bytes : List UInt8} (h : storeSector stack m buf bytes = .ok m') :
    m' = m.write buf.toNat bytes := by
  rw [storeSector] at h
  split at h
  · cases h
    rfl
  · cases h

/-- It is no fault exactly when the sector is off the stack. -/
theorem storeSector_returns_iff {bytes : List UInt8} :
    (∃ m', storeSector stack m buf bytes = .ok m') ↔ stack.Off buf.toNat sectSize := by
  rw [storeSector]
  constructor
  · rintro ⟨m', h⟩
    by_contra hon
    rw [if_neg hon] at h
    cases h
  · intro hoff
    exact ⟨_, if_pos hoff⟩

/-- The bytes of the stack in use. -/
def Stack.area (stack : Stack) : Set Nat := Set.Ico (stackTop - stack.size) stackTop

/-- A byte is off the stack when it is not in its area. -/
theorem Stack.off_iff {a : Nat} : stack.Off a 1 ↔ a ∉ stack.area := by
  have hpos := stack.pos
  rw [Stack.Off, Stack.area, Set.mem_Ico, stackTop]
  omega

/-- The scratch buffer and what is above 1 MiB are not on the stack. -/
theorem Stack.off_scratch (stack : Stack) : stack.Off 0x1000 sectSize := by
  have hfits := stack.fits
  rw [stackTop] at hfits
  rw [Stack.Off, stackTop, sectSize]
  omega

/-- Nothing above 1 MiB is on the stack. -/
theorem Stack.off_high (stack : Stack) {lo : Nat} (h : 0x100000 ≤ lo) (n : Nat) : stack.Off lo n :=
  .inr (Nat.le_trans (by decide) h)

/-- Where the segment begins that an address is in. -/
theorem toNat_segment (a : UInt32) : (16 * (a / 16)).toNat = 16 * (a.toNat / 16) := by
  have hlt := a.toNat_lt
  rw [UInt32.toNat_mul, UInt32.toNat_div, show (16 : UInt32).toNat = 16 from rfl]
  omega

/-- Below 1 MiB the BIOS stores the sector at the beginning of the segment. -/
theorem readDisk_bios_below (h : ¬ 0x100000 ≤ buf) :
    readDisk .bios stack d m buf sect = storeSector stack m (16 * (buf / 16)) (d.sector sect) := by
  rw [readDisk]
  simp only [if_neg h, ne_eq, not_true_eq_false, if_false]
  exact bind_pure _

/-- At the beginning of a segment it does what the ports do. -/
private theorem readDisk_bios_low (halign : buf.toNat % 16 = 0) (h : ¬ 0x100000 ≤ buf) :
    readDisk .bios stack d m buf sect = readDisk .ports stack d m buf sect := by
  have hstart : 16 * (buf / 16) = buf := by
    rw [← UInt32.toNat_inj, toNat_segment]
    omega
  rw [readDisk_bios_below h, hstart, readDisk]

/-- Above 1 MiB the sector goes to the scratch buffer and is copied. -/
theorem readDisk_bios_high (h : 0x100000 ≤ buf) :
    readDisk .bios stack d m buf sect =
      storeSector stack m 0x1000 (d.sector sect) >>= fun m =>
        storeSector stack m buf (m.read 0x1000 sectSize) := by
  have hne : (0x1000 : UInt32) ≠ buf := by
    rintro rfl
    exact absurd h (by decide)
  rw [readDisk]
  simp only [if_pos h, if_pos hne]
  rfl

/-- By way of the scratch buffer, the sector is stored twice. -/
theorem readDisk_bios_high_ok (h : 0x100000 ≤ buf)
    (hok : readDisk .bios stack d m buf sect = .ok m') :
    m' = (m.write 0x1000 (d.sector sect)).write buf.toNat (d.sector sect) := by
  rw [readDisk_bios_high h] at hok
  obtain ⟨m₁, h₁, h₂⟩ := Run.bind_eq_ok.mp hok
  have hm₁ : m₁ = m.write 0x1000 (d.sector sect) := storeSector_ok h₁
  rw [storeSector_ok h₂, hm₁, read_sector]

/-- A sector is read if its place is not on the stack. -/
theorem readDisk_returns_iff (halign : buf.toNat % 16 = 0) :
    (∃ m', readDisk access stack d m buf sect = .ok m') ↔ stack.Off buf.toNat sectSize := by
  cases access with
  | ports => exact storeSector_returns_iff
  | bios =>
    by_cases hbuf : 0x100000 ≤ buf
    · have hoff : stack.Off buf.toNat sectSize := stack.off_high (UInt32.le_iff_toNat_le.mp hbuf) _
      rw [readDisk_bios_high hbuf]
      refine iff_of_true ?_ hoff
      obtain ⟨m₁, h₁⟩ := storeSector_returns_iff.mpr
        (show stack.Off (0x1000 : UInt32).toNat sectSize from stack.off_scratch)
      obtain ⟨m₂, h₂⟩ := (@storeSector_returns_iff stack m₁ buf _).mpr hoff
      exact ⟨m₂, Run.bind_eq_ok.mpr ⟨m₁, h₁, h₂⟩⟩
    · rw [readDisk_bios_low halign hbuf]
      exact storeSector_returns_iff

/-- `read_disk` leaves the sector at its place and touches nothing else but the scratch
    buffer. -/
theorem readDisk_ok (halign : buf.toNat % 16 = 0)
    (h : readDisk access stack d m buf sect = .ok m') :
    (∀ i, i < 512 → m' (buf.toNat + i) = (d.sector sect).getD i 0) ∧
      Mem.Frame (Set.Ico buf.toNat (buf.toNat + 512) ∪ scratch) m m' := by
  have hplace := fun m => (frame_sector d sect m buf.toNat).mono
    (Set.subset_union_left : _ ⊆ Set.Ico buf.toNat (buf.toNat + 512) ∪ scratch)
  by_cases hbios : access = .bios ∧ 0x100000 ≤ buf
  · -- by way of the scratch buffer
    obtain ⟨rfl, hbuf⟩ := hbios
    have hscratch : Mem.Frame scratch m (m.write 0x1000 (d.sector sect)) := frame_sector d sect m _
    rw [readDisk_bios_high_ok hbuf h]
    exact ⟨fun i hi => write_sector d sect _ _ hi,
      (hscratch.mono Set.subset_union_right).trans (hplace _)⟩
  · -- with ports, or from the BIOS straight to its place
    have h : readDisk .ports stack d m buf sect = .ok m' := by
      cases access with
      | ports => exact h
      | bios => rwa [readDisk_bios_low halign fun hbuf => hbios ⟨rfl, hbuf⟩] at h
    rw [storeSector_ok h]
    exact ⟨fun i hi => write_sector d sect _ _ hi, hplace m⟩

/-! ## Consecutive sectors -/

/-- The address of a sector does not wrap around below 4 GiB. -/
theorem toNat_add_sectors {i : Nat} (h : buf.toNat + 512 * i < 2 ^ 32) :
    (buf + 512 * UInt32.ofNat i).toNat = buf.toNat + 512 * i := by
  have hi : i < 2 ^ 32 := by omega
  rw [UInt32.toNat_add, UInt32.toNat_mul, UInt32.toNat_ofNat', Nat.mod_eq_of_lt hi,
    show (512 : UInt32).toNat = 512 from rfl, Nat.mod_eq_of_lt (show 512 * i < 2 ^ 32 by omega),
    Nat.mod_eq_of_lt h]

/-- The loop returns exactly when none of its sectors hits the stack. -/
theorem readSectors_returns_iff (halign : buf.toNat % 16 = 0)
    (hbuf : buf.toNat + 512 * n ≤ 2 ^ 32) :
    (∃ m', readSectors access stack d m buf sect n = .ok m') ↔
      ∀ i, i < n → stack.Off (buf.toNat + 512 * i) sectSize :=
  Loop.forLoop_returns_iff fun i m hi => by
    rw [← toNat_add_sectors (show buf.toNat + 512 * i < 2 ^ 32 by omega)]
    exact readDisk_returns_iff (by rw [toNat_add_sectors (by omega)]; omega)

/-- The loop leaves `n` sectors of the file at `buf`. -/
theorem readSectors_ok (halign : buf.toNat % 16 = 0) (hlow : 0x1200 ≤ buf.toNat)
    (hbuf : buf.toNat + 512 * n ≤ 2 ^ 32)
    (h : readSectors access stack d m buf sect n = .ok m') :
    (∀ j, j < 512 * n → m' (buf.toNat + j) = d.file sect j) ∧
      Mem.Frame (Set.Ico buf.toNat (buf.toNat + 512 * n) ∪ scratch) m m' := by
  refine Loop.forLoop_keeps (fun i m' => (∀ j, j < 512 * i → m' (buf.toNat + j) = d.file sect j) ∧
    Mem.Frame (Set.Ico buf.toNat (buf.toNat + 512 * i) ∪ scratch) m m')
    (fun i m₁ m₂ hi hm₁ hok => ?_) ⟨fun j hj => absurd hj (by omega), Mem.Frame.refl _ _⟩ h
  obtain ⟨hdone, hframe⟩ := hm₁
  have haddr := toNat_add_sectors (show buf.toNat + 512 * i < 2 ^ 32 by omega)
  obtain ⟨hread, hplace⟩ := readDisk_ok (by rw [haddr]; omega) hok
  rw [haddr] at hread hplace
  refine ⟨fun j hj => ?_, (hframe.mono ?_).trans (hplace.mono ?_)⟩
  · by_cases hold : j < 512 * i
    · -- read before, and not touched now
      rw [hplace.apply, hdone j hold]
      rintro (⟨hge, -⟩ | ⟨-, hlt⟩) <;> omega
    · -- in the sector of this pass
      obtain ⟨r, rfl⟩ := Nat.exists_eq_add_of_le (Nat.not_lt.mp hold)
      rw [file_sector d sect (show r < 512 by omega), ← Nat.add_assoc]
      exact hread r (by omega)
  · exact Set.union_subset_union_left _ (Set.Ico_subset_Ico_right (by omega))
  · exact Set.union_subset_union_left _ (Set.Ico_subset_Ico (by omega) (by omega))

end Tlibc.Boot
