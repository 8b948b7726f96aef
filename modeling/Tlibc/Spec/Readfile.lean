import Tlibc.Spec.ReadDisk
import Tlibc.Spec.Vmlinux

/-!
# What `__k_readfile` reads

The bytes of a range of the disk are copied out of the scratch buffer sector by sector, the
first and the last sector in part.

* `kReadfile_reads`: the range is at the destination, and nothing else has changed
* `kReadfile_of_ports`: the loader that runs on a stack reads the same
-/

namespace Tlibc.Boot.Ports

open Vmlinux

variable {drive : Drive} {s : Controller × Mem} {m : Mem} {addr fstart foff fsize : UInt32}

/-- The addresses from `addr` on, which may wrap around, are not in the scratch buffer. -/
def OffScratch (addr : UInt32) (n : Nat) : Prop :=
  ∀ i, i < n → (addr + UInt32.ofNat i).toNat ∉ scratch

/-- What is behind a chunk is off the scratch buffer too. -/
private theorem OffScratch.rest {nb : UInt32} {n : Nat} (h : OffScratch addr n)
    (hle : nb.toNat ≤ n) :
    OffScratch (addr + nb) (n - nb.toNat) := by
  intro i hi
  rw [add_add_ofNat]
  exact h (nb.toNat + i) (by omega)

/-! ## One pass -/

/-- A byte of the sector in the scratch buffer. -/
private theorem toNat_source {readStart : UInt32} {i : Nat} (h : readStart.toNat + i < 512) :
    (sectorDataStart + (UInt32.ofNat i + readStart)).toNat = 0x1000 + (readStart.toNat + i) := by
  rw [UInt32.toNat_add, UInt32.toNat_add, toNat_ofNat_lt (by omega),
    show sectorDataStart.toNat = 0x1000 from rfl]
  omega

/-- The copy never reads what it has stored. -/
private theorem copySector_in {dst readStart : UInt32} {n i : Nat} (hn : readStart.toNat + n ≤ 512)
    (hoff : OffScratch dst n) (hi : i < n) :
    copySector dst readStart n m (dst + UInt32.ofNat i).toNat = m (0x1000 + (readStart.toNat + i)) := by
  -- the bytes of the destination are different ones
  have hdst : ∀ j, j < n → ∀ k, k < j →
      (dst + UInt32.ofNat j).toNat ≠ (dst + UInt32.ofNat k).toNat := by
    intro j hj k hk heq
    have := (add_ofNat_inj (by omega) (by omega)).mp heq
    omega
  -- none of them is in the scratch buffer that is read from
  have hapart : ∀ j, j < n → ∀ k, k < j →
      (sectorDataStart + (UInt32.ofNat j + readStart)).toNat ≠ (dst + UInt32.ofNat k).toNat := by
    intro j hj k hk heq
    apply hoff k (by omega)
    rw [← heq, toNat_source (by omega)]
    exact ⟨by omega, by omega⟩
  -- so every byte is copied as it was
  rw [copySector, Loop.copyUp_apply (d := 0) hdst
    (fun j hj k hk => iff_of_false (hapart j hj k hk) (by omega)) hi, Nat.mod_zero,
    toNat_source (by omega)]

/-- Nothing is copied outside the destination. -/
private theorem copySector_out {dst readStart : UInt32} {n a : Nat}
    (ha : ∀ i, i < n → a ≠ (dst + UInt32.ofNat i).toNat) : copySector dst readStart n m a = m a :=
  Loop.copyUp_out ha

/-- The sector that `foff` is in. -/
private theorem sector_lt (hrange : fstart.toNat * 512 + foff.toNat + fsize.toNat < 2 ^ 32) :
    (fstart + foff / 512).toNat < 2 ^ 28 := by
  rw [UInt32.toNat_add, UInt32.toNat_div, show (512 : UInt32).toNat = 512 from rfl]
  omega

/-- The scratch buffer holds the sector, and nothing else changes. -/
private theorem readDisk_scratch (drive : Drive) (s : Controller × Mem) {sect : UInt32}
    (hsect : sect.toNat < 2 ^ 28) :
    (∀ i, i < 512 → (readDisk drive sectorDataStart sect s).2 (0x1000 + i) =
      (drive.disk.sector sect).getD i 0) ∧
        Mem.Frame scratch s.2 (readDisk drive sectorDataStart sect s).2 := by
  rw [readDisk_ok drive s (by decide) hsect]
  exact ⟨fun i hi => write_sector _ _ _ _ hi, frame_sector _ _ _ _⟩

/-! ## All of the range -/

/-- The `n` bytes of a file from `pos` on are at `addr`, and nothing else outside of the
    scratch buffer has changed. -/
structure Reads (f : Mem) (pos n : Nat) (addr : UInt32) (m m' : Mem) : Prop where
  bytes : ∀ i, i < n → m' (addr + UInt32.ofNat i).toNat = f (pos + i)
  frame : ∀ a, a ∉ scratch → (∀ i, i < n → a ≠ (addr + UInt32.ofNat i).toNat) → m' a = m a

/-- Chunk after chunk, the bytes of the file come to their places. -/
private theorem kReadfile_ok (hrange : fstart.toNat * 512 + foff.toNat + fsize.toNat < 2 ^ 32)
    (hoff : OffScratch addr fsize.toNat) :
    Reads (drive.disk.file fstart) foff.toNat fsize.toNat addr s.2
      (kReadfile drive addr fstart foff fsize s).2 := by
  -- the induction is on the bytes that are left, for every destination and offset
  fun_induction kReadfile drive addr fstart foff fsize s with
  | case1 addr foff s =>
    exact ⟨fun i hi => absurd hi (Nat.not_lt_zero i), fun a _ _ => rfl⟩
  | case2 addr foff fsize s hend readStart sector nb s₁ m ih =>
    have hstart : readStart.toNat = foff.toNat % 512 := UInt32.toNat_mod _ _
    have hnb : nb.toNat = min (512 - foff.toNat % 512) fsize.toNat := toNat_chunk foff fsize
    have hsub : (fsize - nb).toNat = fsize.toNat - nb.toNat := toNat_sub_chunk foff fsize
    have hadd : (foff + nb).toNat = foff.toNat + nb.toNat := by
      rw [UInt32.toNat_add]
      omega
    have hfile : ∀ i, foff.toNat % 512 + i < 512 →
        (drive.disk.sector sector).getD (foff.toNat % 512 + i) 0 =
          drive.disk.file fstart (foff.toNat + i) := fun i hi => file_chunk _ _ _ hi
    have hsect : sector.toNat < 2 ^ 28 := sector_lt hrange
    obtain ⟨hread, hkept⟩ := readDisk_scratch drive s hsect
    have hfsize := fsize.toNat_lt
    clear_value readStart sector nb
    obtain ⟨hrest, hframe⟩ := ih (by omega) (by rw [hsub]; exact hoff.rest (by omega))
    have hhere : OffScratch addr nb.toNat := fun i hi => hoff i (by omega)
    refine ⟨fun i hi => ?_, fun a hscratch hout => ?_⟩
    · by_cases hin : i < nb.toNat
      · -- stored in this pass, and by no later one
        have hlater : ∀ j, j < (fsize - nb).toNat →
            (addr + UInt32.ofNat i).toNat ≠ (addr + nb + UInt32.ofNat j).toNat := by
          intro j hj heq
          rw [add_add_ofNat] at heq
          have := (add_ofNat_inj (by omega) (by omega)).mp heq
          omega
        rw [hframe _ (hoff i hi) hlater]
        show copySector addr readStart nb.toNat s₁.2 _ = _
        rw [copySector_in (by omega) hhere hin, hread _ (by omega), hstart, hfile i (by omega)]
      · -- in the rest of the range
        obtain ⟨j, rfl⟩ := Nat.exists_eq_add_of_le (Nat.not_lt.mp hin)
        rw [← add_add_ofNat, hrest j (by omega), hadd, Nat.add_assoc]
    · -- no pass stores outside of its own part
      rw [hframe a hscratch fun j hj => by
        rw [add_add_ofNat]
        exact hout _ (by omega)]
      show copySector addr readStart nb.toNat s₁.2 a = _
      rw [copySector_out fun i hi => hout i (by omega)]
      exact hkept.apply hscratch

/-- For every content of the disk, and whatever state the controller is in, `__k_readfile`
    reads the bytes of the disk from `fstart * 512 + foff` on. -/
theorem kReadfile_reads (drive : Drive) (addr fstart foff fsize : UInt32) (c : Controller) (m : Mem)
    (hrange : fstart.toNat * 512 + foff.toNat + fsize.toNat < 2 ^ 32)
    (hoff : OffScratch addr fsize.toNat) :
    Reads (drive.disk.file 0) (fstart.toNat * 512 + foff.toNat) fsize.toNat addr m
      (kReadfile drive addr fstart foff fsize (c, m)).2 := by
  obtain ⟨hbytes, hkept⟩ := @kReadfile_ok drive (c, m) addr fstart foff fsize hrange hoff
  refine ⟨fun i hi => ?_, hkept⟩
  have hfile := file_add drive.disk 0 fstart.toNat (foff.toNat + i)
  rw [UInt32.ofNat_toNat, UInt32.zero_add] at hfile
  rw [hbytes i hi, hfile, Nat.mul_comm, Nat.add_assoc]

/-- A disk on which each byte is its own number, modulo 256. -/
def counting : Drive := ⟨Disk.ofFile 0 fun j => UInt8.ofNat j, fun _ => 3⟩

/-- What is in memory when 600 bytes from the middle of a sector on have been read to 1 MiB. -/
def countingMem : Mem :=
  (kReadfile counting 0x100000 539 100 600 (⟨0, 0, 0, 0, 0, 7, []⟩, fun _ => 1)).2

/-- The last of these bytes is there, and the one behind it is not. -/
theorem countingMem_last : countingMem 0x100257 = UInt8.ofNat (539 * 512 + 100 + 599) ∧
    countingMem 0x100258 = 1 := by
  -- the destination does not wrap
  have haddr : ∀ i, i < 600 → (0x100000 + UInt32.ofNat i).toNat = 0x100000 + i := by
    intro i hi
    rw [UInt32.toNat_add, toNat_ofNat_lt (by omega), show (0x100000 : UInt32).toNat = 0x100000 from rfl]
    omega
  have hoff : OffScratch 0x100000 (600 : UInt32).toNat := by
    intro i hi
    rw [haddr i hi, scratch, Set.mem_Ico]
    omega
  have hreads := kReadfile_reads counting 0x100000 539 100 600 ⟨0, 0, 0, 0, 0, 7, []⟩ (fun _ => 1)
    -- the file is read from its second sector on
    (by decide) hoff
  refine ⟨(hreads.bytes 599 (by decide)).trans (file_ofFile (by decide)),
    hreads.frame 0x100258 (show ¬ (0x1000 ≤ 0x100258 ∧ 0x100258 < 0x1200) by decide) fun i hi => ?_⟩
  have hi : i < 600 := hi
  rw [haddr i hi]
  omega

/-! ## The loader on its stack -/

/-- Where no store faults, the copy is the one of the other model. -/
private theorem copySector_of_ok {stack : Stack} {dst readStart : UInt32} {n : Nat} {m' : Mem}
    (h : Vmlinux.copySector stack m dst (sectorDataStart + readStart) n = .ok m') :
    copySector dst readStart n m = m' := by
  have hsource : ∀ i, sectorDataStart + (UInt32.ofNat i + readStart) =
      sectorDataStart + readStart + UInt32.ofNat i := by
    intro i
    rw [UInt32.add_comm (UInt32.ofNat i), UInt32.add_assoc]
  rw [copySector_ok h, copySector]
  simp only [hsource]

/-- Where the loader gets by without a store into its own stack, it reads the same. -/
theorem kReadfile_of_ports {stack : Stack} {d : Disk} {m' : Mem} (time : UInt32 → Nat)
    (c : Controller) (hrange : fstart.toNat * 512 + foff.toNat + fsize.toNat < 2 ^ 32)
    (h : Vmlinux.kReadfile stack d m addr fstart foff fsize = .ok m') :
    (kReadfile ⟨d, time⟩ addr fstart foff fsize (c, m)).2 = m' := by
  -- both loops make the same passes
  induction hn : fsize.toNat using Nat.strongRecOn generalizing c m addr foff fsize with
  | ind n ih =>
    subst hn
    rw [Vmlinux.kReadfile] at h
    rw [kReadfile]
    split at h
    · next hend =>
      rw [dif_pos hend]
      exact Except.ok.inj h
    · next hend =>
      obtain ⟨m₁, h₁, h⟩ := Run.bind_eq_ok.mp h
      obtain ⟨m₂, h₂, h⟩ := Run.bind_eq_ok.mp h
      have hnb := toNat_chunk foff fsize
      have hsub := toNat_sub_chunk foff fsize
      have hadd : (foff + chunk foff fsize).toNat = foff.toNat + (chunk foff fsize).toNat := by
        have := fsize.toNat_lt
        rw [UInt32.toNat_add]
        omega
      have hsector := readDisk_of_ports time c (by decide) (sector_lt hrange) h₁
      have ih := ih _ (sub_chunk_lt hend)
        (readDisk ⟨d, time⟩ sectorDataStart (fstart + foff / 512) (c, m)).1 (by omega) h rfl
      rw [dif_neg hend]
      simp only [hsector, copySector_of_ok h₂]
      exact ih

end Tlibc.Boot.Ports
