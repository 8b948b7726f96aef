import Tlibc.Spec.FatLedger
import Tlibc.Spec.GptImage
import Tlibc.Spec.Installer

/-!
# The size of the first partition

`-s` is an `int` that is converted to 64 bits, multiplied, compared with the disk,
divided into sectors and cut to 32 bits.

* `mkpart_check_exact`: a size that passes the check of `mkpart` was not negative,
  and nothing wrapped on the way
* `installer_formats_iff`: a size that passes may still make a volume `createFAT32`
  rejects, or one whose boot sector it clears again
-/

namespace Tlibc.Installer

open Gpt Fat

/-! ## The check of `mkpart` -/

/-- The conversion of an `int` to `size_t`. -/
private theorem bootSizeOf_toNat (s : Int32) :
    ((bootSizeOf s).toNat : Int) = if 0 ≤ s.toInt then s.toInt else 2 ^ 64 + s.toInt := by
  have hext : s.toInt64.toInt = s.toInt := Int32.toInt_toInt64 s
  have hbits : s.toInt64.toInt =
      if 2 * s.toInt64.toBitVec.toNat < 2 ^ 64 then (s.toInt64.toBitVec.toNat : Int)
      else (s.toInt64.toBitVec.toNat : Int) - (2 ^ 64 : Nat) := BitVec.toInt_eq_toNat_cond _
  have hlt := s.toInt64.toBitVec.isLt
  have hnat : (bootSizeOf s).toNat = s.toInt64.toBitVec.toNat := rfl
  rw [hnat]
  split_ifs at hbits ⊢ with hneg hpos hpos
  · omega
  · omega
  · omega
  · omega

/-- A negative size is larger than every disk, so a size that passes the check is
    what was asked for. -/
private theorem bootSizeOf_checked {diskSize : UInt64} {s : Int32} (hdisk : diskSize.toNat < 2 ^ 63)
    (hcheck : ¬ bootSizeOf s * (1024 * 1024) + blockSize * 64 > diskSize) :
    0 ≤ s.toInt ∧ (bootSizeOf s).toNat = s.toInt.toNat ∧
      s.toInt.toNat * 2 ^ 20 + 32768 ≤ diskSize.toNat := by
  have hmib : (1024 * 1024 : UInt64).toNat = 2 ^ 20 := by decide
  have h64 : (blockSize * 64).toNat = 32768 := by decide
  have hsize := bootSizeOf_toNat s
  have hlo := s.le_toInt
  have hhi := s.toInt_lt
  have hle := UInt64.le_iff_toNat_le.mp (UInt64.not_lt.mp hcheck)
  rw [UInt64.toNat_add, h64, UInt64.toNat_mul, hmib] at hle
  -- a negative size would be a huge one as a 64-bit value, which the check does not pass
  have hpos : 0 ≤ s.toInt := by
    by_contra hneg
    rw [if_neg hneg] at hsize
    omega
  rw [if_pos hpos] at hsize
  refine ⟨hpos, by omega, by omega⟩

/-- The sectors of a list of partitions laid one after another. -/
private theorem placed_sectors (ps : List PartitionConfig) {start stop : Nat}
    (hstop : stop < 2 ^ 64)
    (hsum : start + (volumes ps).sum = stop) :
    {x | ∃ p ∈ placed start ps, x ∈ p.sectors} = Set.Ico start stop := by
  -- induction on the partitions, each of which starts where the one before it ends
  induction ps generalizing start with
  | nil =>
    rw [← hsum]
    simp [placed, volumes]
  | cons p ps ih =>
    have hcons : (volumes (p :: ps)).sum = p.volume.toNat + (volumes ps).sum := List.sum_cons
    have hrest := @ih (start + p.volume.toNat) (by omega)
    have hhead : ({ p with startLBA := UInt64.ofNat start } : PartitionConfig).sectors =
        Set.Ico start (start + p.volume.toNat) := by
      rw [PartitionConfig.sectors, UInt64.toNat_ofNat', Nat.mod_eq_of_lt (by omega)]
    ext x
    -- a sector is in the first partition, or in one of the others
    have hmem : (∃ q ∈ placed start (p :: ps), x ∈ q.sectors) ↔
        (start ≤ x ∧ x < start + p.volume.toNat) ∨
          (start + p.volume.toNat ≤ x ∧ x < stop) := by
      rw [placed]
      simp only [List.mem_cons, exists_eq_or_imp, hhead]
      exact or_congr Iff.rfl (Set.ext_iff.mp hrest x)
    show (∃ q ∈ placed start (p :: ps), x ∈ q.sectors) ↔ start ≤ x ∧ x < stop
    rw [hmem]
    omega

/-- A size that passes the check is what was asked for, `mkpart` computes with it
    without wrapping, and the two partitions fill the disk. -/
theorem mkpart_check_exact (h : Host) (m : Mem) (buf : Nat) (diskSize : UInt64) (s : Int32)
    (hdisk : diskSize.toNat < 2 ^ 63)
    (hcheck : ¬ bootSizeOf s * (1024 * 1024) + blockSize * 64 > diskSize) :
    let volume := diskSize / blockSize
    let bootBytes := bootSizeOf s * (1024 * 1024)
    0 ≤ s.toInt ∧ ((bootSizeOf s).toNat : Int) = s.toInt ∧
      (bootBytes.toNat : Int) = s.toInt * (1024 * 1024) ∧
      (bootBytes + blockSize * 64).toNat = bootBytes.toNat + 512 * 64 ∧
      (volume - 5).toNat + 5 = volume.toNat ∧
      (volume - 5 - bootBytes / blockSize).toNat + bootBytes.toNat / 512 = (volume - 5).toNat ∧
      ∃ result, mkpart h m buf diskSize (bootSizeOf s) = .ok result ∧ result.ret = 2 ∧
        result.partitions.length = 2 ∧
        {x | ∃ p ∈ result.partitions, x ∈ p.sectors} =
          Set.Icc 3 (diskSize.toNat / 512 - 3) := by
  intro volume bootBytes
  obtain ⟨hpos, hsize, hfits⟩ := bootSizeOf_checked hdisk hcheck
  have hmib : (1024 * 1024 : UInt64).toNat = 2 ^ 20 := by decide
  have hblock : blockSize.toNat = 512 := by decide
  have h64 : (blockSize * 64).toNat = 32768 := by decide
  have h5 : (5 : UInt64).toNat = 5 := rfl
  -- with the size in bounds nothing wraps
  have hvolume : volume.toNat = diskSize.toNat / 512 := by
    rw [UInt64.toNat_div, hblock]
  have hbytes : bootBytes.toNat = s.toInt.toNat * 2 ^ 20 := by
    rw [UInt64.toNat_mul, hsize, hmib, Nat.mod_eq_of_lt (by omega)]
  have hboot : (bootBytes / blockSize).toNat = s.toInt.toNat * 2048 := by
    rw [UInt64.toNat_div, hbytes, hblock]
    omega
  have hsub : (volume - 5).toNat = volume.toNat - 5 := by
    rw [UInt64.toNat_sub, h5]
    omega
  have hrest : (volume - 5 - bootBytes / blockSize).toNat =
      volume.toNat - 5 - s.toInt.toNat * 2048 := by
    rw [UInt64.toNat_sub, hsub, hboot]
    omega
  obtain ⟨result, hpart⟩ := mkpart_succeeds h m buf (UInt64.not_lt.mp hcheck)
  refine ⟨hpos, by omega, by omega, ?_, by omega, by omega, result, hpart,
    (mkpart_result hpart).2, ?_, ?_⟩
  · rw [UInt64.toNat_add, h64, Nat.mod_eq_of_lt (by omega)]
  · rw [mkpart_partitions hpart]
    rfl
  · -- the two partitions together take all sectors from the third one up to the last but two
    rw [mkpart_partitions hpart]
    have hsum : 3 + (volumes (twoPartitions volume (bootBytes / blockSize)).partitions).sum =
        diskSize.toNat / 512 - 2 := by
      have hvolumes : volumes (twoPartitions volume (bootBytes / blockSize)).partitions =
          [(bootBytes / blockSize).toNat, (volume - 5 - bootBytes / blockSize).toNat] := rfl
      rw [hvolumes, hrest, hboot, List.sum_cons, List.sum_cons, List.sum_nil]
      omega
    rw [placed_sectors _ (by omega) hsum]
    ext x
    show 3 ≤ x ∧ x < diskSize.toNat / 512 - 2 ↔ 3 ≤ x ∧ x ≤ diskSize.toNat / 512 - 3
    omega

theorem mkpart_check_exact_default :
    ∃ result, mkpart .little (fun _ => 0) 0 (256 * (1024 * 1024)) (bootSizeOf 64) = .ok result ∧
      {x | ∃ p ∈ result.partitions, x ∈ p.sectors} = Set.Icc 3 524285 := by
  obtain ⟨-, -, -, -, -, -, result, hpart, -, -, hsectors⟩ := mkpart_check_exact .little
    (fun _ => 0) 0 (256 * (1024 * 1024)) 64 (by decide) (by decide)
  exact ⟨result, hpart, hsectors⟩

/-! ## What `createFAT32` makes of the size -/

/-- The volume at `buf` still has the boot sector that was stored, and neither
    `FAT32SuperInit` nor a call divides by zero on it. -/
structure Parses (h : Host) (stored m : Mem) (buf : Nat) : Prop where
  boot : ∀ i, i < BPB.size → m (buf + i) = stored (buf + i)
  superInit : fat32SuperInit h m buf ≠ .error .divByZero
  step : ∀ c, rawStep h buf m c ≠ .error .divByZero

/-- If the call gets as far as the transfer, its first cluster lies below byte
    `2 ^ 32` of the volume. -/
def TransferBelow (config : FATConfig) (buf : Nat) (m : Mem) (c : RawCall) : Prop :=
  ∀ stSize, c.fd.fstat = .ok stSize → config.nextFree buf m ≤ config.maxCluster →
    u32 stSize.toNat ≤ u32 (config.clusterBytes * (config.maxCluster - config.nextFree buf m)) →
    config.RootHasRoom buf m →
    config.rootBytes + (config.nextFree buf m - 2) * config.clusterBytes < 2 ^ 32

section

variable {h : Host} {m m' : Mem} {buf n : Nat}

/-- A config that passes the checks is formatted, whether or not its tables can be
    addressed. -/
theorem createFAT32_returns (h : Host) (m : Mem) (buf : Nat) {config : FATConfig}
    (ha : config.Accepted) : ∃ m', createFAT32 h m buf config = .ok (0, m') := by
  unfold createFAT32
  simp only [ha.valid, Bool.not_true, Bool.false_eq_true, if_false, ensure_of ha.clusters,
    Run.ok_bind]
  exact ⟨_, rfl⟩

/-- A volume without sectors is rejected, and nothing is written. -/
private theorem createFAT32_zero (h : Host) (m : Mem) (buf : Nat) :
    createFAT32 h m buf (mebiVolume 0) = .ok (1, m) := rfl

theorem mebiVolume_accepted_iff (hn : n < 2 ^ 21) : (mebiVolume n).Accepted ↔ n ≠ 0 := by
  -- the volume has 2048 sectors for each MiB
  have hsec := mebiVolume_nSector hn
  constructor
  · rintro ha rfl
    have h16 := ha.nSector
    omega
  · intro hne
    -- with one MiB at least all checks are passed
    refine ⟨by omega, ?_, ?_, ?_⟩
    · show (512 : UInt32).toNat ∈ [512, 1024, 2048, 4096]
      decide
    · show (8 : UInt32).toNat ∈ [1, 2, 4, 8, 16, 32, 64, 128]
      decide
    · have h8 : (mebiVolume n).clusterSize.toNat = 8 := by
        show (8 : UInt32).toNat = 8
        decide
      rw [FATConfig.numClusterOnDisk, hsec, h8]
      omega

/-- One size aside, the boot sector is the one that was stored. -/
private theorem mebiVolume_boot (hn : n < 2 ^ 21) (hne : n ≠ 2 ^ 21 - 2)
    (hcreate : createFAT32 h m buf (mebiVolume n) = .ok (0, m')) {i : Nat} (hi : i < 512) :
    m' (buf + i) = storeBPB h m buf (mebiVolume n) (buf + i) := by
  -- the second table and the root directory start behind it
  have hoffsets : 512 ≤ u32 ((mebiVolume n).bytesPerSector.toNat *
      u32 (numReservedSector + (mebiVolume n).fatSizeInSector)) ∧
      512 ≤ (mebiVolume n).dataOffset := by
    by_cases hlast : n = 2 ^ 21 - 1
    · rw [hlast]
      decide +kernel
    · have ha := createFAT32_accepted hcreate
      have hs := (mebiVolume_addressable_iff hn).mpr (show n + 2 < 2 ^ 21 by omega)
      obtain ⟨g, hg⟩ : ∃ g, (mebiVolume n).Laid g := ⟨_, (mebiVolume n).geometry_laid ha hs⟩
      have hbps := g.bytesPerSector_bounds
      have htab := g.table_zero
      have htab1 := g.table_one
      have hroot := g.root_eq_table
      rw [hg.secondTable, hg.dataOffset]
      omega
  obtain ⟨m₀, rfl, hboot⟩ := createFAT32_last hcreate hoffsets.1
  rw [Mem.fill_apply_out (by omega), hboot _ (by omega) (by omega)]

/-- Without a super block a call returns before it touches the volume, or fails as
    `FAT32SuperInit` does. -/
private theorem rawStep_of_superInit {f : Fault} (hinit : fat32SuperInit h m buf = .error f)
    (c : RawCall) :
    rawStep h buf m c = .ok (0, m) ∨ rawStep h buf m c = .error f := by
  unfold rawStep fat32Copyin
  cases c.fd.fstat with
  | error errno => exact .inl rfl
  | ok stSize =>
    right
    simp only [hinit]
    rfl

private theorem Parses.of_ledger {g : Geometry} {w : Nat} {stored : Mem} (h : Host)
    (hm : Ledger g m buf w) (hboot : ∀ i, i < BPB.size → m (buf + i) = stored (buf + i)) :
    Parses h stored m buf := by
  obtain ⟨n, -, hinit⟩ := hm.superInit h
  refine ⟨hboot, ?_, hm.step_ne_divByZero h⟩
  rw [hinit]
  exact nofun

/-- Whatever the files are, a run whose transfers start below byte `2 ^ 32` leaves
    the boot sector alone. -/
private theorem runs_parse {config : FATConfig} {m₀ : Mem} {calls : List RawCall} {rets : List Nat}
    (ha : config.Accepted) (hs : config.Addressable)
    (hcreate : createFAT32 h m₀ buf config = .ok (0, m))
    (hstored : ∀ i, i < BPB.size → m (buf + i) = storeBPB h m₀ buf config (buf + i))
    (hmeets : Run.Meets (rawStep h buf) (TransferBelow config buf) m calls)
    (hrun : Run.run (rawStep h buf) m calls = .ok (rets, m')) :
    Parses h (storeBPB h m₀ buf config) m' buf := by
  -- every step keeps the ledger and the boot sector
  have hkeeps : (∃ w, Ledger (config.geometry ha hs) m' buf w) ∧
      ∀ i, i < BPB.size → m' (buf + i) = storeBPB h m₀ buf config (buf + i) := by
    refine hmeets.run_keeps (P := fun s => (∃ w, Ledger (config.geometry ha hs) s buf w) ∧
      ∀ i, i < BPB.size → s (buf + i) = storeBPB h m₀ buf config (buf + i)) ?_
      ⟨⟨_, (createFAT32_image hcreate ha hs).ledger⟩, hstored⟩ hrun
    rintro s c ret s' ⟨⟨w, hw⟩, hboot⟩ hC hstep
    have hnext : config.nextFree buf s = w := hw.nextFree
    have hroot : (config.geometry ha hs).root = config.rootBytes := (config.geometry ha hs).root_eq
    -- the step may start to transfer, since the transfer stays in the volume
    have hstart : ∀ stSize, c.fd.fstat = .ok stSize →
        StartsBelow (config.geometry ha hs) s buf w (u32 stSize.toNat) := by
      intro stSize hstat hle hfits hslot
      have hbelow := hC stSize hstat
      rw [hnext] at hbelow
      rw [hroot] at hslot
      have hlt := hbelow hle hfits hslot
      rw [← hroot] at hlt
      exact hlt
    obtain ⟨hledger, hsame⟩ := hw.step hstart hstep
    have hbps : 512 ≤ (config.geometry ha hs).bytesPerSector :=
      (config.geometry ha hs).bytesPerSector_bounds.1
    refine ⟨hledger, fun i hi => ?_⟩
    have h512 : i < 512 := hi
    rw [hsame i (by omega), hboot i hi]
  -- so at the end the boot sector can be parsed
  obtain ⟨⟨w, hw⟩, hboot⟩ := hkeeps
  exact .of_ledger h hw hboot

/-- At `2 ^ 21 - 1` MiB no call gets past the super block. -/
private theorem runs_diverge {m₀ : Mem} {calls : List RawCall} {rets : List Nat}
    (hcreate : createFAT32 h m₀ buf (mebiVolume (2 ^ 21 - 1)) = .ok (0, m))
    (hrun : Run.run (rawStep h buf) m calls = .ok (rets, m')) :
    Parses h (storeBPB h m₀ buf (mebiVolume (2 ^ 21 - 1))) m' buf := by
  have hinit := superInit_diverges hcreate
  -- a super block that is not parsed leaves the image as it is
  have hsame : m' = m := by
    refine Run.run_keeps (P := fun s => s = m) ?_ rfl hrun
    rintro s c ret s' rfl hstep
    rcases rawStep_of_superInit hinit c with hok | herr
    · rw [hok] at hstep
      cases hstep
      rfl
    · rw [herr] at hstep
      cases hstep
  rw [hsame]
  refine ⟨fun i hi => mebiVolume_boot (by decide) (by decide) hcreate hi, ?_, fun c => ?_⟩
  · rw [hinit]
    exact nofun
  · rcases rawStep_of_superInit hinit c with hok | herr
    · rw [hok]
      exact nofun
    · rw [herr]
      exact nofun

/-- What a run of calls meets on a volume of `n` MiB. -/
private theorem mebiVolume_runs_parse {m₀ : Mem} {calls : List RawCall} {rets : List Nat}
    (hn : n < 2 ^ 21)
    (hne : n ≠ 2 ^ 21 - 2) (hcreate : createFAT32 h m₀ buf (mebiVolume n) = .ok (0, m))
    (hmeets : Run.Meets (rawStep h buf) (TransferBelow (mebiVolume n) buf) m calls)
    (hrun : Run.run (rawStep h buf) m calls = .ok (rets, m')) :
    Parses h (storeBPB h m₀ buf (mebiVolume n)) m' buf := by
  by_cases hlast : n = 2 ^ 21 - 1
  · subst hlast
    exact runs_diverge hcreate hrun
  · exact runs_parse (createFAT32_accepted hcreate)
      ((mebiVolume_addressable_iff hn).mpr (by omega)) hcreate
      (fun i hi => mebiVolume_boot hn hne hcreate hi) hmeets hrun

end

/-- The installer formats the first partition, keeps its boot sector and never divides
    by zero parsing it, if and only if `-s` is neither 0 nor -2 modulo `2 ^ 21`; then the
    same holds behind every run of calls whose transfers start below byte `2 ^ 32`. At -1
    modulo `2 ^ 21` that is so because `FAT32SuperInit` does not come to an end. -/
theorem installer_formats_iff (h : Host) (m : Mem) (buf : Nat) (diskSize : UInt64) (s : Int32)
    (result : GPTResult) (boot : PartitionConfig)
    (hpart : mkpart h m buf diskSize (bootSizeOf s) = .ok result)
    (hboot : result.partitions.head? = some boot) :
    let fat := sectorForFAT buf boot
    let config := fconfig boot
    let stored := storeBPB h result.mem fat config
    let n := (bootSizeOf s).toNat % 2 ^ 21
    ((∃ m₁, createFAT32 h result.mem fat config = .ok (0, m₁) ∧ Parses h stored m₁ fat) ↔
        n ≠ 0 ∧ n ≠ 2 ^ 21 - 2) ∧
      (n ≠ 0 → n ≠ 2 ^ 21 - 2 → ∀ m₁, createFAT32 h result.mem fat config = .ok (0, m₁) →
        ∀ calls, Run.Meets (rawStep h fat) (TransferBelow config fat) m₁ calls →
          ∀ rets m', Run.run (rawStep h fat) m₁ calls = .ok (rets, m') →
            Parses h stored m' fat) := by
  intro fat config stored n
  obtain ⟨boot', fs, hparts, -, hvol⟩ := mkpart_ok hpart
  -- the first partition is the one that is formatted
  rw [hparts, List.head?_cons] at hboot
  obtain rfl := Option.some.inj hboot
  have hconfig : config = mebiVolume n := fconfig_eq hvol
  have hn : n < 2 ^ 21 := Nat.mod_lt _ (by decide)
  have hstored : stored = storeBPB h result.mem fat (mebiVolume n) := by rw [← hconfig]
  rw [hconfig, hstored]
  refine ⟨⟨?_, ?_⟩, ?_⟩
  · -- a volume that can be parsed has room, and is not the one whose boot sector was wiped
    rintro ⟨m₁, hcreate, hparses⟩
    refine ⟨(mebiVolume_accepted_iff hn).mp (createFAT32_accepted hcreate), fun htwo => ?_⟩
    rw [htwo] at hcreate
    exact hparses.superInit (superInit_wiped hcreate)
  · -- conversely the format returns, and what it stored is parsed
    rintro ⟨hzero, htwo⟩
    obtain ⟨m₁, hcreate⟩ := createFAT32_returns h result.mem fat
      ((mebiVolume_accepted_iff hn).mpr hzero)
    have hnil : Run.Meets (rawStep h fat) (TransferBelow (mebiVolume n) fat) m₁ [] := trivial
    exact ⟨m₁, hcreate, mebiVolume_runs_parse hn htwo hcreate hnil rfl⟩
  · intro _ htwo m₁ hcreate calls hmeets rets m' hrun
    exact mebiVolume_runs_parse hn htwo hcreate hmeets hrun

theorem installer_formats_iff_default :
    ∃ result boot m₁,
      mkpart .little (fun _ => 0) 0 (256 * (1024 * 1024)) (bootSizeOf 64) = .ok result ∧
      result.partitions.head? = some boot ∧
      createFAT32 .little result.mem (sectorForFAT 0 boot) (fconfig boot) = .ok (0, m₁) ∧
      Parses .little (storeBPB .little result.mem (sectorForFAT 0 boot) (fconfig boot)) m₁
        (sectorForFAT 0 boot) := by
  obtain ⟨result, hpart⟩ := mkpart_succeeds .little (fun _ => 0) 0
    (show bootSizeOf 64 * (1024 * 1024) + blockSize * 64 ≤ 256 * (1024 * 1024) by decide)
  obtain ⟨boot, fs, hparts, -, -⟩ := mkpart_ok hpart
  have hboot : result.partitions.head? = some boot := by rw [hparts, List.head?_cons]
  obtain ⟨m₁, hcreate, hparses⟩ := (installer_formats_iff .little (fun _ => 0) 0
    (256 * (1024 * 1024)) 64 result boot hpart hboot).1.mpr ⟨by decide, by decide⟩
  exact ⟨result, boot, m₁, hpart, hboot, hcreate, hparses⟩

/-- For a multiple of `2 ^ 21` MiB there is no volume, and whatever the disk held,
    the clearing of the partition table left zeros where the cluster size would be. -/
private theorem mkpart_unformatted {h : Host} {m : Mem} {buf : Nat} {diskSize bootSize : UInt64}
    {result : GPTResult} {boot : PartitionConfig}
    (hpart : mkpart h m buf diskSize bootSize = .ok result)
    (hboot : result.partitions.head? = some boot) (hzero : bootSize.toNat % 2 ^ 21 = 0) :
    createFAT32 h result.mem (sectorForFAT buf boot) (fconfig boot) = .ok (1, result.mem) ∧
      fat32SuperInit h result.mem (sectorForFAT buf boot) = .error .divByZero := by
  have hok := mkpart_tooSmall hpart
  obtain ⟨boot', fs, hparts, hstart, hvol⟩ := mkpart_ok hpart
  rw [hparts, List.head?_cons] at hboot
  obtain rfl := Option.some.inj hboot
  have hfat : sectorForFAT buf boot' = buf + 1536 := by
    rw [sectorForFAT, hstart]
    rfl
  have hconfig := fconfig_eq hvol
  rw [hzero] at hconfig
  refine ⟨by rw [hconfig, createFAT32_zero], superInit_divByZero h ?_⟩
  rw [hfat]
  obtain ⟨rfl, hret⟩ := mkpart_result hpart
  obtain ⟨config, hgpt⟩ : ∃ config, config = twoPartitions (diskSize / blockSize)
    (bootSize * (1024 * 1024) / blockSize) := ⟨_, rfl⟩
  have hnames : ∀ p ∈ config.partitions, p.name.chars.length ≤ 36 := by
    rw [hgpt]
    simp [twoPartitions, bootPartitionName, filesystemName]
  have hnum : config.numPart.toNat = 2 := by rw [hgpt]; rfl
  have hbuf : config.volume.toNat * 512 ≤ 2 ^ 64 := by
    have hvolume : config.volume = diskSize / blockSize := by rw [hgpt]; rfl
    have hblock : blockSize.toNat = 512 := by decide
    have hlt := diskSize.toNat_lt
    rw [hvolume, UInt64.toNat_div, hblock]
    omega
  rw [← hgpt] at hok hret ⊢
  obtain ⟨-, -, -, hsectors⟩ := of_not_tooSmall hok
  have harray : config.arraySectors = 1 := by rw [GPTConfig.arraySectors, hnum]
  have hfit : config.fitting = 2 := by
    rw [← gptGenerate_ret h m buf hok, hret]
    rfl
  -- the entries of two partitions end at byte 1280, and zeros follow up to 1664
  refine Mem.load_eq_zero fun i hi => ?_
  rw [gptGenerate_apply h m buf hok hbuf (by simp; omega) (by simp; omega)]
  exact arrayMem_zero h m buf hok hbuf hnames (by omega) (by simp; omega) (by simp; omega)

/-- `-s 0` on a disk of 256 MiB: there is no volume, and the first file divides by
    zero. -/
theorem installer_zero_divides :
    ∃ result boot,
      mkpart .little (fun _ => 0) 0 (256 * (1024 * 1024)) (bootSizeOf 0) = .ok result ∧
      result.partitions.head? = some boot ∧
      createFAT32 .little result.mem (sectorForFAT 0 boot) (fconfig boot) = .ok (1, result.mem) ∧
      fat32SuperInit .little result.mem (sectorForFAT 0 boot) = .error .divByZero := by
  obtain ⟨result, hpart⟩ := mkpart_succeeds .little (fun _ => 0) 0
    (show bootSizeOf 0 * (1024 * 1024) + blockSize * 64 ≤ 256 * (1024 * 1024) by decide)
  obtain ⟨boot, fs, hparts, -, -⟩ := mkpart_ok hpart
  have hboot : result.partitions.head? = some boot := by rw [hparts, List.head?_cons]
  obtain ⟨hcreate, hinit⟩ := mkpart_unformatted hpart hboot (by decide)
  exact ⟨result, boot, hpart, hboot, hcreate, hinit⟩

end Tlibc.Installer
