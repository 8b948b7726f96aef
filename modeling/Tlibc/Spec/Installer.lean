import Tlibc.Native.Installer
import Tlibc.Spec.FatChain
import Tlibc.Spec.GptAlloc

/-!
# Installed disks and the boot code

The installer gives the first partition a whole number of MiB, and the length of
the tables, and with it the sector of the first file, grows with that number. The
boot code reads its files at fixed sectors, so the two agree for one size
(`installer_agrees_iff`); `install_boots` is what a disk of that size holds.
-/

namespace Tlibc.Installer

open Gpt Fat

/-! ## The first partition -/

/-- `boot_size / GPT_SECTOR_SIZE`, for `boot_size` in MiB. -/
theorem bootVolume_toNat (bootSize : UInt64) :
    (bootSize * (1024 * 1024) / blockSize).toNat = 2048 * (bootSize.toNat % 2 ^ 44) := by
  have hmib : (1024 * 1024 : UInt64).toNat = 2 ^ 20 := by decide
  have hblock : blockSize.toNat = 512 := by decide
  rw [UInt64.toNat_div, UInt64.toNat_mul, hmib, hblock]
  omega

/-- The result of `mkpart` is the one of `GPTGenerate`, and counts two partitions. -/
theorem mkpart_result {h : Host} {m : Mem} {buf : Nat} {diskSize bootSize : UInt64}
    {result : GPTResult} (hpart : mkpart h m buf diskSize bootSize = .ok result) :
    result = gptGenerate h m buf
        (twoPartitions (diskSize / blockSize) (bootSize * (1024 * 1024) / blockSize)) ∧
      result.ret = 2 := by
  unfold mkpart at hpart
  simp only at hpart
  split at hpart
  · cases hpart
  · split at hpart
    · cases hpart
    · rename_i hret
      cases hpart
      exact ⟨rfl, (not_not.mp hret).symm⟩

/-- A disk that is too small gets no partition. -/
theorem mkpart_tooSmall {h : Host} {m : Mem} {buf : Nat} {diskSize bootSize : UInt64}
    {result : GPTResult} (hpart : mkpart h m buf diskSize bootSize = .ok result) :
    (twoPartitions (diskSize / blockSize) (bootSize * (1024 * 1024) / blockSize)).tooSmall =
      false := by
  obtain ⟨rfl, hret⟩ := mkpart_result hpart
  obtain ⟨config, hconfig⟩ : ∃ config, config = twoPartitions (diskSize / blockSize)
    (bootSize * (1024 * 1024) / blockSize) := ⟨_, rfl⟩
  rw [← hconfig] at hret ⊢
  by_contra hsmall
  rw [Bool.not_eq_false] at hsmall
  have hzero : (gptGenerate h m buf config).ret = 0 := by
    unfold gptGenerate
    simp only [hsmall, if_true]
  rw [hzero] at hret
  exact absurd hret (by decide)

/-- `mkpart` lays its two partitions from sector 3 on. -/
theorem mkpart_partitions {h : Host} {m : Mem} {buf : Nat} {diskSize bootSize : UInt64}
    {result : GPTResult} (hpart : mkpart h m buf diskSize bootSize = .ok result) :
    result.partitions = placed 3 (twoPartitions (diskSize / blockSize)
      (bootSize * (1024 * 1024) / blockSize)).partitions := by
  -- both partitions fit
  have hok := mkpart_tooSmall hpart
  obtain ⟨rfl, hret⟩ := mkpart_result hpart
  obtain ⟨config, hconfig⟩ : ∃ config, config = twoPartitions (diskSize / blockSize)
    (bootSize * (1024 * 1024) / blockSize) := ⟨_, rfl⟩
  rw [← hconfig] at hok hret ⊢
  have htwo : config.numPart = 2 := by rw [hconfig]; rfl
  have hfit : config.fitting = 2 := by
    rw [← gptGenerate_ret h m buf hok, hret]
    rfl
  -- the entries take one sector
  have hfirst : config.firstSector = 3 := by
    rw [GPTConfig.firstSector, GPTConfig.arraySectors, htwo]
    rfl
  have hparts := congrArg GPTResult.partitions (gptGenerate_eq h m buf hok)
  simp only [hfit, hfirst] at hparts
  rw [hparts, hconfig]
  rfl

/-- Where `mkpart` puts the first partition. -/
theorem mkpart_ok {h : Host} {m : Mem} {buf : Nat} {diskSize bootSize : UInt64} {result : GPTResult}
    (hpart : mkpart h m buf diskSize bootSize = .ok result) :
    ∃ boot fs, result.partitions = [boot, fs] ∧ boot.startLBA = 3 ∧
      boot.volume = bootSize * (1024 * 1024) / blockSize := by
  rw [mkpart_partitions hpart]
  exact ⟨_, _, rfl, rfl, rfl⟩

/-- The two partitions fill the disk, so both fit. -/
theorem twoPartitions_fit {volume bootVolume : UInt64}
    (hfits : bootVolume.toNat + 64 ≤ volume.toNat) :
    (twoPartitions volume bootVolume).tooSmall = false ∧
      (twoPartitions volume bootVolume).fitting = 2 := by
  obtain ⟨config, hconfig⟩ : ∃ config, config = twoPartitions volume bootVolume := ⟨_, rfl⟩
  have htwo : config.numPart.toNat = 2 := by rw [hconfig]; rfl
  have hvol : config.volume.toNat = volume.toNat := by rw [hconfig]; rfl
  have harray : config.arraySectors = 1 := by rw [GPTConfig.arraySectors, htwo]
  -- the second request does not wrap
  have hrest : (volume - 5 - bootVolume).toNat = volume.toNat - 5 - bootVolume.toNat := by
    have hlt := volume.toNat_lt
    have h5 : (5 : UInt64).toNat = 5 := rfl
    rw [UInt64.toNat_sub, UInt64.toNat_sub, h5]
    omega
  have hvolumes : volumes config.partitions =
      [bootVolume.toNat, volume.toNat - 5 - bootVolume.toNat] := by
    rw [← hrest, hconfig]
    rfl
  rw [← hconfig]
  refine ⟨not_tooSmall (by omega) (by omega) (by omega), Nat.le_antisymm ?_ ?_⟩
  · have hlen := fitting_le config
    rwa [config.length_partitions, htwo] at hlen
  · have hlen : 2 ≤ (volumes config.partitions).length := by
      rw [hvolumes]
      exact Nat.le_refl 2
    rw [GPTConfig.fitting, Placement.le_fit_iff hlen, hvolumes, GPTConfig.room, harray, hvol]
    simp only [List.take_succ_cons, List.take_zero, List.sum_cons, List.sum_nil]
    omega

/-- `mkpart` fails only for a partition that leaves less than 64 sectors. -/
theorem mkpart_succeeds (h : Host) (m : Mem) (buf : Nat) {diskSize bootSize : UInt64}
    (hfits : bootSize * (1024 * 1024) + blockSize * 64 ≤ diskSize) :
    ∃ result, mkpart h m buf diskSize bootSize = .ok result := by
  have hmib : (1024 * 1024 : UInt64).toNat = 2 ^ 20 := by decide
  have hblock : blockSize.toNat = 512 := by decide
  have h64 : (blockSize * 64).toNat = 32768 := by decide
  -- the sum of the check cannot wrap: the size is a multiple of `2 ^ 20`
  have hle : (bootSize * (1024 * 1024) / blockSize).toNat + 64 ≤ (diskSize / blockSize).toNat := by
    have hfits := UInt64.le_iff_toNat_le.mp hfits
    rw [UInt64.toNat_add, h64, UInt64.toNat_mul, hmib] at hfits
    rw [UInt64.toNat_div, UInt64.toNat_div, hblock, UInt64.toNat_mul, hmib]
    omega
  obtain ⟨config, hconfig⟩ : ∃ config, config = twoPartitions (diskSize / blockSize)
    (bootSize * (1024 * 1024) / blockSize) := ⟨_, rfl⟩
  obtain ⟨hok, hfit⟩ := twoPartitions_fit hle
  rw [← hconfig] at hok hfit
  have hret : config.numPart = (gptGenerate h m buf config).ret := by
    rw [← UInt64.toNat_inj, gptGenerate_ret h m buf hok, hfit, hconfig]
    rfl
  refine ⟨gptGenerate h m buf config, ?_⟩
  unfold mkpart
  simp only
  rw [if_neg (UInt64.not_lt.mpr hfits), ← hconfig, if_neg (not_not.mpr hret)]

/-! ## A volume of `n` MiB -/

/-- The config of a volume of `n` MiB. -/
def mebiVolume (n : Nat) : FATConfig := ⟨UInt32.ofNat (2048 * n), 512, 8, true⟩

/-- The installer's config: only the low 32 bits of the volume get into it. -/
theorem fconfig_eq {boot : PartitionConfig} {bootSize : UInt64}
    (hvol : boot.volume = bootSize * (1024 * 1024) / blockSize) :
    fconfig boot = mebiVolume (bootSize.toNat % 2 ^ 21) := by
  -- 2048 sectors a MiB: of `2 ^ 32` sectors only `2 ^ 21` MiB count
  have hsec : boot.volume.toUInt32 = UInt32.ofNat (2048 * (bootSize.toNat % 2 ^ 21)) := by
    rw [← UInt32.toNat_inj, UInt64.toNat_toUInt32, UInt32.toNat_ofNat', hvol, bootVolume_toNat]
    omega
  rw [fconfig, mebiVolume, hsec]

section

variable {n : Nat} (hn : n < 2 ^ 21)
include hn

/-- The sectors of a volume of `n` MiB. -/
theorem mebiVolume_nSector : (mebiVolume n).nSector.toNat = 2048 * n := by
  show (UInt32.ofNat (2048 * n)).toNat = _
  rw [UInt32.toNat_ofNat', Nat.mod_eq_of_lt (by omega)]

/-- A table takes two sectors for every MiB. -/
private theorem mebiVolume_tableSectors : (mebiVolume n).tableSectors = 2 * n := by
  have hsec := mebiVolume_nSector hn
  have hper : (mebiVolume n).numEntryPerSector = 128 := by
    show (512 : UInt32).toNat / 4 = 128
    decide
  have hcl : (mebiVolume n).numClusterOnDisk = 256 * n := by
    have h8 : (mebiVolume n).clusterSize.toNat = 8 := by
      show (8 : UInt32).toNat = 8
      decide
    rw [FATConfig.numClusterOnDisk, hsec, h8]
    omega
  rw [FATConfig.tableSectors, hcl, hper]
  omega

/-- The tables of the two largest volumes reach beyond byte `2 ^ 32`. -/
theorem mebiVolume_addressable_iff : (mebiVolume n).Addressable ↔ n + 2 < 2 ^ 21 := by
  have h512 : (mebiVolume n).bytesPerSector.toNat = 512 := by
    show (512 : UInt32).toNat = 512
    decide
  rw [FATConfig.Addressable, mebiVolume_tableSectors hn, h512]
  omega

variable (ha : (mebiVolume n).Accepted) (hs : (mebiVolume n).Addressable)

/-- Where a cluster is. -/
private theorem mebiVolume_sectorOf (c : Nat) :
    ((mebiVolume n).geometry ha hs).sectorOf c = (c - 2) * 8 + (8 + 4 * n) := by
  have hfat : ((mebiVolume n).geometry ha hs).fatSize = 2 * n := mebiVolume_tableSectors hn
  show (c - 2) * 8 + (8 + ((mebiVolume n).geometry ha hs).fatSize * 2) = _
  rw [hfat]
  omega

/-- The maximum cluster number. -/
theorem mebiVolume_maxCluster :
    ((mebiVolume n).geometry ha hs).maxCluster = (2044 * n - 8) / 8 := by
  have hsec : ((mebiVolume n).geometry ha hs).nSector = 2048 * n := mebiVolume_nSector hn
  have hfat : ((mebiVolume n).geometry ha hs).fatSize = 2 * n := mebiVolume_tableSectors hn
  show (((mebiVolume n).geometry ha hs).nSector - 8 -
    ((mebiVolume n).geometry ha hs).fatSize * 2) / 8 = _
  rw [hsec, hfat]
  omega

/-- The size of the volume. -/
theorem mebiVolume_size : ((mebiVolume n).geometry ha hs).size = 2 ^ 20 * n := by
  have hsec : ((mebiVolume n).geometry ha hs).nSector = 2048 * n := mebiVolume_nSector hn
  show ((mebiVolume n).geometry ha hs).nSector * 512 = _
  rw [hsec]
  omega

omit hn in
/-- The size of a cluster. -/
theorem mebiVolume_bytesPerCluster : ((mebiVolume n).geometry ha hs).bytesPerCluster = 4096 := by
  show (8 : UInt32).toNat * (512 : UInt32).toNat = 4096
  decide

end

/-! ## Volumes whose tables cannot be addressed -/

/-- A chain that leads to entry 0, and entry 0 to itself, never ends. -/
private theorem rootChain_diverges (h : Host) {m : Mem} {table : Nat} (hzero : m.load table 4 = 0)
    (fuel rootDirCluster : Nat) :
    rootChain h m table fuel 0 rootDirCluster = .error .diverges := by
  induction fuel generalizing rootDirCluster with
  | zero => rfl
  | succ fuel ih =>
    have hnext : h.loadLe m table (tableEntry 0) = 0 := by
      rw [Host.loadLe_eq]
      exact hzero
    unfold rootChain
    rw [if_neg (by decide), hnext]
    exact ih _

/-- Without a cluster size in the boot sector there is nothing to divide by. -/
theorem superInit_divByZero (h : Host) {m : Mem} {buf : Nat}
    (hzero : m.load (buf + BPB.numSectorPerCluster.off) 1 = 0) :
    fat32SuperInit h m buf = .error .divByZero := by
  have hcluster : h.loadLe m buf BPB.numSectorPerCluster = 0 := by
    rw [Host.loadLe_eq]
    exact hzero
  show (ensure (h.loadLe m buf BPB.numSectorPerCluster ≠ 0) Fault.divByZero >>= fun _ => _) = _
  rw [hcluster, ensure_not (not_not.mpr rfl), Run.error_bind]

/-- At `2 ^ 21 - 2` MiB the root directory is cleared where the boot sector is. -/
theorem superInit_wiped {h : Host} {m m' : Mem} {buf : Nat}
    (hcreate : createFAT32 h m buf (mebiVolume (2 ^ 21 - 2)) = .ok (0, m')) :
    fat32SuperInit h m' buf = .error .divByZero := by
  have hoff : (mebiVolume (2 ^ 21 - 2)).dataOffset = 0 := by decide +kernel
  obtain ⟨m₀, rfl, -⟩ := createFAT32_last hcreate (by decide +kernel)
  have hlen : u32 ((mebiVolume (2 ^ 21 - 2)).bytesPerSector.toNat *
      (mebiVolume (2 ^ 21 - 2)).clusterSize.toNat) = 4096 := by decide +kernel
  rw [hoff, hlen, Nat.add_zero]
  exact superInit_divByZero h (Mem.load_fill_zero (Nat.le_add_right _ _)
    (Nat.add_le_add_left (show 13 + 1 ≤ 4096 by decide) buf))

/-- At `2 ^ 21 - 1` MiB it is cleared where the first table begins. -/
theorem superInit_diverges {h : Host} {m m' : Mem} {buf : Nat}
    (hcreate : createFAT32 h m buf (mebiVolume (2 ^ 21 - 1)) = .ok (0, m')) :
    fat32SuperInit h m' buf = .error .diverges := by
  obtain ⟨config, hconfig⟩ : ∃ config, config = mebiVolume (2 ^ 21 - 1) := ⟨_, rfl⟩
  have hoff : config.dataOffset = 2048 := by rw [hconfig]; decide +kernel
  have hlen : u32 (config.bytesPerSector.toNat * config.clusterSize.toNat) = 4096 := by
    rw [hconfig]
    decide +kernel
  have hsecond : 512 ≤ u32 (config.bytesPerSector.toNat *
      u32 (numReservedSector + config.fatSizeInSector)) := by
    rw [hconfig]
    decide +kernel
  have hbps : config.bytesPerSector.toNat = 512 := by rw [hconfig]; rfl
  rw [← hconfig] at hcreate
  obtain ⟨m₀, rfl, hboot⟩ := createFAT32_last hcreate hsecond
  rw [hoff, hlen]
  -- the boot sector is the one that was stored
  have hb : config.HasBPB h (m₀.fill (buf + 2048) 4096 0) buf := by
    intro i hi
    have hi : i < 512 := hi
    rw [Mem.fill_apply_out (by omega), hboot (buf + i) (by omega) (by omega)]
    exact storeBPB_congr h config hi
  -- the table begins at byte 4096, inside what was cleared
  have hzero : ∀ e, e < 3 → (m₀.fill (buf + 2048) 4096 0).load (buf + 4096 + 4 * e) 4 = 0 :=
    fun e he => Mem.load_fill_zero (by omega) (by omega)
  have hentry : config.tableEntryAt buf (m₀.fill (buf + 2048) 4096 0) 2 = 0 := by
    rw [FATConfig.tableEntryAt, hbps]
    exact hzero 2 (by decide)
  obtain ⟨f, hinit⟩ := superInit_eq (createFAT32_accepted hcreate) hb
  rw [hinit, hentry, hbps, rootChain_diverges h (hzero 0 (by decide))]
  rfl

/-! ## The names the installer uses -/

/-- The name of the loader on the partition. -/
def loaderFile : FileName where
  toCString := loaderName
  dot_free := by decide
  length_pos := by decide
  length_le := by decide

/-- The name of the kernel. -/
def kernelFile : FileName where
  toCString := kernelName
  dot_free := by decide
  length_pos := by decide
  length_le := by decide

/-- The name of `busybox`. -/
def busyboxFile : FileName where
  toCString := busyboxName
  dot_free := by decide
  length_pos := by decide
  length_le := by decide

/-- The name of `init`. -/
def initFile : FileName where
  toCString := initName
  dot_free := by decide
  length_pos := by decide
  length_le := by decide

/-! ## Agreement with the boot code -/

/-- A call of `copyin` that does not stop has placed its file. -/
theorem copyin_ok {h : Host} {m m' : Mem} {fat ret : Nat} {src : Option Fd} {name : CString}
    (hcopy : copyin h m fat src name = .ok (ret, m')) :
    ∃ fd r, src = some fd ∧ fat32Copyin h m fat fd name sysFlag = .ok r ∧ r.ret ≠ 0 ∧
      r.ret = ret ∧ r.mem = m' := by
  -- every other outcome stops the installer
  unfold copyin at hcopy
  cases src with
  | none => cases hcopy
  | some fd =>
    cases hr : fat32Copyin h m fat fd name sysFlag with
    | error f =>
      simp only [hr] at hcopy
      cases hcopy
    | ok r =>
      simp only [hr] at hcopy
      split at hcopy
      · cases hcopy
      · rename_i hne
        cases hcopy
        exact ⟨fd, r, rfl, hr, hne, rfl, rfl⟩

/-- An open file of `n` bytes that `FAT32Copyin` can read. -/
structure Readable (fd : Fd) (n : Nat) : Prop where
  fstat : ∃ stSize, fd.fstat = .ok stSize ∧ stSize.toNat = n
  lseek : fd.lseek = 0
  read : fd.readRet n = n

/-- On the volume at `fat` of a partition that starts at sector `start`, a loader
    of at most 4096 bytes is copied to the sector the boot code reads it from, and
    so is every kernel that is accepted behind it. -/
def BootCodeAgrees (h : Host) (m : Mem) (fat start : Nat) : Prop :=
  ∀ loader n, Readable loader n → 1 ≤ n → n ≤ 4096 →
    ∃ ret m', copyin h m fat (some loader) loaderName = .ok (ret, m') ∧
      start + ret = mbrLoaderSector ∧ start + ret = biosmbrSector ∧
      ∀ kernel ret' m'', copyin h m' fat kernel kernelName = .ok (ret', m'') →
        start + ret' = mbrKernelSector ∧ start + ret' = bzimageSector

/-! ### 128 MiB -/

/-- A volume of 128 MiB passes all checks. -/
private theorem bootVolume_accepted : (mebiVolume 128).Accepted :=
  ⟨by decide +kernel, by decide +kernel, by decide +kernel, by decide +kernel⟩

/-- It lies below 4 GiB. -/
private theorem bootVolume_addressable : (mebiVolume 128).Addressable :=
  (mebiVolume_addressable_iff (by decide)).mpr (by decide)

/-- The layout of the volume that agrees with the boot code. -/
def bootGeometry : Geometry :=
  (mebiVolume 128).geometry bootVolume_accepted bootVolume_addressable

/-- Where a cluster is. -/
private theorem bootGeometry_sectorOf (c : Nat) : bootGeometry.sectorOf c = (c - 2) * 8 + 520 :=
  mebiVolume_sectorOf (by decide) bootVolume_accepted bootVolume_addressable c

/-- The size of a cluster. -/
private theorem bootGeometry_bytesPerCluster : bootGeometry.bytesPerCluster = 4096 :=
  mebiVolume_bytesPerCluster bootVolume_accepted bootVolume_addressable

/-- The maximum cluster number. -/
private theorem bootGeometry_maxCluster : bootGeometry.maxCluster = 32703 :=
  mebiVolume_maxCluster (by decide) bootVolume_accepted bootVolume_addressable

/-- The size of the volume. -/
private theorem bootGeometry_size : bootGeometry.size = 2 ^ 27 :=
  mebiVolume_size (by decide) bootVolume_accepted bootVolume_addressable

section

variable {h : Host} {m m' : Mem} {buf : Nat} {files : List File} {media : Nat}

/-- A file that was copied in was appended. -/
private theorem copyin_appends (name : FileName) {ret : Nat} {src : Option Fd}
    (hm : Image bootGeometry media m buf files)
    (hcopy : copyin h m buf src name.toCString = .ok (ret, m')) :
    ∃ fd stSize, src = some fd ∧ fd.fstat = .ok stSize ∧
      (fd.data (u32 stSize.toNat)).length = u32 stSize.toNat ∧
      ret = bootGeometry.sectorOf (watermark files) ∧
      Image bootGeometry media m' buf
        (files ++ [newFile bootGeometry name (fd.data (u32 stSize.toNat))]) := by
  obtain ⟨fd, r, rfl, hr, hne, rfl, rfl⟩ := copyin_ok hcopy
  have hthree := three_le_watermark files
  -- a volume of 128 MiB has no offset that wraps
  have hstart : watermark files ≤ bootGeometry.maxCluster →
      bootGeometry.cluster (watermark files) < 2 ^ 32 := by
    intro hw
    have hle := bootGeometry.cluster_le_size (by omega) hw
    rw [bootGeometry_size] at hle
    omega
  cases fat32Copyin_cases hm (fun _ _ hw _ => hstart hw) hr with
  | refused hret => exact absurd hret hne
  | placed stSize hstat _ _ hret _ hlength himage _ =>
    exact ⟨fd, stSize, rfl, hstat, hlength, hret, himage⟩

/-- A loader of at most 4096 bytes gets one cluster of 4096 bytes. -/
private theorem clustersFor_loader {g : Geometry} (hbpc : g.bytesPerCluster = 4096) {n : Nat}
    (hpos : 1 ≤ n)
    (hle : n ≤ 4096) : clustersFor g n = 1 := by
  rw [clustersFor, hbpc, cdiv_eq (by decide) (by omega)]
  omega

/-- On a fresh volume a loader of at most 4096 bytes goes to cluster 3. -/
private theorem copyin_loader {g : Geometry} (hbpc : g.bytesPerCluster = 4096)
    (hmax : 4 ≤ g.maxCluster)
    (hsize : g.size < 2 ^ 32) (hm : Image g media m buf []) {loader : Fd} {n : Nat}
    (hread : Readable loader n) (hpos : 1 ≤ n) (hle : n ≤ 4096) :
    ∃ m', copyin h m buf (some loader) loaderName = .ok (g.sectorOf 3, m') := by
  obtain ⟨stSize, hstat, rfl⟩ := hread.fstat
  have hn : u32 stSize.toNat = stSize.toNat := u32_of_lt (by omega)
  have hclusters := clustersFor_loader hbpc hpos hle
  have hwater : watermark [] = 3 := rfl
  have hroot := g.numRootEntry_pos
  -- one cluster is within the size check, and the root directory is empty
  have hreach : Reaches g [] (u32 stSize.toNat) := by
    rw [hn]
    refine ⟨?_, Nat.lt_of_lt_of_le (by decide) hroot⟩
    have hend := g.cluster_le_size (by omega) (Nat.le_refl g.maxCluster)
    have hadd := g.cluster_add (show 2 ≤ 3 by decide) (g.maxCluster - 3)
    rw [Nat.add_sub_cancel' (by omega)] at hadd
    rw [hwater, Nat.mul_comm, u32_of_lt (by omega), hbpc]
    omega
  have hstart : g.cluster (watermark []) < 2 ^ 32 := by
    rw [hwater]
    exact Nat.lt_of_le_of_lt (g.cluster_le_size (by decide) (by omega)) hsize
  obtain ⟨m', hcopy, -⟩ := fat32Copyin_places h loaderFile sysFlag hm hstat hreach hstart
    hread.lseek (by rw [hn]; exact hread.read) (by rw [hn, hclusters, hwater]; exact hmax)
  rw [hwater] at hcopy
  have hcopy : fat32Copyin h m buf loader loaderName sysFlag = .ok ⟨g.sectorOf 3, none, m'⟩ := hcopy
  have hne : g.sectorOf 3 ≠ 0 := by
    unfold Geometry.sectorOf
    omega
  refine ⟨m', ?_⟩
  unfold copyin
  simp only [hcopy, if_neg hne]

/-- At 128 MiB the loader goes to sector 528 of the volume, and what is accepted
    next to sector 536. -/
private theorem agrees_of_eq (hcreate : createFAT32 h m buf (mebiVolume 128) = .ok (0, m')) :
    BootCodeAgrees h m' buf 3 := by
  have himage : Image bootGeometry _ m' buf [] :=
    createFAT32_image hcreate bootVolume_accepted bootVolume_addressable
  intro loader n hread hpos hle
  obtain ⟨m₁, hcopy⟩ := copyin_loader (h := h) bootGeometry_bytesPerCluster
    (by rw [bootGeometry_maxCluster]; decide) (by rw [bootGeometry_size]; decide) himage hread hpos
    hle
  rw [bootGeometry_sectorOf] at hcopy
  refine ⟨528, m₁, hcopy, rfl, rfl, fun kernel ret' m₂ hcopy' => ?_⟩
  obtain ⟨fd, stSize, hsrc, hstat, hlength, -, himage₁⟩ := copyin_appends loaderFile himage hcopy
  cases hsrc
  -- the call saw the size the loader has
  have hsize : u32 stSize.toNat = n := by
    obtain ⟨stSize', hstat', hsize⟩ := hread.fstat
    rw [hstat] at hstat'
    cases hstat'
    rw [hsize]
    exact u32_of_lt (by omega)
  obtain ⟨-, -, -, -, -, hret, -⟩ := copyin_appends kernelFile himage₁ hcopy'
  -- the loader took cluster 3, so the kernel gets cluster 4
  have hwater : watermark ([] ++ [newFile bootGeometry loaderFile (loader.data (u32 stSize.toNat))]) =
      4 := by
    rw [watermark_append]
    show 3 + clustersFor bootGeometry (loader.data (u32 stSize.toNat)).length = 4
    rw [hlength, hsize, clustersFor_loader bootGeometry_bytesPerCluster hpos hle]
  rw [hwater, bootGeometry_sectorOf] at hret
  rw [hret]
  exact ⟨rfl, rfl⟩

/-- A volume of `n` MiB agrees with the boot code if and only if `n` is 128. -/
private theorem mebiVolume_agrees_iff {n : Nat} (hn : n < 2 ^ 21)
    (hcreate : createFAT32 h m buf (mebiVolume n) = .ok (0, m')) :
    BootCodeAgrees h m' buf 3 ↔ n = 128 := by
  constructor
  · intro hagrees
    have hread : Readable (Fd.ofBytes [0x7f]) 1 := ⟨⟨1, rfl, rfl⟩, rfl, rfl⟩
    -- a loader of one byte is enough to tell the sizes apart
    obtain ⟨ret, m'', hcopy, hsector, -⟩ := hagrees _ 1 hread (by decide) (by decide)
    obtain ⟨fd, r, -, hr, hne, rfl, -⟩ := copyin_ok hcopy
    have ha := createFAT32_accepted hcreate
    by_cases hs : (mebiVolume n).Addressable
    · have hret := fat32Copyin_sector (createFAT32_image hcreate ha hs).toHolds hr hne
      rw [mebiVolume_sectorOf hn ha hs] at hret
      have hwater : watermark [] = 3 := rfl
      have hloader : mbrLoaderSector = 531 := rfl
      omega
    · -- the first call does not get past the super block
      rw [mebiVolume_addressable_iff hn] at hs
      obtain ⟨sb, hinit⟩ : ∃ sb, fat32SuperInit h m' buf = .ok sb := by
        unfold fat32Copyin at hr
        split at hr
        · cases hr
          exact absurd rfl hne
        · obtain ⟨sb, hinit, -⟩ := Run.bind_eq_ok.mp hr
          exact ⟨sb, hinit⟩
      obtain rfl | rfl : n = 2 ^ 21 - 2 ∨ n = 2 ^ 21 - 1 := by omega
      · rw [superInit_wiped hcreate] at hinit
        cases hinit
      · rw [superInit_diverges hcreate] at hinit
        cases hinit
  · rintro rfl
    exact agrees_of_eq hcreate

end

/-- The installer puts the loader and the kernel at the sectors the boot code reads
    if and only if the volume gets 128 MiB: `-s` is converted to 32 bits of
    sectors, so it counts modulo `2 ^ 21`. -/
theorem installer_agrees_iff (h : Host) (m m₁ : Mem) (buf : Nat) (diskSize bootSize : UInt64)
    (result : GPTResult) (boot : PartitionConfig)
    (hpart : mkpart h m buf diskSize bootSize = .ok result)
    (hboot : result.partitions.head? = some boot)
    (hcreate : createFAT32 h result.mem (sectorForFAT buf boot) (fconfig boot) = .ok (0, m₁)) :
    BootCodeAgrees h m₁ (sectorForFAT buf boot) boot.startLBA.toNat ↔
      bootSize.toNat % 2 ^ 21 = 128 := by
  obtain ⟨boot', fs, hparts, hstart, hvol⟩ := mkpart_ok hpart
  rw [hparts, List.head?_cons] at hboot
  obtain rfl := Option.some.inj hboot
  rw [fconfig_eq hvol] at hcreate
  rw [hstart]
  exact mebiVolume_agrees_iff (Nat.mod_lt _ (by decide)) hcreate

/-- The first steps of the installer on a disk of 256 MiB that was zeroed. -/
private theorem installer_starts {bootSize : UInt64} {n : Nat}
    (hfits : bootSize * (1024 * 1024) + blockSize * 64 ≤ 256 * (1024 * 1024))
    (hn : bootSize.toNat % 2 ^ 21 = n) (ha : (mebiVolume n).Accepted)
    (hs : (mebiVolume n).Addressable) :
    ∃ result boot m₁, mkpart .little (fun _ => 0) 0 (256 * (1024 * 1024)) bootSize = .ok result ∧
      result.partitions.head? = some boot ∧ boot.startLBA.toNat = 3 ∧
      fconfig boot = mebiVolume n ∧
      createFAT32 .little result.mem (sectorForFAT 0 boot) (fconfig boot) = .ok (0, m₁) := by
  -- the table is written, and the first partition is formatted
  obtain ⟨result, hpart⟩ := mkpart_succeeds .little (fun _ => 0) 0 hfits
  obtain ⟨boot, fs, hparts, hstart, hvol⟩ := mkpart_ok hpart
  have hconfig := fconfig_eq hvol
  rw [hn] at hconfig
  obtain ⟨m₁, hcreate⟩ : ∃ m₁, createFAT32 .little result.mem (sectorForFAT 0 boot) (fconfig boot) =
      .ok (0, m₁) := by
    rw [hconfig]
    exact ⟨_, createFAT32_eq .little result.mem (sectorForFAT 0 boot) ha hs⟩
  refine ⟨result, boot, m₁, hpart, ?_, ?_, hconfig, hcreate⟩
  · rw [hparts, List.head?_cons]
  · rw [hstart]
    rfl

theorem installer_agrees_iff_128 :
    ∃ m fat, (128 : UInt64).toNat % 2 ^ 21 = 128 ∧ BootCodeAgrees .little m fat 3 := by
  obtain ⟨result, boot, m₁, hpart, hboot, hstart, -, hcreate⟩ := installer_starts
    (show 128 * (1024 * 1024) + blockSize * 64 ≤ 256 * (1024 * 1024) by decide) rfl
    bootVolume_accepted bootVolume_addressable
  have hagrees := (installer_agrees_iff .little (fun _ => 0) m₁ 0 (256 * (1024 * 1024)) 128
    result boot hpart hboot hcreate).mpr rfl
  rw [hstart] at hagrees
  exact ⟨m₁, sectorForFAT 0 boot, rfl, hagrees⟩

/-- At the default of 64 MiB the loader goes to sector 275 of the disk. -/
theorem installer_default_disagrees :
    ∃ result boot m₁ m₂, mkpart .little (fun _ => 0) 0 (256 * (1024 * 1024)) 64 = .ok result ∧
      result.partitions.head? = some boot ∧
      createFAT32 .little result.mem (sectorForFAT 0 boot) (fconfig boot) = .ok (0, m₁) ∧
      copyin .little m₁ (sectorForFAT 0 boot) (some (Fd.ofBytes [0x7f])) loaderName =
        .ok (272, m₂) ∧
      boot.startLBA.toNat + 272 ≠ mbrLoaderSector ∧
      ¬ BootCodeAgrees .little m₁ (sectorForFAT 0 boot) boot.startLBA.toNat := by
  have ha : (mebiVolume 64).Accepted :=
    ⟨by decide +kernel, by decide +kernel, by decide +kernel, by decide +kernel⟩
  have hs : (mebiVolume 64).Addressable := (mebiVolume_addressable_iff (by decide)).mpr (by decide)
  obtain ⟨result, boot, m₁, hpart, hboot, hstart, hconfig, hcreate⟩ := installer_starts
    (show 64 * (1024 * 1024) + blockSize * 64 ≤ 256 * (1024 * 1024) by decide) rfl ha hs
  have hvolume := hcreate
  rw [hconfig] at hvolume
  -- the volume has clusters for a loader of one byte
  have hmax : 4 ≤ ((mebiVolume 64).geometry ha hs).maxCluster := by
    rw [mebiVolume_maxCluster (by decide) ha hs]
    decide
  have hsize : ((mebiVolume 64).geometry ha hs).size < 2 ^ 32 := by
    rw [mebiVolume_size (by decide) ha hs]
    decide
  have hread : Readable (Fd.ofBytes [0x7f]) 1 := ⟨⟨1, rfl, rfl⟩, rfl, rfl⟩
  obtain ⟨m₂, hcopy⟩ := copyin_loader (h := .little) (mebiVolume_bytesPerCluster ha hs) hmax hsize
    (createFAT32_image hvolume ha hs) hread (Nat.le_refl 1) (by decide)
  -- the loader is at the first sector of cluster 3
  rw [mebiVolume_sectorOf (by decide) ha hs] at hcopy
  refine ⟨result, boot, m₁, m₂, hpart, hboot, hcreate, hcopy, ?_, fun hagrees => ?_⟩
  · rw [hstart]
    decide
  · -- where the boot code does not look for it
    rw [hstart, mebiVolume_agrees_iff (by decide) hvolume] at hagrees
    exact absurd hagrees (by decide)

/-! ## A finished installation -/

section

variable {h : Host} {m : Mem} {buf : Nat} {fdSize bootSize : UInt64} {files : Sources}
  {d : Installed}

/-- The steps of an installation that ends. -/
theorem install_ok (hinst : install h m buf fdSize bootSize files = .ok d) :
    ∃ result boot ret m₁ m₂ m₃ m₄ m₅,
      mkpart h m buf (fdSize / 4096 * 4096) bootSize = .ok result ∧
      result.partitions.head? = some boot ∧
      createFAT32 h result.mem (sectorForFAT buf boot) (fconfig boot) = .ok (ret, m₁) ∧
      copyin h m₁ (sectorForFAT buf boot) files.loader loaderName = .ok (d.loader, m₂) ∧
      copyin h m₂ (sectorForFAT buf boot) files.kernel kernelName = .ok (d.kernel, m₃) ∧
      copyin h m₃ (sectorForFAT buf boot) files.busybox busyboxName = .ok (d.busybox, m₄) ∧
      copyin h m₄ (sectorForFAT buf boot) files.init initName = .ok (d.init, m₅) ∧
      readMbr m₅ buf files.mbr = .ok d.mem := by
  unfold install at hinst
  obtain ⟨result, hpart, hinst⟩ := Run.bind_eq_ok.mp hinst
  cases hparts : result.partitions with
  | nil =>
    simp only [hparts] at hinst
    cases hinst
  | cons boot rest =>
    simp only [hparts] at hinst
    obtain ⟨⟨ret, m₁⟩, hcreate, hinst⟩ := Run.bind_eq_ok.mp hinst
    obtain ⟨⟨loader, m₂⟩, hloader, hinst⟩ := Run.bind_eq_ok.mp hinst
    obtain ⟨⟨kernel, m₃⟩, hkernel, hinst⟩ := Run.bind_eq_ok.mp hinst
    obtain ⟨⟨busybox, m₄⟩, hbusybox, hinst⟩ := Run.bind_eq_ok.mp hinst
    obtain ⟨⟨init, m₅⟩, hinit, hinst⟩ := Run.bind_eq_ok.mp hinst
    obtain ⟨m₆, hmbr, hinst⟩ := Run.bind_eq_ok.mp hinst
    cases hinst
    -- `mapError` changes faults only
    have hcreate : createFAT32 h result.mem (sectorForFAT buf boot) (fconfig boot) =
        .ok (ret, m₁) := by
      cases hc : createFAT32 h result.mem (sectorForFAT buf boot) (fconfig boot) with
      | error f =>
        rw [hc] at hcreate
        cases hcreate
      | ok x =>
        rw [hc] at hcreate
        cases hcreate
        rfl
    exact ⟨result, boot, ret, m₁, m₂, m₃, m₄, m₅, hpart, by rw [hparts, List.head?_cons], hcreate,
      hloader, hkernel, hbusybox, hinit, hmbr⟩

/-- The boot code goes to the first 440 bytes of the disk. -/
private theorem readMbr_read {m' : Mem} {mbr : Option Fd} (hmbr : readMbr m buf mbr = .ok m')
    {a n : Nat}
    (ha : buf + 440 ≤ a) : m'.read a n = m.read a n := by
  cases mbr with
  | none => cases hmbr
  | some fd =>
    have hlen := fd.data_le 440
    unfold readMbr at hmbr
    by_cases hneg : fd.readRet 440 < 0
    · simp only [hneg, if_true] at hmbr
      cases hmbr
    · simp only [hneg, if_false] at hmbr
      cases hmbr
      exact Mem.read_congr fun i _ => Mem.write_apply_out (by omega)

/-- A disk whose volume got 128 MiB holds the loader and the kernel where the boot
    code reads them. -/
theorem install_boots (hinst : install h m buf fdSize bootSize files = .ok d)
    (h128 : bootSize.toNat % 2 ^ 21 = 128) {loader kernel : Fd} {n k : UInt64}
    (hloader : files.loader = some loader) (hn : loader.fstat = .ok n) (hpos : 1 ≤ n.toNat)
    (hle : n.toNat ≤ 4096) (hkernel : files.kernel = some kernel) (hk : kernel.fstat = .ok k) :
    d.mem.read (buf + 512 * mbrLoaderSector) n.toNat = loader.data n.toNat ∧
      d.mem.read (buf + 512 * bzimageSector) (u32 k.toNat) = kernel.data (u32 k.toNat) := by
  obtain ⟨result, boot, ret, m₁, m₂, m₃, m₄, m₅, hpart, hboot, hcreate, hcopy₁, hcopy₂, hcopy₃,
    hcopy₄, hmbr⟩ := install_ok hinst
  obtain ⟨boot', fs, hparts, hstart, hvol⟩ := mkpart_ok hpart
  rw [hparts, List.head?_cons] at hboot
  obtain rfl := Option.some.inj hboot
  have hfat : sectorForFAT buf boot' = buf + 1536 := by
    rw [sectorForFAT, hstart]
    rfl
  rw [fconfig_eq hvol, h128] at hcreate
  -- the result of `createFAT32` is ignored, but this config is accepted
  have hzero : ret = 0 := by
    rw [createFAT32_eq h result.mem _ bootVolume_accepted bootVolume_addressable] at hcreate
    exact (Prod.mk.inj (Except.ok.inj hcreate)).1.symm
  subst hzero
  have himage : Image bootGeometry _ m₁ (sectorForFAT buf boot') [] :=
    createFAT32_image hcreate bootVolume_accepted bootVolume_addressable
  -- the four files, one after another
  obtain ⟨fd₁, n', hsrc₁, hstat₁, hlen₁, -, himage₁⟩ := copyin_appends loaderFile himage hcopy₁
  obtain ⟨fd₂, k', hsrc₂, hstat₂, hlen₂, -, himage₂⟩ := copyin_appends kernelFile himage₁ hcopy₂
  obtain ⟨_, _, _, _, _, _, himage₃⟩ := copyin_appends busyboxFile himage₂ hcopy₃
  obtain ⟨_, _, _, _, _, _, himage₄⟩ := copyin_appends initFile himage₃ hcopy₄
  rw [hloader] at hsrc₁
  rw [hkernel] at hsrc₂
  cases hsrc₁
  cases hsrc₂
  rw [hn] at hstat₁
  rw [hk] at hstat₂
  cases hstat₁
  cases hstat₂
  have hsize : u32 n.toNat = n.toNat := u32_of_lt (by omega)
  rw [hsize] at hlen₁ himage₄
  -- cluster `c` of the volume in sectors of the disk
  have hcluster : ∀ c, 3 ≤ c → buf + 1536 + bootGeometry.cluster c =
      buf + 512 * (531 + (c - 3) * 8) := by
    intro c hc
    have hbps : bootGeometry.bytesPerSector = 512 := by decide +kernel
    rw [← bootGeometry.sectorOf_mul, bootGeometry_sectorOf, hbps]
    omega
  have hloaderAt := himage₄.contents 0 _ rfl
  have hkernelAt := himage₄.contents 1 _ rfl
  rw [firstCluster_succ (f := newFile bootGeometry loaderFile (loader.data n.toNat)) rfl] at hkernelAt
  -- the kernel begins one cluster behind the loader
  have hcount : (newFile bootGeometry loaderFile (loader.data n.toNat)).count = 1 := by
    show clustersFor bootGeometry (loader.data n.toNat).length = 1
    rw [hlen₁]
    exact clustersFor_loader bootGeometry_bytesPerCluster hpos hle
  rw [hfat, firstCluster, Placement.startOf_zero, hcluster 3 (by decide)] at hloaderAt
  rw [hfat, firstCluster, Placement.startOf_zero, hcount, hcluster 4 (by decide)] at hkernelAt
  have hloaderAt : m₅.read (buf + 512 * 531) (loader.data n.toNat).length = loader.data n.toNat :=
    hloaderAt
  have hkernelAt : m₅.read (buf + 512 * 539) (kernel.data (u32 k.toNat)).length =
      kernel.data (u32 k.toNat) := hkernelAt
  rw [hlen₁] at hloaderAt
  rw [hlen₂] at hkernelAt
  have hloaderSector : mbrLoaderSector = 531 := rfl
  have hkernelSector : bzimageSector = 539 := rfl
  refine ⟨?_, ?_⟩
  · rw [readMbr_read hmbr (by omega), hloaderSector, hloaderAt]
  · rw [readMbr_read hmbr (by omega), hkernelSector, hkernelAt]

end

end Tlibc.Installer
