import Tlibc.Spec.FatLedger

/-!
# The clusters of a volume

What `freeCount` and the size check of `FAT32Copyin` should count, read off the
first table.

* `freeCount_differs`: `freeCount` is never the number of free clusters
* `copyin_serves_iff`: the files `FAT32Copyin` accepts leave two clusters unused
* `copyin_accepts_iff`: so the files it refuses though they fit are those that need
  all clusters that are left, or all but one

`createFAT32` counts the entries of both tables, and `FAT32SuperInit` takes the
number of clusters for the first cluster number that is too large, though
clusters are numbered from 2.
-/

namespace Tlibc.Fat

variable {g : Geometry} {m m' : Mem} {buf w : Nat}

/-! ## Counting clusters -/

namespace FATConfig

variable (config : FATConfig) (buf : Nat) (m : Mem)

/-- The data clusters of the volume, numbered from 2. -/
def dataClusters : Nat :=
  (config.nSector.toNat - 8 - 2 * config.fatSizeInSector) / config.clusterSize.toNat

/-- The entries of the first table. -/
def tableEntries : Nat := config.fatSizeInSector * (config.bytesPerSector.toNat / 4)

/-- Entry `c` of the first table. -/
def tableEntryAt (c : Nat) : Nat := m.load (buf + 8 * config.bytesPerSector.toNat + 4 * c) 4

/-- The clusters a file of `size` bytes needs. -/
def clustersOf (size : Nat) : Nat := (size + config.clusterBytes - 1) / config.clusterBytes

/-- The number of data clusters whose entry in the first table is 0. -/
def freeClusters : Nat :=
  (List.range' 2 config.dataClusters).countP fun c =>
    c < config.tableEntries ∧ config.tableEntryAt buf m c = 0

/-- The number of data clusters that are not allocated: the first table has no entry
    other than 0 for them. -/
def unallocated : Nat :=
  (List.range' 2 config.dataClusters).countP fun c =>
    ¬ (c < config.tableEntries ∧ config.tableEntryAt buf m c ≠ 0)

/-- A free cluster is not allocated. -/
private theorem freeClusters_le : config.freeClusters buf m ≤ config.unallocated buf m := by
  apply List.countP_mono_left
  intro c _ hc
  simp only [decide_eq_true_eq] at hc ⊢
  exact fun hne => hne.2 hc.2

end FATConfig

/-- The numbers from `w` on, `k` of them, among `D` numbers from `lo` on. -/
theorem countP_range'_interval {lo D k : Nat} {p : Nat → Bool} (hlo : lo ≤ w) (hhi : w + k ≤ lo + D)
    (hp : ∀ c, lo ≤ c → c < lo + D → (p c = true ↔ w ≤ c ∧ c < w + k)) :
    (List.range' lo D).countP p = k := by
  -- the range is cut at both ends of the interval
  obtain ⟨i, rfl⟩ := Nat.exists_eq_add_of_le hlo
  obtain ⟨j, rfl⟩ := Nat.exists_eq_add_of_le (show i + k ≤ D by omega)
  have hbelow : (List.range' lo i).countP p = 0 := by
    rw [List.countP_eq_zero]
    intro c hc
    have hc := List.mem_range'_1.mp hc
    rw [hp c (by omega) (by omega)]
    omega
  -- inside the interval all numbers count, outside of it none does
  have hin : (List.range' (lo + i) k).countP p = k := by
    rw [List.countP_eq_length.mpr, List.length_range']
    intro c hc
    have hc := List.mem_range'_1.mp hc
    rw [hp c (by omega) (by omega)]
    omega
  have habove : (List.range' (lo + i + k) j).countP p = 0 := by
    rw [List.countP_eq_zero]
    intro c hc
    have hc := List.mem_range'_1.mp hc
    rw [hp c (by omega) (by omega)]
    omega
  rw [Nat.add_assoc, ← List.range'_append_1, ← List.range'_append_1, List.countP_append,
    List.countP_append, hbelow, hin, habove, Nat.zero_add, Nat.add_zero]

/-- The numbers from `w` on among `D` numbers from 2 on. -/
private theorem countP_range'_le {D : Nat} {p : Nat → Bool} (hlo : 2 ≤ w) (hhi : w ≤ D + 2)
    (hp : ∀ c, 2 ≤ c → c < D + 2 → (p c = true ↔ w ≤ c)) :
    (List.range' 2 D).countP p = D + 2 - w := by
  refine countP_range'_interval hlo (show w + (D + 2 - w) ≤ 2 + D by omega) fun c hge hlt => ?_
  rw [hp c hge (by omega)]
  omega

section

variable {config : FATConfig} (hg : config.Laid g)
include hg

/-- The clusters of the data region, as the superblock has them. -/
theorem dataClusters_eq : config.dataClusters = g.maxCluster := by
  rw [FATConfig.dataClusters, Geometry.maxCluster, Geometry.numData, Geometry.numFAT, hg.nSector,
    hg.fatSize, hg.clusterSize, Nat.mul_comm 2]

/-- The entries of a table, as the superblock has them. -/
theorem tableEntries_eq : config.tableEntries = g.numEntry := hg.numEntry.symm

/-- An entry of the first table is the word at its place. -/
theorem tableEntryAt_eq (c : Nat) :
    config.tableEntryAt buf m c = m.load (buf + g.table 0 + 4 * c) 4 := by
  rw [FATConfig.tableEntryAt, hg.table_zero]

/-- The taken clusters are a part of the data clusters, the root directory's one of
    them. -/
private theorem Ledger.le_dataClusters (hm : Ledger g m buf w) : w ≤ config.dataClusters + 2 := by
  have hone : 1 ≤ g.maxCluster := by
    have hle := g.numFAT_le
    have hdata := g.numData_eq
    rw [Geometry.maxCluster, Nat.le_div_iff_mul_le g.clusterSize_bounds.1]
    omega
  rw [dataClusters_eq hg]
  rcases hm.room with h3 | hle
  · omega
  · omega

/-- The clusters that are left are those from the next free one on. -/
theorem Ledger.unallocated_eq (hm : Ledger g m buf w) :
    config.unallocated buf m = config.dataClusters + 2 - w := by
  -- clusters below the next free one are used, and the others are free
  have hthree := hm.three_le
  have hge := g.numEntry_ge
  have hmax := g.maxCluster_le
  have hw : w ≤ g.numEntry := by
    rcases hm.room with h3 | hle
    · omega
    · omega
  apply countP_range'_le (by omega) (hm.le_dataClusters hg)
  intro c hlo hhi
  simp only [decide_eq_true_eq, tableEntries_eq hg, tableEntryAt_eq hg]
  constructor
  · -- an entry that is free is that of a cluster from there on
    intro hnot
    by_contra hlt
    exact hnot ⟨by omega, hm.used c hlo (by omega)⟩
  · rintro hle ⟨hin, hne⟩
    exact hne (hm.free c hle hin)

/-- When the table has an entry for every data cluster, those not allocated are free. -/
private theorem Ledger.freeClusters_eq (hm : Ledger g m buf w)
    (hin : config.dataClusters + 2 ≤ config.tableEntries) :
    config.freeClusters buf m = config.dataClusters + 2 - w := by
  have hthree := hm.three_le
  rw [tableEntries_eq hg] at hin
  apply countP_range'_le (by omega) (hm.le_dataClusters hg)
  intro c hlo hhi
  simp only [decide_eq_true_eq, tableEntries_eq hg, tableEntryAt_eq hg]
  constructor
  · rintro ⟨-, hzero⟩
    by_contra hlt
    exact hm.used c hlo (by omega) hzero
  · intro hle
    exact ⟨by omega, hm.free c hle (by omega)⟩

end

/-- `createFAT32` counts the entries of both tables, and no call makes up for it:
    whatever was copied in, `freeCount` is not the number of free clusters. -/
theorem freeCount_differs (h : Host) (m₀ m₁ m : Mem) (buf : Nat) (config : FATConfig)
    (hcreate : createFAT32 h m₀ buf config = .ok (0, m₁))
    (hsize : config.nSector.toNat * config.bytesPerSector.toNat < 2 ^ 32) (calls : List RawCall)
    (rets : List Nat) (hrun : Run.run (rawStep h buf) m₁ calls = .ok (rets, m)) :
    m.load (buf + config.bytesPerSector.toNat + FSInfo.freeCount.off) 4 ≠
      config.freeClusters buf m := by
  have ha := createFAT32_accepted hcreate
  have hs := ha.addressable hsize
  have hg := config.geometry_laid ha hs
  have hinit := createFAT32_image hcreate ha hs
  obtain ⟨g, hgEq⟩ : ∃ g, g = config.geometry ha hs := ⟨_, rfl⟩
  rw [← hgEq] at hg hinit
  obtain ⟨w, hm⟩ := hinit.ledger.run (by rw [hg.size]; exact hsize) hrun
  have hfree := hm.freeCount
  rw [hg.bytesPerSector] at hfree
  have hle := config.freeClusters_le buf m
  rw [hm.unallocated_eq hg] at hle
  have hw := hm.le_dataClusters hg
  rw [dataClusters_eq hg] at hle hw
  -- fewer clusters than entries in one table, and the count began with both
  have hmax := g.maxCluster_le
  have hge := g.numEntry_ge
  omega

/-- One file on the smallest volume. -/
theorem freeCount_differs_small :
    ∃ m₁ m, createFAT32 .little (fun _ => 0xFF) 0 smallVolume = .ok (0, m₁) ∧
      Run.run (rawStep .little 0) m₁ [smallCall.raw] = .ok ([11], m) ∧
      m.load (0 + 512 + FSInfo.freeCount.off) 4 ≠ smallVolume.freeClusters 0 m := by
  obtain ⟨m₁, m, hcreate, hrun⟩ := smallVolume_run
  have hraw := (run_raw .little 0 m₁ [smallCall]).trans hrun
  exact ⟨m₁, m, hcreate, hraw, freeCount_differs .little (fun _ => 0xFF) m₁ m 0 smallVolume hcreate
    (by decide) [smallCall.raw] [11] hraw⟩

/-- On the smallest volume `createFAT32` counts 253 free clusters, and there are 5. -/
theorem smallVolume_freeCount :
    ∃ m₁, createFAT32 .little (fun _ => 0xFF) 0 smallVolume = .ok (0, m₁) ∧
      m₁.load (0 + 512 + FSInfo.freeCount.off) 4 = 253 ∧ smallVolume.freeClusters 0 m₁ = 5 := by
  have hcreate := createFAT32_eq .little (fun _ => 0xFF) 0 smallVolume_accepted
    smallVolume_addressable
  have himage := createFAT32_image hcreate smallVolume_accepted smallVolume_addressable
  have hg := smallVolume.geometry_laid smallVolume_accepted smallVolume_addressable
  refine ⟨_, hcreate, ?_, himage.ledger.freeClusters_eq hg (by decide)⟩
  exact formatted_load_info .little _ 0 _ (v := smallVolume.numFreeFATEntry)
    (by simp [fsInfoStores, FSInfo.freeCount]) (by decide)

/-! ## Which files are served -/

/-- The size check and the FAT update accept the files that end at `maxCluster`. -/
private theorem serves_iff (hsize : g.size < 2 ^ 32) (hthree : 3 ≤ w) {size : Nat}
    (hpos : 1 ≤ size) :
    (size ≤ u32 (g.bytesPerCluster * (g.maxCluster - w)) ∧
        w + clustersFor g size ≤ g.maxCluster) ↔
      w + (size + g.bytesPerCluster - 1) / g.bytesPerCluster ≤ g.maxCluster := by
  have hbpc : 1 ≤ g.bytesPerCluster := Nat.le_trans (by decide) g.bytesPerCluster_bounds.1
  have hceil : ∀ k, size ≤ u32 (g.bytesPerCluster * k) →
      clustersFor g size = (size + g.bytesPerCluster - 1) / g.bytesPerCluster := by
    intro k hk
    have hone := (g.cdiv_spec hk).2.2.2 hpos
    have hle := g.u32_clusters_le k
    rw [← cdiv_eq hbpc (by omega), clustersFor]
    omega
  constructor
  · rintro ⟨hfits, hroom⟩
    rwa [hceil _ hfits] at hroom
  · intro hroom
    -- the clusters from `w` to `maxCluster` are a part of the volume
    have hw : w ≤ g.maxCluster := Nat.le_trans (Nat.le_add_right _ _) hroom
    have hbytes : g.bytesPerCluster * (g.maxCluster - w) < 2 ^ 32 := by
      have hadd := g.cluster_add (show 2 ≤ w by omega) (g.maxCluster - w)
      have hend := g.cluster_maxCluster_le
      rw [Nat.add_sub_cancel' hw, Nat.mul_comm] at hadd
      omega
    have hle : size ≤ g.bytesPerCluster * (g.maxCluster - w) := by
      have hdiv : (size + g.bytesPerCluster - 1) / g.bytesPerCluster ≤ g.maxCluster - w := by omega
      rw [Nat.div_le_iff_le_mul_add_pred hbpc] at hdiv
      omega
    have hfits : size ≤ u32 (g.bytesPerCluster * (g.maxCluster - w)) := by
      rwa [u32_of_lt hbytes]
    exact ⟨hfits, by rwa [hceil _ hfits]⟩

section

variable {config : FATConfig} {ha : config.Accepted} {hs : config.Addressable}

/-- A call with a file that reads is served if it finds an unused entry and all
    clusters of the file lie below `maxCluster`. -/
private theorem Ledger.serves_iff (h : Host) {c : RawCall} {stSize : UInt64}
    (hm : Ledger (config.geometry ha hs) m buf w) (hsize : (config.geometry ha hs).size < 2 ^ 32)
    (hstat : c.fd.fstat = .ok stSize) (hpos : 1 ≤ stSize.toNat) (hlt : stSize.toNat < 2 ^ 32)
    (hseek : c.fd.lseek = 0) (hread : c.fd.readRet stSize.toNat = stSize.toNat) :
    (∃ ret m', rawStep h buf m c = .ok (ret, m') ∧ ret ≠ 0) ↔
      config.RootHasRoom buf m ∧
        w + config.clustersOf stSize.toNat ≤ (config.geometry ha hs).maxCluster := by
  have hthree := hm.three_le
  have hu32 := u32_of_lt hlt
  have hroot : (config.geometry ha hs).root = config.rootBytes := (config.geometry ha hs).root_eq
  -- the room in the root directory is in the same bytes for both
  have hroom : config.RootHasRoom buf m ↔ ∃ i, i < (config.geometry ha hs).numRootEntry ∧
      m (buf + (config.geometry ha hs).root + 32 * i) = 0 := by
    rw [hroot]
    rfl
  have hclusters := Fat.serves_iff hsize hthree hpos
  rw [hroom]
  constructor
  · rintro ⟨ret, m', hstep, hne⟩
    -- a call that returns a cluster passed all checks
    obtain ⟨r, hcall, rfl, -⟩ := rawStep_ok.mp hstep
    cases hm.copyin_cases (fun _ _ => startsBelow_of_size hsize hthree _) hcall with
    | refused hret _ => exact absurd hret hne
    | placed stSize' hstat' _ hslot hfits hplace _ _ =>
      obtain rfl := Except.ok.inj (hstat.symm.trans hstat')
      rw [hu32] at hfits hplace
      exact ⟨hslot, hclusters.mp ⟨hfits, hplace⟩⟩
  · rintro ⟨hslot, hplace⟩
    -- when they are passed, the file is placed
    obtain ⟨hfits, hplace⟩ := hclusters.mpr hplace
    obtain ⟨m', hcall, -⟩ := hm.copyin_places h c.name c.attr hstat
      (startsBelow_of_size hsize hthree _) (by rwa [hu32]) hslot hseek (by rwa [hu32])
      (by rwa [hu32])
    refine ⟨_, m', rawStep_ok.mpr ⟨_, hcall, rfl, rfl⟩, ?_⟩
    show (w - 2) * _ + (8 + _) ≠ 0
    omega

end

/-- What is accepted: with an unused entry, a file that leaves two clusters unused. -/
theorem copyin_serves_iff (h : Host) {m₀ m₁ : Mem} {config : FATConfig}
    (hcreate : createFAT32 h m₀ buf config = .ok (0, m₁))
    (hsize : config.nSector.toNat * config.bytesPerSector.toNat < 2 ^ 32) (calls : List RawCall)
    (rets : List Nat) (hrun : Run.run (rawStep h buf) m₁ calls = .ok (rets, m)) (c : RawCall)
    (stSize : UInt64) (hstat : c.fd.fstat = .ok stSize) (hpos : 1 ≤ stSize.toNat)
    (hlt : stSize.toNat < 2 ^ 32) (hseek : c.fd.lseek = 0)
    (hread : c.fd.readRet stSize.toNat = stSize.toNat) :
    (∃ ret m', rawStep h buf m c = .ok (ret, m') ∧ ret ≠ 0) ↔
      config.RootHasRoom buf m ∧
        config.clustersOf stSize.toNat + 2 ≤ config.unallocated buf m := by
  have ha := createFAT32_accepted hcreate
  have hs := ha.addressable hsize
  have hg := config.geometry_laid ha hs
  have hgsize : (config.geometry ha hs).size < 2 ^ 32 := by rwa [hg.size]
  obtain ⟨w, hm⟩ := (createFAT32_image hcreate ha hs).ledger.run hgsize hrun
  rw [hm.serves_iff h hgsize hstat hpos hlt hseek hread, hm.unallocated_eq hg, dataClusters_eq hg]
  have hw := hm.le_dataClusters hg
  rw [dataClusters_eq hg] at hw
  -- the same bound, counted from the clusters that are free
  have hiff : w + config.clustersOf stSize.toNat ≤ (config.geometry ha hs).maxCluster ↔
      config.clustersOf stSize.toNat + 2 ≤ (config.geometry ha hs).maxCluster + 2 - w := by
    omega
  rw [hiff]

/-- A file that fits is refused when it needs all clusters that are left, or all
    but one, and otherwise the files that fit are those accepted. The file is one that
    a single `read` delivers as it was asked for. -/
theorem copyin_accepts_iff (h : Host) (m₀ m₁ m : Mem) (buf : Nat) (config : FATConfig)
    (hcreate : createFAT32 h m₀ buf config = .ok (0, m₁))
    (hsize : config.nSector.toNat * config.bytesPerSector.toNat < 2 ^ 32) (calls : List RawCall)
    (rets : List Nat) (hrun : Run.run (rawStep h buf) m₁ calls = .ok (rets, m)) (c : RawCall)
    (stSize : UInt64) (hstat : c.fd.fstat = .ok stSize) (hpos : 1 ≤ stSize.toNat)
    (hlt : stSize.toNat < 2 ^ 32) (hseek : c.fd.lseek = 0)
    (hread : c.fd.readRet stSize.toNat = stSize.toNat) :
    ((∃ ret m', rawStep h buf m c = .ok (ret, m') ∧ ret ≠ 0) ↔
        config.RootHasRoom buf m ∧
          config.clustersOf stSize.toNat ≤ config.unallocated buf m) ↔
      (config.RootHasRoom buf m →
        config.clustersOf stSize.toNat ≠ config.unallocated buf m ∧
          config.clustersOf stSize.toNat + 1 ≠ config.unallocated buf m) := by
  rw [copyin_serves_iff h hcreate hsize calls rets hrun c stSize hstat hpos hlt hseek hread]
  -- without room in the root directory both sides are about no call
  by_cases hroom : config.RootHasRoom buf m
  · simp only [hroom, true_and, true_implies]
    omega
  · simp only [hroom, false_and, false_implies]

/-- A file of 2049 bytes. -/
def fiveClusters : RawCall where
  fd := { fstat := .ok 2049, lseek := 0, data := fun n => List.replicate n 7, readRet := fun n => n,
          errno := 0, data_le := fun n => by simp, readRet_data := fun n _ => by simp }
  name := smallCall.name.toCString
  attr := 0

/-- A file of five clusters, which is all that is left. -/
theorem copyin_accepts_iff_small :
    ∃ m₁, createFAT32 .little (fun _ => 0xFF) 0 smallVolume = .ok (0, m₁) ∧
      (((∃ ret m', rawStep .little 0 m₁ fiveClusters = .ok (ret, m') ∧ ret ≠ 0) ↔
          smallVolume.RootHasRoom 0 m₁ ∧
            smallVolume.clustersOf 2049 ≤ smallVolume.unallocated 0 m₁) ↔
        (smallVolume.RootHasRoom 0 m₁ →
          smallVolume.clustersOf 2049 ≠ smallVolume.unallocated 0 m₁ ∧
            smallVolume.clustersOf 2049 + 1 ≠ smallVolume.unallocated 0 m₁)) := by
  have hcreate := createFAT32_eq .little (fun _ => 0xFF) 0 smallVolume_accepted
    smallVolume_addressable
  exact ⟨_, hcreate, copyin_accepts_iff .little (fun _ => 0xFF) _ _ 0 smallVolume hcreate
    (by decide) [] [] rfl fiveClusters 2049 rfl (by decide) (by decide) rfl rfl⟩

/-- The smallest volume has 5 clusters left and an unused entry, and refuses a file
    of 5 clusters. -/
theorem smallVolume_refuses :
    ∃ m₁, createFAT32 .little (fun _ => 0xFF) 0 smallVolume = .ok (0, m₁) ∧
      smallVolume.RootHasRoom 0 m₁ ∧ smallVolume.clustersOf 2049 = 5 ∧
      smallVolume.unallocated 0 m₁ = 5 ∧
      ¬ ∃ ret m', rawStep .little 0 m₁ fiveClusters = .ok (ret, m') ∧ ret ≠ 0 := by
  have hcreate := createFAT32_eq .little (fun _ => 0xFF) 0 smallVolume_accepted
    smallVolume_addressable
  have himage := createFAT32_image hcreate smallVolume_accepted smallVolume_addressable
  have hleft := himage.ledger.unallocated_eq
    (smallVolume.geometry_laid smallVolume_accepted smallVolume_addressable)
  have hserves := copyin_serves_iff .little hcreate (by decide) [] [] rfl fiveClusters 2049 rfl
    (by decide) (by decide) rfl rfl
  -- of five clusters a file of 2049 bytes would need the last two and one more
  refine ⟨_, hcreate, himage.rootHasRoom_iff.mpr (by decide), by decide, hleft, ?_⟩
  rw [hserves, hleft]
  rintro ⟨-, hle⟩
  exact absurd hle (by decide)

/-! ## Whether the tables cover the clusters -/

namespace FATConfig

/-- The clusters fill the tables up to the last entry or the last but one, and there are
    enough sectors left over for the reserved sectors and the tables: entries 0 and 1,
    which belong to no cluster, are then missing at the end. -/
def TablesShort (config : FATConfig) : Prop :=
  let clusters := config.numClusterOnDisk
  let perSector := config.numEntryPerSector
  let left := config.nSector.toNat % config.clusterSize.toNat
  (perSector ∣ clusters ∧ 8 + 2 * (clusters / perSector) ≤ left + config.clusterSize.toNat) ∨
    (perSector ∣ clusters + 1 ∧ 8 + 2 * ((clusters + 1) / perSector) ≤ left)

instance (config : FATConfig) : Decidable config.TablesShort :=
  inferInstanceAs (Decidable (_ ∨ _))

end FATConfig

/-- A number of entries just behind `N` fills whole sectors only if it is the number of
    entries of all `F` sectors. -/
private theorem dvd_add_iff {N E F k : Nat} (hlo : N ≤ F * E) (hhi : F * E < N + E) (hk : k < E) :
    E ∣ N + k ↔ F * E = N + k := by
  constructor
  · rintro ⟨q, hq⟩
    rcases Nat.lt_trichotomy F q with hlt | rfl | hlt
    · have hmul := Nat.mul_le_mul_left E (show F + 1 ≤ q from hlt)
      rw [Nat.mul_add, Nat.mul_one, ← hq, Nat.mul_comm E F] at hmul
      omega
    · rw [hq, Nat.mul_comm]
    · have hmul := Nat.mul_le_mul_left E (show q + 1 ≤ F from hlt)
      rw [Nat.mul_add, Nat.mul_one, ← hq, Nat.mul_comm E F] at hmul
      omega
  · intro heq
    exact ⟨F, by rw [← heq, Nat.mul_comm]⟩

/-- A table of `F` sectors, as many as the clusters need when rounded up, has too few
    entries only if the clusters fill it up to the last entry or the last but one. -/
private theorem entries_lt_iff {n cs E F : Nat} (hcs : 1 ≤ cs) (hE : 3 ≤ E)
    (hF : F = (n / cs + E - 1) / E) (hle : 8 + 2 * F + cs ≤ n) :
    F * E < (n - 8 - 2 * F) / cs + 2 ↔
      (E ∣ n / cs ∧ 8 + 2 * (n / cs / E) ≤ n % cs + cs) ∨
        (E ∣ n / cs + 1 ∧ 8 + 2 * ((n / cs + 1) / E) ≤ n % cs) := by
  have hn := Nat.div_add_mod n cs
  have hr := Nat.mod_lt n hcs
  have hN : 1 ≤ n / cs := (Nat.le_div_iff_mul_le hcs).mpr (by omega)
  have hsum := Nat.div_add_mod (n / cs + E - 1) E
  have hmod := Nat.mod_lt (n / cs + E - 1) (show 0 < E by omega)
  rw [← hF, Nat.mul_comm E F] at hsum
  obtain ⟨N, hNeq⟩ : ∃ N, n / cs = N + 1 := ⟨n / cs - 1, by omega⟩
  rw [hNeq] at hn hsum hmod ⊢
  -- the data clusters reach a number when that many clusters fit behind the tables
  have hreach : ∀ j, j ≤ (n - 8 - 2 * F) / cs ↔ cs * j ≤ n - 8 - 2 * F := fun j => by
    rw [Nat.le_div_iff_mul_le hcs, Nat.mul_comm]
  have hdvd0 := @dvd_add_iff (N + 1) E F 0 (by omega) (by omega) (by omega)
  have hdvd1 := @dvd_add_iff (N + 1) E F 1 (by omega) (by omega) (by omega)
  have hquot : ∀ k, F * E = k → k / E = F := fun k hk => by
    rw [← hk, Nat.mul_div_cancel _ (by omega)]
  rw [Nat.mul_add, Nat.mul_one] at hn
  rw [Nat.add_zero] at hdvd0
  rw [hdvd0, hdvd1]
  obtain hfull | hlast | hmore : F * E = N + 1 ∨ F * E = N + 1 + 1 ∨ N + 3 ≤ F * E := by omega
  · have hj := hreach N
    rw [hquot _ hfull]
    omega
  · have hj := hreach (N + 1)
    rw [Nat.mul_add, Nat.mul_one] at hj
    rw [hquot _ hlast]
    omega
  · -- two entries are left over, one for each of the first two numbers
    have hj := hreach (N + 2)
    rw [Nat.mul_add] at hj
    omega

/-- The two sides of the comparison, read from a boot sector. -/
private theorem Geometry.BootSector.cover_iff (h : Host) (hb : g.BootSector m buf) :
    (h.loadLe m buf BPB.numSectors32 - h.loadLe m buf BPB.numReservedSectors -
        2 * h.loadLe m buf BPB.fatSize32) / h.loadLe m buf BPB.numSectorPerCluster + 2 ≤
      h.loadLe m buf BPB.fatSize32 * h.loadLe m buf BPB.bytesPerSector / 4 ↔
    (g.nSector - 8 - 2 * g.fatSize) / g.clusterSize + 2 ≤ g.numEntry := by
  -- the table has as many entries as fit its sectors
  have hentries : g.fatSize * g.bytesPerSector / 4 = g.numEntry := by
    have hfat : g.fatSize * g.bytesPerSector = 4 * g.numEntry := g.bytesPerFAT_eq
    omega
  -- the check reads the fields that the format stored
  have h13 : h.loadLe m buf BPB.numSectorPerCluster = g.clusterSize :=
    (h.loadLe_eq m buf _).trans hb.numSectorPerCluster
  have h11 : h.loadLe m buf BPB.bytesPerSector = g.bytesPerSector :=
    (h.loadLe_eq m buf _).trans hb.bytesPerSector
  have h14 : h.loadLe m buf BPB.numReservedSectors = 8 :=
    (h.loadLe_eq m buf _).trans hb.numReservedSectors
  have h32 : h.loadLe m buf BPB.numSectors32 = g.nSector :=
    (h.loadLe_eq m buf _).trans hb.numSectors32
  have h36 : h.loadLe m buf BPB.fatSize32 = g.fatSize :=
    (h.loadLe_eq m buf _).trans hb.fatSize32
  rw [h13, h11, h14, h32, h36, hentries]

/-- The tables that `createFAT32` writes have an entry for every data cluster of the
    volume, unless the config is one of those that leave them short. -/
theorem tables_cover_iff (h : Host) (m m' : Mem) (buf : Nat) (config : FATConfig)
    (hcreate : createFAT32 h m buf config = .ok (0, m'))
    (hsize : config.nSector.toNat * config.bytesPerSector.toNat < 2 ^ 32) :
    (h.loadLe m' buf BPB.numSectors32 - h.loadLe m' buf BPB.numReservedSectors -
        2 * h.loadLe m' buf BPB.fatSize32) / h.loadLe m' buf BPB.numSectorPerCluster + 2 ≤
      h.loadLe m' buf BPB.fatSize32 * h.loadLe m' buf BPB.bytesPerSector / 4 ↔
    ¬ config.TablesShort := by
  have ha := createFAT32_accepted hcreate
  have hs := ha.addressable hsize
  have hg := config.geometry_laid ha hs
  have hpos := ha.entries_pos
  have hcs : 1 ≤ config.clusterSize.toNat := (config.geometry ha hs).clusterSize_bounds.1
  rw [(createFAT32_image hcreate ha hs).boot.cover_iff h, ← Nat.not_lt, not_iff_not]
  exact entries_lt_iff hcs (show 3 ≤ config.numEntryPerSector by omega) rfl ha.root_le

/-- The tables of the smallest volume cover it. -/
theorem tables_cover_small :
    ∃ m', createFAT32 .little (fun _ => 0xFF) 0 smallVolume = .ok (0, m') ∧
      ((Host.little.loadLe m' 0 BPB.numSectors32 - Host.little.loadLe m' 0 BPB.numReservedSectors -
          2 * Host.little.loadLe m' 0 BPB.fatSize32) /
          Host.little.loadLe m' 0 BPB.numSectorPerCluster + 2 ≤
        Host.little.loadLe m' 0 BPB.fatSize32 * Host.little.loadLe m' 0 BPB.bytesPerSector / 4 ↔
          ¬ smallVolume.TablesShort) := by
  have hcreate := createFAT32_eq .little (fun _ => 0xFF) 0 smallVolume_accepted
    smallVolume_addressable
  exact ⟨_, hcreate, tables_cover_iff .little _ _ 0 smallVolume hcreate (by decide)⟩

/-- A volume of 128 clusters of 128 sectors, whose table is a sector of 128 entries. -/
def fullTable : FATConfig := ⟨16384, 512, 128, true⟩

/-- Its configuration passes the checks. -/
private theorem fullTable_accepted : fullTable.Accepted :=
  ⟨by decide, by decide, by decide, by decide⟩

/-- On that volume there are data clusters 2 to 128, and the table ends at entry 127. -/
theorem fullTable_short :
    ¬ ∀ (h : Host) (m m' : Mem) (buf : Nat) (config : FATConfig),
      createFAT32 h m buf config = .ok (0, m') →
      config.nSector.toNat * config.bytesPerSector.toNat < 2 ^ 32 →
      (h.loadLe m' buf BPB.numSectors32 - h.loadLe m' buf BPB.numReservedSectors -
          2 * h.loadLe m' buf BPB.fatSize32) / h.loadLe m' buf BPB.numSectorPerCluster + 2 ≤
        h.loadLe m' buf BPB.fatSize32 * h.loadLe m' buf BPB.bytesPerSector / 4 := by
  intro hall
  have hs := fullTable_accepted.addressable (by decide)
  have hcreate := createFAT32_eq .little (fun _ => 0) 0 fullTable_accepted hs
  have hcover := hall _ _ _ _ _ hcreate (by decide)
  rw [(createFAT32_image hcreate fullTable_accepted hs).boot.cover_iff] at hcover
  have hshort : ¬ ((16384 - 8 - 2 * fullTable.tableSectors) / 128 + 2 ≤
      fullTable.tableSectors * (512 / 4)) := by decide
  exact hshort hcover

end Tlibc.Fat
