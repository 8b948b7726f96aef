import Tlibc.Lib.Run
import Tlibc.Native.Fat
import Mathlib.Tactic.Ring

/-!
# The layout of a FAT32 volume

A `Geometry` is a layout that fits its volume and whose file system part can be
addressed by a `uint32_t`. `GeometryOf.BootSector` says that a boot sector
describes it; from such a boot sector `FAT32SuperInit` recovers the layout and
nothing else (`fat32SuperInit_eq`), and the functions on the super block compute
what the layout says, without wrapping.
-/

namespace Tlibc.Fat

/-! ## Arithmetic that does not wrap -/

/-- A number below `2 ^ 32` is its own remainder. -/
theorem u32_of_lt {n : Nat} (h : n < 2 ^ 32) : u32 n = n := Nat.mod_eq_of_lt h

/-- A remainder is below `2 ^ 32`. -/
theorem u32_lt (n : Nat) : u32 n < 2 ^ 32 := Nat.mod_lt _ (by decide)

/-- It is not above the number. -/
private theorem u32_le (n : Nat) : u32 n ≤ n := Nat.mod_le _ _

/-- A difference that does not wrap. -/
theorem sub32_of_le {a b : Nat} (h : b ≤ a) (ha : a < 2 ^ 32) : sub32 a b = a - b := by
  rw [sub32, u32]
  omega

/-- `CDIV` as long as the sum fits in the type. -/
theorem cdiv_eq {a b : Nat} (hb : 1 ≤ b) (h : a + b ≤ 2 ^ 32) : cdiv a b = (a + b - 1) / b := by
  have hnum : sub32 (u32 (a + b)) 1 = a + b - 1 := by
    rw [sub32, u32, u32]
    omega
  rw [cdiv, hnum]

/-- A check that holds is passed. -/
theorem ensure_of {p : Prop} [Decidable p] {fault : Fault} (h : p) : ensure p fault = .ok () :=
  if_pos h

/-- One that does not is a fault. -/
theorem ensure_not {p : Prop} [Decidable p] {fault : Fault} (h : ¬ p) :
    ensure p fault = .error fault := if_neg h

/-! ## Geometries -/

/-- A layout: 8 reserved sectors, two tables of `fatSize` sectors, and the data
    region, whose first cluster is the root directory. -/
structure Geometry where
  nSector : Nat
  bytesPerSector : Nat
  clusterSize : Nat
  fatSize : Nat
  bytesPerSector_mem : bytesPerSector ∈ [512, 1024, 2048, 4096]
  clusterSize_mem : clusterSize ∈ [1, 2, 4, 8, 16, 32, 64, 128]
  nSector_lt : nSector < 2 ^ 32
  /-- the data region starts where a `uint32_t` can point -/
  tables_lt : (8 + 2 * fatSize) * bytesPerSector < 2 ^ 32
  /-- the root directory lies inside the volume -/
  root_le : 8 + 2 * fatSize + clusterSize ≤ nSector
  /-- a table has an entry for every cluster -/
  covers : nSector / clusterSize ≤ fatSize * (bytesPerSector / 4)

namespace Geometry

variable (g : Geometry)

/-- The bytes of a cluster. -/
def bytesPerCluster : Nat := g.clusterSize * g.bytesPerSector

/-- The bytes of a table. -/
def bytesPerFAT : Nat := g.fatSize * g.bytesPerSector

/-- The sectors of both tables. -/
def numFAT : Nat := g.fatSize * 2

/-- The sectors of the data region. -/
def numData : Nat := g.nSector - 8 - g.numFAT

/-- The clusters of the data area, which `FAT32SuperInit` takes as the maximum cluster number. -/
def maxCluster : Nat := g.numData / g.clusterSize

/-- The entries of one table. -/
def numEntry : Nat := g.fatSize * (g.bytesPerSector / 4)

/-- The entries of the root directory, which is one cluster. -/
def numRootEntry : Nat := g.bytesPerCluster / 32

/-- The bytes of the volume. -/
def size : Nat := g.nSector * g.bytesPerSector

/-- Where table `t` begins, from the start of the volume. -/
def table (t : Nat) : Nat := 8 * g.bytesPerSector + t * g.bytesPerFAT

/-- Where the root directory begins. -/
def root : Nat := 8 * g.bytesPerSector + 2 * g.bytesPerFAT

/-- The first sector of cluster `c`. -/
def sectorOf (c : Nat) : Nat := (c - 2) * g.clusterSize + (8 + g.numFAT)

/-- Where cluster `c` begins. -/
def cluster (c : Nat) : Nat := g.root + (c - 2) * g.bytesPerCluster

/-- A sector has 512 to 4096 bytes. -/
theorem bytesPerSector_bounds :
    512 ≤ g.bytesPerSector ∧ g.bytesPerSector ≤ 4096 ∧ g.bytesPerSector % 32 = 0 := by
  have h := g.bytesPerSector_mem
  simp only [List.mem_cons, List.not_mem_nil, or_false] at h
  rcases h with h | h | h | h <;> rw [h] <;> decide

/-- A cluster has 1 to 128 sectors. -/
theorem clusterSize_bounds : 1 ≤ g.clusterSize ∧ g.clusterSize ≤ 128 := by
  have h := g.clusterSize_mem
  simp only [List.mem_cons, List.not_mem_nil, or_false] at h
  rcases h with h | h | h | h | h | h | h | h <;> rw [h] <;> decide

/-- So it has 512 bytes to 512 KiB. -/
theorem bytesPerCluster_bounds : 512 ≤ g.bytesPerCluster ∧ g.bytesPerCluster ≤ 2 ^ 19 := by
  obtain ⟨hlo, hhi, -⟩ := g.bytesPerSector_bounds
  obtain ⟨hlo', hhi'⟩ := g.clusterSize_bounds
  have hmul : g.clusterSize * g.bytesPerSector ≤ 128 * 4096 := Nat.mul_le_mul hhi' hhi
  exact ⟨Nat.le_trans hlo (Nat.le_mul_of_pos_left _ hlo'), hmul⟩

/-- The size of a cluster is a power of two. -/
private theorem bytesPerCluster_dvd : g.bytesPerCluster ∣ 2 ^ 32 := by
  -- both factors are powers of two, of 4096 and 128 at most
  have hb : g.bytesPerSector ∣ 4096 := by
    have h := g.bytesPerSector_mem
    simp only [List.mem_cons, List.not_mem_nil, or_false] at h
    rcases h with h | h | h | h <;> rw [h] <;> decide
  have hc : g.clusterSize ∣ 128 := by
    have h := g.clusterSize_mem
    simp only [List.mem_cons, List.not_mem_nil, or_false] at h
    rcases h with h | h | h | h | h | h | h | h <;> rw [h] <;> decide
  exact Nat.dvd_trans (Nat.mul_dvd_mul hc hb) (by decide)

/-- A number of whole clusters that fits in a `uint32_t` leaves room for the
    rounding of `CDIV`. -/
theorem u32_clusters_le (k : Nat) : u32 (g.bytesPerCluster * k) + g.bytesPerCluster ≤ 2 ^ 32 := by
  obtain ⟨r, hr⟩ := g.bytesPerCluster_dvd
  -- the cluster size divides `2 ^ 32`, so the reduced product is whole clusters too,
  -- and a cluster below `2 ^ 32` at least
  have hdvd : g.bytesPerCluster ∣ u32 (g.bytesPerCluster * k) :=
    (Nat.dvd_mod_iff g.bytesPerCluster_dvd).mpr (Nat.dvd_mul_right _ _)
  obtain ⟨q, hq⟩ := hdvd
  have hlt := u32_lt (g.bytesPerCluster * k)
  rw [hq, hr] at hlt
  have hqr : q + 1 ≤ r := Nat.lt_of_mul_lt_mul_left hlt
  rw [hq, hr, ← Nat.mul_succ]
  exact Nat.mul_le_mul_left _ hqr

/-- The clusters `CDIV` computes for a file that passes the size check hold the
    file, and there are that many. -/
theorem cdiv_spec {size k : Nat} (h : size ≤ u32 (g.bytesPerCluster * k)) :
    size ≤ cdiv size g.bytesPerCluster * g.bytesPerCluster ∧
      cdiv size g.bytesPerCluster * g.bytesPerCluster < 2 ^ 32 ∧
      cdiv size g.bytesPerCluster ≤ k ∧ (1 ≤ size → 1 ≤ cdiv size g.bytesPerCluster) := by
  have hpos : 1 ≤ g.bytesPerCluster := Nat.le_trans (by decide) g.bytesPerCluster_bounds.1
  have hle := g.u32_clusters_le k
  have hk := u32_le (g.bytesPerCluster * k)
  rw [cdiv_eq hpos (by omega)]
  -- `CDIV` does not wrap here, so it rounds up
  have hdiv := Nat.div_add_mod (size + g.bytesPerCluster - 1) g.bytesPerCluster
  have hmod := Nat.mod_lt (size + g.bytesPerCluster - 1) hpos
  rw [Nat.mul_comm] at hdiv
  refine ⟨by omega, by omega, ?_, fun hs => ?_⟩
  · rw [Nat.div_le_iff_le_mul_add_pred hpos]
    omega
  · exact (Nat.le_div_iff_mul_le hpos).mpr (by omega)

/-- A cluster is a whole number of directory entries. -/
theorem bytesPerCluster_eq : g.bytesPerCluster = 32 * g.numRootEntry := by
  obtain ⟨-, -, h⟩ := g.bytesPerSector_bounds
  have hdvd : 32 ∣ g.bytesPerCluster :=
    Nat.dvd_trans (Nat.dvd_of_mod_eq_zero h) (Nat.dvd_mul_left _ _)
  exact (Nat.mul_div_cancel' hdvd).symm

/-- The root directory has at least 16 entries. -/
theorem numRootEntry_pos : 16 ≤ g.numRootEntry := by
  have h := g.bytesPerCluster_eq
  have hb := g.bytesPerCluster_bounds
  omega

/-- A table is a whole number of entries. -/
theorem bytesPerFAT_eq : g.bytesPerFAT = 4 * g.numEntry := by
  obtain ⟨-, -, h⟩ := g.bytesPerSector_bounds
  have h4 : g.bytesPerSector = 4 * (g.bytesPerSector / 4) := by omega
  rw [bytesPerFAT, numEntry]
  conv => lhs; rw [h4]
  ring

/-- The data region starts behind the two tables. -/
theorem root_eq : g.root = (8 + g.numFAT) * g.bytesPerSector := by
  rw [root, numFAT, bytesPerFAT]
  ring

/-- The data area starts below 4 GiB. -/
theorem root_lt : g.root < 2 ^ 32 := by
  rw [root_eq, numFAT, Nat.mul_comm g.fatSize 2]
  exact g.tables_lt

/-- The reserved sectors, the tables and one cluster fit the volume. -/
theorem numFAT_le : 8 + g.numFAT + g.clusterSize ≤ g.nSector := by
  have h := g.root_le
  rw [numFAT]
  omega

/-- The second table is behind the first one. -/
theorem table_one : g.table 1 = g.table 0 + g.bytesPerFAT := by
  rw [table, table]
  ring

/-- The first table is behind the reserved sectors. -/
theorem table_zero : g.table 0 = 8 * g.bytesPerSector := by
  rw [table, Nat.zero_mul, Nat.add_zero]

/-- The data area is behind both. -/
theorem root_eq_table : g.root = g.table 0 + g.bytesPerFAT + g.bytesPerFAT := by
  rw [root, table]
  ring

/-- Both tables lie in front of the root directory. -/
theorem table_bounds {t : Nat} (ht : t < 2) :
    g.table 0 ≤ g.table t ∧ g.table t + g.bytesPerFAT ≤ g.root := by
  have hone := g.table_one
  have hroot := g.root_eq_table
  obtain rfl | rfl : t = 0 ∨ t = 1 := by omega
  · omega
  · omega

/-- The sectors of the data area are the others. -/
theorem numData_eq : g.numData + 8 + g.numFAT = g.nSector := by
  have h := g.numFAT_le
  rw [numData]
  omega

/-- There are enough table entries for all cluster numbers. -/
theorem maxCluster_le : g.maxCluster ≤ g.numEntry := by
  have hle : g.numData ≤ g.nSector := by
    rw [numData]
    omega
  exact Nat.le_trans (Nat.div_le_div_right hle) g.covers

/-- The entries of both tables take less than 4 GiB. -/
theorem numEntry_lt : 8 * g.numEntry < 2 ^ 32 := by
  have h := g.root_lt
  have h2 := g.root_eq_table
  have h3 := g.bytesPerFAT_eq
  omega

/-- A table has a whole sector of entries at least. -/
theorem numEntry_ge : 128 ≤ g.numEntry := by
  have hle := g.root_le
  have hcov := g.covers
  have hbps := g.bytesPerSector_bounds
  -- a volume has a cluster, so a table that covers it is not empty
  have hpos : 1 ≤ g.nSector / g.clusterSize := by
    rw [Nat.le_div_iff_mul_le g.clusterSize_bounds.1]
    omega
  have hfat : 1 ≤ g.fatSize := by
    rcases Nat.eq_zero_or_pos g.fatSize with h0 | h0
    · rw [h0, Nat.zero_mul] at hcov
      omega
    · exact h0
  have hnum : g.bytesPerSector / 4 ≤ g.numEntry := Nat.le_mul_of_pos_left _ hfat
  omega

/-- The clusters fit the data area. -/
private theorem maxCluster_mul_le : g.maxCluster * g.clusterSize ≤ g.numData :=
  Nat.div_mul_le_self _ _

/-- Cluster 2 is where the data area starts. -/
theorem cluster_two : g.cluster 2 = g.root := by
  rw [cluster, Nat.sub_self, Nat.zero_mul, Nat.add_zero]

/-- The clusters follow each other. -/
theorem cluster_add {c : Nat} (hc : 2 ≤ c) (n : Nat) :
    g.cluster (c + n) = g.cluster c + n * g.bytesPerCluster := by
  obtain ⟨d, rfl⟩ := Nat.exists_eq_add_of_le hc
  rw [cluster, cluster, Nat.add_assoc 2 d n, Nat.add_sub_cancel_left, Nat.add_sub_cancel_left,
    Nat.add_mul, Nat.add_assoc]

/-- A later cluster is at a later address. -/
theorem cluster_mono {c d : Nat} (hc : 2 ≤ c) (h : c ≤ d) : g.cluster c ≤ g.cluster d := by
  obtain ⟨n, rfl⟩ := Nat.exists_eq_add_of_le h
  rw [g.cluster_add hc]
  exact Nat.le_add_right _ _

/-- Clusters are sectors of the data region. -/
theorem sectorOf_mul (c : Nat) : g.sectorOf c * g.bytesPerSector = g.cluster c := by
  rw [sectorOf, cluster, root_eq, bytesPerCluster]
  ring

/-- Every cluster below `maxCluster` ends inside the volume; so do the next two. -/
theorem cluster_end_le : g.cluster (g.maxCluster + 2) ≤ g.size := by
  rw [← sectorOf_mul, size, sectorOf, Nat.add_sub_cancel]
  have h := g.maxCluster_mul_le
  have h2 := g.numData_eq
  exact Nat.mul_le_mul_right _ (by omega)

/-- The clusters below the maximum number lie inside the volume. -/
theorem cluster_maxCluster_le : g.cluster g.maxCluster ≤ g.size := by
  refine Nat.le_trans ?_ g.cluster_end_le
  unfold cluster
  exact Nat.add_le_add_left (Nat.mul_le_mul_right _ (by omega)) _

/-- A cluster that is not above the maximum number starts inside the volume. -/
theorem cluster_le_size {c : Nat} (hc : 2 ≤ c) (h : c ≤ g.maxCluster) : g.cluster c ≤ g.size :=
  Nat.le_trans (g.cluster_mono hc (by omega)) g.cluster_end_le

/-- Its sector is one of the volume. -/
theorem sectorOf_lt {c : Nat} (hc : 3 ≤ c) (h : c ≤ g.maxCluster) : g.sectorOf c < g.nSector := by
  have hm := g.maxCluster_mul_le
  have hd := g.numData_eq
  have hpos := g.clusterSize_bounds.1
  -- cluster `c` starts behind `c - 2` clusters of the data region
  have hlt : (c - 2) * g.clusterSize < g.maxCluster * g.clusterSize :=
    Nat.mul_lt_mul_of_pos_right (by omega) hpos
  rw [sectorOf]
  omega

/-- The root directory lies inside the volume. -/
theorem root_end_le : g.root + g.bytesPerCluster ≤ g.size := by
  rw [root_eq, bytesPerCluster, size, ← Nat.add_mul]
  exact Nat.mul_le_mul_right _ g.numFAT_le

/-! ## The super block -/

/-- The boot sector describes the layout. -/
structure BootSector (m : Mem) (buf : Nat) : Prop where
  bytesPerSector : m.load (buf + BPB.bytesPerSector.off) 2 = g.bytesPerSector
  numSectorPerCluster : m.load (buf + BPB.numSectorPerCluster.off) 1 = g.clusterSize
  numReservedSectors : m.load (buf + BPB.numReservedSectors.off) 2 = 8
  numAllocTable : m.load (buf + BPB.numAllocTable.off) 1 = 2
  numSectors32 : m.load (buf + BPB.numSectors32.off) 4 = g.nSector
  fatSize32 : m.load (buf + BPB.fatSize32.off) 4 = g.fatSize
  rootCluster : m.load (buf + BPB.rootCluster.off) 4 = 2

/-- A boot sector is the same wherever its 512 bytes are. -/
theorem BootSector.congr {g : Geometry} {m m' : Mem} {buf : Nat}
    (h : ∀ i, i < 512 → m' (buf + i) = m (buf + i)) (hb : g.BootSector m buf) :
    g.BootSector m' buf := by
  have hload : ∀ off n, off + n ≤ 512 → m'.load (buf + off) n = m.load (buf + off) n := by
    intro off n hoff
    refine Mem.load_congr fun i hi => ?_
    rw [Nat.add_assoc]
    exact h _ (by omega)
  constructor
  · rw [hload _ _ (by decide)]; exact hb.bytesPerSector
  · rw [hload _ _ (by decide)]; exact hb.numSectorPerCluster
  · rw [hload _ _ (by decide)]; exact hb.numReservedSectors
  · rw [hload _ _ (by decide)]; exact hb.numAllocTable
  · rw [hload _ _ (by decide)]; exact hb.numSectors32
  · rw [hload _ _ (by decide)]; exact hb.fatSize32
  · rw [hload _ _ (by decide)]; exact hb.rootCluster

/-- The super block of the layout, with `n` root entries in use. -/
def super (buf n : Nat) : FAT32Super where
  buf := buf
  fsInfo := some (buf + g.bytesPerSector)
  bytesPerSector := g.bytesPerSector
  bytesPerCluster := g.bytesPerCluster
  bytesPerFAT := g.bytesPerFAT
  numSector := g.nSector
  numReserved := 8
  numFAT := g.numFAT
  numData := g.numData
  maxCluster := g.maxCluster
  rootCluster := 2
  numEntryTable := 2
  tables := [buf + g.table 0, buf + g.table 1]
  rootDir := some (buf + g.root)
  nextRootEntry := n
  numRootEntry := g.numRootEntry

/-- The first `n` root entries are in use and the next one, if there is one, is not. -/
def RootUsed (m : Mem) (buf n : Nat) : Prop :=
  n ≤ g.numRootEntry ∧ (∀ i, i < n → m (buf + g.root + 32 * i) ≠ 0) ∧
    (n < g.numRootEntry → m (buf + g.root + 32 * n) = 0)

/-- The first unused entry of the root directory is the one behind the used ones. -/
theorem firstUnused_eq {m : Mem} {buf n : Nat} (h : g.RootUsed m buf n) :
    firstUnused m (buf + g.root) g.numRootEntry = n := by
  obtain ⟨hn, hused, hfree⟩ := h
  rw [firstUnused]
  -- the search ends at entry `n`, or finds none when the directory is full
  by_cases hlt : n < g.numRootEntry
  · have hfind : (List.range g.numRootEntry).find? (fun i =>
        m (buf + g.root + FATDirEntry.size * i + FATDirEntry.name) == 0) = some n := by
      rw [List.find?_range_eq_some]
      refine ⟨?_, List.mem_range.mpr hlt, fun j hj => ?_⟩
      · exact beq_iff_eq.mpr (hfree hlt)
      · simpa using hused j hj
    rw [hfind, Option.getD_some]
  · have hfind : (List.range g.numRootEntry).find? (fun i =>
        m (buf + g.root + FATDirEntry.size * i + FATDirEntry.name) == 0) = none := by
      rw [List.find?_range_eq_none]
      intro j hj
      simpa using hused j (by omega)
    rw [hfind, Option.getD_none]
    omega

/-- From a boot sector of the layout, with the root directory's chain ended at its
    first cluster, `FAT32SuperInit` recovers the layout. -/
theorem fat32SuperInit_eq (h : Host) {m : Mem} {buf n : Nat} (hb : g.BootSector m buf)
    (hchain : m.load (buf + g.table 0 + 8) 4 = 0xFFFFFFFF) (hroot : g.RootUsed m buf n) :
    fat32SuperInit h m buf = .ok (g.super buf n) := by
  obtain ⟨hbps, hbps', -⟩ := g.bytesPerSector_bounds
  obtain ⟨hcs, hcs'⟩ := g.clusterSize_bounds
  obtain ⟨-, hbpc⟩ := g.bytesPerCluster_bounds
  have hroot_lt := g.root_lt
  have hroot_eq := g.root_eq_table
  have hfat4 := g.bytesPerFAT_eq
  have htab := g.table_zero
  have hle := g.numFAT_le
  have hns := g.nSector_lt
  have hres : 8 + g.numFAT < 2 ^ 32 := by omega
  -- every product and sum of the layout is below `2 ^ 32`
  have htable : buf + u32 (g.bytesPerSector * 8) = buf + g.table 0 := by
    rw [htab, Nat.mul_comm g.bytesPerSector 8, u32_of_lt (by omega)]
  have hstride : g.bytesPerFAT / 4 * 4 = g.bytesPerFAT := by omega
  have hfirst := g.firstUnused_eq hroot
  have hsub : sub32 (sub32 g.nSector 8) g.numFAT = g.numData := by
    rw [sub32_of_le (by omega) hns, sub32_of_le (by omega) (by omega), numData]
  have hfat : u32 (g.fatSize * g.bytesPerSector) = g.bytesPerFAT :=
    u32_of_lt (show g.bytesPerFAT < 2 ^ 32 by omega)
  have hnum : u32 (g.fatSize * 2) = g.numFAT := u32_of_lt (show g.numFAT < 2 ^ 32 by omega)
  have hcl : u32 (g.clusterSize * g.bytesPerSector) = g.bytesPerCluster :=
    u32_of_lt (show g.bytesPerCluster < 2 ^ 32 by omega)
  have hrootsec : u32 ((8 + g.numFAT) * g.bytesPerSector) = g.root := by
    rw [← root_eq, u32_of_lt hroot_lt]
  have hfuel : (2 : Nat) ^ 32 = (2 ^ 32 - 1) + 1 := by decide
  have hbpcR : u32 (1 * g.bytesPerCluster) / 32 = g.numRootEntry := by
    rw [Nat.one_mul, u32_of_lt (by omega), numRootEntry]
  -- the fields of the boot sector, at their offsets
  have h11 : m.load (buf + 11) 2 = g.bytesPerSector := hb.bytesPerSector
  have h13 : m.load (buf + 13) 1 = g.clusterSize := hb.numSectorPerCluster
  have h14 : m.load (buf + 14) 2 = 8 := hb.numReservedSectors
  have h16 : m.load (buf + 16) 1 = 2 := hb.numAllocTable
  have h32 : m.load (buf + 32) 4 = g.nSector := hb.numSectors32
  have h36 : m.load (buf + 36) 4 = g.fatSize := hb.fatSize32
  have h44 : m.load (buf + 44) 4 = 2 := hb.rootCluster
  have hchain' : m.load (buf + g.table 0 + 4 * 2) 4 = 0xFFFFFFFF := hchain
  simp only [fat32SuperInit, Host.loadLe_eq, Width.bytes, BPB.bytesPerSector,
    BPB.numSectorPerCluster, BPB.fatSize32, BPB.numSectors32, BPB.numReservedSectors,
    BPB.numAllocTable, BPB.rootCluster, tableEntry, h11, h13, h14, h16, h32, h36, h44, hfat, hnum,
    hcl, hsub, htable, hstride, ensure_of (show g.clusterSize ≠ 0 by omega),
    ensure_of (show 2 ≤ 4 by decide), Run.ok_bind, hchain']
  rw [hfuel]
  -- the root directory is one cluster: its entry ends the chain
  simp only [rootChain, if_true, Run.ok_bind, hbpcR, FATDirEntry.size, fat32SuperGetSector,
    u32_of_lt hres, if_neg (show ¬ g.nSector ≤ 8 + g.numFAT by omega), hrootsec, Option.getD_some,
    hfirst, ensure_of (show g.numRootEntry = 0 ∨ some (buf + g.root) ≠ none from .inr nofun)]
  rw [if_neg (show ¬ g.nSector ≤ 1 by omega), Nat.one_mul, u32_of_lt (by omega)]
  have htables : buf + g.table 0 + g.bytesPerFAT = buf + g.table 1 := by
    rw [table_one, Nat.add_assoc]
  rw [show 2 - 1 = 1 from rfl, tablesAfter, tablesAfter, htables]
  rfl

variable {g}

/-- A sector below 4 GiB is found. -/
theorem getSector_super {buf n s : Nat} (hs : s < g.nSector) (hlt : s * g.bytesPerSector < 2 ^ 32) :
    fat32SuperGetSector (g.super buf n) s = some (buf + s * g.bytesPerSector) := by
  rw [fat32SuperGetSector, super, if_neg (Nat.not_le.mpr hs), u32_of_lt hlt]

/-- The two copies of `FAT32SuperFree`. -/
def sync (g : Geometry) (m : Mem) (buf : Nat) : Mem :=
  (m.copy (buf + 6 * g.bytesPerSector) buf g.bytesPerSector).copy (buf + 7 * g.bytesPerSector)
    (buf + g.bytesPerSector) g.bytesPerSector

/-- `FAT32SuperFree` copies the first two sectors to sectors 6 and 7. -/
theorem fat32SuperFree_eq (m : Mem) (buf n : Nat) :
    fat32SuperFree m (g.super buf n) = .ok (g.sync m buf) := by
  have hle := g.numFAT_le
  have hbps := g.bytesPerSector_bounds
  have hsec : ∀ s, s < 8 → fat32SuperGetSector (g.super buf n) s =
      some (buf + s * g.bytesPerSector) :=
    fun s hs => getSector_super (by omega)
      (Nat.lt_of_le_of_lt (Nat.mul_le_mul (Nat.le_of_lt hs) hbps.2.1) (by decide))
  rw [fat32SuperFree, hsec 6 (by decide), hsec 7 (by decide), hsec 1 (by decide), Nat.one_mul]
  rfl

end Geometry

end Tlibc.Fat
