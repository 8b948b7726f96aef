import Tlibc.Spec.FatVolume
import Mathlib.Data.Set.Pairwise.Lattice
import Mathlib.Order.CompletePartialOrder
import Mathlib.Order.Interval.Set.Disjoint

/-!
# What `createFAT32` lays out

A config that passes the checks, and whose tables end where a `uint32_t` can
still point, has a `Geometry`. The volume `createFAT32` leaves is the image of
that geometry that holds no file (`createFAT32_image`), and the ranges it writes
are disjoint parts of the volume (`createFAT32_layout`).
-/

namespace Tlibc.Fat

/-! ## From a config to its geometry -/

namespace FATConfig

/-- The sectors of one table: an entry for every cluster, rounded up. -/
def tableSectors (config : FATConfig) : Nat :=
  (config.numClusterOnDisk + config.numEntryPerSector - 1) / config.numEntryPerSector

/-- The tables end below byte `2 ^ 32`, so that no offset into them wraps. -/
def Addressable (config : FATConfig) : Prop :=
  (8 + 2 * config.tableSectors) * config.bytesPerSector.toNat < 2 ^ 32

/-- What the checks and the assertion of `createFAT32` let through. -/
structure Accepted (config : FATConfig) : Prop where
  nSector : 16 ≤ config.nSector.toNat
  bytesPerSector : config.bytesPerSector.toNat ∈ [512, 1024, 2048, 4096]
  clusterSize : config.clusterSize.toNat ∈ [1, 2, 4, 8, 16, 32, 64, 128]
  clusters : 2 < config.numClusterOnDisk

variable {config : FATConfig}

/-- The root directory ends inside the volume, down to the smallest one accepted. -/
theorem Accepted.root_le (ha : config.Accepted) :
    8 + 2 * config.tableSectors + config.clusterSize.toNat ≤ config.nSector.toNat := by
  have h16 := ha.nSector
  have hb := ha.bytesPerSector
  have hc := ha.clusterSize
  have h2 := ha.clusters
  rw [tableSectors]
  rw [numClusterOnDisk] at h2 ⊢
  rw [numEntryPerSector]
  simp only [List.mem_cons, List.not_mem_nil, or_false] at hb hc
  rcases hb with hb | hb | hb | hb <;>
    rcases hc with hc | hc | hc | hc | hc | hc | hc | hc <;> rw [hc] at h2 ⊢ <;> rw [hb] <;> omega

/-- A sector of an accepted configuration holds 128 to 1024 table entries. -/
theorem Accepted.entries_pos (ha : config.Accepted) :
    128 ≤ config.numEntryPerSector ∧ config.numEntryPerSector ≤ 1024 ∧
      config.bytesPerSector.toNat = 4 * config.numEntryPerSector := by
  have hb := ha.bytesPerSector
  simp only [List.mem_cons, List.not_mem_nil, or_false] at hb
  rw [numEntryPerSector]
  omega

/-- An accepted configuration passes the checks of `createFAT32`. -/
theorem Accepted.valid (ha : config.Accepted) : config.valid = true := by
  simp only [FATConfig.valid, Bool.and_eq_true, decide_eq_true_eq, List.contains_iff_mem]
  exact ⟨⟨ha.nSector, ha.bytesPerSector⟩, ha.clusterSize⟩

/-- Its sectors have 512 to 4096 bytes. -/
theorem Accepted.bytesPerSector_bounds (ha : config.Accepted) :
    512 ≤ config.bytesPerSector.toNat ∧ config.bytesPerSector.toNat ≤ 4096 := by
  have hmem := ha.bytesPerSector
  simp only [List.mem_cons, List.not_mem_nil, or_false] at hmem
  omega

/-- The offset of a reserved sector, or of the first table, does not wrap. -/
theorem Accepted.sectorOffset (ha : config.Accepted) {k : Nat} (hk : k ≤ 8) :
    u32 (config.bytesPerSector.toNat * k) = k * config.bytesPerSector.toNat := by
  have hle := Nat.mul_le_mul ha.bytesPerSector_bounds.2 hk
  rw [u32_of_lt (by omega), Nat.mul_comm]

/-- Rounding up, a table has an entry for every cluster. -/
private theorem Accepted.covers (ha : config.Accepted) :
    config.numClusterOnDisk ≤ config.tableSectors * config.numEntryPerSector := by
  have hpos := ha.entries_pos
  have hdiv := Nat.div_add_mod (config.numClusterOnDisk + config.numEntryPerSector - 1)
    config.numEntryPerSector
  have hmod := Nat.mod_lt (config.numClusterOnDisk + config.numEntryPerSector - 1)
    (show 0 < config.numEntryPerSector by omega)
  rw [Nat.mul_comm] at hdiv
  rw [tableSectors]
  omega

/-- The layout of a config. -/
def geometry (config : FATConfig) (ha : config.Accepted) (hs : config.Addressable) : Geometry where
  nSector := config.nSector.toNat
  bytesPerSector := config.bytesPerSector.toNat
  clusterSize := config.clusterSize.toNat
  fatSize := config.tableSectors
  bytesPerSector_mem := ha.bytesPerSector
  clusterSize_mem := ha.clusterSize
  nSector_lt := config.nSector.toNat_lt
  tables_lt := hs
  root_le := ha.root_le
  covers := ha.covers

/-- A volume of less than `2 ^ 32` bytes is addressable. -/
theorem Accepted.addressable (ha : config.Accepted)
    (hsize : config.nSector.toNat * config.bytesPerSector.toNat < 2 ^ 32) : config.Addressable := by
  have hroot := ha.root_le
  have hle : 8 + 2 * config.tableSectors ≤ config.nSector.toNat := by omega
  exact Nat.lt_of_le_of_lt (Nat.mul_le_mul_right _ hle) hsize

/-- `CDIV` computes the table size when the tables can be addressed. -/
theorem Accepted.fatSizeInSector_eq (ha : config.Accepted) (hs : config.Addressable) :
    config.fatSizeInSector = config.tableSectors := by
  have hpos := ha.entries_pos
  have hcov := ha.covers
  have hs : (8 + 2 * config.tableSectors) * config.bytesPerSector.toNat < 2 ^ 32 := hs
  -- in entries: the tables hold fewer than `2 ^ 29`, so `CDIV` does not wrap
  have hmul : (8 + 2 * config.tableSectors) * config.bytesPerSector.toNat =
      32 * config.numEntryPerSector + 8 * (config.tableSectors * config.numEntryPerSector) := by
    rw [hpos.2.2]
    ring
  rw [fatSizeInSector, cdiv_eq (by omega) (by omega), tableSectors]

/-- `g` is the layout of a volume with this config. -/
structure Laid (config : FATConfig) (g : Geometry) : Prop where
  nSector : g.nSector = config.nSector.toNat
  bytesPerSector : g.bytesPerSector = config.bytesPerSector.toNat
  clusterSize : g.clusterSize = config.clusterSize.toNat
  fatSize : g.fatSize = config.fatSizeInSector

/-- The geometry of a configuration is laid out as the configuration says. -/
theorem geometry_laid (ha : config.Accepted) (hs : config.Addressable) :
    config.Laid (config.geometry ha hs) where
  nSector := rfl
  bytesPerSector := rfl
  clusterSize := rfl
  fatSize := (ha.fatSizeInSector_eq hs).symm

namespace Laid

variable {g : Geometry}

/-- The size of the volume. -/
theorem size (hg : config.Laid g) :
    g.size = config.nSector.toNat * config.bytesPerSector.toNat := by
  rw [Geometry.size, hg.nSector, hg.bytesPerSector]

/-- Where the first table starts. -/
theorem table_zero (hg : config.Laid g) : g.table 0 = 8 * config.bytesPerSector.toNat := by
  rw [g.table_zero, hg.bytesPerSector]

/-- Where the second table starts. -/
theorem table_one (hg : config.Laid g) :
    g.table 1 = (8 + config.fatSizeInSector) * config.bytesPerSector.toNat := by
  rw [Geometry.table, Geometry.bytesPerFAT, hg.fatSize, hg.bytesPerSector]
  ring

/-- Where the data area starts. -/
theorem root (hg : config.Laid g) :
    g.root = (8 + config.fatSizeInSector * 2) * config.bytesPerSector.toNat := by
  rw [g.root_eq, Geometry.numFAT, hg.fatSize, hg.bytesPerSector]

/-- The size of a cluster. -/
theorem bytesPerCluster (hg : config.Laid g) :
    g.bytesPerCluster = config.clusterSize.toNat * config.bytesPerSector.toNat := by
  rw [Geometry.bytesPerCluster, hg.clusterSize, hg.bytesPerSector]

/-- The entries of a table. -/
theorem numEntry (hg : config.Laid g) :
    g.numEntry = config.fatSizeInSector * (config.bytesPerSector.toNat / 4) := by
  rw [Geometry.numEntry, hg.fatSize, hg.bytesPerSector]

end Laid

end FATConfig

/-! ## The stores -/

/-- The stores of `storeBPB` over the cleared boot sector. -/
def bpbStores (config : FATConfig) : List (Nat × List UInt8) :=
  [(0, [0xeb, 0x00, 0x90]),
    (3, fatImpl),
    (11, Mem.leBytes 2 config.bytesPerSector.toNat),
    (13, Mem.leBytes 1 config.clusterSize.toNat),
    (14, Mem.leBytes 2 8),
    (16, Mem.leBytes 1 2),
    (17, Mem.leBytes 2 0),
    (19, Mem.leBytes 2 0),
    (21, Mem.leBytes 1 config.media),
    (24, Mem.leBytes 2 32),
    (26, Mem.leBytes 2 8),
    (28, Mem.leBytes 4 0),
    (32, Mem.leBytes 4 config.nSector.toNat),
    (36, Mem.leBytes 4 config.fatSizeInSector),
    (40, Mem.leBytes 2 0),
    (42, Mem.leBytes 2 0),
    (44, Mem.leBytes 4 2),
    (48, Mem.leBytes 2 1),
    (50, Mem.leBytes 2 6),
    (64, Mem.leBytes 1 0x80),
    (66, Mem.leBytes 1 0x29),
    (67, Mem.leBytes 4 0xe5792f15),
    (71, noName),
    (82, fat32Type),
    (510, Mem.leBytes 1 0x55),
    (511, Mem.leBytes 1 0xaa)]

/-- The boot sector is cleared, and then its fields are stored. -/
theorem storeBPB_eq (h : Host) (m : Mem) (bpb : Nat) (config : FATConfig) :
    storeBPB h m bpb config = (m.fill bpb 512 0).writeAll bpb (bpbStores config) := by
  simp only [storeBPB, Host.storeLe_eq, bpbStores, Mem.writeAll, Width.bytes, BPB.size, BPB.jmpBoot,
    BPB.oefName, BPB.bytesPerSector, BPB.numSectorPerCluster, BPB.numReservedSectors,
    BPB.numAllocTable, BPB.rootEntryCount, BPB.numSectors16, BPB.media, BPB.sectorsPerTrack,
    BPB.numHeads, BPB.hiddenSec, BPB.numSectors32, BPB.fatSize32, BPB.extFlags, BPB.revision,
    BPB.rootCluster, BPB.fsInfo, BPB.bootRecordSector, BPB.driverNum, BPB.bootSignature,
    BPB.volSerialNumber, BPB.volLabel, BPB.fileSysType, BPB.signatureByte1, BPB.signatureByte2,
    numReservedSector]

/-- The fields of the boot sector do not overlap. -/
theorem bpbStores_ascending (config : FATConfig) : Mem.Ascending 512 0 (bpbStores config) := by
  simp [Mem.Ascending, bpbStores, fatImpl, noName, fat32Type]

/-- The stores of `storeFSInfo`. -/
def fsInfoStores (config : FATConfig) : List (Nat × List UInt8) :=
  [(0, Mem.leBytes 4 0x41615252),
    (484, Mem.leBytes 4 0x61417272),
    (488, Mem.leBytes 4 config.numFreeFATEntry),
    (492, Mem.leBytes 4 3),
    (508, Mem.leBytes 4 0xAA550000)]

/-- The fields of the FSInfo block are stored, and nothing is cleared. -/
theorem storeFSInfo_eq (h : Host) (m : Mem) (finfo : Nat) (config : FATConfig) :
    storeFSInfo h m finfo config = m.writeAll finfo (fsInfoStores config) := by
  simp only [storeFSInfo, Host.storeLe_eq, fsInfoStores, Mem.writeAll, Width.bytes,
    FSInfo.leadSignature, FSInfo.structSignature, FSInfo.freeCount, FSInfo.nextFree,
    FSInfo.trailSignature]

/-- They do not overlap. -/
theorem fsInfoStores_ascending (config : FATConfig) :
    Mem.Ascending 512 0 (fsInfoStores config) := by
  simp [Mem.Ascending, fsInfoStores]

/-- The stores of `storeTable`. -/
def tableStores (config : FATConfig) : List (Nat × List UInt8) :=
  [(0, Mem.leBytes 4 (0xFFFF00 ||| config.media)),
    (4, Mem.leBytes 4 fat1Value),
    (8, Mem.leBytes 4 0xFFFFFFFF)]

/-- The first three entries of a table are stored. -/
theorem storeTable_eq (h : Host) (m : Mem) (table : Nat) (config : FATConfig) :
    storeTable h m table config = m.writeAll table (tableStores config) := by
  simp only [storeTable, Host.storeLe_eq, tableStores, Mem.writeAll, Width.bytes, tableEntry,
    Nat.reduceMul]

/-- They do not overlap. -/
private theorem tableStores_ascending (config : FATConfig) :
    Mem.Ascending 12 0 (tableStores config) := by
  simp [Mem.Ascending, tableStores]

/-- A store list inside `hi` bytes leaves everything else alone. -/
private theorem writeAll_out {m : Mem} {base hi : Nat} {ss : List (Nat × List UInt8)}
    (hasc : Mem.Ascending hi 0 ss) {a : Nat} (ha : a < base ∨ base + hi ≤ a) :
    m.writeAll base ss a = m a :=
  (Mem.frame_writeAll fun _ hs => hasc.bounds hs).apply fun hin => by
    have hin : base + 0 ≤ a ∧ a < base + hi := hin
    omega

/-- The entries `storeTable` leaves in a cleared table. -/
private theorem load_storeTable (h : Host) {m : Mem} {table n : Nat} (config : FATConfig)
    (hzero : ∀ i, i < 4 * n → m (table + i) = 0) {e : Nat} (he : e < n) :
    (storeTable h m table config).load (table + 4 * e) 4 = tableValue config.media [] e := by
  have hasc := tableStores_ascending config
  have hmedia : 0xFFFF00 ||| config.media < 256 ^ 4 := by
    rw [FATConfig.media]
    split <;> decide
  -- the three stores lie apart
  have hload : ∀ off v, (off, Mem.leBytes 4 v) ∈ tableStores config → v < 256 ^ 4 →
      (m.writeAll table (tableStores config)).load (table + off) 4 = v := by
    intro off v hs hv
    rw [Mem.load_writeAll hasc.apart hs, Nat.mod_eq_of_lt hv]
  rw [storeTable_eq]
  -- the first three entries were stored, the others are still cleared
  by_cases h3 : e < 3
  · obtain rfl | rfl | rfl : e = 0 ∨ e = 1 ∨ e = 2 := by omega
    · exact hload 0 (0xFFFF00 ||| config.media) (by simp [tableStores]) hmedia
    · exact hload 4 fat1Value (by simp [tableStores]) (by decide)
    · exact hload 8 0xFFFFFFFF (by simp [tableStores]) (by decide)
  · have hvalue : tableValue config.media [] e = 0 := by
      rw [tableValue, if_neg (by omega), if_neg (by omega), if_neg (by omega)]
      rfl
    rw [hvalue]
    refine Mem.load_eq_zero fun i hi => ?_
    rw [writeAll_out hasc (by omega), Nat.add_assoc]
    exact hzero _ (by omega)

/-! ## The formatted volume -/

/-- The memory `createFAT32` leaves, with the addresses of the layout. -/
def formatted (h : Host) (g : Geometry) (m : Mem) (buf : Nat) (config : FATConfig) : Mem :=
  let m := storeBPB h m buf config
  let m := m.copy (buf + 6 * g.bytesPerSector) buf 512
  let m := storeFSInfo h m (buf + g.bytesPerSector) config
  let m := m.copy (buf + 7 * g.bytesPerSector) (buf + g.bytesPerSector) 512
  let m := m.fill (buf + g.table 0) (2 * g.bytesPerFAT) 0
  let m := storeTable h m (buf + g.table 0) config
  let m := storeTable h m (buf + g.table 1) config
  m.fill (buf + g.root) g.bytesPerCluster 0

/-- A call that succeeds accepted its config. -/
theorem createFAT32_accepted {h : Host} {m m' : Mem} {buf : Nat} {config : FATConfig}
    (hcreate : createFAT32 h m buf config = .ok (0, m')) : config.Accepted := by
  rw [createFAT32] at hcreate
  cases hv : config.valid with
  | false =>
    simp only [hv, Bool.not_false, if_true] at hcreate
    cases hcreate
  | true =>
    simp only [hv, Bool.not_true, Bool.false_eq_true, if_false] at hcreate
    obtain ⟨_, hensure, -⟩ := Run.bind_eq_ok.mp hcreate
    simp only [FATConfig.valid, Bool.and_eq_true, decide_eq_true_eq, List.contains_iff_mem] at hv
    refine ⟨hv.1.1, hv.1.2, hv.2, ?_⟩
    by_contra hnot
    rw [ensure_not hnot] at hensure
    cases hensure

/-- Where `createFAT32` clears the root directory, as an offset that may wrap. -/
def FATConfig.dataOffset (config : FATConfig) : Nat :=
  u32 (config.bytesPerSector.toNat * u32 (numReservedSector + config.numFATSector))

/-- Up to the last step of a call that succeeds the boot sector stays as it was
    stored; the last step clears the root directory, wherever that is. -/
theorem createFAT32_last {h : Host} {m m' : Mem} {buf : Nat} {config : FATConfig}
    (hcreate : createFAT32 h m buf config = .ok (0, m'))
    (hsecond : 512 ≤ u32 (config.bytesPerSector.toNat *
      u32 (numReservedSector + config.fatSizeInSector))) :
    ∃ m₀ : Mem, m' = m₀.fill (buf + config.dataOffset)
        (u32 (config.bytesPerSector.toNat * config.clusterSize.toNat)) 0 ∧
      ∀ a, buf ≤ a → a < buf + 512 → m₀ a = storeBPB h m buf config a := by
  have ha := createFAT32_accepted hcreate
  have hb := ha.bytesPerSector_bounds
  have hsec : ∀ k, 1 ≤ k → k ≤ 8 → 512 ≤ u32 (config.bytesPerSector.toNat * k) := by
    intro k hk hk'
    have hlo := Nat.mul_le_mul hk hb.1
    rw [ha.sectorOffset hk']
    omega
  have h1 := hsec 1 (by decide) (by decide)
  have h6 := hsec 6 (by decide) (by decide)
  have h7 := hsec 7 (by decide) (by decide)
  have h8 : 512 ≤ u32 (config.bytesPerSector.toNat * numReservedSector) :=
    hsec 8 (by decide) (by decide)
  have hv := ha.valid
  unfold createFAT32 at hcreate
  simp only [hv, Bool.not_true, Bool.false_eq_true, if_false, ensure_of ha.clusters, Run.ok_bind]
    at hcreate
  refine ⟨_, ((Prod.mk.inj (Except.ok.inj hcreate)).2).symm, fun a hlo hhi => ?_⟩
  -- the tables, FSInfo and the copies are behind the boot sector
  simp only [storeFSInfo_eq, storeTable_eq]
  rw [writeAll_out (tableStores_ascending config) (by omega),
    writeAll_out (tableStores_ascending config) (by omega), Mem.fill_apply_out (by omega),
    Mem.copy_apply_out (by omega), writeAll_out (fsInfoStores_ascending config) (by omega),
    Mem.copy_apply_out (by omega)]

namespace FATConfig.Laid

variable {config : FATConfig} {g : Geometry}

/-! The offsets and lengths the code computes are those of the layout: none of them wraps. -/

/-- The sectors of both tables. -/
private theorem numFATSector (hg : config.Laid g) : config.numFATSector = g.numFAT := by
  have hle := g.numFAT_le
  have hns := g.nSector_lt
  rw [FATConfig.numFATSector, ← hg.fatSize]
  exact u32_of_lt (show g.numFAT < 2 ^ 32 by omega)

/-- The address of the first table does not wrap. -/
theorem firstTable (hg : config.Laid g) :
    u32 (config.bytesPerSector.toNat * numReservedSector) = g.table 0 := by
  have hbps := g.bytesPerSector_bounds
  rw [← hg.bytesPerSector, g.table_zero, Nat.mul_comm 8]
  exact u32_of_lt (show g.bytesPerSector * 8 < 2 ^ 32 by omega)

/-- Nor does the size of both. -/
theorem tablesLength (hg : config.Laid g) :
    u32 (config.bytesPerSector.toNat * config.numFATSector) = 2 * g.bytesPerFAT := by
  have hroot := g.root_eq_table
  have hlt := g.root_lt
  have hmul : g.bytesPerSector * g.numFAT = 2 * g.bytesPerFAT := by
    rw [Geometry.numFAT, Geometry.bytesPerFAT]
    ring
  rw [hg.numFATSector, ← hg.bytesPerSector, hmul, u32_of_lt (by omega)]

/-- Nor does the address of the second one. -/
theorem secondTable (hg : config.Laid g) :
    u32 (config.bytesPerSector.toNat * u32 (numReservedSector + config.fatSizeInSector)) =
      g.table 1 := by
  have htab := g.table_zero
  have htab1 := g.table_one
  have hroot := g.root_eq_table
  have hlt := g.root_lt
  have hle := g.numFAT_le
  have hns := g.nSector_lt
  have hfat : g.numFAT = g.fatSize * 2 := rfl
  -- the second table is behind the reserved sectors and the first one
  have hmul : g.bytesPerSector * (numReservedSector + g.fatSize) = g.table 1 := by
    rw [Geometry.table, Geometry.bytesPerFAT, numReservedSector]
    ring
  have hsectors : numReservedSector + g.fatSize < 2 ^ 32 := by
    rw [numReservedSector]
    omega
  rw [← hg.fatSize, ← hg.bytesPerSector, u32_of_lt hsectors, hmul, u32_of_lt (by omega)]

/-- Nor does the address of the data area. -/
theorem dataOffset (hg : config.Laid g) : config.dataOffset = g.root := by
  have hle := g.numFAT_le
  have hns := g.nSector_lt
  have hmul : g.bytesPerSector * (numReservedSector + g.numFAT) = g.root := by
    rw [g.root_eq, Nat.mul_comm, numReservedSector]
  have hsectors : numReservedSector + g.numFAT < 2 ^ 32 := by
    rw [numReservedSector]
    omega
  rw [FATConfig.dataOffset, hg.numFATSector, ← hg.bytesPerSector, u32_of_lt hsectors, hmul,
    u32_of_lt g.root_lt]

/-- Nor does the size of a cluster. -/
theorem clusterLength (hg : config.Laid g) :
    u32 (config.bytesPerSector.toNat * config.clusterSize.toNat) = g.bytesPerCluster := by
  have hcl := g.bytesPerCluster_bounds
  rw [← hg.bytesPerSector, ← hg.clusterSize, Nat.mul_comm]
  exact u32_of_lt (show g.bytesPerCluster < 2 ^ 32 by omega)

end FATConfig.Laid

/-- An accepted configuration is formatted. -/
theorem createFAT32_eq (h : Host) (m : Mem) (buf : Nat) {config : FATConfig}
    (ha : config.Accepted) (hs : config.Addressable) :
    createFAT32 h m buf config = .ok (0, formatted h (config.geometry ha hs) m buf config) := by
  obtain ⟨g, hgEq⟩ : ∃ g, g = config.geometry ha hs := ⟨_, rfl⟩
  have hg := config.geometry_laid ha hs
  rw [← hgEq] at hg ⊢
  have hdata : u32 (config.bytesPerSector.toNat * u32 (numReservedSector + config.numFATSector)) =
      g.root := hg.dataOffset
  rw [createFAT32, ha.valid]
  simp only [Bool.not_true, Bool.false_eq_true, if_false, ensure_of ha.clusters, Run.ok_bind,
    ha.sectorOffset (show 1 ≤ 8 by decide), ha.sectorOffset (show 6 ≤ 8 by decide),
    ha.sectorOffset (show 7 ≤ 8 by decide), hg.firstTable, hg.tablesLength, hg.secondTable, hdata,
    hg.clusterLength, Nat.one_mul]
  rw [← hg.bytesPerSector]
  rfl

section

variable (h : Host) (m : Mem) (buf : Nat) {config : FATConfig} (ha : config.Accepted)
  (hs : config.Addressable)

/-- The bytes `createFAT32` writes: the boot sector and FSInfo with their copies,
    the two tables, the root directory. -/
def writtenRanges (g : Geometry) (buf : Nat) : List (Set Nat) :=
  [Set.Ico buf (buf + 512),
    Set.Ico (buf + g.bytesPerSector) (buf + g.bytesPerSector + 512),
    Set.Ico (buf + 6 * g.bytesPerSector) (buf + 6 * g.bytesPerSector + 512),
    Set.Ico (buf + 7 * g.bytesPerSector) (buf + 7 * g.bytesPerSector + 512),
    Set.Ico (buf + g.table 0) (buf + g.table 1),
    Set.Ico (buf + g.table 1) (buf + g.root),
    Set.Ico (buf + g.root) (buf + g.root + g.bytesPerCluster)]

/-- No other byte changes. -/
theorem formatted_frame (g : Geometry) {a : Nat} (hout : ∀ R ∈ writtenRanges g buf, a ∉ R) :
    formatted h g m buf config a = m a := by
  have hnum := g.numEntry_ge
  have hfat := g.bytesPerFAT_eq
  have htab1 := g.table_one
  have hrt := g.root_eq_table
  simp only [writtenRanges, List.forall_mem_cons, Set.mem_Ico, not_and, not_lt] at hout
  obtain ⟨h0, h1, h6, h7, ht0, ht1, hr, -⟩ := hout
  simp only [formatted, storeBPB_eq, storeFSInfo_eq, storeTable_eq]
  rw [Mem.fill_apply_out (by omega), writeAll_out (tableStores_ascending config) (by omega),
    writeAll_out (tableStores_ascending config) (by omega), Mem.fill_apply_out (by omega),
    Mem.copy_apply_out (by omega), writeAll_out (fsInfoStores_ascending config) (by omega),
    Mem.copy_apply_out (by omega), writeAll_out (bpbStores_ascending config) (by omega),
    Mem.fill_apply_out (by omega)]

/-- The root directory is cleared last. -/
private theorem formatted_root (g : Geometry) {i : Nat} (hi : i < g.bytesPerCluster) :
    formatted h g m buf config (buf + g.root + i) = 0 := by
  rw [formatted]
  exact Mem.fill_apply_in (Nat.le_add_right _ _) (Nat.add_lt_add_left hi _)

/-- `numFreeFATEntry` counts the entries of both tables. -/
private theorem numFreeFATEntry_eq :
    config.numFreeFATEntry = 2 * (config.geometry ha hs).numEntry - 3 := by
  have hlt := (config.geometry ha hs).numEntry_lt
  have hge := (config.geometry ha hs).numEntry_ge
  have hnum : (config.geometry ha hs).numEntry =
    config.tableSectors * config.numEntryPerSector := rfl
  have hpos := ha.entries_pos
  have hsec : config.tableSectors ≤ config.tableSectors * config.numEntryPerSector :=
    Nat.le_mul_of_pos_right _ (by omega)
  -- the entries of both tables together stay below `2 ^ 32`
  have hmul : config.tableSectors * 2 * config.numEntryPerSector =
      2 * (config.tableSectors * config.numEntryPerSector) := by ring
  rw [FATConfig.numFreeFATEntry, FATConfig.numFATSector, ha.fatSizeInSector_eq hs,
    u32_of_lt (show config.tableSectors * 2 < 2 ^ 32 by omega), hmul,
    u32_of_lt (show _ < 2 ^ 32 by omega), sub32_of_le (by omega) (by omega), hnum]

/-! ### The reserved sectors -/

/-- The memory after the reserved sectors were written. -/
def reserved (h : Host) (g : Geometry) (m : Mem) (buf : Nat) (config : FATConfig) : Mem :=
  let m := storeBPB h m buf config
  let m := m.copy (buf + 6 * g.bytesPerSector) buf 512
  let m := storeFSInfo h m (buf + g.bytesPerSector) config
  m.copy (buf + 7 * g.bytesPerSector) (buf + g.bytesPerSector) 512

/-- The tables and the root directory lie behind the reserved sectors. -/
private theorem formatted_reserved (g : Geometry) {i : Nat} (hi : i < 8 * g.bytesPerSector) :
    formatted h g m buf config (buf + i) = reserved h g m buf config (buf + i) := by
  have hnum := g.numEntry_ge
  have hfat := g.bytesPerFAT_eq
  have htab := g.table_zero
  have htab1 := g.table_one
  have hrt := g.root_eq_table
  unfold formatted
  simp only [storeTable_eq]
  rw [Mem.fill_apply_out (by omega), writeAll_out (tableStores_ascending config) (by omega),
    writeAll_out (tableStores_ascending config) (by omega), Mem.fill_apply_out (by omega)]
  rfl

/-- The boot sector of the result. -/
private theorem formatted_boot (g : Geometry) {i : Nat} (hi : i < 512) :
    formatted h g m buf config (buf + i) = storeBPB h m buf config (buf + i) := by
  have hbps := g.bytesPerSector_bounds
  rw [formatted_reserved h m buf g (by omega)]
  unfold reserved
  simp only [storeFSInfo_eq]
  rw [Mem.copy_apply_out (by omega), writeAll_out (fsInfoStores_ascending config) (by omega),
    Mem.copy_apply_out (by omega)]

/-- Its copy in sector 6. -/
private theorem formatted_bootCopy (g : Geometry) {i : Nat} (hi : i < 512) :
    formatted h g m buf config (buf + 6 * g.bytesPerSector + i) =
      formatted h g m buf config (buf + i) := by
  have hbps := g.bytesPerSector_bounds
  rw [formatted_boot h m buf g hi, Nat.add_assoc, formatted_reserved h m buf g (by omega),
    ← Nat.add_assoc]
  unfold reserved
  simp only [storeFSInfo_eq]
  rw [Mem.copy_apply_out (by omega), writeAll_out (fsInfoStores_ascending config) (by omega),
    Mem.copy_apply_in (by omega) (by omega), Nat.add_sub_cancel_left]

/-- The copy of the FSInfo block in sector 7. -/
private theorem formatted_infoCopy (g : Geometry) {i : Nat} (hi : i < 512) :
    formatted h g m buf config (buf + 7 * g.bytesPerSector + i) =
      formatted h g m buf config (buf + g.bytesPerSector + i) := by
  have hbps := g.bytesPerSector_bounds
  rw [Nat.add_assoc, formatted_reserved h m buf g (by omega), Nat.add_assoc,
    formatted_reserved h m buf g (by omega), ← Nat.add_assoc, ← Nat.add_assoc]
  unfold reserved
  rw [Mem.copy_apply_in (by omega) (by omega), Mem.copy_apply_out (by omega),
    Nat.add_sub_cancel_left]

/-- A member of the boot sector keeps the value stored into it. -/
private theorem formatted_load_boot (g : Geometry) {off n v : Nat}
    (hmem : (off, Mem.leBytes n v) ∈ bpbStores config) (hv : v < 256 ^ n) :
    (formatted h g m buf config).load (buf + off) n = v := by
  have hasc := bpbStores_ascending config
  have hin := (hasc.bounds hmem).2
  rw [Mem.length_leBytes] at hin
  have hsame : (formatted h g m buf config).load (buf + off) n =
      (storeBPB h m buf config).load (buf + off) n := by
    refine Mem.load_congr fun i hi => ?_
    rw [Nat.add_assoc]
    exact formatted_boot h m buf g (by omega)
  rw [hsame, storeBPB_eq, Mem.load_writeAll hasc.apart hmem, Nat.mod_eq_of_lt hv]

/-- A member of FSInfo keeps the value stored into it. -/
theorem formatted_load_info (g : Geometry) {off v : Nat}
    (hmem : (off, Mem.leBytes 4 v) ∈ fsInfoStores config) (hv : v < 256 ^ 4) :
    (formatted h g m buf config).load (buf + g.bytesPerSector + off) 4 = v := by
  have hbps := g.bytesPerSector_bounds
  have hasc := fsInfoStores_ascending config
  have hin := (hasc.bounds hmem).2
  rw [Mem.length_leBytes] at hin
  have hsame : (formatted h g m buf config).load (buf + g.bytesPerSector + off) 4 =
      Mem.load (storeFSInfo h ((storeBPB h m buf config).copy (buf + 6 * g.bytesPerSector) buf 512)
        (buf + g.bytesPerSector) config) (buf + g.bytesPerSector + off) 4 := by
    refine Mem.load_congr fun i hi => ?_
    rw [Nat.add_assoc, Nat.add_assoc, formatted_reserved h m buf g (by omega)]
    unfold reserved
    exact Mem.copy_apply_out (by omega)
  rw [hsame, storeFSInfo_eq, Mem.load_writeAll hasc.apart hmem, Nat.mod_eq_of_lt hv]

/-- The boot sector describes the geometry of the config. -/
private theorem formatted_bootSector : (config.geometry ha hs).BootSector
    (formatted h (config.geometry ha hs) m buf config) buf := by
  have hg := config.geometry_laid ha hs
  obtain ⟨g, hgEq⟩ : ∃ g, g = config.geometry ha hs := ⟨_, rfl⟩
  rw [← hgEq] at hg ⊢
  obtain ⟨hn, hbps, hspc, hfat⟩ := hg
  have hbpsLe := g.bytesPerSector_bounds
  have hspcLe := g.clusterSize_bounds
  have hroot := g.root_le
  have hnLt := g.nSector_lt
  -- each field is one of the stores, and fits its width
  constructor
  · rw [hbps]
    exact formatted_load_boot h m buf g (by simp [bpbStores]) (by omega)
  · rw [hspc]
    exact formatted_load_boot h m buf g (by simp [bpbStores]) (by omega)
  · exact formatted_load_boot h m buf g (by simp [bpbStores]) (by decide)
  · exact formatted_load_boot h m buf g (by simp [bpbStores]) (by decide)
  · rw [hn]
    exact formatted_load_boot h m buf g (by simp [bpbStores]) (by omega)
  · rw [hfat]
    exact formatted_load_boot h m buf g (by simp [bpbStores]) (by omega)
  · exact formatted_load_boot h m buf g (by simp [bpbStores]) (by decide)

/-! ### The tables -/

/-- Each table has the three entries that were stored, and zeros. -/
private theorem formatted_tables (g : Geometry) {t e : Nat} (ht : t < 2) (he : e < g.numEntry) :
    (formatted h g m buf config).load (buf + g.table t + 4 * e) 4 =
      tableValue config.media [] e := by
  have hnum := g.numEntry_ge
  have hfat := g.bytesPerFAT_eq
  have htab1 := g.table_one
  have hrt := g.root_eq_table
  have htbl := tableStores_ascending config
  obtain ⟨m₅, hm₅⟩ : ∃ m₅, m₅ = (reserved h g m buf config).fill (buf + g.table 0)
    (2 * g.bytesPerFAT) 0 := ⟨_, rfl⟩
  obtain ⟨m₆, hm₆⟩ : ∃ m₆, m₆ = storeTable h m₅ (buf + g.table 0) config := ⟨_, rfl⟩
  have hm : formatted h g m buf config =
      (storeTable h m₆ (buf + g.table 1) config).fill (buf + g.root) g.bytesPerCluster 0 := by
    rw [hm₆, hm₅]
    rfl
  -- one fill covers both tables
  have hcleared : ∀ i, i < 2 * g.bytesPerFAT → m₅ (buf + g.table 0 + i) = 0 := by
    intro i hi
    rw [hm₅, Mem.fill_apply_in (by omega) (by omega)]
  rw [hm, Mem.load_fill_ne (by
    obtain rfl | rfl : t = 0 ∨ t = 1 := by omega
    · omega
    · omega)]
  obtain rfl | rfl : t = 0 ∨ t = 1 := by omega
  · -- the stores into the second table come later and lie behind the first
    rw [← load_storeTable h config (fun i hi => hcleared i (by omega)) he, ← hm₆]
    refine Mem.load_congr fun i hi => ?_
    rw [storeTable_eq, writeAll_out htbl (by omega)]
  · -- the stores into the first table leave the second one cleared
    apply load_storeTable h config _ he
    intro i hi
    rw [hm₆, storeTable_eq, writeAll_out htbl (by omega), htab1,
      show buf + (g.table 0 + g.bytesPerFAT) + i = buf + g.table 0 + (g.bytesPerFAT + i) by omega]
    exact hcleared _ (by omega)

/-- The formatted volume is the image that holds no file. -/
private theorem formatted_image : Image (config.geometry ha hs) config.media
    (formatted h (config.geometry ha hs) m buf config) buf [] := by
  have hboot := formatted_bootSector h m buf ha hs
  have hfree := numFreeFATEntry_eq ha hs
  obtain ⟨g, hg⟩ : ∃ g, g = config.geometry ha hs := ⟨_, rfl⟩
  rw [← hg] at hboot hfree ⊢
  have hnumlt := g.numEntry_lt
  have hbpc := g.bytesPerCluster_eq
  -- no file is there, so that the parts about files hold of themselves
  refine { boot := hboot, nextFree := ?_, freeCount := ?_, tables := ?_, length_le := Nat.zero_le _,
           entries := fun i f hf => absurd hf (by simp), unused := ?_,
           fits := fun f hf => absurd hf List.not_mem_nil,
           contents := fun i f hf => absurd hf (by simp), room := .inl rfl,
           bootCopy := ?_, infoCopy := ?_ }
  · -- the first free cluster is 3
    have hload : (formatted h g m buf config).load (buf + g.bytesPerSector + 492) 4 = 3 :=
      formatted_load_info h m buf g (by simp [fsInfoStores]) (by decide)
    exact hload
  · -- and all entries but three are recorded as free
    have hload : (formatted h g m buf config).load (buf + g.bytesPerSector + 488) 4 =
        config.numFreeFATEntry :=
      formatted_load_info h m buf g (by simp [fsInfoStores]) (by rw [hfree]; omega)
    show 2 * g.numEntry ≤ Mem.load _ (buf + g.bytesPerSector + 488) 4 + 3
    rw [hload, hfree]
    omega
  · -- in both tables there are the three first entries, and then zeros
    intro t ht e he
    exact formatted_tables h m buf g ht he
  · intro i _ hi
    rw [Nat.add_assoc, ← Nat.add_assoc]
    exact formatted_root h m buf g (by omega)
  · intro i hi
    exact formatted_bootCopy h m buf g hi
  · intro i hi
    exact formatted_infoCopy h m buf g hi

end

/-- A call that succeeds leaves the image that holds no file. -/
theorem createFAT32_image {h : Host} {m m' : Mem} {buf : Nat} {config : FATConfig}
    (hcreate : createFAT32 h m buf config = .ok (0, m')) (ha : config.Accepted)
    (hs : config.Addressable) : Image (config.geometry ha hs) config.media m' buf [] := by
  rw [createFAT32_eq h m buf ha hs] at hcreate
  rw [← (Prod.mk.inj (Except.ok.inj hcreate)).2]
  exact formatted_image h m buf ha hs

/-! ## The layout as a whole -/

/-- The ranges are disjoint parts of the volume. -/
theorem writtenRanges_disjoint (g : Geometry) (buf : Nat) :
    (writtenRanges g buf).Pairwise Disjoint ∧
      ∀ R ∈ writtenRanges g buf, R ⊆ Set.Ico buf (buf + g.size) := by
  have hbps := g.bytesPerSector_bounds
  have htab := g.table_zero
  have htab1 := g.table_one
  have hrt := g.root_eq_table
  have hend := g.root_end_le
  refine ⟨?_, fun R hR a ha => ?_⟩
  · simp only [writtenRanges, List.pairwise_cons, List.mem_cons, List.not_mem_nil, or_false,
      forall_eq_or_imp, forall_eq, Set.Ico_disjoint_Ico, false_imp_iff, implies_true,
      List.Pairwise.nil, and_true, le_max_iff, min_le_iff]
    omega
  · simp only [writtenRanges, List.mem_cons, List.not_mem_nil, or_false] at hR
    rcases hR with rfl | rfl | rfl | rfl | rfl | rfl | rfl <;>
      simp only [Set.mem_Ico] at ha ⊢ <;> omega

/-- On a volume of less than `2 ^ 32` bytes `createFAT32` writes disjoint ranges
    inside the volume and nothing else, and `FAT32SuperInit` recovers the layout. -/
theorem createFAT32_layout (h : Host) (m m' : Mem) (buf : Nat) (config : FATConfig)
    (hcreate : createFAT32 h m buf config = .ok (0, m'))
    (hsize : config.nSector.toNat * config.bytesPerSector.toNat < 2 ^ 32) :
    let nSector := config.nSector.toNat
    let bps := config.bytesPerSector.toNat
    let spc := config.clusterSize.toNat
    let fat := config.fatSizeInSector
    let ranges := [Set.Ico buf (buf + 512),
      Set.Ico (buf + bps) (buf + bps + 512),
      Set.Ico (buf + 6 * bps) (buf + 6 * bps + 512),
      Set.Ico (buf + 7 * bps) (buf + 7 * bps + 512),
      Set.Ico (buf + 8 * bps) (buf + (8 + fat) * bps),
      Set.Ico (buf + (8 + fat) * bps) (buf + (8 + fat * 2) * bps),
      Set.Ico (buf + (8 + fat * 2) * bps) (buf + (8 + fat * 2 + spc) * bps)]
    ranges.Pairwise Disjoint ∧
      (∀ R ∈ ranges, R ⊆ Set.Ico buf (buf + nSector * bps)) ∧
      Mem.Frame {a | ∃ R ∈ ranges, a ∈ R} m m' ∧
      fat32SuperInit h m' buf = .ok
        { buf := buf
          fsInfo := some (buf + bps)
          bytesPerSector := bps
          bytesPerCluster := spc * bps
          bytesPerFAT := fat * bps
          numSector := nSector
          numReserved := 8
          numFAT := fat * 2
          numData := nSector - 8 - fat * 2
          maxCluster := (nSector - 8 - fat * 2) / spc
          rootCluster := 2
          numEntryTable := 2
          tables := [buf + 8 * bps, buf + (8 + fat) * bps]
          rootDir := some (buf + (8 + fat * 2) * bps)
          nextRootEntry := 0
          numRootEntry := spc * bps / 32 } ∧
      (∀ table ∈ [buf + 8 * bps, buf + (8 + fat) * bps], ∀ e, e < fat * (bps / 4) →
        m'.load (table + 4 * e) 4 = tableValue config.media [] e) ∧
      ∀ i, i < spc * bps → m' (buf + (8 + fat * 2) * bps + i) = 0 := by
  intro nSector bps spc fat ranges
  have ha := createFAT32_accepted hcreate
  have hs := ha.addressable hsize
  have hg := config.geometry_laid ha hs
  have himage := createFAT32_image hcreate ha hs
  have hformat := createFAT32_eq h m buf ha hs
  rw [hcreate] at hformat
  have hm' := (Prod.mk.inj (Except.ok.inj hformat)).2
  obtain ⟨g, hgEq⟩ : ∃ g, g = config.geometry ha hs := ⟨_, rfl⟩
  rw [← hgEq] at hg himage hm'
  -- the ranges of the layout, written with the quantities of the config
  have hend : (8 + fat * 2) * bps + spc * bps = (8 + fat * 2 + spc) * bps := by ring
  have hranges : writtenRanges g buf = ranges := by
    simp only [ranges, writtenRanges, hg.bytesPerSector, hg.table_zero, hg.table_one, hg.root,
      hg.bytesPerCluster, Nat.add_assoc buf]
    rw [hend]
  have hdisj := writtenRanges_disjoint g buf
  rw [hranges, hg.size] at hdisj
  refine ⟨hdisj.1, hdisj.2, fun a hout => ?_, ?_, ?_, fun i hi => ?_⟩
  · rw [hm']
    apply formatted_frame h m buf g
    intro R hR hin
    rw [hranges] at hR
    exact hout ⟨R, hR, hin⟩
  · rw [himage.toHolds.superInit, Geometry.super, Geometry.numRootEntry, Geometry.maxCluster,
      Geometry.numData, Geometry.numFAT, Geometry.bytesPerFAT, hg.fatSize, hg.bytesPerSector,
      hg.clusterSize, hg.nSector, hg.table_zero, hg.table_one, hg.root, hg.bytesPerCluster]
    rfl
  · intro table htable e he
    have he : e < g.numEntry := by
      rw [hg.numEntry]
      exact he
    have htables : table = buf + g.table 0 ∨ table = buf + g.table 1 := by
      rw [hg.table_zero, hg.table_one]
      exact List.mem_pair.mp htable
    rcases htables with rfl | rfl
    · exact himage.tables 0 (by decide) e he
    · exact himage.tables 1 (by decide) e he
  · have hroot : (8 + fat * 2) * bps = g.root := hg.root.symm
    have hi : i < g.bytesPerCluster := by
      rw [hg.bytesPerCluster]
      exact hi
    rw [hm', hroot]
    exact formatted_root h m buf g hi

/-- The smallest volume that passes the checks, with clusters of a sector. -/
def smallVolume : FATConfig := ⟨16, 512, 1, true⟩

/-- The small volume passes all checks. -/
theorem smallVolume_accepted : smallVolume.Accepted :=
  ⟨by decide, by decide, by decide, by decide⟩

/-- It lies below 4 GiB. -/
theorem smallVolume_addressable : smallVolume.Addressable :=
  smallVolume_accepted.addressable (by decide)

theorem createFAT32_layout_small :
    ∃ m', createFAT32 .little (fun _ => 0xFF) 0 smallVolume = .ok (0, m') ∧
      ∃ sb, fat32SuperInit .little m' 0 = .ok sb ∧ sb.maxCluster = 6 ∧ sb.rootDir = some 5120 := by
  have hcreate := createFAT32_eq .little (fun _ => 0xFF) 0 smallVolume_accepted
    smallVolume_addressable
  obtain ⟨-, -, -, hinit, -⟩ := createFAT32_layout .little _ _ 0 smallVolume hcreate (by decide)
  exact ⟨_, hcreate, _, hinit, by decide, by decide⟩

end Tlibc.Fat
