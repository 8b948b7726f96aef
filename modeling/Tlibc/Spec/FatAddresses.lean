import Tlibc.Spec.FatCreate

/-!
# The addresses of sectors and clusters

`FAT32SuperGetSector` and `FAT32SuperCluster` compute a byte offset in a
`uint32_t` and check the number of the sector or cluster only.

* `addressesExact_iff`: the addresses are those of the layout on the volumes of at
  most `2 ^ 32` bytes, and on no others
-/

namespace Tlibc.Fat

variable {g : Geometry} {m m' : Mem} {buf n : Nat} {config : FATConfig}

/-- The ranges of the boot sector, of FSInfo and of both tables. -/
def FATConfig.metadata (config : FATConfig) (buf : Nat) : List (Set Nat) :=
  let bps := config.bytesPerSector.toNat
  [Set.Ico buf (buf + BPB.size),
    Set.Ico (buf + bps) (buf + bps + FSInfo.size),
    Set.Ico (buf + 8 * bps) (buf + (8 + 2 * config.fatSizeInSector) * bps)]

/-- The addresses that the super block `sb` of the volume at `buf` gives out are those
    of the layout: sectors do not overlap, and no cluster meets the metadata. -/
structure AddressesExact (sb : FAT32Super) (buf : Nat) (config : FATConfig) : Prop where
  sector : ∀ s, s < config.nSector.toNat →
    fat32SuperGetSector sb s = some (buf + s * config.bytesPerSector.toNat)
  cluster : ∀ c a, fat32SuperCluster sb c = some a →
    a = buf + (8 + 2 * config.fatSizeInSector) * config.bytesPerSector.toNat +
      (c - 2) * (config.clusterSize.toNat * config.bytesPerSector.toNat)
  sectors_disjoint : ∀ s t a b, s ≠ t → fat32SuperGetSector sb s = some a →
    fat32SuperGetSector sb t = some b →
    Disjoint (Set.Ico a (a + config.bytesPerSector.toNat))
      (Set.Ico b (b + config.bytesPerSector.toNat))
  clusters_disjoint : ∀ c a, fat32SuperCluster sb c = some a → ∀ R ∈ config.metadata buf,
    Disjoint (Set.Ico a (a + config.clusterSize.toNat * config.bytesPerSector.toNat)) R

/-! ## Volumes that can be addressed -/

namespace Geometry

/-- A sector of a volume of at most `2 ^ 32` bytes begins below byte `2 ^ 32`. -/
private theorem sector_lt (hsize : g.size ≤ 2 ^ 32) {s : Nat} (hs : s < g.nSector) :
    s * g.bytesPerSector < 2 ^ 32 := by
  have hpos := g.bytesPerSector_bounds.1
  have hlt : s * g.bytesPerSector < g.nSector * g.bytesPerSector :=
    Nat.mul_lt_mul_of_pos_right hs (by omega)
  exact Nat.lt_of_lt_of_le hlt hsize

/-- So does a cluster that `FAT32SuperCluster` accepts. -/
private theorem cluster_lt (hsize : g.size ≤ 2 ^ 32) {c : Nat} (hlo : 2 ≤ c)
    (hhi : c < g.maxCluster) :
    g.cluster c < 2 ^ 32 := by
  have hpos := g.bytesPerCluster_bounds.1
  have hnext := g.cluster_add hlo 1
  have hend := g.cluster_mono (show 2 ≤ c + 1 by omega) (show c + 1 ≤ g.maxCluster + 2 by omega)
  have hvol := g.cluster_end_le
  omega

private theorem superCluster_super (hsize : g.size ≤ 2 ^ 32) {c : Nat} (hlo : 2 ≤ c)
    (hhi : c < g.maxCluster) :
    fat32SuperCluster (g.super buf n) c = some (buf + g.cluster c) := by
  have hlt := cluster_lt hsize hlo hhi
  have hroot := g.root_lt
  have hle := g.numFAT_le
  have hns := g.nSector_lt
  have hpos := g.bytesPerSector_bounds.1
  -- the offset is the root directory's plus whole clusters, and none of the three wraps
  have hdata : g.bytesPerSector * (g.numFAT + 8) = g.root := by
    rw [g.root_eq, Nat.mul_comm, Nat.add_comm 8]
  have hoff : g.bytesPerCluster * (c - 2) = g.cluster c - g.root := by
    rw [cluster, Nat.add_sub_cancel_left, Nat.mul_comm]
  have hcl : g.root ≤ g.cluster c := Nat.le_add_right _ _
  rw [fat32SuperCluster, super]
  simp only
  rw [if_neg (by omega), u32_of_lt (show g.numFAT + 8 < 2 ^ 32 by omega), hdata, hoff,
    u32_of_lt hroot, u32_of_lt (show g.cluster c - g.root < 2 ^ 32 by omega),
    show g.root + (g.cluster c - g.root) = g.cluster c by omega, u32_of_lt hlt]

/-- A cluster that is accepted has a number between 2 and `maxCluster`. -/
private theorem superCluster_some (hsize : g.size ≤ 2 ^ 32) {c a : Nat}
    (h : fat32SuperCluster (g.super buf n) c = some a) :
    2 ≤ c ∧ c < g.maxCluster ∧ a = buf + g.cluster c := by
  have hin : ¬ (c < 2 ∨ g.maxCluster ≤ c) := by
    intro hout
    rw [fat32SuperCluster, super, if_pos hout] at h
    cases h
  have hsome := @superCluster_super g buf n hsize c (by omega) (by omega)
  rw [hsome] at h
  exact ⟨by omega, by omega, (Option.some.inj h).symm⟩

/-- A sector that is accepted lies in the volume. -/
private theorem getSector_some (hsize : g.size ≤ 2 ^ 32) {s a : Nat}
    (h : fat32SuperGetSector (g.super buf n) s = some a) :
    s < g.nSector ∧ a = buf + s * g.bytesPerSector := by
  have hin : s < g.nSector := by
    by_contra hout
    rw [fat32SuperGetSector, super, if_pos (Nat.not_lt.mp hout)] at h
    cases h
  rw [getSector_super hin (sector_lt hsize hin)] at h
  exact ⟨hin, (Option.some.inj h).symm⟩

end Geometry

/-- On a volume of at most `2 ^ 32` bytes the super block gives out the addresses of
    the layout. -/
private theorem FATConfig.Laid.addressesExact (hg : config.Laid g) (hsize : g.size ≤ 2 ^ 32) :
    AddressesExact (g.super buf n) buf config := by
  have hbps := g.bytesPerSector_bounds
  have htab := g.table_zero
  have hrt := g.root_eq_table
  have hfat := g.bytesPerFAT_eq
  have hnum := g.numEntry_ge
  have hroot : g.root = (8 + 2 * config.fatSizeInSector) * config.bytesPerSector.toNat := by
    rw [hg.root, Nat.mul_comm 2]
  constructor
  · intro s hs
    rw [← hg.nSector] at hs
    rw [Geometry.getSector_super hs (Geometry.sector_lt hsize hs), hg.bytesPerSector]
  · intro c a hc
    obtain ⟨-, -, rfl⟩ := Geometry.superCluster_some hsize hc
    rw [Geometry.cluster, hroot, hg.bytesPerCluster, Nat.add_assoc]
  · intro s t a b hne hs ht
    obtain ⟨-, rfl⟩ := Geometry.getSector_some hsize hs
    obtain ⟨-, rfl⟩ := Geometry.getSector_some hsize ht
    rw [← hg.bytesPerSector, Set.Ico_disjoint_Ico, le_max_iff, min_le_iff, min_le_iff]
    -- the sector with the smaller number ends before the other begins
    rcases Nat.lt_or_gt_of_ne hne with hlt | hlt
    · have hmul := Nat.mul_le_mul_right g.bytesPerSector (show s + 1 ≤ t from hlt)
      rw [Nat.add_mul, Nat.one_mul] at hmul
      omega
    · have hmul := Nat.mul_le_mul_right g.bytesPerSector (show t + 1 ≤ s from hlt)
      rw [Nat.add_mul, Nat.one_mul] at hmul
      omega
  · intro c a hc R hR
    obtain ⟨hlo, -, rfl⟩ := Geometry.superCluster_some hsize hc
    have hcl : g.root ≤ g.cluster c := Nat.le_add_right _ _
    rw [← hg.bytesPerCluster]
    rw [← hg.bytesPerSector] at hroot
    simp only [FATConfig.metadata, ← hg.bytesPerSector, ← hroot, List.mem_cons, List.not_mem_nil,
      or_false, BPB.size, FSInfo.size] at hR
    rcases hR with rfl | rfl | rfl <;>
      rw [Set.Ico_disjoint_Ico, le_max_iff, min_le_iff, min_le_iff] <;> omega

/-! ## Volumes that cannot -/

/-- Whatever the super block, on a larger volume some sector has no address of its own. -/
private theorem size_le_of_addressesExact {sb : FAT32Super} (ha : config.Accepted)
    (hexact : AddressesExact sb buf config) :
    config.nSector.toNat * config.bytesPerSector.toNat ≤ 2 ^ 32 := by
  by_contra hsize
  obtain ⟨q, hq⟩ : config.bytesPerSector.toNat ∣ 2 ^ 32 := by
    have hb := ha.bytesPerSector
    simp only [List.mem_cons, List.not_mem_nil, or_false] at hb
    rcases hb with hb | hb | hb | hb <;> rw [hb] <;> decide
  have hpos := ha.bytesPerSector_bounds.1
  -- sector `q` begins at byte `2 ^ 32`, where no `uint32_t` points
  have hqn : q < config.nSector.toNat := by
    refine Nat.lt_of_mul_lt_mul_right (a := config.bytesPerSector.toNat) ?_
    rw [Nat.mul_comm q, ← hq]
    omega
  have hzero := hexact.sector 0 (by omega)
  have hlast := hexact.sector q hqn
  rw [Nat.mul_comm q, ← hq] at hlast
  unfold fat32SuperGetSector at hzero hlast
  split_ifs at hzero hlast
  have hzero := Option.some.inj hzero
  have hlast := Option.some.inj hlast
  have hlt := u32_lt (q * sb.bytesPerSector)
  rw [Nat.zero_mul] at hzero
  have hu0 : u32 0 = 0 := rfl
  omega

/-- A volume of at most `2 ^ 32` bytes has its tables below byte `2 ^ 32`. -/
private theorem FATConfig.Accepted.addressable_of_le (ha : config.Accepted)
    (hsize : config.nSector.toNat * config.bytesPerSector.toNat ≤ 2 ^ 32) :
    config.Addressable := by
  have hroot := ha.root_le
  have hpos := ha.bytesPerSector_bounds.1
  have hcs : 1 ≤ config.clusterSize.toNat := by
    have hc := ha.clusterSize
    simp only [List.mem_cons, List.not_mem_nil, or_false] at hc
    omega
  -- the root directory is behind the tables, so they end before the volume does
  have hlt : (8 + 2 * config.tableSectors) * config.bytesPerSector.toNat <
      config.nSector.toNat * config.bytesPerSector.toNat :=
    Nat.mul_lt_mul_of_pos_right (by omega) (by omega)
  exact Nat.lt_of_lt_of_le hlt hsize

/-- The super block of a formatted volume gives out the addresses of the layout exactly
    when the volume has at most `2 ^ 32` bytes. -/
theorem addressesExact_iff (h : Host) (m m' : Mem) (buf : Nat) (config : FATConfig)
    (hcreate : createFAT32 h m buf config = .ok (0, m')) :
    (∃ sb, fat32SuperInit h m' buf = .ok sb ∧ AddressesExact sb buf config) ↔
      config.nSector.toNat * config.bytesPerSector.toNat ≤ 2 ^ 32 := by
  have ha := createFAT32_accepted hcreate
  constructor
  · rintro ⟨sb, -, hexact⟩
    exact size_le_of_addressesExact ha hexact
  · intro hsize
    have hs := ha.addressable_of_le hsize
    have hg := config.geometry_laid ha hs
    have hle : (config.geometry ha hs).size ≤ 2 ^ 32 := hg.size.trans_le hsize
    exact ⟨_, (createFAT32_image hcreate ha hs).toHolds.superInit h, hg.addressesExact hle⟩

theorem addressesExact_iff_small :
    ∃ m', createFAT32 .little (fun _ => 0) 0 smallVolume = .ok (0, m') ∧
      ∃ sb, fat32SuperInit .little m' 0 = .ok sb ∧ AddressesExact sb 0 smallVolume := by
  have hcreate := createFAT32_eq .little (fun _ => 0) 0 smallVolume_accepted
    smallVolume_addressable
  exact ⟨_, hcreate, (addressesExact_iff .little _ _ 0 smallVolume hcreate).mpr (by decide)⟩

/-- A volume of one sector more than `2 ^ 32` bytes. -/
def largeVolume : FATConfig := ⟨8388609, 512, 128, true⟩

private theorem largeVolume_accepted : largeVolume.Accepted :=
  ⟨by decide, by decide, by decide, by decide⟩

private theorem largeVolume_addressable : largeVolume.Addressable :=
  (by decide : (8 + 2 * largeVolume.tableSectors) * largeVolume.bytesPerSector.toNat < 2 ^ 32)

/-- On the large volume the last sector has the address of the boot sector. -/
theorem largeVolume_addresses :
    ¬ ∀ (h : Host) (m m' : Mem) (buf : Nat) (config : FATConfig),
      createFAT32 h m buf config = .ok (0, m') →
      ∃ sb, fat32SuperInit h m' buf = .ok sb ∧ AddressesExact sb buf config := by
  intro hall
  have hcreate := createFAT32_eq .little (fun _ => 0) 0 largeVolume_accepted
    largeVolume_addressable
  obtain ⟨sb, -, hexact⟩ := hall _ _ _ _ _ hcreate
  have hsize := size_le_of_addressesExact largeVolume_accepted hexact
  exact absurd hsize (by decide)

end Tlibc.Fat
