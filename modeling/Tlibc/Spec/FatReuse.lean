import Tlibc.Lib.Overwrite
import Tlibc.Spec.FatRuns

/-!
# Formatting a disk that was used before

Most of what `createFAT32` writes does not depend on the buffer, but the FSInfo
block is stored field by field and never cleared. `createFAT32_reuse_iff` says what
of the old contents is left in the structures: the reserved bytes of FSInfo, and
what the 32-bit offsets and lengths leave of the tables and the root directory.
-/

namespace Tlibc.Fat

/-- The fields `reserved` and `reserved1` of `struct FSInfo`, which are to be 0. -/
def FSInfo.Reserved (i : Nat) : Prop := (4 ≤ i ∧ i < 484) ∨ (496 ≤ i ∧ i < 508)

namespace FATConfig

variable (config : FATConfig) (buf : Nat)

/-- The addresses `createFAT32` writes in the tables and the root directory, which
    may wrap. -/
def cleared : Set Nat :=
  let sectorSize := config.bytesPerSector.toNat
  let firstTable := buf + u32 (sectorSize * numReservedSector)
  let secondTable := buf + u32 (sectorSize * u32 (numReservedSector + config.fatSizeInSector))
  Set.Ico firstTable (firstTable + u32 (sectorSize * config.numFATSector)) ∪
    Mem.stored firstTable (tableStores config) ∪ Mem.stored secondTable (tableStores config) ∪
    Set.Ico (buf + config.dataOffset)
      (buf + config.dataOffset + u32 (sectorSize * config.clusterSize.toNat))

/-- The offset of byte `i` of the root directory's cluster. -/
def rootByte (i : Nat) : Nat :=
  (8 + 2 * config.fatSizeInSector) * config.bytesPerSector.toNat + i

/-- The structures of two volumes are equal: boot sector, FSInfo, their copies, both
    tables and the root directory. -/
structure SameMetadata (m m' : Mem) : Prop where
  boot : ∀ i, i < BPB.size → m (buf + i) = m' (buf + i)
  info : ∀ i, i < FSInfo.size →
    m (buf + config.bytesPerSector.toNat + i) = m' (buf + config.bytesPerSector.toNat + i)
  bootCopy : ∀ i, i < BPB.size →
    m (buf + 6 * config.bytesPerSector.toNat + i) = m' (buf + 6 * config.bytesPerSector.toNat + i)
  infoCopy : ∀ i, i < FSInfo.size →
    m (buf + 7 * config.bytesPerSector.toNat + i) = m' (buf + 7 * config.bytesPerSector.toNat + i)
  tables : ∀ i, i < 2 * config.fatSizeInSector * config.bytesPerSector.toNat →
    m (buf + 8 * config.bytesPerSector.toNat + i) = m' (buf + 8 * config.bytesPerSector.toNat + i)
  root : ∀ i, i < config.clusterBytes →
    m (buf + config.rootByte i) = m' (buf + config.rootByte i)

/-- Two buffers are equal wherever `createFAT32` leaves what it found. -/
structure SameLeftovers (m m' : Mem) : Prop where
  reserved : ∀ i, FSInfo.Reserved i →
    (buf + config.bytesPerSector.toNat + i ∉ config.cleared buf ∨
      buf + 7 * config.bytesPerSector.toNat + i ∉ config.cleared buf) →
    m (buf + config.bytesPerSector.toNat + i) = m' (buf + config.bytesPerSector.toNat + i)
  tables : ∀ i, i < 2 * config.fatSizeInSector * config.bytesPerSector.toNat →
    buf + 8 * config.bytesPerSector.toNat + i ∉ config.cleared buf →
    m (buf + 8 * config.bytesPerSector.toNat + i) = m' (buf + 8 * config.bytesPerSector.toNat + i)
  root : ∀ i, i < config.clusterBytes → buf + config.rootByte i ∉ config.cleared buf →
    m (buf + config.rootByte i) = m' (buf + config.rootByte i)

end FATConfig

variable {h : Host} {m m' : Mem} {buf : Nat} {config : FATConfig}

/-- `createFAT32` up to the tables. -/
def writeReserved (h : Host) (buf : Nat) (config : FATConfig) (m : Mem) : Mem :=
  let m := storeBPB h m buf config
  let m := m.copy (buf + 6 * config.bytesPerSector.toNat) buf BPB.size
  let m := storeFSInfo h m (buf + config.bytesPerSector.toNat) config
  m.copy (buf + 7 * config.bytesPerSector.toNat) (buf + config.bytesPerSector.toNat) FSInfo.size

/-- `createFAT32` from the tables on. -/
def writeTables (h : Host) (buf : Nat) (config : FATConfig) (m : Mem) : Mem :=
  let sectorSize := config.bytesPerSector.toNat
  let firstTable := buf + u32 (sectorSize * numReservedSector)
  let m := m.fill firstTable (u32 (sectorSize * config.numFATSector)) 0
  let m := storeTable h m firstTable config
  let secondTable := buf + u32 (sectorSize * u32 (numReservedSector + config.fatSizeInSector))
  let m := storeTable h m secondTable config
  m.fill (buf + config.dataOffset) (u32 (sectorSize * config.clusterSize.toNat)) 0

private theorem createFAT32_parts (hcreate : createFAT32 h m buf config = .ok (0, m')) :
    m' = writeTables h buf config (writeReserved h buf config m) := by
  have ha := createFAT32_accepted hcreate
  unfold createFAT32 at hcreate
  simp only [ha.valid, Bool.not_true, Bool.false_eq_true, if_false, ensure_of ha.clusters,
    Run.ok_bind, ha.sectorOffset (show 1 ≤ 8 by decide), ha.sectorOffset (show 6 ≤ 8 by decide),
    ha.sectorOffset (show 7 ≤ 8 by decide), Nat.one_mul] at hcreate
  exact (Prod.mk.inj (Except.ok.inj hcreate)).2.symm

/-- Behind the reserved sectors everything is overwritten without being read. -/
private theorem overwrites_writeTables (h : Host) (buf : Nat) (config : FATConfig) :
    Mem.Overwrites (config.cleared buf) (writeTables h buf config) := by
  have htable : ∀ table, Mem.Overwrites (Mem.stored table (tableStores config))
      fun m => storeTable h m table config := by
    intro table
    simp only [storeTable_eq]
    exact Mem.overwrites_writeAll table (tableStores config)
  exact (Mem.overwrites_fill _ _ 0).comp ((htable _).comp ((htable _).comp
    (Mem.overwrites_fill _ _ 0)))

/-! ## The reserved sectors -/

section

variable (h : Host) (m m' : Mem) (buf : Nat) (ha : config.Accepted) {i : Nat}
include ha

/-- The boot sector is cleared before it is stored, and so is its copy. -/
private theorem writeReserved_boot (hi : i < 512) :
    writeReserved h buf config m (buf + i) = writeReserved h buf config m' (buf + i) ∧
      writeReserved h buf config m (buf + 6 * config.bytesPerSector.toNat + i) =
        writeReserved h buf config m' (buf + 6 * config.bytesPerSector.toNat + i) := by
  have hbps := ha.bytesPerSector_bounds
  have hsame : storeBPB h m buf config (buf + i) = storeBPB h m' buf config (buf + i) := by
    simp only [storeBPB_eq]
    refine ((Mem.overwrites_writeAll buf (bpbStores config)).comp
      (Mem.overwrites_fill buf 512 0)).same m m' _ (.inl ?_)
    exact ⟨Nat.le_add_right _ _, Nat.add_lt_add_left hi _⟩
  -- neither FSInfo nor its copy reaches these sectors
  have hout : ∀ m a, a < buf + config.bytesPerSector.toNat ∨
      (buf + config.bytesPerSector.toNat + 512 ≤ a ∧ a < buf + 7 * config.bytesPerSector.toNat) →
      writeReserved h buf config m a = ((storeBPB h m buf config).copy
        (buf + 6 * config.bytesPerSector.toNat) buf 512) a := by
    intro m a hout
    unfold writeReserved
    rw [Mem.copy_apply_out (by omega), storeFSInfo_eq]
    refine Mem.writeAll_apply_out fun s hs => ?_
    have hin := (fsInfoStores_ascending config).bounds hs
    omega
  constructor
  · rw [hout m _ (by omega), hout m' _ (by omega), Mem.copy_apply_out (by omega),
      Mem.copy_apply_out (by omega), hsame]
  · rw [hout m _ (by omega), hout m' _ (by omega), Mem.copy_apply_in (by omega) (by omega),
      Mem.copy_apply_in (by omega) (by omega), Nat.add_sub_cancel_left, hsame]

/-- FSInfo has its fields stored one by one, between bytes that stay as they were. -/
private theorem writeReserved_info (hi : i < 512) :
    writeReserved h buf config m (buf + config.bytesPerSector.toNat + i) =
        m.writeAll (buf + config.bytesPerSector.toNat) (fsInfoStores config)
          (buf + config.bytesPerSector.toNat + i) ∧
      writeReserved h buf config m (buf + 7 * config.bytesPerSector.toNat + i) =
        m.writeAll (buf + config.bytesPerSector.toNat) (fsInfoStores config)
          (buf + config.bytesPerSector.toNat + i) := by
  have hbps := ha.bytesPerSector_bounds
  -- behind the boot sector and its copy, the FSInfo block is the first one to store in its
  -- sector
  have hinfo : storeFSInfo h ((storeBPB h m buf config).copy
      (buf + 6 * config.bytesPerSector.toNat) buf 512) (buf + config.bytesPerSector.toNat) config
        (buf + config.bytesPerSector.toNat + i) =
      m.writeAll (buf + config.bytesPerSector.toNat) (fsInfoStores config)
        (buf + config.bytesPerSector.toNat + i) := by
    rw [storeFSInfo_eq]
    refine Mem.writeAll_congr ?_
    rw [Mem.copy_apply_out (by omega), storeBPB_eq, Mem.writeAll_apply_out fun s hs => ?_,
      Mem.fill_apply_out (by omega)]
    have hin := (bpbStores_ascending config).bounds hs
    omega
  constructor
  · -- in the block itself
    unfold writeReserved
    rw [Mem.copy_apply_out (by omega)]
    exact hinfo
  · -- and in its copy
    unfold writeReserved
    have hsize : FSInfo.size = 512 := rfl
    rw [hsize, Mem.copy_apply_in (by omega) (by omega), Nat.add_sub_cancel_left]
    exact hinfo

/-- Behind the reserved sectors nothing was written yet. -/
private theorem writeReserved_out :
    writeReserved h buf config m (buf + 8 * config.bytesPerSector.toNat + i) =
      m (buf + 8 * config.bytesPerSector.toNat + i) := by
  have hbps := ha.bytesPerSector_bounds
  have hboot : BPB.size = 512 := rfl
  have hsize : FSInfo.size = 512 := rfl
  unfold writeReserved
  rw [Mem.copy_apply_out (by omega), storeFSInfo_eq, Mem.writeAll_apply_out fun s hs => ?_,
    Mem.copy_apply_out (by omega), storeBPB_eq, Mem.writeAll_apply_out fun s hs => ?_,
    Mem.fill_apply_out (by omega)]
  · have hin := (bpbStores_ascending config).bounds hs
    omega
  · have hin := (fsInfoStores_ascending config).bounds hs
    omega

end

/-- The stores of FSInfo leave out the reserved bytes. -/
private theorem mem_stored_fsInfo {base i : Nat} (hi : i < 512) :
    base + i ∈ Mem.stored base (fsInfoStores config) ↔ ¬ FSInfo.Reserved i := by
  have hmem : base + i ∈ Mem.stored base (fsInfoStores config) ↔
      (base + 0 ≤ base + i ∧ base + i < base + 0 + 4) ∨
      (base + 484 ≤ base + i ∧ base + i < base + 484 + 4) ∨
      (base + 488 ≤ base + i ∧ base + i < base + 488 + 4) ∨
      (base + 492 ≤ base + i ∧ base + i < base + 492 + 4) ∨
      (base + 508 ≤ base + i ∧ base + i < base + 508 + 4) ∨ False := Iff.rfl
  rw [hmem, FSInfo.Reserved, or_false]
  omega

private theorem FSInfo.Reserved.lt {i : Nat} (hi : FSInfo.Reserved i) : i < 512 := by
  rw [FSInfo.Reserved] at hi
  omega

/-! ## Two runs -/

private theorem FATConfig.rootByte_eq (config : FATConfig) (buf i : Nat) :
    buf + config.rootByte i = buf + 8 * config.bytesPerSector.toNat +
      (2 * config.fatSizeInSector * config.bytesPerSector.toNat + i) := by
  rw [rootByte, Nat.add_mul]
  omega

/-- The structures are equal if and only if what was left of the buffers is. -/
private theorem sameMetadata_iff {m₁ m₂ r₁ r₂ : Mem}
    (h₁ : createFAT32 h m₁ buf config = .ok (0, r₁))
    (h₂ : createFAT32 h m₂ buf config = .ok (0, r₂)) :
    config.SameMetadata buf r₁ r₂ ↔ config.SameLeftovers buf m₁ m₂ := by
  have ha := createFAT32_accepted h₁
  have hover := overwrites_writeTables h buf config
  have hval : ∀ a, r₁ a = r₂ a ↔ a ∈ config.cleared buf ∨
      writeReserved h buf config m₁ a = writeReserved h buf config m₂ a := by
    intro a
    rw [createFAT32_parts h₁, createFAT32_parts h₂]
    exact hover.eq_iff _ _ a
  -- a byte of FSInfo was stored, or it was equal before
  have hinfo : ∀ i, i < 512 → (m₁.writeAll (buf + config.bytesPerSector.toNat)
        (fsInfoStores config) (buf + config.bytesPerSector.toNat + i) =
      m₂.writeAll (buf + config.bytesPerSector.toNat) (fsInfoStores config)
        (buf + config.bytesPerSector.toNat + i) ↔ (FSInfo.Reserved i →
      m₁ (buf + config.bytesPerSector.toNat + i) = m₂ (buf + config.bytesPerSector.toNat + i))) := by
    intro i hi
    have hiff := (Mem.overwrites_writeAll (buf + config.bytesPerSector.toNat)
      (fsInfoStores config)).eq_iff m₁ m₂ (buf + config.bytesPerSector.toNat + i)
    rw [mem_stored_fsInfo hi] at hiff
    rw [hiff, imp_iff_not_or]
  have hback : ∀ i, (r₁ (buf + 8 * config.bytesPerSector.toNat + i) =
      r₂ (buf + 8 * config.bytesPerSector.toNat + i) ↔
      (buf + 8 * config.bytesPerSector.toNat + i ∉ config.cleared buf →
        m₁ (buf + 8 * config.bytesPerSector.toNat + i) =
          m₂ (buf + 8 * config.bytesPerSector.toNat + i))) := by
    intro i
    rw [hval, writeReserved_out h m₁ buf ha, writeReserved_out h m₂ buf ha, imp_iff_not_or, not_not]
  constructor
  · intro hmeta
    refine ⟨fun i hi hout => ?_, fun i hi => (hback i).mp (hmeta.tables i hi), fun i hi => ?_⟩
    · have hlt := hi.lt
      rcases hout with hout | hout
      · have heq := ((hval _).mp (hmeta.info i hlt)).resolve_left hout
        rw [(writeReserved_info h m₁ buf ha hlt).1, (writeReserved_info h m₂ buf ha hlt).1] at heq
        exact (hinfo i hlt).mp heq hi
      · have heq := ((hval _).mp (hmeta.infoCopy i hlt)).resolve_left hout
        rw [(writeReserved_info h m₁ buf ha hlt).2, (writeReserved_info h m₂ buf ha hlt).2] at heq
        exact (hinfo i hlt).mp heq hi
    · have heq := hmeta.root i hi
      rw [config.rootByte_eq] at heq ⊢
      exact (hback _).mp heq
  · intro hleft
    refine ⟨fun i hi => ?_, fun i hi => ?_, fun i hi => ?_, fun i hi => ?_,
      fun i hi => (hback i).mpr (hleft.tables i hi), fun i hi => ?_⟩
    · exact (hval _).mpr (.inr (writeReserved_boot h m₁ m₂ buf ha hi).1)
    · rw [hval, (writeReserved_info h m₁ buf ha hi).1, (writeReserved_info h m₂ buf ha hi).1]
      by_cases hin : buf + config.bytesPerSector.toNat + i ∈ config.cleared buf
      · exact .inl hin
      · exact .inr ((hinfo i hi).mpr fun hres => hleft.reserved i hres (.inl hin))
    · exact (hval _).mpr (.inr (writeReserved_boot h m₁ m₂ buf ha hi).2)
    · rw [hval, (writeReserved_info h m₁ buf ha hi).2, (writeReserved_info h m₂ buf ha hi).2]
      by_cases hin : buf + 7 * config.bytesPerSector.toNat + i ∈ config.cleared buf
      · exact .inl hin
      · exact .inr ((hinfo i hi).mpr fun hres => hleft.reserved i hres (.inr hin))
    · have heq := hleft.root i hi
      rw [config.rootByte_eq] at heq ⊢
      exact (hback _).mpr heq

section

variable (ha : config.Accepted) (hs : config.Addressable)
include ha hs

/-- With addressable tables everything behind the reserved sectors is cleared, and
    nothing in front. -/
private theorem cleared_addressable (buf : Nat) :
    (∀ a, a ∈ config.cleared buf → buf + 8 * config.bytesPerSector.toNat ≤ a) ∧
      (∀ i, i < 2 * config.fatSizeInSector * config.bytesPerSector.toNat →
        buf + 8 * config.bytesPerSector.toNat + i ∈ config.cleared buf) ∧
      ∀ i, i < config.clusterBytes → buf + config.rootByte i ∈ config.cleared buf := by
  obtain ⟨g, hgEq⟩ : ∃ g, g = config.geometry ha hs := ⟨_, rfl⟩
  have hg := config.geometry_laid ha hs
  rw [← hgEq] at hg
  have htab := g.table_zero
  have htab1 := g.table_one
  have hroot := g.root_eq_table
  -- the two tables together, and the root directory behind them
  have htables : 2 * config.fatSizeInSector * config.bytesPerSector.toNat = 2 * g.bytesPerFAT := by
    rw [Geometry.bytesPerFAT, hg.fatSize, hg.bytesPerSector, Nat.mul_assoc]
  have hrootByte : ∀ i, config.rootByte i = g.root + i := fun i => by
    rw [hg.root, FATConfig.rootByte, Nat.mul_comm 2]
  have hcluster : config.clusterBytes = g.bytesPerCluster := hg.bytesPerCluster.symm
  rw [htables, hcluster, ← hg.table_zero]
  simp only [hrootByte]
  refine ⟨?_, fun i hi => .inl (.inl (.inl ⟨?_, ?_⟩)), fun i hi => .inr ⟨?_, ?_⟩⟩
  · -- all that is cleared is at the tables or behind them
    rintro a (((hin | hin) | hin) | hin)
    · have hlo := hin.1
      rwa [hg.firstTable] at hlo
    · have hlo := Mem.le_of_mem_stored hin
      rwa [hg.firstTable] at hlo
    · have hlo := Mem.le_of_mem_stored hin
      rw [hg.secondTable] at hlo
      omega
    · have hlo := hin.1
      rw [hg.dataOffset] at hlo
      omega
  · rw [hg.firstTable]
    omega
  · rw [hg.firstTable, hg.tablesLength]
    omega
  · rw [hg.dataOffset]
    omega
  · rw [hg.dataOffset, hg.clusterLength]
    omega

/-- So nothing of the buffers is left but the reserved bytes of FSInfo. -/
private theorem sameLeftovers_iff (buf : Nat) (m m' : Mem) :
    config.SameLeftovers buf m m' ↔ ∀ i, FSInfo.Reserved i →
      m (buf + config.bytesPerSector.toNat + i) = m' (buf + config.bytesPerSector.toNat + i) := by
  have hbps := ha.bytesPerSector_bounds
  obtain ⟨hlo, htables, hroot⟩ := cleared_addressable ha hs buf
  constructor
  · intro hleft i hi
    have hlt := hi.lt
    refine hleft.reserved i hi (.inl fun hin => ?_)
    have hle := hlo _ hin
    omega
  · intro hres
    exact ⟨fun i hi _ => hres i hi, fun i hi hout => absurd (htables i hi) hout,
      fun i hi hout => absurd (hroot i hi) hout⟩

/-- The reserved bytes of FSInfo, and of its copy, are what the buffer held there. -/
private theorem reserved_left {r : Mem} (hcreate : createFAT32 h m buf config = .ok (0, r))
    {i : Nat}
    (hi : FSInfo.Reserved i) :
    r (buf + config.bytesPerSector.toNat + i) = m (buf + config.bytesPerSector.toNat + i) ∧
      r (buf + 7 * config.bytesPerSector.toNat + i) =
        m (buf + config.bytesPerSector.toNat + i) := by
  have hbps := ha.bytesPerSector_bounds
  have hlt := hi.lt
  have hlo := (cleared_addressable ha hs buf).1
  have hframe := (overwrites_writeTables h buf config).frame (writeReserved h buf config m)
  -- the bytes are not those of any field
  have hkeep : m.writeAll (buf + config.bytesPerSector.toNat) (fsInfoStores config)
      (buf + config.bytesPerSector.toNat + i) = m (buf + config.bytesPerSector.toNat + i) := by
    refine ((Mem.overwrites_writeAll _ (fsInfoStores config)).frame m).apply fun hin => ?_
    exact (mem_stored_fsInfo hlt).mp hin hi
  rw [createFAT32_parts hcreate]
  -- in the block, and in its copy
  constructor
  · rw [hframe.apply fun hin => by have hle := hlo _ hin; omega,
      (writeReserved_info h m buf ha hlt).1, hkeep]
  · rw [hframe.apply fun hin => by have hle := hlo _ hin; omega,
      (writeReserved_info h m buf ha hlt).2, hkeep]

end

/-- The structures on two re-used disks are equal if and only if the disks were
    equal wherever `createFAT32` leaves what it found; when the tables can be
    addressed, that is the reserved bytes of FSInfo, in its block and in its copy.
    Those are left as they were, so they are 0 exactly where the disk's were. -/
theorem createFAT32_reuse_iff (h : Host) (m₁ m₂ r₁ r₂ : Mem) (buf : Nat) (config : FATConfig)
    (h₁ : createFAT32 h m₁ buf config = .ok (0, r₁))
    (h₂ : createFAT32 h m₂ buf config = .ok (0, r₂)) :
    (config.SameMetadata buf r₁ r₂ ↔ config.SameLeftovers buf m₁ m₂) ∧
      (config.Addressable →
        (config.SameLeftovers buf m₁ m₂ ↔ ∀ i, FSInfo.Reserved i →
          m₁ (buf + config.bytesPerSector.toNat + i) =
            m₂ (buf + config.bytesPerSector.toNat + i)) ∧
        ∀ i, FSInfo.Reserved i →
          r₁ (buf + config.bytesPerSector.toNat + i) =
              m₁ (buf + config.bytesPerSector.toNat + i) ∧
            r₁ (buf + 7 * config.bytesPerSector.toNat + i) =
              m₁ (buf + config.bytesPerSector.toNat + i)) := by
  have ha := createFAT32_accepted h₁
  exact ⟨sameMetadata_iff h₁ h₂, fun hs => ⟨sameLeftovers_iff ha hs buf m₁ m₂,
    fun i hi => reserved_left ha hs h₁ hi⟩⟩

theorem createFAT32_reuse_iff_small :
    ∃ r₁ r₂, createFAT32 .little (fun _ => 0xFF) 0 smallVolume = .ok (0, r₁) ∧
      createFAT32 .little (fun a => if a < 512 then 0 else 0xFF) 0 smallVolume = .ok (0, r₂) ∧
      smallVolume.SameMetadata 0 r₁ r₂ := by
  have h₁ := createFAT32_eq .little (fun _ => 0xFF) 0 smallVolume_accepted smallVolume_addressable
  have h₂ := createFAT32_eq .little (fun a => if a < 512 then 0 else 0xFF) 0 smallVolume_accepted
    smallVolume_addressable
  obtain ⟨hmeta, hleft⟩ := createFAT32_reuse_iff .little _ _ _ _ 0 smallVolume h₁ h₂
  refine ⟨_, _, h₁, h₂, hmeta.mpr ((hleft smallVolume_addressable).1.mpr fun i _ => ?_)⟩
  have hbps : smallVolume.bytesPerSector.toNat = 512 := by decide
  rw [hbps, if_neg (by omega)]

/-- On the smallest volume the byte behind FSInfo's signature, which is to be 0, is
    what the disk held. -/
theorem smallVolume_leaks :
    ∃ r₁ r₂, createFAT32 .little (fun _ => 0) 0 smallVolume = .ok (0, r₁) ∧
      createFAT32 .little (fun _ => 0xFF) 0 smallVolume = .ok (0, r₂) ∧
      r₁ (512 + 4) = 0 ∧ r₂ (512 + 4) = 0xFF ∧ ¬ smallVolume.SameMetadata 0 r₁ r₂ := by
  have h₁ := createFAT32_eq .little (fun _ => 0) 0 smallVolume_accepted smallVolume_addressable
  have h₂ := createFAT32_eq .little (fun _ => 0xFF) 0 smallVolume_accepted smallVolume_addressable
  have hres : FSInfo.Reserved 4 := by
    rw [FSInfo.Reserved]
    omega
  have hzero := (reserved_left smallVolume_accepted smallVolume_addressable h₁ hres).1
  have hones := (reserved_left smallVolume_accepted smallVolume_addressable h₂ hres).1
  refine ⟨_, _, h₁, h₂, hzero, hones, fun hmeta => ?_⟩
  have hsame := hmeta.info 4 (by decide)
  rw [hzero, hones] at hsame
  exact absurd hsame (by decide)

end Tlibc.Fat
