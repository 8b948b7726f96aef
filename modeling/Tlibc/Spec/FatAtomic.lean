import Tlibc.Spec.FatCapacity

/-!
# A call that returns 0

`FAT32Copyin` clears clusters and reads into them before it knows that the read
succeeds, and its error path copies sectors over their backups.
`copyin_refused_unchanged` is that nothing comes of it: the clusters are free, and
the backups equal what is copied over them.
-/

namespace Tlibc.Fat

variable {g : Geometry} {media : Nat} {m m' : Mem} {buf w : Nat} {files : List File}

/-- The bytes of sectors 6 and 7 behind the structures. -/
def backupSlack (g : Geometry) (buf : Nat) : Set Nat :=
  Set.Ico (buf + 6 * g.bytesPerSector + BPB.size) (buf + 7 * g.bytesPerSector) ∪
    Set.Ico (buf + 7 * g.bytesPerSector + FSInfo.size) (buf + 8 * g.bytesPerSector)

/-- On a volume that is backed up the copies of `FAT32SuperFree` write what is
    there, whatever happened to the free clusters. -/
private theorem Image.sync_frame (hm : Image g media m buf files) (hthree : 3 ≤ w)
    (hframe : Mem.Frame (freeFrom g buf w) m m') :
    Mem.Frame (backupSlack g buf ∪ freeFrom g buf w) m (g.sync m' buf) := by
  have hbps := g.bytesPerSector_bounds
  have htab := g.table_zero
  have hroot := g.root_eq_table
  have hend := root_end_le_cluster g hthree
  -- sectors 0, 1, 6 and 7 lie in front of the free clusters
  have hsame : ∀ i, i < 8 * g.bytesPerSector → m' (buf + i) = m (buf + i) := by
    intro i hi
    refine hframe.apply fun hin => ?_
    have hin : buf + g.cluster w ≤ buf + i := hin.1
    omega
  intro a ha
  have hslack : ¬ ((buf + 6 * g.bytesPerSector + 512 ≤ a ∧ a < buf + 7 * g.bytesPerSector) ∨
      (buf + 7 * g.bytesPerSector + 512 ≤ a ∧ a < buf + 8 * g.bytesPerSector)) :=
    fun hin => ha (.inl hin)
  have hfree : a ∉ freeFrom g buf w := fun hin => ha (.inr hin)
  by_cases h6 : buf + 6 * g.bytesPerSector ≤ a ∧ a < buf + 7 * g.bytesPerSector
  · obtain ⟨i, rfl⟩ := Nat.exists_eq_add_of_le h6.1
    rw [Geometry.sync, Mem.copy_apply_out (by omega), Mem.copy_apply_in (by omega) (by omega),
      Nat.add_sub_cancel_left, hsame i (by omega)]
    exact (hm.bootCopy i (show i < 512 by omega)).symm
  · by_cases h7 : buf + 7 * g.bytesPerSector ≤ a ∧ a < buf + 8 * g.bytesPerSector
    · obtain ⟨i, rfl⟩ := Nat.exists_eq_add_of_le h7.1
      rw [Geometry.sync, Mem.copy_apply_in (by omega) (by omega), Nat.add_sub_cancel_left,
        Mem.copy_apply_out (by omega), Nat.add_assoc, hsame _ (by omega), ← Nat.add_assoc]
      exact (hm.infoCopy i (show i < 512 by omega)).symm
    · rw [Geometry.sync, Mem.copy_apply_out (by omega), Mem.copy_apply_out (by omega)]
      exact hframe.apply hfree

/-- A call that returns 0 changes free clusters and the slack of the backups only. -/
private theorem Image.refused_frame {h : Host} {c : RawCall} (hm : Image g media m buf files)
    (hsize : g.size < 2 ^ 32) (hstep : rawStep h buf m c = .ok (0, m')) :
    Mem.Frame (backupSlack g buf ∪ freeFrom g buf (watermark files)) m m' := by
  have hthree := three_le_watermark files
  obtain ⟨r, hcall, hret, rfl⟩ := rawStep_ok.mp hstep
  cases hm.ledger.copyin_cases (fun _ _ => startsBelow_of_size hsize hthree _) hcall with
  | refused _ hmem =>
    rcases hmem with hsame | ⟨m', hframe, hsync⟩
    · rw [hsame]
      exact Mem.Frame.refl _ _
    · rw [hsync]
      exact hm.sync_frame hthree hframe
  | placed _ _ hplaced _ _ _ _ _ =>
    -- the sector of a file is never sector 0
    rw [hret] at hplaced
    have hsector : g.sectorOf (watermark files) =
        (watermark files - 2) * g.clusterSize + (8 + g.numFAT) := rfl
    omega

/-- The addresses in front of the slack, between its two parts or behind it, and not in
    the free clusters. -/
private theorem notMem_refused {a : Nat}
    (hslack : a < buf + 6 * g.bytesPerSector + 512 ∨
      (buf + 7 * g.bytesPerSector ≤ a ∧ a < buf + 7 * g.bytesPerSector + 512) ∨
      buf + 8 * g.bytesPerSector ≤ a)
    (hfree : a < buf + g.cluster w ∨ buf + g.cluster g.maxCluster ≤ a) :
    a ∉ backupSlack g buf ∪ freeFrom g buf w := by
  have hbps := g.bytesPerSector_bounds
  -- the rests of the two copied sectors, and the clusters that are free
  rintro ((⟨hlo, hhi⟩ | ⟨hlo, hhi⟩) | ⟨hlo, hhi⟩)
  · have hlo : buf + 6 * g.bytesPerSector + 512 ≤ a := hlo
    have hhi : a < buf + 7 * g.bytesPerSector := hhi
    omega
  · have hlo : buf + 7 * g.bytesPerSector + 512 ≤ a := hlo
    have hhi : a < buf + 8 * g.bytesPerSector := hhi
    omega
  · have hlo : buf + g.cluster w ≤ a := hlo
    have hhi : a < buf + g.cluster g.maxCluster := hhi
    omega

/-- A call that returns 0 leaves the file system as it was. -/
theorem copyin_refused_unchanged (h : Host) (m₀ m₁ m m' : Mem) (buf : Nat) (config : FATConfig)
    (hcreate : createFAT32 h m₀ buf config = .ok (0, m₁))
    (hsize : config.nSector.toNat * config.bytesPerSector.toNat < 2 ^ 32) (calls : List Call)
    (rets : List Nat) (hrun : Run.run (copyinStep h buf) m₁ calls = .ok (rets, m)) (c : RawCall)
    (hstep : rawStep h buf m c = .ok (0, m')) :
    let bps := config.bytesPerSector.toNat
    (∀ i, i < BPB.size → m' (buf + i) = m (buf + i)) ∧
      (∀ i, i < FSInfo.size → m' (buf + bps + i) = m (buf + bps + i)) ∧
      (∀ i, i < BPB.size → m' (buf + 6 * bps + i) = m (buf + 6 * bps + i)) ∧
      (∀ i, i < FSInfo.size → m' (buf + 7 * bps + i) = m (buf + 7 * bps + i)) ∧
      (∀ i, i < 2 * config.fatSizeInSector * bps →
        m' (buf + 8 * bps + i) = m (buf + 8 * bps + i)) ∧
      (∀ i, i < config.clusterBytes →
        m' (buf + config.rootBytes + i) = m (buf + config.rootBytes + i)) ∧
      (∀ e, 2 ≤ e → e < config.tableEntries → config.tableEntryAt buf m e ≠ 0 →
        ∀ i, i < config.clusterBytes →
          m' (buf + config.rootBytes + (e - 2) * config.clusterBytes + i) =
            m (buf + config.rootBytes + (e - 2) * config.clusterBytes + i)) ∧
      (∀ a, a < buf ∨ buf + config.nSector.toNat * bps ≤ a → m' a = m a) := by
  intro bps
  have ha := createFAT32_accepted hcreate
  have hs := ha.addressable hsize
  have hg := config.geometry_laid ha hs
  have hroot : (config.geometry ha hs).root = config.rootBytes := (config.geometry ha hs).root_eq
  have hbpc : (config.geometry ha hs).bytesPerCluster = config.clusterBytes := rfl
  have hinit := createFAT32_image hcreate ha hs
  obtain ⟨g, hgEq⟩ : ∃ g, g = config.geometry ha hs := ⟨_, rfl⟩
  rw [← hgEq] at hg hroot hbpc hinit
  have hgsize : g.size < 2 ^ 32 := by rwa [hg.size]
  obtain ⟨files, -, hm, -⟩ := copyin_run hgsize hinit hrun
  have hframe := hm.refused_frame hgsize hstep
  have hthree := three_le_watermark files
  have hend := root_end_le_cluster g hthree
  have hbps : g.bytesPerSector = bps := hg.bytesPerSector
  have hbpsLe := g.bytesPerSector_bounds
  have htab := g.table_zero
  have hrt := g.root_eq_table
  -- what lies between the structures and the free clusters, or behind those
  have hmem : ∀ i, i < 6 * g.bytesPerSector + 512 ∨
      (7 * g.bytesPerSector ≤ i ∧ i < 7 * g.bytesPerSector + 512) ∨ 8 * g.bytesPerSector ≤ i →
      i < g.cluster (watermark files) ∨ g.cluster g.maxCluster ≤ i →
      m' (buf + i) = m (buf + i) := by
    intro i hi hfree
    exact hframe.apply (notMem_refused (by omega) (by omega))
  rw [← hbps, ← hroot, ← hbpc]
  refine ⟨fun i hi => ?_, fun i hi => ?_, fun i hi => ?_, fun i hi => ?_, fun i hi => ?_,
    fun i hi => ?_, fun e hlo hhi hne i hi => ?_, fun a ha => ?_⟩
  · have hi : i < 512 := hi
    exact hmem i (by omega) (by omega)
  · have hi : i < 512 := hi
    rw [Nat.add_assoc]
    exact hmem _ (by omega) (by omega)
  · have hi : i < 512 := hi
    rw [Nat.add_assoc]
    exact hmem _ (by omega) (by omega)
  · have hi : i < 512 := hi
    rw [Nat.add_assoc]
    exact hmem _ (by omega) (by omega)
  · have hfat : 2 * config.fatSizeInSector * g.bytesPerSector = 2 * g.bytesPerFAT := by
      rw [Geometry.bytesPerFAT, hg.fatSize, Nat.mul_assoc]
    rw [hfat] at hi
    rw [Nat.add_assoc]
    exact hmem _ (by omega) (by omega)
  · rw [Nat.add_assoc]
    exact hmem _ (by omega) (by omega)
  · -- an entry that is not 0 belongs to a cluster below the watermark
    have hlt : e < watermark files := by
      by_contra hge
      rw [tableEntries_eq hg] at hhi
      rw [tableEntryAt_eq hg] at hne
      exact hne (hm.entry_free (Nat.not_lt.mp hge) hhi)
    have hnext := g.cluster_mono (show 2 ≤ e + 1 by omega) hlt
    rw [g.cluster_add hlo, Nat.one_mul] at hnext
    have hcluster : g.cluster e = g.root + (e - 2) * g.bytesPerCluster := rfl
    rw [Nat.add_assoc, Nat.add_assoc, ← Nat.add_assoc g.root, ← hcluster]
    exact hmem _ (by omega) (by omega)
  · rw [hbps, ← hg.size] at ha
    have hroot2 := g.cluster_mono (Nat.le_refl 2) (show 2 ≤ g.maxCluster + 2 by omega)
    have hlast := g.cluster_end_le
    have hmax := g.cluster_maxCluster_le
    rw [g.cluster_two] at hroot2
    exact hframe.apply (notMem_refused (by omega) (by omega))

/-- A `read` that comes short ends the call when the clusters were already cleared. -/
private theorem Ledger.copyin_short (h : Host) {c : RawCall} {stSize : UInt64}
    (hm : Ledger g m buf w)
    (hw : w ≤ g.maxCluster) (hstat : c.fd.fstat = .ok stSize)
    (hstart : StartsBelow g m buf w (u32 stSize.toNat))
    (hfits : u32 stSize.toNat ≤ u32 (g.bytesPerCluster * (g.maxCluster - w)))
    (hslot : ∃ i, i < g.numRootEntry ∧ m (buf + g.root + 32 * i) = 0) (hseek : c.fd.lseek = 0)
    (hread : c.fd.readRet (u32 stSize.toNat) ≠ u32 stSize.toNat) :
    rawStep h buf m c = .ok (0, g.sync (loadedFrom g m buf w c.fd (u32 stSize.toNat)) buf) := by
  obtain ⟨n, hused, hinit⟩ := hm.superInit h
  -- there is an entry in the root directory
  have hn : n ≠ g.numRootEntry := by
    obtain ⟨i, hi, hzero⟩ := hslot
    rintro rfl
    exact hused.2.1 i hi hzero
  -- all checks but that of the transfer are passed, and it has read too little
  have hcall : fat32Copyin h m buf c.fd c.name c.attr =
      .ok ⟨0, some c.fd.errno, g.sync (loadedFrom g m buf w c.fd (u32 stSize.toNat)) buf⟩ := by
    unfold fat32Copyin
    simp only [hstat, hinit, Run.ok_bind]
    rw [copyinWith_from h c.fd c.name c.attr hm.nextFree hm.three_le hw hused.1
      (fun hsize _ => hstart hw hsize hslot), if_neg (Nat.not_lt.mpr hfits), if_neg hn,
      if_neg (not_not.mpr hseek), if_pos hread]
  exact rawStep_ok.mpr ⟨_, hcall, rfl, rfl⟩

/-- A file whose only byte cannot be read. -/
def unreadable : RawCall where
  fd := { fstat := .ok 1, lseek := 0, data := fun _ => [], readRet := fun _ => -1, errno := 5,
          data_le := fun _ => Nat.zero_le _, readRet_data := fun _ hpos => absurd hpos (by decide) }
  name := smallCall.name.toCString
  attr := 0

theorem copyin_refused_unchanged_small :
    ∃ m₁ m', createFAT32 .little (fun _ => 0xFF) 0 smallVolume = .ok (0, m₁) ∧
      rawStep .little 0 m₁ unreadable = .ok (0, m') ∧
      ∀ i, i < 512 → m' (0 + 512 + i) = m₁ (0 + 512 + i) := by
  have hcreate := createFAT32_eq .little (fun _ => 0xFF) 0 smallVolume_accepted
    smallVolume_addressable
  have himage := createFAT32_image hcreate smallVolume_accepted smallVolume_addressable
  have hstep := himage.ledger.copyin_short .little (c := unreadable) (by decide) rfl
    (startsBelow_of_size (by decide) (by decide) _) (by decide) ⟨0, by decide,
      himage.unused 0 (Nat.le_refl _) (by decide)⟩ rfl (by decide)
  exact ⟨_, _, hcreate, hstep, (copyin_refused_unchanged .little (fun _ => 0xFF) _ _ _ 0 smallVolume
    hcreate (by decide) [] [] rfl unreadable hstep).2.1⟩

end Tlibc.Fat
