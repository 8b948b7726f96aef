import Tlibc.Spec.FatRuns

/-!
# The allocator under any names

`FAT32Copyin` writes a name without looking at its length: a long one runs over
the entries behind its own. The root directory is then whatever the names left,
but the boot sector, FSInfo and the tables lie in front of it, and `Ledger` is what
holds of them after every run of calls (`Ledger.run`), with any names.
`Ledger.copyin_cases` is what a call can do to them.
-/

namespace Tlibc.Fat

/-- The first `w` clusters of the volume at `buf` are taken, the others free. -/
structure Ledger (g : Geometry) (m : Mem) (buf w : Nat) : Prop where
  boot : g.BootSector m buf
  nextFree : m.load (buf + g.bytesPerSector + FSInfo.nextFree.off) 4 = w
  three_le : 3 ≤ w
  freeCount : 2 * g.numEntry ≤
    m.load (buf + g.bytesPerSector + FSInfo.freeCount.off) 4 + w
  root : m.load (buf + g.table 0 + 8) 4 = eoc
  used : ∀ e, 2 ≤ e → e < w → m.load (buf + g.table 0 + 4 * e) 4 ≠ 0
  free : ∀ e, w ≤ e → e < g.numEntry → m.load (buf + g.table 0 + 4 * e) 4 = 0
  room : w = 3 ∨ w ≤ g.maxCluster

variable {g : Geometry} {media : Nat} {m m' : Mem} {buf w : Nat} {files : List File}

/-- The ledger of a volume that holds files. -/
theorem Image.ledger (hm : Image g media m buf files) : Ledger g m buf (watermark files) where
  boot := hm.boot
  nextFree := hm.nextFree
  three_le := three_le_watermark files
  freeCount := hm.freeCount
  root := hm.tables 0 (by decide) 2 (Nat.lt_of_lt_of_le (by decide) g.numEntry_ge)
  used e hlo hhi := by
    -- the root directory has cluster 2, and a file has every other one below the free space
    by_cases h2 : e = 2
    · rw [h2, hm.tables 0 (by decide) 2 (Nat.lt_of_lt_of_le (by decide) g.numEntry_ge)]
      exact (by decide : eoc ≠ 0)
    · rcases hm.entry_cases (show 3 ≤ e by omega) hhi with ⟨hnext, -⟩ | hend
      · rw [hnext]
        omega
      · rw [hend]
        decide
  free e hlo hhi := hm.entry_free hlo hhi
  room := by
    rcases hm.room with hnil | hle
    · rw [hnil]
      exact .inl rfl
    · exact .inr hle

/-- Nothing from the root directory on matters, nor do sectors 6 and 7. -/
private theorem Ledger.congr
    (h : ∀ i, i < g.root → (i < 6 * g.bytesPerSector ∨ 8 * g.bytesPerSector ≤ i) →
      m' (buf + i) = m (buf + i)) (hm : Ledger g m buf w) : Ledger g m' buf w := by
  have hbps := g.bytesPerSector_bounds
  have htab := g.table_zero
  have hroot := g.root_eq_table
  have hfat := g.bytesPerFAT_eq
  have hge := g.numEntry_ge
  have hmax := g.maxCluster_le
  -- the fields that the ledger is about are outside of the two copies
  have hload : ∀ off n, off + n ≤ g.root →
      (off + n ≤ 6 * g.bytesPerSector ∨ 8 * g.bytesPerSector ≤ off) →
      m'.load (buf + off) n = m.load (buf + off) n := by
    intro off n hoff hsec
    refine Mem.load_congr fun i hi => ?_
    rw [Nat.add_assoc]
    exact h _ (by omega) (by omega)
  have hentry : ∀ e, e < g.numEntry →
      m'.load (buf + g.table 0 + 4 * e) 4 = m.load (buf + g.table 0 + 4 * e) 4 := by
    intro e he
    rw [Nat.add_assoc, hload _ _ (by omega) (by omega)]
  -- the clusters in use have entries
  have hw : w ≤ g.numEntry := by
    rcases hm.room with h3 | hle
    · omega
    · omega
  constructor
  · exact hm.boot.congr fun i hi => h i (by omega) (by omega)
  · rw [Nat.add_assoc, hload _ _ (by simp; omega) (by simp; omega), ← Nat.add_assoc]
    exact hm.nextFree
  · exact hm.three_le
  · rw [Nat.add_assoc buf, hload _ _ (by simp; omega) (by simp; omega), ← Nat.add_assoc]
    exact hm.freeCount
  · exact (hentry 2 (by omega)).trans hm.root
  · intro e hlo hhi
    rw [hentry e (by omega)]
    exact hm.used e hlo hhi
  · intro e hlo hhi
    rw [hentry e hhi]
    exact hm.free e hlo hhi
  · exact hm.room

theorem Ledger.sync (hm : Ledger g m buf w) : Ledger g (g.sync m buf) buf w :=
  hm.congr fun _ _ hsec => sync_apply_out hsec

/-- The data region is none of the ledger's business. -/
theorem Ledger.of_free (hm : Ledger g m buf w) (hframe : Mem.Frame (freeFrom g buf w) m m') :
    Ledger g m' buf w := by
  have hend := root_end_le_cluster g hm.three_le
  refine hm.congr fun i hi _ => hframe.apply fun hin => ?_
  have hin : buf + g.cluster w ≤ buf + i ∧ buf + i < buf + g.cluster g.maxCluster := hin
  omega

/-- Nor does the boot sector lie in it. -/
private theorem freeFrom_boot (hthree : 3 ≤ w) (hframe : Mem.Frame (freeFrom g buf w) m m')
    {i : Nat}
    (hi : i < g.bytesPerSector) : m' (buf + i) = m (buf + i) := by
  have hend := root_end_le_cluster g hthree
  have htab := g.table_zero
  have hroot := g.root_eq_table
  refine hframe.apply fun hin => ?_
  have hin : buf + g.cluster w ≤ buf + i := hin.1
  omega

/-! ## The super block -/

/-- The search ends at the first unused entry, or behind the last one. -/
private theorem rootUsed_firstUnused (g : Geometry) (m : Mem) (buf : Nat) :
    g.RootUsed m buf (firstUnused m (buf + g.root) g.numRootEntry) := by
  unfold firstUnused
  cases hfind : (List.range g.numRootEntry).find? (fun i =>
      m (buf + g.root + FATDirEntry.size * i + FATDirEntry.name) == 0) with
  | none =>
    rw [List.find?_range_eq_none] at hfind
    refine ⟨Nat.le_refl _, fun i hi => ?_, fun hlt => absurd hlt (Nat.lt_irrefl _)⟩
    simpa using hfind i hi
  | some n =>
    rw [List.find?_range_eq_some] at hfind
    obtain ⟨hzero, hmem, hused⟩ := hfind
    refine ⟨Nat.le_of_lt (List.mem_range.mp hmem), fun i hi => ?_, fun _ => ?_⟩
    · simpa using hused i hi
    · exact beq_iff_eq.mp hzero

theorem Ledger.superInit (h : Host) (hm : Ledger g m buf w) :
    ∃ n, g.RootUsed m buf n ∧ fat32SuperInit h m buf = .ok (g.super buf n) :=
  ⟨_, rootUsed_firstUnused g m buf,
    g.fat32SuperInit_eq h hm.boot hm.root (rootUsed_firstUnused g m buf)⟩

/-! ## A call that gets through -/

/-- Whatever the name, no store of a directory entry goes in front of the entry. -/
theorem storeDirEntry_below (h : Host) (m : Mem) {entry a : Nat} (name : CString)
    (attr nextFree size : Nat) (ha : a < entry) :
    storeDirEntry h m entry name attr nextFree size a = m a := by
  have hout : ∀ (m : Mem) off bs, m.write (entry + off) bs a = m a :=
    fun _ _ _ => Mem.write_apply_out (.inl (Nat.lt_add_right _ ha))
  simp only [storeDirEntry, Host.storeLe_eq, Host.put, hout]
  exact Mem.fill_apply_out (.inl ha)

/-- The three updates of a call, with any name, move the ledger on by the clusters of
    the file, and leave the boot sector alone. -/
private theorem Ledger.of_updates {free size : Nat} {m₁ m₂ : Mem} (hm : Ledger g m buf w)
    (hroom : w + clustersFor g size ≤ g.maxCluster)
    (hfreeEq : free = m.load (buf + g.bytesPerSector + FSInfo.freeCount.off) 4)
    (hfront : ∀ a, a < buf + g.root → m₁ a = m a) (hchained : Chained g buf w size m₁ m₂) :
    Ledger g (storeFree g m₂ buf (free - cdiv size g.bytesPerCluster)
        (w + (cdiv size g.bytesPerCluster - 1) + 1)) buf (w + clustersFor g size) ∧
      ∀ i, i < g.bytesPerSector → storeFree g m₂ buf (free - cdiv size g.bytesPerCluster)
        (w + (cdiv size g.bytesPerCluster - 1) + 1) (buf + i) = m (buf + i) := by
  have hthree := hm.three_le
  have hcount : clustersFor g size = cdiv size g.bytesPerCluster - 1 + 1 := rfl
  have hmax := g.maxCluster_le
  have hnum := g.numEntry_lt
  have hge := g.numEntry_ge
  have hbps := g.bytesPerSector_bounds
  have htab := g.table_zero
  have hrt := g.root_eq_table
  have hfat := g.bytesPerFAT_eq
  have hfree := hm.freeCount
  have hfreeLt : free < 2 ^ 32 := by
    rw [hfreeEq]
    exact Mem.load_lt _ _ 4
  rw [← hfreeEq] at hfree
  have hentry : ∀ e, e < g.numEntry →
      (storeFree g m₂ buf (free - cdiv size g.bytesPerCluster)
        (w + (cdiv size g.bytesPerCluster - 1) + 1)).load (buf + g.table 0 + 4 * e) 4 =
      if w ≤ e ∧ e ≤ w + (cdiv size g.bytesPerCluster - 1) then
        (if e = w + (cdiv size g.bytesPerCluster - 1) then eoc else e + 1)
      else m.load (buf + g.table 0 + 4 * e) 4 := by
    intro e he
    have h10 : m₁.load (buf + g.table 0 + 4 * e) 4 = m.load (buf + g.table 0 + 4 * e) 4 :=
      Mem.load_congr fun i hi => hfront _ (by omega)
    rw [load_storeFree_table g m₂ buf _ _ e (by decide), hchained.load 0 (by decide) e he, h10]
  -- the directory lies behind the tables, FSInfo in front of them
  have hboot : ∀ i, i < g.bytesPerSector → storeFree g m₂ buf (free - cdiv size g.bytesPerCluster)
      (w + (cdiv size g.bytesPerCluster - 1) + 1) (buf + i) = m (buf + i) := by
    intro i hi
    rw [updates_out hchained.frame (by omega) (by omega), hfront _ (by omega)]
  refine ⟨?_, hboot⟩
  constructor
  · exact hm.boot.congr fun i hi => hboot i (by omega)
  · show Mem.load (storeFree g m₂ buf _ _) (buf + g.bytesPerSector + 492) 4 = _
    rw [load_storeFree_next g m₂ buf _ (by omega)]
    omega
  · omega
  · show 2 * g.numEntry ≤ Mem.load (storeFree g m₂ buf _ _) (buf + g.bytesPerSector + 488) 4 + _
    rw [load_storeFree_count g m₂ buf _ (by omega)]
    omega
  · have h2 := hentry 2 (by omega)
    rw [if_neg (by omega)] at h2
    exact h2.trans hm.root
  · intro e hlo hhi
    rw [hentry e (by omega)]
    split_ifs with hin hend
    · decide
    · omega
    · exact hm.used e hlo (by omega)
  · intro e hlo hhi
    rw [hentry e hhi, if_neg (by omega)]
    exact hm.free e (by omega) hhi
  · exact .inr hroom

/-- The tail of a call keeps the ledger with each of its updates. -/
theorem Ledger.linked (h : Host) (name : CString) (attr ret size : Nat) {n : Nat}
    (hm : Ledger g m buf w) (hslot : m (buf + g.root + 32 * n) = 0)
    (hroom : w + clustersFor g size ≤ g.maxCluster) :
    ∃ m₂ m₃, Chained g buf w size (storeDirEntry h m (buf + g.root + 32 * n) name attr w size) m₂ ∧
      m₃ = storeFree g m₂ buf
        (m.load (buf + g.bytesPerSector + FSInfo.freeCount.off) 4 - cdiv size g.bytesPerCluster)
        (w + (cdiv size g.bytesPerCluster - 1) + 1) ∧
      Ledger g m₃ buf (w + clustersFor g size) ∧
      (∀ i, i < g.bytesPerSector → m₃ (buf + i) = m (buf + i)) ∧
      copyinFinish h m (g.super buf n) (buf + g.bytesPerSector) name attr w
        (m.load (buf + g.bytesPerSector + FSInfo.freeCount.off) 4) size
        (cdiv size g.bytesPerCluster) ret = .ok ⟨ret, none, g.sync m₃ buf⟩ := by
  -- one cluster of the file is its last one
  have hcount : clustersFor g size = cdiv size g.bytesPerCluster - 1 + 1 := rfl
  have hthree := hm.three_le
  have hmax := g.maxCluster_le
  have hfree := hm.freeCount
  obtain ⟨free, hfreeEq⟩ : ∃ free,
    free = m.load (buf + g.bytesPerSector + FSInfo.freeCount.off) 4 := ⟨_, rfl⟩
  rw [← hfreeEq] at hfree ⊢
  -- the clusters are free, so that they are linked and what is recorded stays below them
  obtain ⟨m₂, hchained, hfinish⟩ := copyinFinish_chained h name attr ret hslot
    (show 1 ≤ w by omega) hroom (show cdiv size g.bytesPerCluster ≤ free by omega)
  obtain ⟨hledger, hboot⟩ := hm.of_updates hroom hfreeEq
    (fun a ha => storeDirEntry_below h m name attr w size (by omega)) hchained
  exact ⟨m₂, _, hchained, rfl, hledger, hboot, hfinish⟩

/-- The tail of a call, with any name, moves the ledger on by the clusters of the
    file, and leaves the boot sector alone. -/
private theorem Ledger.finish (h : Host) (name : CString) (attr ret size : Nat) {n : Nat}
    (hm : Ledger g m buf w) (hslot : m (buf + g.root + 32 * n) = 0)
    (hroom : w + clustersFor g size ≤ g.maxCluster) :
    ∃ m', copyinFinish h m (g.super buf n) (buf + g.bytesPerSector) name attr w
        (m.load (buf + g.bytesPerSector + FSInfo.freeCount.off) 4) size
        (cdiv size g.bytesPerCluster) ret = .ok ⟨ret, none, m'⟩ ∧
      Ledger g m' buf (w + clustersFor g size) ∧
      ∀ i, i < g.bytesPerSector → m' (buf + i) = m (buf + i) := by
  have hbps := g.bytesPerSector_bounds
  obtain ⟨m₂, m₃, -, -, hledger, hboot, hfinish⟩ := hm.linked h name attr ret size hslot hroom
  refine ⟨_, hfinish, hledger.sync, fun i hi => ?_⟩
  rw [sync_apply_out (by omega), hboot i hi]

/-! ## Outcomes -/

/-- What a call that returns did to a volume whose first `w` clusters were taken. -/
inductive Outcome (g : Geometry) (m : Mem) (buf w : Nat) (fd : Fd) (r : CopyinResult) : Prop where
  | refused (ret : r.ret = 0)
      (mem : r.mem = m ∨ ∃ m', Mem.Frame (freeFrom g buf w) m m' ∧ r.mem = g.sync m' buf)
  | placed (stSize : UInt64) (fstat : fd.fstat = .ok stSize) (ret : r.ret = g.sectorOf w)
      (slot : ∃ i, i < g.numRootEntry ∧ m (buf + g.root + 32 * i) = 0)
      (fits : u32 stSize.toNat ≤ u32 (g.bytesPerCluster * (g.maxCluster - w)))
      (room : w + clustersFor g (u32 stSize.toNat) ≤ g.maxCluster)
      (ledger : Ledger g r.mem buf (w + clustersFor g (u32 stSize.toNat)))
      (boot : ∀ i, i < g.bytesPerSector → r.mem (buf + i) = m (buf + i))

/-- The transfer of a file of `size` bytes, if it comes to one, starts at a cluster that
    can be addressed. -/
def StartsBelow (g : Geometry) (m : Mem) (buf w size : Nat) : Prop :=
  w ≤ g.maxCluster → size ≤ u32 (g.bytesPerCluster * (g.maxCluster - w)) →
    (∃ i, i < g.numRootEntry ∧ m (buf + g.root + 32 * i) = 0) → g.cluster w < 2 ^ 32

/-- On a volume of less than `2 ^ 32` bytes every transfer does. -/
theorem startsBelow_of_size (hsize : g.size < 2 ^ 32) (hthree : 3 ≤ w) (size : Nat) :
    StartsBelow g m buf w size := fun hw _ _ =>
  Nat.lt_of_le_of_lt (g.cluster_le_size (by omega) hw) hsize

/-- The unused entry is still unused when the file was transferred. -/
private theorem loadedFrom_root {n size : Nat} {fd : Fd} (hm : Ledger g m buf w)
    (hw : w ≤ g.maxCluster)
    (hsize : size ≤ u32 (g.bytesPerCluster * (g.maxCluster - w))) (hn : n < g.numRootEntry) :
    loadedFrom g m buf w fd size (buf + g.root + 32 * n) = m (buf + g.root + 32 * n) := by
  have hend := root_end_le_cluster g hm.three_le
  have hbpc := g.bytesPerCluster_eq
  refine (loadedFrom_frame m buf fd hm.three_le hw hsize).2.apply fun hin => ?_
  have hin : buf + g.cluster w ≤ buf + g.root + 32 * n := hin.1
  omega

/-- FSInfo lies in front of the data region, so a transfer leaves it alone. -/
theorem loadedFrom_freeCount {size : Nat} {fd : Fd} (hm : Ledger g m buf w)
    (hw : w ≤ g.maxCluster) (hsize : size ≤ u32 (g.bytesPerCluster * (g.maxCluster - w))) :
    (loadedFrom g m buf w fd size).load (buf + g.bytesPerSector + FSInfo.freeCount.off) 4 =
      m.load (buf + g.bytesPerSector + FSInfo.freeCount.off) 4 := by
  have hend := root_end_le_cluster g hm.three_le
  have hbps := g.bytesPerSector_bounds
  have htab := g.table_zero
  have hrt := g.root_eq_table
  refine (loadedFrom_frame m buf fd hm.three_le hw hsize).2.load fun i hi hin => ?_
  have hin : buf + g.cluster w ≤ buf + g.bytesPerSector + 488 + i := hin.1
  omega

/-- A file that can be served is served, under any name. -/
theorem Ledger.copyin_places (h : Host) {fd : Fd} (name : CString) (attr : Nat)
    (hm : Ledger g m buf w) {stSize : UInt64} (hstat : fd.fstat = .ok stSize)
    (hstart : StartsBelow g m buf w (u32 stSize.toNat))
    (hsize : u32 stSize.toNat ≤ u32 (g.bytesPerCluster * (g.maxCluster - w)))
    (hroot : ∃ i, i < g.numRootEntry ∧ m (buf + g.root + 32 * i) = 0)
    (hseek : fd.lseek = 0) (hread : fd.readRet (u32 stSize.toNat) = u32 stSize.toNat)
    (hroom : w + clustersFor g (u32 stSize.toNat) ≤ g.maxCluster) :
    ∃ m', fat32Copyin h m buf fd name attr = .ok ⟨g.sectorOf w, none, m'⟩ ∧
      Ledger g m' buf (w + clustersFor g (u32 stSize.toNat)) ∧
      ∀ i, i < g.bytesPerSector → m' (buf + i) = m (buf + i) := by
  have hw : w ≤ g.maxCluster := Nat.le_trans (Nat.le_add_right _ _) hroom
  obtain ⟨n, hused, hinit⟩ := hm.superInit h
  -- the search stops at an unused entry, because there is one
  have hn : n < g.numRootEntry := by
    obtain ⟨i, hi, hzero⟩ := hroot
    by_contra hfull
    exact hused.2.1 i (by omega) hzero
  have hslot : loadedFrom g m buf w fd (u32 stSize.toNat) (buf + g.root + 32 * n) = 0 := by
    rw [loadedFrom_root hm hw hsize hn]
    exact hused.2.2 hn
  have hframe := (loadedFrom_frame m buf fd hm.three_le hw hsize).2
  obtain ⟨m', hrun, hledger, hboot⟩ := (hm.of_free hframe).finish h name attr (g.sectorOf w)
    (u32 stSize.toNat) hslot hroom
  rw [loadedFrom_freeCount hm hw hsize] at hrun
  have hsame : ∀ i, i < g.bytesPerSector → m' (buf + i) = m (buf + i) := by
    intro i hi
    rw [hboot i hi, freeFrom_boot hm.three_le hframe hi]
  refine ⟨m', ?_, hledger, hsame⟩
  unfold fat32Copyin
  simp only [hstat, hinit, Run.ok_bind]
  rw [copyinWith_from h fd name attr hm.nextFree hm.three_le hw hused.1
      (fun hsize _ => hstart hw hsize hroot),
    if_neg (Nat.not_lt.mpr hsize), if_neg (Nat.ne_of_lt hn), if_neg (not_not.mpr hseek),
    if_neg (not_not.mpr hread), hrun]

/-- A call that returns refuses the file, or gets through to its last part. -/
theorem Ledger.copyin_split {h : Host} {fd : Fd} {name : CString} {attr : Nat} {r : CopyinResult}
    (hm : Ledger g m buf w)
    (hstart : ∀ stSize, fd.fstat = .ok stSize → StartsBelow g m buf w (u32 stSize.toNat))
    (hret : fat32Copyin h m buf fd name attr = .ok r) :
    (r.ret = 0 ∧
      (r.mem = m ∨ ∃ m', Mem.Frame (freeFrom g buf w) m m' ∧ r.mem = g.sync m' buf)) ∨
    ∃ stSize n, fd.fstat = .ok stSize ∧ g.RootUsed m buf n ∧ n < g.numRootEntry ∧
      w ≤ g.maxCluster ∧ u32 stSize.toNat ≤ u32 (g.bytesPerCluster * (g.maxCluster - w)) ∧
      fd.lseek = 0 ∧ fd.readRet (u32 stSize.toNat) = u32 stSize.toNat ∧
      copyinFinish h (loadedFrom g m buf w fd (u32 stSize.toNat)) (g.super buf n)
        (buf + g.bytesPerSector) name attr w
        (m.load (buf + g.bytesPerSector + FSInfo.freeCount.off) 4) (u32 stSize.toNat)
        (cdiv (u32 stSize.toNat) g.bytesPerCluster) (g.sectorOf w) = .ok r := by
  -- one case for each check, in the order of the source
  unfold fat32Copyin at hret
  cases hstat : fd.fstat with
  | error errno =>
    simp only [hstat] at hret
    cases hret
    exact .inl ⟨rfl, .inl rfl⟩
  | ok stSize =>
    obtain ⟨n, hused, hinit⟩ := hm.superInit h
    simp only [hstat, hinit, Run.ok_bind] at hret
    by_cases hw : w ≤ g.maxCluster
    · rw [copyinWith_from h fd name attr hm.nextFree hm.three_le hw hused.1
        (fun hsize hn => hstart stSize hstat hw hsize ⟨n, hn, hused.2.2 hn⟩)] at hret
      -- the size, the entries, the position and the transfer
      split_ifs at hret with hbig hfull hseek hread
      · cases hret
        exact .inl ⟨rfl, .inr ⟨m, Mem.Frame.refl _ _, rfl⟩⟩
      · cases hret
        exact .inl ⟨rfl, .inr ⟨m, Mem.Frame.refl _ _, rfl⟩⟩
      · cases hret
        exact .inl ⟨rfl, .inr ⟨_, (loadedFrom_frame m buf fd hm.three_le hw
          (Nat.not_lt.mp hbig)).1, rfl⟩⟩
      · cases hret
        exact .inl ⟨rfl, .inr ⟨_, (loadedFrom_frame m buf fd hm.three_le hw
          (Nat.not_lt.mp hbig)).2, rfl⟩⟩
      · exact .inr ⟨stSize, n, rfl, hused, Nat.lt_of_le_of_ne hused.1 hfull, hw,
          Nat.not_lt.mp hbig, not_not.mp hseek, not_not.mp hread, hret⟩
    · -- there is no cluster left
      rw [copyinWith_above h fd name attr _ n hm.nextFree (Nat.not_le.mp hw)] at hret
      cases hret

/-- A call whose last part returned wrote no entry out of bound. -/
theorem clustersFor_room {h : Host} {m : Mem} {n fiPtr attr freeCount size ret : Nat}
    {name : CString} {r : CopyinResult}
    (hret : copyinFinish h m (g.super buf n) fiPtr name attr w freeCount size
      (cdiv size g.bytesPerCluster) ret = .ok r) : w + clustersFor g size ≤ g.maxCluster := by
  have hlt := copyinFinish_room (maxCluster_lt g) hret
  have hlt : w + (cdiv size g.bytesPerCluster - 1) < g.maxCluster := hlt
  rw [clustersFor]
  omega

/-- A call that returns refuses the file or places it. -/
theorem Ledger.copyin_cases {h : Host} {fd : Fd} {name : CString} {attr : Nat} {r : CopyinResult}
    (hm : Ledger g m buf w)
    (hstart : ∀ stSize, fd.fstat = .ok stSize → StartsBelow g m buf w (u32 stSize.toNat))
    (hret : fat32Copyin h m buf fd name attr = .ok r) : Outcome g m buf w fd r := by
  rcases hm.copyin_split hstart hret with ⟨hzero, hmem⟩ |
    ⟨stSize, n, hstat, hused, hn, hw, hsize, hseek, hread, hfinish⟩
  · exact .refused hzero hmem
  · have hroom := clustersFor_room hfinish
    obtain ⟨m', hrun, hledger, hboot⟩ := hm.copyin_places h name attr hstat (hstart stSize hstat)
      hsize ⟨n, hn, hused.2.2 hn⟩ hseek hread hroom
    rw [hret] at hrun
    cases hrun
    exact .placed stSize hstat rfl ⟨n, hn, hused.2.2 hn⟩ hsize hroom hledger hboot

/-! ## Runs -/

/-- The arguments of one call, with a name of any kind. -/
structure RawCall where
  fd : Fd
  name : CString
  attr : Nat

/-- The same call, its name no longer known to fit. -/
def Call.raw (c : Call) : RawCall := ⟨c.fd, c.name.toCString, c.attr⟩

/-- `FAT32Copyin` as a step on the memory, for any name. -/
def rawStep (h : Host) (buf : Nat) (m : Mem) (c : RawCall) : Except Fault (Nat × Mem) :=
  (fat32Copyin h m buf c.fd c.name c.attr).map fun r => (r.ret, r.mem)

theorem rawStep_ok {h : Host} {c : RawCall} {ret : Nat} :
    rawStep h buf m c = .ok (ret, m') ↔
      ∃ r, fat32Copyin h m buf c.fd c.name c.attr = .ok r ∧ r.ret = ret ∧ r.mem = m' := by
  rw [rawStep]
  cases fat32Copyin h m buf c.fd c.name c.attr with
  | error e => simp [Except.map]
  | ok r => simp [Except.map]

/-- A run of calls with names that fit is a run. -/
theorem run_raw (h : Host) (buf : Nat) (m : Mem) (calls : List Call) :
    Run.run (rawStep h buf) m (calls.map Call.raw) = Run.run (copyinStep h buf) m calls := by
  induction calls generalizing m with
  | nil => rfl
  | cons c cs ih =>
    rw [List.map_cons, Run.run, Run.run]
    simp only [ih]
    rfl

/-- A call on a volume with a ledger leaves one, and the boot sector as it was. -/
theorem Ledger.step {h : Host} {c : RawCall} {ret : Nat} (hm : Ledger g m buf w)
    (hstart : ∀ stSize, c.fd.fstat = .ok stSize → StartsBelow g m buf w (u32 stSize.toNat))
    (hstep : rawStep h buf m c = .ok (ret, m')) :
    (∃ w', Ledger g m' buf w') ∧ ∀ i, i < g.bytesPerSector → m' (buf + i) = m (buf + i) := by
  obtain ⟨r, hcall, -, rfl⟩ := rawStep_ok.mp hstep
  cases hm.copyin_cases hstart hcall with
  | refused _ hmem =>
    rcases hmem with hsame | ⟨m', hframe, hsync⟩
    · rw [hsame]
      exact ⟨⟨w, hm⟩, fun _ _ => rfl⟩
    · rw [hsync]
      refine ⟨⟨w, (hm.of_free hframe).sync⟩, fun i hi => ?_⟩
      rw [sync_apply_out (by omega), freeFrom_boot hm.three_le hframe hi]
  | placed stSize _ _ _ _ _ hledger hboot => exact ⟨⟨_, hledger⟩, hboot⟩

/-- So does a run of calls. -/
theorem Ledger.run {h : Host} {calls : List RawCall} {rets : List Nat} (hsize : g.size < 2 ^ 32)
    (hm : Ledger g m buf w) (hrun : Run.run (rawStep h buf) m calls = .ok (rets, m')) :
    ∃ w', Ledger g m' buf w' := by
  refine Run.run_keeps (P := fun s => ∃ w', Ledger g s buf w') ?_ ⟨w, hm⟩ hrun
  rintro s c ret s' ⟨w', hs⟩ hstep
  exact (hs.step (fun stSize _ => startsBelow_of_size hsize hs.three_le _) hstep).1

/-! ## No division by zero -/

private theorem ensure_ne_error {p : Prop} [Decidable p] {fault e : Fault} (h : fault ≠ e) :
    ensure p fault ≠ .error e := by
  unfold ensure
  split
  · exact nofun
  · exact fun heq => h (Except.error.inj heq)

private theorem deref_ne_divByZero (p : Option Nat) : deref p ≠ .error .divByZero := by
  cases p with
  | none => exact nofun
  | some a => exact nofun

private theorem fat32SuperFree_ne_divByZero (m : Mem) (sb : FAT32Super) :
    fat32SuperFree m sb ≠ .error .divByZero := by
  unfold fat32SuperFree
  refine Run.bind_ne_error (deref_ne_divByZero _) fun _ => ?_
  refine Run.bind_ne_error (deref_ne_divByZero _) fun _ => ?_
  exact Run.bind_ne_error (deref_ne_divByZero _) fun _ => nofun

private theorem linkClusters_ne_divByZero (h : Host) (sb : FAT32Super) (n : Nat) (m : Mem)
    (nextFree : Nat) : linkClusters h sb n m nextFree ≠ .error .divByZero := by
  have hwrite : ∀ m c v, fat32SuperWriteEntry h m sb c v ≠ .error .divByZero := by
    intro m c v
    refine Run.bind_ne_error (ensure_ne_error nofun) fun _ => ?_
    exact Run.bind_ne_error (ensure_ne_error nofun) fun _ => nofun
  induction n generalizing m nextFree with
  | zero => exact Run.bind_ne_error (hwrite _ _ _) fun _ => nofun
  | succ n ih => exact Run.bind_ne_error (hwrite _ _ _) fun _ => ih _ _

/-- The two divisions of `FAT32Copyin` are by the sector and the cluster size of the
    super block. -/
private theorem copyinWith_ne_divByZero (h : Host) (m : Mem) {sb : FAT32Super} (fd : Fd)
    (name : CString)
    (attr size : Nat) (hbps : sb.bytesPerSector ≠ 0) (hbpc : sb.bytesPerCluster ≠ 0) :
    copyinWith h m sb fd name attr size ≠ .error .divByZero := by
  have herr : ∀ m errno, copyinErr m sb errno ≠ .error .divByZero := fun m errno =>
    Run.bind_ne_error (fat32SuperFree_ne_divByZero m sb) fun _ => nofun
  unfold copyinWith
  rw [ensure_of hbps, ensure_of hbpc, Run.ok_bind]
  refine Run.bind_ne_error (deref_ne_divByZero _) fun _ => ?_
  refine Run.bind_ne_error (ensure_ne_error nofun) fun _ => ?_
  refine Run.ite_ne_error (herr _ _) (Run.ite_ne_error (herr _ _) ?_)
  refine Run.bind_ne_error (ensure_ne_error nofun) fun _ => ?_
  refine Run.bind_ne_error (deref_ne_divByZero _) fun _ => ?_
  refine Run.ite_ne_error (herr _ _) (Run.ite_ne_error (herr _ _) ?_)
  -- the tail of the call divides by nothing
  refine Run.bind_ne_error (deref_ne_divByZero _) fun _ => ?_
  refine Run.bind_ne_error (ensure_ne_error nofun) fun _ => ?_
  refine Run.bind_ne_error (linkClusters_ne_divByZero h sb _ _ _) fun _ => ?_
  refine Run.bind_ne_error (ensure_ne_error nofun) fun _ => ?_
  exact Run.bind_ne_error (fat32SuperFree_ne_divByZero _ _) fun _ => nofun

/-- On a volume with a ledger no call divides by zero. -/
theorem Ledger.step_ne_divByZero (h : Host) (hm : Ledger g m buf w) (c : RawCall) :
    rawStep h buf m c ≠ .error .divByZero := by
  have hbps := g.bytesPerSector_bounds.1
  have hbpc := g.bytesPerCluster_bounds.1
  -- the volume can be parsed, and then no divisor is 0
  obtain ⟨n, -, hinit⟩ := hm.superInit h
  have hcall : fat32Copyin h m buf c.fd c.name c.attr ≠ .error .divByZero := by
    unfold fat32Copyin
    cases c.fd.fstat with
    | error errno => exact nofun
    | ok stSize =>
      simp only [hinit, Run.ok_bind]
      exact copyinWith_ne_divByZero h m c.fd c.name c.attr _
        (show g.bytesPerSector ≠ 0 by omega) (show g.bytesPerCluster ≠ 0 by omega)
  unfold rawStep
  cases hr : fat32Copyin h m buf c.fd c.name c.attr with
  | error f => exact fun heq => hcall (hr.trans (congrArg Except.error (Except.error.inj heq)))
  | ok r => exact nofun

end Tlibc.Fat
