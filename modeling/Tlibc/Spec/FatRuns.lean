import Tlibc.Spec.FatCopyin
import Tlibc.Spec.FatCreate
import Mathlib.Data.List.GetD

/-!
# Runs of `FAT32Copyin`

A sequence of calls on one image. The abstract machine has a list of files for a
state, and its step either refuses a file or appends it; `copyinStep_simulates`
shows that a call is a step of it, so that facts about whole runs are facts about
lists of files.

* `copyin_run_consistent`: what every reachable image satisfies
* `copyin_run_asserts_nothing`: when no call of a run ends in an assertion
-/

namespace Tlibc.Fat

/-- The arguments of one call. -/
structure Call where
  fd : Fd
  name : FileName
  attr : Nat

/-- `FAT32Copyin` as a step on the memory. -/
def copyinStep (h : Host) (buf : Nat) (m : Mem) (c : Call) : Except Fault (Nat × Mem) :=
  (fat32Copyin h m buf c.fd c.name.toCString c.attr).map fun r => (r.ret, r.mem)

theorem copyinStep_ok {h : Host} {buf : Nat} {m m' : Mem} {c : Call} {ret : Nat} :
    copyinStep h buf m c = .ok (ret, m') ↔
      ∃ r, fat32Copyin h m buf c.fd c.name.toCString c.attr = .ok r ∧ r.ret = ret ∧
        r.mem = m' := by
  rw [copyinStep]
  cases fat32Copyin h m buf c.fd c.name.toCString c.attr with
  | error e => simp [Except.map]
  | ok r => simp [Except.map]

/-! ## The abstract machine -/

/-- A call refuses the file, or gives it the clusters from the watermark on. -/
inductive VolumeStep (g : Geometry) : List File → Call → Nat → List File → Prop where
  | refuse (files : List File) (c : Call) : VolumeStep g files c 0 files
  | place (files : List File) (c : Call) (stSize : UInt64) (fstat : c.fd.fstat = .ok stSize)
      (lseek : c.fd.lseek = 0) (read : c.fd.readRet (u32 stSize.toNat) = u32 stSize.toNat)
      (length : (c.fd.data (u32 stSize.toNat)).length = u32 stSize.toNat)
      (room : watermark files + clustersFor g (u32 stSize.toNat) ≤ g.maxCluster)
      (slot : files.length < g.numRootEntry) :
      VolumeStep g files c (g.sectorOf (watermark files))
        (files ++ [newFile g c.name (c.fd.data (u32 stSize.toNat))])

/-- The bytes of the volume. -/
def volumeBytes (g : Geometry) (buf : Nat) : Set Nat := Set.Ico buf (buf + g.size)

/-- A call writes inside the volume. -/
private theorem written_subset (g : Geometry) (buf : Nat) (files : List File) :
    systemBytes g buf ∪ freeBytes g buf files ⊆ volumeBytes g buf := by
  have hroot := g.root_end_le
  have hend := g.cluster_maxCluster_le
  rintro a (⟨hlo, hhi⟩ | ⟨hlo, hhi⟩)
  · exact ⟨hlo, by show a < _; omega⟩
  · have hlo : buf + g.cluster (watermark files) ≤ a := hlo
    exact ⟨by omega, by show a < _; omega⟩

/-- A call on an image is a step of the abstract machine. -/
theorem copyinStep_simulates {g : Geometry} {media : Nat} {h : Host} {m m' : Mem} {buf : Nat}
    {files : List File} {c : Call} {ret : Nat} (hm : Image g media m buf files)
    (hstart : ∀ stSize, c.fd.fstat = .ok stSize → watermark files ≤ g.maxCluster →
      Reaches g files (u32 stSize.toNat) → g.cluster (watermark files) < 2 ^ 32)
    (hret : copyinStep h buf m c = .ok (ret, m')) :
    ∃ files', VolumeStep g files c ret files' ∧ Image g media m' buf files' ∧
      Mem.Frame (volumeBytes g buf) m m' := by
  obtain ⟨r, hcall, rfl, rfl⟩ := copyinStep_ok.mp hret
  -- a call that returns 0 has placed no file
  cases fat32Copyin_cases hm hstart hcall with
  | refused hzero himage hframe =>
    rw [hzero]
    exact ⟨files, .refuse files c, himage, hframe.mono (written_subset g buf files)⟩
  -- any other one has placed one
  | placed stSize hstat hseek hread hsector hroom hlength himage hframe =>
    have hslot := himage.length_le
    rw [List.length_append, List.length_singleton] at hslot
    rw [hsector]
    exact ⟨_, .place files c stSize hstat hseek hread hlength hroom hslot, himage,
      hframe.mono (written_subset g buf files)⟩

/-- On a volume of less than `2 ^ 32` bytes every cluster can be addressed. -/
theorem cluster_lt_of_size {g : Geometry} (hsize : g.size < 2 ^ 32) {files : List File}
    (hw : watermark files ≤ g.maxCluster) : g.cluster (watermark files) < 2 ^ 32 :=
  Nat.lt_of_le_of_lt
    (g.cluster_le_size (Nat.le_trans (by decide) (three_le_watermark files)) hw) hsize

/-- A run of calls is a run of the abstract machine, and stays inside the volume. -/
theorem copyin_run {g : Geometry} {media : Nat} {h : Host} {m m' : Mem} {buf : Nat}
    {calls : List Call} {rets : List Nat} (hsize : g.size < 2 ^ 32)
    (hm : Image g media m buf [])
    (hrun : Run.run (copyinStep h buf) m calls = .ok (rets, m')) :
    ∃ files, Run.Runs (VolumeStep g) [] calls rets files ∧ Image g media m' buf files ∧
      Mem.Frame (volumeBytes g buf) m m' := by
  refine Run.run_simulates
    (R := fun s files => Image g media s buf files ∧ Mem.Frame (volumeBytes g buf) m s)
    (fun s files c ret s' _ hs hstep => ?_) ⟨hm, Mem.Frame.refl _ _⟩ hrun
  obtain ⟨files', hvol, himage, hframe⟩ := copyinStep_simulates hs.1
    (fun _ _ hw _ => cluster_lt_of_size hsize hw) hstep
  exact ⟨files', hvol, himage, hs.2.trans hframe⟩

/-- The abstract machine forgets no file, and has one exactly when a call placed one. -/
private theorem Runs.nonempty {g : Geometry} {files files' : List File} {calls : List Call}
    {rets : List Nat} (hrun : Run.Runs (VolumeStep g) files calls rets files')
    (hplaced : ∃ ret ∈ rets, ret ≠ 0) : files' ≠ [] := by
  -- once there is a file, there is one in the end
  have hkeep : ∀ {files files' : List File} {calls : List Call} {rets : List Nat},
      Run.Runs (VolumeStep g) files calls rets files' → files ≠ [] → files' ≠ [] := by
    intro files files' calls rets hrun hne
    induction hrun with
    | nil => exact hne
    | cons hstep _ ih =>
      apply ih
      cases hstep with
      | refuse => exact hne
      | place => simp
  -- the first call that placed a file makes the list non-empty for good
  induction hrun with
  | nil => simp at hplaced
  | cons hstep htail ih =>
    obtain ⟨ret, hmem, hret⟩ := hplaced
    cases hstep with
    | refuse =>
      rcases List.mem_cons.mp hmem with rfl | hmem
      · exact absurd rfl hret
      · exact ih ⟨ret, hmem, hret⟩
    | place => exact hkeep htail (by simp)

/-! ## What holds of every reachable image -/

section

variable {g : Geometry} {media : Nat} {m : Mem} {buf : Nat} {files : List File}

/-- The watermark stays inside the tables. -/
private theorem Image.watermark_le (hm : Image g media m buf files) :
    watermark files ≤ g.numEntry := by
  have hmax := g.maxCluster_le
  have hnum := g.numEntry_ge
  rcases hm.room with hnil | hle
  · rw [hnil]
    show 3 ≤ _
    omega
  · omega

/-- The two tables agree byte for byte. -/
private theorem Image.tables_eq (hm : Image g media m buf files) {i : Nat}
    (hi : i < g.bytesPerFAT) :
    m (buf + g.table 1 + i) = m (buf + g.table 0 + i) := by
  have hfat := g.bytesPerFAT_eq
  have he : i / 4 < g.numEntry := by omega
  -- the entry that byte `i` belongs to is the same number in both
  have hload : m.load (buf + g.table 1 + 4 * (i / 4)) 4 =
      m.load (buf + g.table 0 + 4 * (i / 4)) 4 := by
    rw [hm.tables 1 (by decide) _ he, hm.tables 0 (by decide) _ he]
  have hread := Mem.read_eq_of_load_eq hload
  have hbyte : ∀ t, m (buf + g.table t + i) =
      (m.read (buf + g.table t + 4 * (i / 4)) 4).getD (i % 4) 0 := by
    intro t
    have hlt : i % 4 < (m.read (buf + g.table t + 4 * (i / 4)) 4).length := by
      rw [Mem.length_read]
      omega
    rw [List.getD_eq_getElem _ _ hlt, Mem.getElem_read]
    congr 1
    omega
  rw [hbyte, hbyte, hread]

/-- An entry below the watermark points to its successor or ends a chain. -/
theorem Image.entry_cases (hm : Image g media m buf files) {e : Nat} (hlo : 3 ≤ e)
    (hhi : e < watermark files) :
    (m.load (buf + g.table 0 + 4 * e) 4 = e + 1 ∧ e + 1 < watermark files) ∨
      m.load (buf + g.table 0 + 4 * e) 4 = eoc := by
  have hw := hm.watermark_le
  rw [hm.tables 0 (by decide) e (by omega), tableValue, if_neg (by omega), if_neg (by omega),
    if_neg (by omega)]
  exact Chain.link_cases eoc 3 hlo hhi

/-- The entry in front of the watermark ends a chain: that of the last file, or of
    the root directory. -/
private theorem Image.entry_last (hm : Image g media m buf files) :
    m.load (buf + g.table 0 + 4 * (watermark files - 1)) 4 = eoc := by
  have hw := hm.watermark_le
  have hthree := three_le_watermark files
  rw [hm.tables 0 (by decide) _ (by omega)]
  by_cases hnil : files = []
  · rw [hnil]
    rfl
  · have hne : counts files ≠ [] := fun h => hnil (List.map_eq_nil_iff.mp h)
    have hpos : ∀ v ∈ counts files, 1 ≤ v := fun v hv => counts_pos hv
    have hsum : (counts files).length ≤ (counts files).sum :=
      List.length_le_sum_of_one_le _ hpos
    have hlen : 0 < (counts files).length := List.length_pos_iff.mpr hne
    have hwm : watermark files = 3 + (counts files).sum := rfl
    rw [tableValue, if_neg (by omega), if_neg (by omega), if_neg (by omega)]
    exact Chain.link_last eoc 3 hne hpos

/-- Entries from the watermark on are free. -/
theorem Image.entry_free (hm : Image g media m buf files) {e : Nat} (hlo : watermark files ≤ e)
    (hhi : e < g.numEntry) : m.load (buf + g.table 0 + 4 * e) 4 = 0 := by
  have hthree := three_le_watermark files
  rw [hm.tables 0 (by decide) e hhi, tableValue, if_neg (by omega), if_neg (by omega),
    if_neg (by omega)]
  exact Chain.link_of_end_le eoc 3 hlo

end

/-- The first cluster number the data region has no cluster for, as
    `FAT32SuperInit` computes it. -/
def FATConfig.maxCluster (config : FATConfig) : Nat :=
  (config.nSector.toNat - 8 - config.tableSectors * 2) / config.clusterSize.toNat

/-- A file of one byte, `"a"`. -/
def smallCall : Call where
  fd := Fd.ofBytes [7]
  name := { chars := [0x61], nul_free := by decide, dot_free := by decide,
            length_pos := by decide, length_le := by decide }
  attr := 0

/-- On the smallest volume the first file goes to sector 11. -/
theorem smallVolume_run :
    ∃ m₁ m, createFAT32 .little (fun _ => 0xFF) 0 smallVolume = .ok (0, m₁) ∧
      Run.run (copyinStep .little 0) m₁ [smallCall] = .ok ([11], m) := by
  have hcreate := createFAT32_eq .little (fun _ => 0xFF) 0 smallVolume_accepted
    smallVolume_addressable
  have himage := createFAT32_image hcreate smallVolume_accepted smallVolume_addressable
  obtain ⟨m, hcall, -⟩ := fat32Copyin_places .little smallCall.name smallCall.attr himage
    (show smallCall.fd.fstat = .ok 1 from rfl) (show Reaches _ _ _ from ⟨by decide, by decide⟩)
    (by decide) rfl rfl (by decide)
  have hstep := copyinStep_ok.mpr ⟨_, hcall, rfl, rfl⟩
  exact ⟨_, m, hcreate, Run.run_cons.mpr ⟨11, m, [], hstep, rfl, rfl⟩⟩

/-- Every image a run of calls reaches is consistent: tables and structures equal
    their backups, and the tables hold chains up to the watermark and zeros behind. -/
theorem copyin_run_consistent (h : Host) (m₀ m₁ m : Mem) (buf : Nat) (config : FATConfig)
    (hcreate : createFAT32 h m₀ buf config = .ok (0, m₁))
    (hsize : config.nSector.toNat * config.bytesPerSector.toNat < 2 ^ 32) (calls : List Call)
    (rets : List Nat) (hrun : Run.run (copyinStep h buf) m₁ calls = .ok (rets, m)) :
    let bps := config.bytesPerSector.toNat
    let fat := config.fatSizeInSector
    let w := m.load (buf + bps + FSInfo.nextFree.off) 4
    let entry := fun e => m.load (buf + 8 * bps + 4 * e) 4
    (∀ i, i < fat * bps → m (buf + (8 + fat) * bps + i) = m (buf + 8 * bps + i)) ∧
      (∀ i, i < BPB.size → m (buf + 6 * bps + i) = m (buf + i)) ∧
      (∀ i, i < FSInfo.size → m (buf + 7 * bps + i) = m (buf + bps + i)) ∧
      3 ≤ w ∧
      (∀ e, e < 3 → entry e = m₁.load (buf + 8 * bps + 4 * e) 4) ∧
      (∀ e, 3 ≤ e → e < w → (entry e = e + 1 ∧ e + 1 < w) ∨ entry e = 0xFFFFFFFF) ∧
      entry (w - 1) = 0xFFFFFFFF ∧
      (∀ e, w ≤ e → e < fat * (bps / 4) → entry e = 0) ∧
      ((∃ ret ∈ rets, ret ≠ 0) → w ≤ config.maxCluster) := by
  intro bps fat w entry
  have ha := createFAT32_accepted hcreate
  have hs := ha.addressable hsize
  have hg := config.geometry_laid ha hs
  have hmax : (config.geometry ha hs).maxCluster = config.maxCluster := rfl
  have hinit := createFAT32_image hcreate ha hs
  obtain ⟨g, hgEq⟩ : ∃ g, g = config.geometry ha hs := ⟨_, rfl⟩
  rw [← hgEq] at hg hmax hinit
  obtain ⟨files, hruns, hm, -⟩ := copyin_run (by rw [hg.size]; exact hsize) hinit hrun
  -- what is left are facts about the image that holds `files`
  have hbps : g.bytesPerSector = bps := hg.bytesPerSector
  have htable : 8 * bps = g.table 0 := hg.table_zero.symm
  have hw : w = watermark files := by
    rw [← hm.nextFree, hbps]
  have hentry : ∀ e, entry e = m.load (buf + g.table 0 + 4 * e) 4 := by
    intro e
    rw [← htable]
  have hge := g.numEntry_ge
  simp only [hw, hentry]
  refine ⟨fun i hi => ?_, fun i hi => ?_, fun i hi => ?_, three_le_watermark files, fun e he => ?_,
    fun e hlo hhi => hm.entry_cases hlo hhi, hm.entry_last, fun e hlo hhi => ?_, fun hplaced => ?_⟩
  · have htable1 : (8 + fat) * bps = g.table 1 := hg.table_one.symm
    rw [htable, htable1]
    apply hm.tables_eq
    rw [Geometry.bytesPerFAT, hg.fatSize, hbps]
    exact hi
  · rw [← hbps]
    exact hm.bootCopy i hi
  · rw [← hbps]
    exact hm.infoCopy i hi
  · -- the first three entries do not depend on the files
    have hvalue : tableValue config.media files e = tableValue config.media [] e := by
      obtain rfl | rfl | rfl : e = 0 ∨ e = 1 ∨ e = 2 := by omega
      · rfl
      · rfl
      · rfl
    rw [htable, hm.tables 0 (by decide) e (by omega), hvalue,
      hinit.tables 0 (by decide) e (by omega)]
  · apply hm.entry_free hlo
    rw [hg.numEntry]
    exact hhi
  · rcases hm.room with hnil | hle
    · exact absurd hnil (Runs.nonempty hruns hplaced)
    · rwa [← hmax]

theorem copyin_run_consistent_small :
    ∃ m₁ m, createFAT32 .little (fun _ => 0xFF) 0 smallVolume = .ok (0, m₁) ∧
      Run.run (copyinStep .little 0) m₁ [smallCall] = .ok ([11], m) ∧
      3 ≤ m.load (0 + 512 + 492) 4 ∧ m.load (0 + 512 + 492) 4 ≤ 6 := by
  obtain ⟨m₁, m, hcreate, hrun⟩ := smallVolume_run
  obtain ⟨-, -, -, hlo, -, -, -, -, hhi⟩ := copyin_run_consistent .little (fun _ => 0xFF) m₁ m 0
    smallVolume hcreate (by decide) [smallCall] [11] hrun
  exact ⟨m₁, m, hcreate, hrun, hlo, hhi ⟨11, List.mem_singleton_self 11, by decide⟩⟩

/-! ## When no assertion fails -/

namespace FATConfig

variable (config : FATConfig) (buf : Nat) (m : Mem)

/-- `FSInfo.nextFree` of the volume at `buf`. -/
def nextFree : Nat := m.load (buf + config.bytesPerSector.toNat + FSInfo.nextFree.off) 4

/-- The bytes of a cluster. -/
def clusterBytes : Nat := config.clusterSize.toNat * config.bytesPerSector.toNat

/-- The first byte behind the tables, where the root directory begins. -/
def rootBytes : Nat := (8 + config.tableSectors * 2) * config.bytesPerSector.toNat

/-- The root directory has an unused entry. -/
def RootHasRoom :
    Prop := ∃ i, i < config.clusterBytes / 32 ∧ m (buf + config.rootBytes + 32 * i) = 0

/-- What keeps a call from an assertion: the file is smaller than `2 ^ 32` bytes,
    and if it passes the size check and finds an unused entry, its first cluster
    lies below byte `2 ^ 32`, and an empty one finds a cluster below `maxCluster`
    unless one of its transfers fails. -/
def Serviceable (m : Mem) (c : Call) : Prop :=
  ∀ stSize, c.fd.fstat = .ok stSize →
    stSize.toNat < 2 ^ 32 ∧
      (stSize.toNat ≤ u32 (config.clusterBytes * (config.maxCluster - config.nextFree buf m)) →
        config.RootHasRoom buf m →
        config.rootBytes + (config.nextFree buf m - 2) * config.clusterBytes < 2 ^ 32 ∧
          (stSize.toNat = 0 → c.fd.lseek = 0 → c.fd.readRet 0 = 0 →
            config.nextFree buf m < config.maxCluster))

/-- The file does not fit, the root directory is full, or a system call fails. -/
def CannotServe (m : Mem) (c : Call) : Prop :=
  ∀ stSize, c.fd.fstat = .ok stSize →
    config.clusterBytes * (config.maxCluster - config.nextFree buf m) < stSize.toNat ∨
      ¬ config.RootHasRoom buf m ∨ c.fd.lseek ≠ 0 ∨ c.fd.readRet stSize.toNat ≠ stSize.toNat

end FATConfig

section

variable {config : FATConfig} {ha : config.Accepted} {hs : config.Addressable} {media : Nat}
  {m : Mem} {buf : Nat} {files : List File}

private theorem Image.nextFree_eq (hm : Image (config.geometry ha hs) media m buf files) :
    config.nextFree buf m = watermark files := hm.nextFree

/-- Whether the root directory is full can be read off the image. -/
theorem Image.rootHasRoom_iff (hm : Image (config.geometry ha hs) media m buf files) :
    config.RootHasRoom buf m ↔ files.length < (config.geometry ha hs).numRootEntry := by
  obtain ⟨-, hused, -⟩ := hm.toHolds.rootUsed
  have hroot : (config.geometry ha hs).root = config.rootBytes := (config.geometry ha hs).root_eq
  have hnum : (config.geometry ha hs).numRootEntry = config.clusterBytes / 32 := rfl
  rw [hroot] at hused
  constructor
  · rintro ⟨i, hi, hzero⟩
    rw [hnum]
    by_contra hfull
    exact hused i (by omega) hzero
  · intro hlt
    have hfree := hm.unused _ (Nat.le_refl _) hlt
    rw [hroot] at hfree
    exact ⟨files.length, by rwa [hnum] at hlt, hfree⟩

/-- A serviceable call on an image returns, and refuses what it cannot serve. -/
private theorem copyinStep_serviceable (h : Host) {c : Call}
    (hm : Image (config.geometry ha hs) media m buf files) (hmax : 3 ≤ config.maxCluster)
    (hc : config.Serviceable buf m c) :
    ∃ ret m', copyinStep h buf m c = .ok (ret, m') ∧
      (config.CannotServe buf m c → ret = 0) ∧
      ∃ files', Image (config.geometry ha hs) media m' buf files' := by
  obtain ⟨g, hg⟩ : ∃ g, g = config.geometry ha hs := ⟨_, rfl⟩
  have hnext := hm.nextFree_eq
  have hiff := hm.rootHasRoom_iff
  have hmc : g.maxCluster = config.maxCluster := by rw [hg]; rfl
  have hbpc : g.bytesPerCluster = config.clusterBytes := by rw [hg]; rfl
  have hroot : g.root = config.rootBytes := by
    rw [g.root_eq, hg]
    rfl
  rw [← hg] at hm hiff ⊢
  -- on an empty volume this is the condition on the config
  have hw : watermark files ≤ g.maxCluster := by
    rcases hm.room with hnil | hle
    · rw [hnil, hmc]
      exact hmax
    · exact hle
  -- the condition, in the terms of the layout
  have hcond : ∀ stSize, c.fd.fstat = .ok stSize → u32 stSize.toNat = stSize.toNat ∧
      (Reaches g files stSize.toNat → g.cluster (watermark files) < 2 ^ 32 ∧
        (stSize.toNat = 0 → c.fd.lseek = 0 → c.fd.readRet 0 = 0 →
          watermark files < g.maxCluster)) := by
    intro stSize hstat
    obtain ⟨hlt, hrest⟩ := hc stSize hstat
    refine ⟨u32_of_lt hlt, fun hreach => ?_⟩
    rw [hnext, ← hbpc, ← hmc, ← hroot] at hrest
    exact hrest hreach.1 (hiff.mpr hreach.2)
  obtain ⟨r, hcall⟩ := fat32Copyin_returns h c.fd c.name c.attr hm hw
    (fun stSize hstat hreach => by
      obtain ⟨heq, hrest⟩ := hcond stSize hstat
      rw [heq] at hreach
      exact (hrest hreach).1)
    (fun stSize hstat hreach hzero hseek hread => by
      obtain ⟨heq, hrest⟩ := hcond stSize hstat
      rw [heq] at hreach hzero
      exact (hrest hreach).2 hzero hseek hread)
  have hstep : copyinStep h buf m c = .ok (r.ret, r.mem) := copyinStep_ok.mpr ⟨r, hcall, rfl, rfl⟩
  obtain ⟨files', hvol, himage, -⟩ := copyinStep_simulates hm
    (fun stSize hstat _ hreach => by
      obtain ⟨heq, hrest⟩ := hcond stSize hstat
      rw [heq] at hreach
      exact (hrest hreach).1) hstep
  refine ⟨r.ret, r.mem, hstep, fun hcannot => ?_, files', himage⟩
  generalize hret : r.ret = ret at hvol
  cases hvol with
  | refuse => rfl
  | place stSize hstat hseek hread hlength hroom hslot =>
    -- a file that was placed could be served
    exfalso
    rw [(hcond stSize hstat).1] at hread hroom
    have hfits : stSize.toNat ≤ g.bytesPerCluster * (g.maxCluster - watermark files) := by
      have hfit := himage.fits _ (List.mem_append_right _ List.mem_cons_self)
      have hcount : (newFile g c.name (c.fd.data (u32 stSize.toNat))).count =
          clustersFor g stSize.toNat := by
        show clustersFor g (c.fd.data (u32 stSize.toNat)).length = _
        rw [hlength, (hcond stSize hstat).1]
      have hbytes : (newFile g c.name (c.fd.data (u32 stSize.toNat))).bytes.length =
          stSize.toNat := hlength.trans (hcond stSize hstat).1
      rw [hcount, hbytes] at hfit
      refine Nat.le_trans hfit ?_
      rw [Nat.mul_comm]
      exact Nat.mul_le_mul_left _ (by omega)
    -- each reason for not being served contradicts a step of the call
    rcases hcannot stSize hstat with hbig | hfull | hseek' | hread'
    · rw [hnext, ← hbpc, ← hmc] at hbig
      omega
    · exact hfull (hiff.mpr hslot)
    · exact hseek' hseek
    · exact hread' hread

end

/-- On a volume with a cluster to give, a run of serviceable calls ends in no
    assertion, and a call that cannot be served returns 0. -/
theorem copyin_run_asserts_nothing (h : Host) (m₀ m₁ : Mem) (buf : Nat) (config : FATConfig)
    (hcreate : createFAT32 h m₀ buf config = .ok (0, m₁)) (hs : config.Addressable)
    (hmax : 3 ≤ config.maxCluster) (calls : List Call)
    (hcalls : Run.Meets (copyinStep h buf) (config.Serviceable buf) m₁ calls) :
    (∃ rets m, Run.run (copyinStep h buf) m₁ calls = .ok (rets, m)) ∧
      Run.Steps (copyinStep h buf) (fun m c ret => config.CannotServe buf m c → ret = 0) m₁
        calls := by
  have ha := createFAT32_accepted hcreate
  -- while the volume is intact, every step is one that can be served or refused
  have hsteps : Run.Steps (copyinStep h buf)
      (fun m c ret => config.CannotServe buf m c → ret = 0) m₁ calls := by
    apply Run.steps_of_meets
      (P := fun m => ∃ files, Image (config.geometry ha hs) config.media m buf files)
    · rintro m c ⟨files, hm⟩ hc
      exact copyinStep_serviceable h hm hmax hc
    · exact ⟨[], createFAT32_image hcreate ha hs⟩
    · exact hcalls
  exact ⟨hsteps.run_ok, hsteps⟩

theorem copyin_run_asserts_nothing_small :
    ∃ m₁, createFAT32 .little (fun _ => 0xFF) 0 smallVolume = .ok (0, m₁) ∧
      ∃ rets m, Run.run (copyinStep .little 0) m₁ [smallCall] = .ok (rets, m) := by
  have hcreate := createFAT32_eq .little (fun _ => 0xFF) 0 smallVolume_accepted
    smallVolume_addressable
  have himage := createFAT32_image hcreate smallVolume_accepted smallVolume_addressable
  have hone : ∀ stSize, smallCall.fd.fstat = .ok stSize → stSize = 1 := by
    intro stSize hstat
    exact (Except.ok.inj hstat).symm
  have hnext := himage.nextFree_eq
  refine ⟨_, hcreate, (copyin_run_asserts_nothing .little (fun _ => 0xFF) _ 0 smallVolume hcreate
    smallVolume_addressable (by decide) [smallCall] ⟨fun stSize hstat => ?_, fun _ _ _ =>
      trivial⟩).1⟩
  obtain rfl := hone stSize hstat
  rw [hnext]
  exact ⟨by decide, fun _ _ => ⟨by decide, fun hzero => absurd hzero (by decide)⟩⟩

/-- Clusters of four sectors on the smallest volume: a single one is left for
    data, and the first call finds `maxCluster` below `nextFree`. -/
theorem copyin_asserts_incorrectFs :
    ∃ m₁, createFAT32 .little (fun _ => 0) 0 ⟨16, 512, 4, true⟩ = .ok (0, m₁) ∧
      fat32Copyin .little m₁ 0 smallCall.fd smallCall.name.toCString smallCall.attr =
        .error (.assert .incorrectFs) := by
  have ha : FATConfig.Accepted ⟨16, 512, 4, true⟩ := ⟨by decide, by decide, by decide, by decide⟩
  have hs := ha.addressable (by decide)
  have hcreate := createFAT32_eq .little (fun _ => 0) 0 ha hs
  have hm := createFAT32_image hcreate ha hs
  refine ⟨_, hcreate, ?_⟩
  show (fat32SuperInit .little _ 0 >>= fun sb => copyinWith _ _ sb _ _ _ _) = _
  rw [hm.toHolds.superInit, Run.ok_bind]
  have hmax : FATConfig.maxCluster ⟨16, 512, 4, true⟩ < watermark [] := by decide
  exact copyinWith_incorrect .little _ _ _ _ hm.toHolds hmax

end Tlibc.Fat
