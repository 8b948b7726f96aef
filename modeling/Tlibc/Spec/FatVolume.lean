import Tlibc.Lib.Chain
import Tlibc.Spec.FatGeometry

/-!
# Volumes as lists of files

What an image stands for: the files of its root directory with their bytes, in
the order they were copied in. The allocator never frees, so the list alone
determines which clusters a file has, what both tables hold, and where the next
file goes.

`Holds` ties an image to such a list, `Image` asks for the backups as well.
`Holds.congr` is the frame rule: what lies behind the last file does not matter.
-/

namespace Tlibc.Fat

/-- `0xFFFFFFFF`, the end of a chain. -/
def eoc : Nat := 0xFFFFFFFF

/-- A name as every caller passes it: 1 to 8 characters, none of them a dot. -/
structure FileName extends CString where
  dot_free : dot ∉ chars
  length_pos : 1 ≤ chars.length
  length_le : chars.length ≤ 8

/-- The name field of the directory entry. -/
def FileName.field (name : FileName) : List UInt8 :=
  name.chars ++ List.replicate (11 - name.chars.length) 0

/-- The field of a name has 11 bytes. -/
theorem FileName.length_field (name : FileName) : name.field.length = 11 := by
  have h := name.length_le
  rw [field, List.length_append, List.length_replicate]
  omega

/-- Names that differ have different fields. -/
theorem FileName.field_inj {a b : FileName} (h : a.field = b.field) : a.chars = b.chars := by
  -- the characters are what stands before the first NUL
  have htake : ∀ name : FileName, name.field.takeWhile (· != 0) = name.chars := by
    intro name
    have hall : ∀ c ∈ name.chars, (c != 0) = true := fun c hc =>
      bne_iff_ne.mpr fun h0 => name.nul_free (h0 ▸ hc)
    have hle := name.length_le
    obtain ⟨k, hk⟩ : ∃ k, 11 - name.chars.length = k + 1 := ⟨10 - name.chars.length, by omega⟩
    rw [field, List.takeWhile_append_of_pos hall, hk, List.replicate_succ, List.takeWhile_cons]
    simp
  rw [← htake a, ← htake b, h]

/-- A file of the root directory. -/
structure File where
  name : FileName
  bytes : List UInt8
  /-- the clusters it was given -/
  count : Nat
  count_pos : 1 ≤ count

/-- The clusters that the files take. -/
def counts (files : List File) : List Nat := files.map fun f => f.count

/-- The cluster the next file starts at. -/
def watermark (files : List File) : Nat := 3 + (counts files).sum

/-- The first cluster of file `i`. -/
def firstCluster (files : List File) (i : Nat) : Nat := Placement.startOf 3 (counts files) i

/-- There is one number for each file. -/
theorem length_counts (files : List File) : (counts files).length = files.length :=
  List.length_map _

/-- Every file takes a cluster. -/
theorem counts_pos {files : List File} {v : Nat} (hv : v ∈ counts files) : 1 ≤ v := by
  obtain ⟨f, -, rfl⟩ := List.mem_map.mp hv
  exact f.count_pos

/-- Behind the last file there is the first free cluster. -/
theorem firstCluster_length (files : List File) :
    firstCluster files files.length = watermark files := by
  rw [firstCluster, ← length_counts, Placement.startOf_length, watermark]

/-- The root directory takes cluster 2, so files start behind it. -/
theorem three_le_firstCluster (files : List File) (i : Nat) : 3 ≤ firstCluster files i :=
  Placement.base_le_startOf _ _ _

/-- So does the free space. -/
theorem three_le_watermark (files : List File) : 3 ≤ watermark files := Nat.le_add_right _ _

/-- A file starts behind the one before it. -/
theorem firstCluster_succ {files : List File} {i : Nat} {f : File} (hf : files[i]? = some f) :
    firstCluster files (i + 1) = firstCluster files i + f.count := by
  obtain ⟨hi, rfl⟩ := List.getElem?_eq_some_iff.mp hf
  have hlt : i < (counts files).length := by rwa [length_counts]
  rw [firstCluster, Placement.startOf_succ 3 hlt, firstCluster]
  simp only [counts, List.getElem_map]

/-- Files start below the free space. -/
theorem firstCluster_le_watermark {files : List File} {i : Nat} (hi : i ≤ files.length) :
    firstCluster files i ≤ watermark files := by
  rw [← firstCluster_length]
  exact Placement.startOf_mono 3 (counts files) hi

/-- One file more takes its clusters from the free space. -/
theorem watermark_append (files : List File) (f : File) :
    watermark (files ++ [f]) = watermark files + f.count := by
  simp only [watermark, counts, List.map_append, List.sum_append, List.map_cons, List.map_nil,
    List.sum_singleton, Nat.add_assoc]

/-- The other files stay where they are. -/
theorem firstCluster_append {files : List File} {i : Nat} (f : File) (hi : i ≤ files.length) :
    firstCluster (files ++ [f]) i = firstCluster files i := by
  rw [firstCluster, firstCluster, counts, List.map_append]
  exact Placement.startOf_append 3 _ _ (by rwa [List.length_map])

/-- Entry `e` of a file allocation table. -/
def tableValue (media : Nat) (files : List File) (e : Nat) : Nat :=
  if e = 0 then 0xFFFF00 ||| media
  else if e = 1 then fat1Value
  else if e = 2 then eoc
  else Chain.link eoc 3 (counts files) e

/-- The directory entry at `a` is that of a file with the given first cluster. -/
structure EntryHolds (m : Mem) (a : Nat) (f : File) (first : Nat) : Prop where
  name : m.read (a + FATDirEntry.name) 11 = f.name.field
  firstClusterHigh : m.load (a + FATDirEntry.firstClusterHigh.off) 2 = first / 2 ^ 16
  firstClusterLow : m.load (a + FATDirEntry.firstClusterLow.off) 2 = first % 2 ^ 16
  fileSize : m.load (a + FATDirEntry.fileSize.off) 4 = f.bytes.length

/-- An entry depends on its 32 bytes only. -/
theorem EntryHolds.congr {m m' : Mem} {a : Nat} {f : File} {first : Nat}
    (h : ∀ j, j < 32 → m' (a + j) = m (a + j)) (he : EntryHolds m a f first) :
    EntryHolds m' a f first := by
  have hread : ∀ off n, off + n ≤ 32 → m'.read (a + off) n = m.read (a + off) n := by
    intro off n hoff
    refine Mem.read_congr fun i hi => ?_
    rw [Nat.add_assoc]
    exact h _ (by omega)
  constructor
  · rw [hread _ _ (by decide)]; exact he.name
  · rw [Mem.load, hread _ _ (by decide)]; exact he.firstClusterHigh
  · rw [Mem.load, hread _ _ (by decide)]; exact he.firstClusterLow
  · rw [Mem.load, hread _ _ (by decide)]; exact he.fileSize

/-- An entry with a name is in use. -/
private theorem EntryHolds.used {m : Mem} {a : Nat} {f : File} {first : Nat}
    (he : EntryHolds m a f first) : m a ≠ 0 := by
  intro h0
  obtain ⟨c, cs, hc⟩ := List.exists_cons_of_length_pos f.name.length_pos
  have hname := he.name
  rw [FileName.field, hc, FATDirEntry.name, Nat.add_zero, Mem.read_add m a 1 10] at hname
  have hhead : m a = c := (List.cons.inj hname).1
  exact f.name.nul_free (by rw [hc, ← h0, hhead]; exact List.mem_cons_self)

/-- The image at `buf` holds the files. -/
structure Holds (g : Geometry) (media : Nat) (m : Mem) (buf : Nat) (files : List File) : Prop where
  boot : g.BootSector m buf
  nextFree : m.load (buf + g.bytesPerSector + FSInfo.nextFree.off) 4 = watermark files
  freeCount : 2 * g.numEntry ≤
    m.load (buf + g.bytesPerSector + FSInfo.freeCount.off) 4 + watermark files
  tables : ∀ t, t < 2 → ∀ e, e < g.numEntry →
    m.load (buf + g.table t + 4 * e) 4 = tableValue media files e
  length_le : files.length ≤ g.numRootEntry
  entries : ∀ i f, files[i]? = some f →
    EntryHolds m (buf + g.root + 32 * i) f (firstCluster files i)
  unused : ∀ i, files.length ≤ i → i < g.numRootEntry → m (buf + g.root + 32 * i) = 0
  fits : ∀ f ∈ files, f.bytes.length ≤ f.count * g.bytesPerCluster
  contents : ∀ i f, files[i]? = some f →
    m.read (buf + g.cluster (firstCluster files i)) f.bytes.length = f.bytes
  room : files = [] ∨ watermark files ≤ g.maxCluster

/-- The structures in sectors 0 and 1 equal their backups in sectors 6 and 7. -/
structure Backups (g : Geometry) (m : Mem) (buf : Nat) : Prop where
  bootCopy : ∀ i, i < BPB.size → m (buf + 6 * g.bytesPerSector + i) = m (buf + i)
  infoCopy : ∀ i, i < FSInfo.size →
    m (buf + 7 * g.bytesPerSector + i) = m (buf + g.bytesPerSector + i)

/-- The image at `buf` holds the files and is backed up. -/
structure Image (g : Geometry) (media : Nat) (m : Mem) (buf : Nat) (files : List File) : Prop
    extends Holds g media m buf files, Backups g m buf

variable {g : Geometry} {media : Nat} {m m' : Mem} {buf : Nat} {files : List File}

/-- The first cluster of a file area lies right behind the root directory. -/
theorem root_end_le_cluster (g : Geometry) {c : Nat} (hc : 3 ≤ c) :
    g.root + g.bytesPerCluster ≤ g.cluster c := by
  have hle := g.cluster_mono (show 2 ≤ 2 + 1 by decide) hc
  rwa [g.cluster_add (Nat.le_refl 2), g.cluster_two, Nat.one_mul] at hle

/-- The clusters of file `i` hold its bytes, and lie below the watermark. -/
private theorem Holds.bytes_le (hm : Holds g media m buf files) {i : Nat} {f : File}
    (hf : files[i]? = some f) :
    g.cluster (firstCluster files i) + f.bytes.length ≤ g.cluster (firstCluster files (i + 1)) ∧
      g.cluster (firstCluster files (i + 1)) ≤ g.cluster (watermark files) := by
  have hfits := hm.fits f (List.mem_of_getElem? hf)
  have hi := (List.getElem?_eq_some_iff.mp hf).1
  -- the next file begins right behind the clusters of this one
  have hnext : g.cluster (firstCluster files (i + 1)) =
      g.cluster (firstCluster files i) + f.count * g.bytesPerCluster := by
    rw [firstCluster_succ hf, g.cluster_add (Nat.le_trans (by decide)
      (three_le_firstCluster files i))]
  have hmono := g.cluster_mono (Nat.le_trans (by decide) (three_le_firstCluster files (i + 1)))
    (firstCluster_le_watermark hi)
  exact ⟨by omega, hmono⟩

/-- The frame rule: only bytes below the watermark matter, sectors 6 and 7 aside. -/
theorem Holds.congr
    (h : ∀ i, i < g.cluster (watermark files) →
      (i < 6 * g.bytesPerSector ∨ 8 * g.bytesPerSector ≤ i) → m' (buf + i) = m (buf + i))
    (hm : Holds g media m buf files) : Holds g media m' buf files := by
  have hbps := g.bytesPerSector_bounds
  have htab := g.table_zero
  have htab1 := g.table_one
  have hroot := g.root_eq_table
  have hfat := g.bytesPerFAT_eq
  have hbpc := g.bytesPerCluster_eq
  have hend := root_end_le_cluster g (three_le_watermark files)
  -- a number in front of the data region, outside the two backup sectors
  have hload : ∀ off n, off + n ≤ g.root + g.bytesPerCluster →
      (off + n ≤ 6 * g.bytesPerSector ∨ 8 * g.bytesPerSector ≤ off) →
      m'.load (buf + off) n = m.load (buf + off) n := by
    intro off n hoff hsec
    refine Mem.load_congr fun i hi => ?_
    rw [Nat.add_assoc]
    exact h _ (by omega) (by omega)
  constructor
  · exact hm.boot.congr fun i hi => h i (by omega) (by omega)
  · rw [Nat.add_assoc, hload _ _ (by simp; omega) (by simp; omega), ← Nat.add_assoc]
    exact hm.nextFree
  · rw [Nat.add_assoc buf, hload _ _ (by simp; omega) (by simp; omega), ← Nat.add_assoc]
    exact hm.freeCount
  · intro t ht e he
    have ht' := g.table_bounds ht
    rw [Nat.add_assoc, hload _ _ (by omega) (by omega), ← Nat.add_assoc]
    exact hm.tables t ht e he
  · exact hm.length_le
  · intro i f hf
    have hi := (List.getElem?_eq_some_iff.mp hf).1
    have hle := hm.length_le
    refine (hm.entries i f hf).congr fun j hj => ?_
    rw [Nat.add_assoc buf, Nat.add_assoc buf]
    exact h _ (by omega) (by omega)
  · intro i hi hi'
    rw [Nat.add_assoc, h _ (by omega) (by omega), ← Nat.add_assoc]
    exact hm.unused i hi hi'
  · exact hm.fits
  · intro i f hf
    -- the contents lie behind the root directory and below the watermark
    have hle := hm.bytes_le hf
    have hlo := root_end_le_cluster g (three_le_firstCluster files i)
    have hread : m'.read (buf + g.cluster (firstCluster files i)) f.bytes.length =
        m.read (buf + g.cluster (firstCluster files i)) f.bytes.length := by
      refine Mem.read_congr fun j hj => ?_
      rw [Nat.add_assoc]
      exact h _ (by omega) (by omega)
    rw [hread, hm.contents i f hf]
  · exact hm.room

/-- What `FAT32SuperInit` finds in the root directory. -/
theorem Holds.rootUsed (hm : Holds g media m buf files) : g.RootUsed m buf files.length := by
  refine ⟨hm.length_le, fun i hi => ?_, fun hlt => hm.unused _ (Nat.le_refl _) hlt⟩
  exact (hm.entries i _ (List.getElem?_eq_getElem hi)).used

/-- A volume is parsed as its geometry. -/
theorem Holds.superInit (h : Host) (hm : Holds g media m buf files) :
    fat32SuperInit h m buf = .ok (g.super buf files.length) := by
  have hnum := g.numEntry_ge
  -- entry 2 of the first table, the end of the root directory's chain
  have hchain : m.load (buf + g.table 0 + 8) 4 = 0xFFFFFFFF :=
    hm.tables 0 (by decide) 2 (by omega)
  exact g.fat32SuperInit_eq h hm.boot hchain hm.rootUsed

/-- With a file in it, the volume has not run over. -/
theorem Holds.watermark_le_maxCluster (hm : Holds g media m buf files) {i : Nat} {f : File}
    (hf : files[i]? = some f) : watermark files ≤ g.maxCluster := by
  rcases hm.room with hnil | hle
  · rw [hnil] at hf
    cases hf
  · exact hle

/-- The number of the first free cluster does not wrap. -/
theorem Holds.watermark_lt (hm : Holds g media m buf files) : watermark files < 2 ^ 32 := by
  rw [← hm.nextFree]
  exact Mem.load_lt _ _ 4

/-! ## The copies of `FAT32SuperFree` -/

/-- The copies change sectors 6 and 7 only. -/
theorem sync_apply_out {i : Nat}
    (hi : i < 6 * g.bytesPerSector ∨ 8 * g.bytesPerSector ≤ i) :
    g.sync m buf (buf + i) = m (buf + i) := by
  rw [Geometry.sync, Mem.copy_apply_out (by omega), Mem.copy_apply_out (by omega)]

/-- A volume stays one when the copies are brought up to date. -/
theorem Holds.sync (hm : Holds g media m buf files) : Image g media (g.sync m buf) buf files := by
  have hbps := g.bytesPerSector_bounds
  refine { hm.congr fun i _ hsec => sync_apply_out hsec with bootCopy := ?_, infoCopy := ?_ }
  · intro i hi
    have hi : i < 512 := hi
    rw [sync_apply_out (by omega), Geometry.sync, Mem.copy_apply_out (by omega),
      Mem.copy_apply_in (by omega) (by omega), Nat.add_sub_cancel_left]
  · intro i hi
    have hi : i < 512 := hi
    rw [Nat.add_assoc buf g.bytesPerSector i, sync_apply_out (by omega), Geometry.sync,
      Mem.copy_apply_in (by omega) (by omega), Nat.add_sub_cancel_left,
      Mem.copy_apply_out (by omega), Nat.add_assoc]

/-- The bytes of the file system itself: everything up to the end of the root
    directory. -/
def systemBytes (g : Geometry) (buf : Nat) : Set Nat :=
  Set.Ico buf (buf + g.root + g.bytesPerCluster)

/-- This changes system sectors only. -/
theorem sync_frame (g : Geometry) (m : Mem) (buf : Nat) :
    Mem.Frame (systemBytes g buf) m (g.sync m buf) := by
  have htab := g.table_zero
  have hroot := g.root_eq_table
  intro a ha
  have ha : ¬ (buf ≤ a ∧ a < buf + g.root + g.bytesPerCluster) := ha
  rw [Geometry.sync, Mem.copy_apply_out (by omega), Mem.copy_apply_out (by omega)]

end Tlibc.Fat
