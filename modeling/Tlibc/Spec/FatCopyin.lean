import Tlibc.Spec.FatVolume
import Mathlib.Data.List.TakeWhile

/-!
# One call of `FAT32Copyin`

What a call can do on an image that holds a list of files: refuse, and leave the
list as it is, or append one file. The pieces first (the directory entry, the FAT
update, the FSInfo update), then `copyinWith_eq`, which is the call with all
arithmetic resolved, and from it

* `fat32Copyin_cases`: the two outcomes of a call that returns
* `fat32Copyin_returns`: when a call returns at all
-/

namespace Tlibc.Fat

variable {g : Geometry} {media : Nat} {m : Mem} {buf : Nat} {files : List File}

/-! ## The directory entry -/

/-- The stores of `storeDirEntry` over the cleared entry. -/
def dirStores (h : Host) (name : FileName) (attr nextFree fobjSize : Nat) :
    List (Nat × List UInt8) :=
  let date := (fat32Date 1995 2 21).toNat
  let time := (fat32Time 8 30 25).toNat
  [(0, name.chars),
    (11, Mem.leBytes 1 attr),
    (12, Mem.leBytes 1 0),
    (13, Mem.leBytes 1 42),
    (14, Mem.leBytes 2 time),
    (16, Mem.leBytes 2 date),
    (18, Mem.leBytes 2 date),
    (20, Mem.leBytes 2 (nextFree >>> 16)),
    (22, h.bytesOf 2 (h.genericLoadLe .two (h.bytesOf 2 time))),
    (24, h.bytesOf 2 (h.genericLoadLe .two (h.bytesOf 2 date))),
    (26, Mem.leBytes 2 (nextFree &&& 0xFFFF)),
    (28, Mem.leBytes 4 fobjSize)]

section

variable (h : Host) (m : Mem) (entry : Nat) (name : FileName) (attr nextFree fobjSize : Nat)

private theorem storeDirEntry_eq : storeDirEntry h m entry name.toCString attr nextFree fobjSize =
    (m.fill entry 32 0).writeAll entry (dirStores h name attr nextFree fobjSize) := by
  have hdot : ∀ c ∈ name.chars, (c != dot) = true := fun c hc =>
    bne_iff_ne.mpr fun hd => name.dot_free (hd ▸ hc)
  -- without a dot the whole name is prefix, and the suffix loop stores nothing
  have hprefix : name.chars.takeWhile (· != dot) = name.chars :=
    List.takeWhile_eq_self_iff.mpr hdot
  have hsuffix : name.chars.dropWhile (· != dot) = [] := List.dropWhile_eq_nil_iff.mpr hdot
  simp only [storeDirEntry, hprefix, hsuffix, Mem.write_nil, Host.storeLe_eq, Host.put, dirStores,
    Mem.writeAll, FATDirEntry.size, FATDirEntry.name, FATDirEntry.suffix, FATDirEntry.attr,
    FATDirEntry.ntres, FATDirEntry.createTimeTenth, FATDirEntry.createTime, FATDirEntry.createDate,
    FATDirEntry.lastAccessDate, FATDirEntry.firstClusterHigh, FATDirEntry.writeTime,
    FATDirEntry.writeDate, FATDirEntry.firstClusterLow, FATDirEntry.fileSize, Width.bytes]

private theorem dirStores_ascending :
    Mem.Ascending 32 0 (dirStores h name attr nextFree fobjSize) := by
  have hlen := name.length_le
  simp [Mem.Ascending, dirStores]
  omega

private theorem storeDirEntry_frame : Mem.Frame (Set.Ico entry (entry + 32)) m
    (storeDirEntry h m entry name.toCString attr nextFree fobjSize) := by
  intro a ha
  have ha : ¬ (entry ≤ a ∧ a < entry + 32) := ha
  rw [storeDirEntry_eq, Mem.writeAll_apply_out fun s hs => by
    have := (dirStores_ascending h name attr nextFree fobjSize).bounds hs
    omega, Mem.fill_apply_out (by omega)]

/-- The entry describes the new file. -/
private theorem storeDirEntry_holds (hfree : nextFree < 2 ^ 32) {f : File} (hname : f.name = name)
    (hlength : f.bytes.length = fobjSize) (hsize : fobjSize < 2 ^ 32) :
    EntryHolds (storeDirEntry h m entry name.toCString attr nextFree fobjSize) entry f
      nextFree := by
  have hasc := dirStores_ascending h name attr nextFree fobjSize
  have hlen := name.length_le
  have hload : ∀ off n v, (off, Mem.leBytes n v) ∈ dirStores h name attr nextFree fobjSize →
      v < 256 ^ n →
      (storeDirEntry h m entry name.toCString attr nextFree fobjSize).load (entry + off) n = v := by
    intro off n v hs hv
    rw [storeDirEntry_eq, Mem.load_writeAll hasc.apart hs, Nat.mod_eq_of_lt hv]
  -- the two halves of the cluster number
  have hhigh : nextFree >>> 16 = nextFree / 2 ^ 16 := Nat.shiftRight_eq_div_pow _ _
  have hlow : nextFree &&& 0xFFFF = nextFree % 2 ^ 16 := Nat.and_two_pow_sub_one_eq_mod _ 16
  have h16 : (256 : Nat) ^ 2 = 2 ^ 16 := by decide
  constructor
  · -- the characters, then what the fill left
    have hchars := @Mem.read_writeAll (m.fill entry 32 0) entry _ hasc.apart (0, name.chars)
      (by simp [dirStores])
    -- no store reaches the bytes between the name and the attributes
    have hzero : ∀ i, name.chars.length ≤ i → i < 11 →
        (storeDirEntry h m entry name.toCString attr nextFree fobjSize) (entry + i) = 0 := by
      intro i hi hi'
      rw [storeDirEntry_eq, Mem.writeAll_apply_out fun s hs => by
        simp only [dirStores, List.mem_cons, List.not_mem_nil, or_false] at hs
        rcases hs with rfl | rfl | rfl | rfl | rfl | rfl | rfl | rfl | rfl | rfl | rfl | rfl <;>
          simp only [] <;> omega, Mem.fill_apply_in (by omega) (by omega)]
    rw [← storeDirEntry_eq] at hchars
    rw [hname]
    show Mem.read _ (entry + 0) 11 = _
    refine List.ext_getElem (by rw [Mem.length_read, name.length_field]) fun i h₁ h₂ => ?_
    rw [Mem.length_read] at h₁
    simp only [Mem.getElem_read, FileName.field, Nat.add_zero]
    by_cases hi : i < name.chars.length
    · rw [List.getElem_append_left hi]
      have hget := Mem.getElem_read (storeDirEntry h m entry name.toCString attr nextFree fobjSize)
        (entry + 0) name.chars.length i (by rw [Mem.length_read]; exact hi)
      rw [Nat.add_zero] at hget hchars
      rw [← hget]
      simp only [hchars]
    · rw [List.getElem_append_right (by omega), List.getElem_replicate]
      exact hzero i (by omega) h₁
  · show Mem.load _ (entry + 20) 2 = _
    rw [hload 20 2 (nextFree >>> 16) (by simp [dirStores]) (by rw [hhigh]; omega), hhigh]
  · show Mem.load _ (entry + 26) 2 = _
    rw [hload 26 2 (nextFree &&& 0xFFFF) (by simp [dirStores]) (by rw [hlow]; omega), hlow]
  · rw [hlength]
    exact hload 28 4 fobjSize (by simp [dirStores]) hsize

end

/-! ## The FAT update -/

/-- `FAT32SuperWriteEntry` stores the value in both tables. -/
private theorem fat32SuperWriteEntry_eq (h : Host) (m : Mem) (n : Nat) {c v : Nat}
    (hc : c < g.maxCluster) (hpos : 1 ≤ c) :
    fat32SuperWriteEntry h m (g.super buf n) c v =
      .ok ((m.write (buf + g.table 0 + 4 * c) (Mem.leBytes 4 v)).write
        (buf + g.table 1 + 4 * c) (Mem.leBytes 4 v)) := by
  rw [fat32SuperWriteEntry, ensure_of (show c < (g.super buf n).maxCluster from hc),
    ensure_of hpos]
  simp only [Geometry.super, Run.ok_bind, List.take, List.foldl, Host.storeLe_eq, tableEntry,
    Width.bytes]
  rfl

/-- The bytes of both tables. -/
def tableRegion (g : Geometry) (buf : Nat) : Set Nat := Set.Ico (buf + g.table 0) (buf + g.root)

/-- What one `FAT32SuperWriteEntry` changes. -/
private theorem load_writeEntry {c v t e : Nat} (hv : v < 2 ^ 32) (hc : c < g.numEntry) (ht : t < 2)
    (he : e < g.numEntry) :
    Mem.load ((m.write (buf + g.table 0 + 4 * c) (Mem.leBytes 4 v)).write
        (buf + g.table 1 + 4 * c) (Mem.leBytes 4 v)) (buf + g.table t + 4 * e) 4 =
      if e = c then v else m.load (buf + g.table t + 4 * e) 4 := by
  have htab := g.table_one
  have hfat := g.bytesPerFAT_eq
  have hlen : (Mem.leBytes 4 v).length = 4 := Mem.length_leBytes 4 v
  -- the entry that was written, in the first table or in the second one
  by_cases hec : e = c
  · subst hec
    rw [if_pos rfl]
    obtain rfl | rfl : t = 0 ∨ t = 1 := by omega
    · rw [Mem.load_write_ne (by omega), Mem.load_write_of_lt hv]
    · rw [Mem.load_write_of_lt hv]
  · -- any other entry is beside both
    rw [if_neg hec]
    obtain rfl | rfl : t = 0 ∨ t = 1 := by omega
    · rw [Mem.load_write_ne (by omega), Mem.load_write_ne (by omega)]
    · rw [Mem.load_write_ne (by omega), Mem.load_write_ne (by omega)]

/-- The FAT update chains `n + 1` clusters from `c` on, in both tables. -/
private theorem linkClusters_eq (h : Host) (m : Mem) (buf k : Nat) {n c : Nat} (hpos : 1 ≤ c)
    (hlt : c + n < g.maxCluster) :
    ∃ m', linkClusters h (g.super buf k) n m c = .ok (m', c + n + 1) ∧
      Mem.Frame (tableRegion g buf) m m' ∧
      ∀ t, t < 2 → ∀ e, e < g.numEntry → m'.load (buf + g.table t + 4 * e) 4 =
        if c ≤ e ∧ e ≤ c + n then (if e = c + n then eoc else e + 1)
        else m.load (buf + g.table t + 4 * e) 4 := by
  have hmax := g.maxCluster_le
  have hnum := g.numEntry_lt
  -- one write stays inside the tables, whatever the memory before it
  have hframe : ∀ (m : Mem) v c, c < g.numEntry → Mem.Frame (tableRegion g buf) m
      ((m.write (buf + g.table 0 + 4 * c) (Mem.leBytes 4 v)).write
        (buf + g.table 1 + 4 * c) (Mem.leBytes 4 v)) := by
    intro m v c hc a ha
    have ha : ¬ (buf + g.table 0 ≤ a ∧ a < buf + g.root) := ha
    have hlen : (Mem.leBytes 4 v).length = 4 := Mem.length_leBytes 4 v
    have htab := g.table_one
    have hroot := g.root_eq_table
    have hfat := g.bytesPerFAT_eq
    rw [Mem.write_apply_out (by omega), Mem.write_apply_out (by omega)]
  induction n generalizing m c with
  | zero =>
    rw [linkClusters, fat32SuperWriteEntry_eq h m k (show c < g.maxCluster from hlt) hpos]
    refine ⟨_, by rw [Run.ok_bind, u32_of_lt (by omega)]; rfl, hframe m _ c (by omega),
      fun t ht e he => ?_⟩
    rw [load_writeEntry (by decide) (by omega) ht he]
    by_cases hec : e = c
    · rw [if_pos hec, if_pos (show c ≤ e ∧ e ≤ c + 0 by omega),
        if_pos (show e = c + 0 from hec)]
      rfl
    · rw [if_neg hec, if_neg (by omega)]
  | succ n ih =>
    rw [linkClusters, fat32SuperWriteEntry_eq h m k (by omega) hpos, Run.ok_bind,
      u32_of_lt (show c + 1 < 2 ^ 32 by omega), u32_of_lt (show 1 + c < 2 ^ 32 by omega)]
    -- chain `c` to its successor; the rest starts one cluster on
    obtain ⟨m', hrun, hfr, hload⟩ := ih ((m.write (buf + g.table 0 + 4 * c)
      (Mem.leBytes 4 (1 + c))).write (buf + g.table 1 + 4 * c) (Mem.leBytes 4 (1 + c)))
      (show 1 ≤ c + 1 by omega) (by omega)
    refine ⟨m', by rw [hrun, show c + 1 + n + 1 = c + (n + 1) + 1 by omega],
      (hframe m _ c (by omega)).trans hfr, fun t ht e he => ?_⟩
    rw [hload t ht e he, load_writeEntry (by omega) (by omega) ht he]
    by_cases hec : e = c
    · -- this step's own entry, which the later ones leave alone
      rw [if_neg (by omega), if_pos hec, if_pos (show c ≤ e ∧ e ≤ c + (n + 1) by omega),
        if_neg (by omega), Nat.add_comm, hec]
    · by_cases hin : c + 1 ≤ e ∧ e ≤ c + 1 + n
      · rw [if_pos hin, if_pos (show c ≤ e ∧ e ≤ c + (n + 1) by omega),
          show c + 1 + n = c + (n + 1) by omega]
      · rw [if_neg hin, if_neg hec, if_neg (by omega)]

/-- The FAT update stays below `maxCluster` or ends in an assertion. -/
private theorem linkClusters_lt (h : Host) (sb : FAT32Super) (hmax : sb.maxCluster < 2 ^ 32)
    {n c : Nat}
    {m : Mem} {x : Mem × Nat} (hrun : linkClusters h sb n m c = .ok x) : c + n < sb.maxCluster := by
  -- a write that returns passed its assertion
  have hwrite : ∀ {c v : Nat} {m m' : Mem}, fat32SuperWriteEntry h m sb c v = .ok m' →
      c < sb.maxCluster := by
    intro c v m m' hw
    by_contra hge
    rw [fat32SuperWriteEntry, ensure_not hge] at hw
    cases hw
  induction n generalizing m c with
  | zero =>
    obtain ⟨m', hw, -⟩ := Run.bind_eq_ok.mp hrun
    exact hwrite hw
  | succ n ih =>
    obtain ⟨m', hw, hrest⟩ := Run.bind_eq_ok.mp hrun
    have hc := hwrite hw
    rw [u32_of_lt (show c + 1 < 2 ^ 32 by omega)] at hrest
    have := ih hrest
    omega

/-- One more file behind the others: its clusters are chained, the rest of the
    table stays. -/
private theorem tableValue_append (media : Nat) (files : List File) (f : File) (e : Nat) :
    tableValue media (files ++ [f]) e =
      if watermark files ≤ e ∧ e ≤ watermark files + (f.count - 1) then
        (if e = watermark files + (f.count - 1) then eoc else e + 1)
      else tableValue media files e := by
  have hpos := f.count_pos
  have hthree := three_le_watermark files
  have hw : 3 + (counts files).sum = watermark files := rfl
  by_cases he : e < 3
  · rw [if_neg (by omega)]
    obtain rfl | rfl | rfl : e = 0 ∨ e = 1 ∨ e = 2 := by omega
    · rfl
    · rfl
    · rfl
  -- behind the reserved entries the table is the chain encoding of the counts
  · have hlink : ∀ fs : List File, tableValue media fs e = Chain.link eoc 3 (counts fs) e := by
      intro fs
      rw [tableValue, if_neg (by omega), if_neg (by omega), if_neg (by omega)]
    rw [hlink, hlink, counts, List.map_append]
    show Chain.link eoc 3 (counts files ++ [f.count]) e = _
    rw [Chain.link_append eoc 3 (counts files) f.count (Nat.not_lt.mp he), hw]
    by_cases hlt : e < watermark files
    · rw [if_pos hlt, if_neg (by omega)]
    · by_cases hin : e < watermark files + f.count
      · rw [if_neg hlt, if_pos hin, if_pos (show watermark files ≤ e ∧
          e ≤ watermark files + (f.count - 1) by omega)]
        by_cases hend : e = watermark files + (f.count - 1)
        · rw [if_pos (by omega), if_pos hend]
        · rw [if_neg (by omega), if_neg hend]
      · rw [if_neg hlt, if_neg hin, if_neg (by omega), Chain.link_of_end_le eoc 3 (by omega)]

/-! ## A call that gets through -/

/-- The clusters a file of `size` bytes is given: an empty file gets one too. -/
def clustersFor (g : Geometry) (size : Nat) : Nat := cdiv size g.bytesPerCluster - 1 + 1

/-- The file a call appends when it read these bytes. -/
def newFile (g : Geometry) (name : FileName) (bytes : List UInt8) : File :=
  ⟨name, bytes, clustersFor g bytes.length, Nat.le_add_left 1 _⟩

/-- `m'` is `m` with `f` entered behind the files: in FSInfo, in both tables and in
    the first unused root entry. Nothing else from the root directory on changed. -/
structure Entered (g : Geometry) (media : Nat) (m m' : Mem) (buf : Nat) (files : List File)
    (f : File) : Prop where
  boot : ∀ i, i < 512 → m' (buf + i) = m (buf + i)
  nextFree : m'.load (buf + g.bytesPerSector + FSInfo.nextFree.off) 4 = watermark (files ++ [f])
  freeCount : 2 * g.numEntry ≤
    m'.load (buf + g.bytesPerSector + FSInfo.freeCount.off) 4 + watermark (files ++ [f])
  tables : ∀ t, t < 2 → ∀ e, e < g.numEntry →
    m'.load (buf + g.table t + 4 * e) 4 = tableValue media (files ++ [f]) e
  entry : EntryHolds m' (buf + g.root + 32 * files.length) f (watermark files)
  rest : ∀ a, buf + g.root ≤ a →
    a < buf + g.root + 32 * files.length ∨ buf + g.root + 32 * files.length + 32 ≤ a → m' a = m a

/-- With a file entered whose bytes are in its clusters, the image holds one more. -/
theorem Entered.holds {f : File} (he : Entered g media m m' buf files f)
    (hm : Holds g media m buf files) (hroot : files.length < g.numRootEntry)
    (hfits : f.bytes.length ≤ f.count * g.bytesPerCluster)
    (hbytes : m.read (buf + g.cluster (watermark files)) f.bytes.length = f.bytes)
    (hroom : watermark files + f.count ≤ g.maxCluster) :
    Holds g media m' buf (files ++ [f]) := by
  have hbpc := g.bytesPerCluster_eq
  have hlen : (files ++ [f]).length = files.length + 1 := by
    rw [List.length_append, List.length_singleton]
  -- a file of the longer list is one of the old files or the new one
  have hcases : ∀ i f', (files ++ [f])[i]? = some f' →
      firstCluster (files ++ [f]) i = firstCluster files i ∧
        (i < files.length ∧ files[i]? = some f' ∨ i = files.length ∧ f' = f) := by
    intro i f' hf
    have hi := (List.getElem?_eq_some_iff.mp hf).1
    rw [hlen] at hi
    refine ⟨firstCluster_append f (by omega), ?_⟩
    by_cases hlt : i < files.length
    · rw [List.getElem?_append_left hlt] at hf
      exact .inl ⟨hlt, hf⟩
    · obtain rfl : i = files.length := by omega
      rw [List.getElem?_append_right (Nat.le_refl _), Nat.sub_self] at hf
      exact .inr ⟨rfl, (Option.some.inj hf).symm⟩
  constructor
  · exact hm.boot.congr he.boot
  · exact he.nextFree
  · exact he.freeCount
  · exact he.tables
  · rw [hlen]
    exact hroot
  · intro i f' hf
    obtain ⟨hfirst, ⟨hlt, hf⟩ | ⟨rfl, rfl⟩⟩ := hcases i f' hf
    · rw [hfirst]
      exact (hm.entries i f' hf).congr fun j hj => he.rest _ (by omega) (by omega)
    · rw [hfirst, firstCluster_length]
      exact he.entry
  · intro i hi hi'
    rw [hlen] at hi
    rw [he.rest _ (by omega) (by omega)]
    exact hm.unused i (by omega) hi'
  · intro f' hf
    rcases List.mem_append.mp hf with hf | hf
    · exact hm.fits f' hf
    · obtain rfl := List.mem_singleton.mp hf
      exact hfits
  · intro i f' hf
    -- the clusters of a file lie behind the root directory
    have hlo := root_end_le_cluster g (three_le_firstCluster files i)
    obtain ⟨hfirst, hf⟩ := hcases i f' hf
    have hread : m'.read (buf + g.cluster (firstCluster files i)) f'.bytes.length =
        m.read (buf + g.cluster (firstCluster files i)) f'.bytes.length :=
      Mem.read_congr fun j _ => he.rest _ (by omega) (by omega)
    rw [hfirst, hread]
    obtain ⟨hlt, hf⟩ | ⟨rfl, rfl⟩ := hf
    · exact hm.contents i f' hf
    · rw [firstCluster_length]
      exact hbytes
  · refine .inr ?_
    rw [watermark_append]
    exact hroom

/-- The last two stores of a call, into FSInfo. -/
def storeFree (g : Geometry) (m : Mem) (buf freeCount nextFree : Nat) : Mem :=
  (m.write (buf + g.bytesPerSector + 488) (Mem.leBytes 4 freeCount)).write
    (buf + g.bytesPerSector + 492) (Mem.leBytes 4 nextFree)

private theorem storeFree_out (g : Geometry) {m : Mem} {buf freeCount nextFree a : Nat}
    (ha : a < buf + g.bytesPerSector + 488 ∨ buf + g.bytesPerSector + 496 ≤ a) :
    storeFree g m buf freeCount nextFree a = m a := by
  have hlen : ∀ v, (Mem.leBytes 4 v).length = 4 := Mem.length_leBytes 4
  unfold storeFree
  rw [Mem.write_apply_out (by rw [hlen]; omega), Mem.write_apply_out (by rw [hlen]; omega)]

theorem load_storeFree_next (g : Geometry) (m : Mem) (buf count : Nat) {next : Nat}
    (hnext : next < 2 ^ 32) :
    (storeFree g m buf count next).load (buf + g.bytesPerSector + 492) 4 = next := by
  unfold storeFree
  rw [Mem.load_write_of_lt (show next < 256 ^ 4 by omega)]

theorem load_storeFree_count (g : Geometry) (m : Mem) (buf next : Nat) {count : Nat}
    (hcount : count < 2 ^ 32) :
    (storeFree g m buf count next).load (buf + g.bytesPerSector + 488) 4 = count := by
  unfold storeFree
  rw [Mem.load_write_ne (by rw [Mem.length_leBytes]; omega),
    Mem.load_write_of_lt (show count < 256 ^ 4 by omega)]

/-- FSInfo lies in front of the tables. -/
theorem load_storeFree_table (g : Geometry) (m : Mem) (buf count next e : Nat) {t : Nat}
    (ht : t < 2) :
    (storeFree g m buf count next).load (buf + g.table t + 4 * e) 4 =
      m.load (buf + g.table t + 4 * e) 4 := by
  have ht' := g.table_bounds ht
  have hbps := g.bytesPerSector_bounds
  have htab := g.table_zero
  exact Mem.load_congr fun i hi => storeFree_out g (by omega)

/-- An update of the tables and one of FSInfo leave alone what is outside both. -/
theorem updates_out {m₁ m₂ : Mem} {count next a : Nat}
    (hframe : Mem.Frame (tableRegion g buf) m₁ m₂)
    (htables : a < buf + g.table 0 ∨ buf + g.root ≤ a)
    (hinfo : a < buf + g.bytesPerSector + 488 ∨ buf + g.bytesPerSector + 496 ≤ a) :
    storeFree g m₂ buf count next a = m₁ a := by
  rw [storeFree_out g hinfo]
  refine hframe.apply fun hin => ?_
  have hin : buf + g.table 0 ≤ a ∧ a < buf + g.root := hin
  omega

/-- Both tables got the chain of a file of `size` bytes from cluster `w` on. -/
structure Chained (g : Geometry) (buf w size : Nat) (m₁ m₂ : Mem) : Prop where
  frame : Mem.Frame (tableRegion g buf) m₁ m₂
  load : ∀ t, t < 2 → ∀ e, e < g.numEntry → m₂.load (buf + g.table t + 4 * e) 4 =
    if w ≤ e ∧ e ≤ w + (cdiv size g.bytesPerCluster - 1) then
      (if e = w + (cdiv size g.bytesPerCluster - 1) then eoc else e + 1)
    else m₁.load (buf + g.table t + 4 * e) 4

/-- The three updates of a call, one after another, enter the new file. -/
private theorem entered_of_updates (h : Host) (name : FileName) (attr : Nat) {size free : Nat}
    {bytes : List UInt8} {m₂ : Mem} (hm : Holds g media m buf files)
    (hroot : files.length < g.numRootEntry)
    (hroom : watermark files + clustersFor g size ≤ g.maxCluster) (hsize : size < 2 ^ 32)
    (hlength : bytes.length = size)
    (hfree : free = m.load (buf + g.bytesPerSector + FSInfo.freeCount.off) 4)
    (hchained : Chained g buf (watermark files) size
      (storeDirEntry h m (buf + g.root + 32 * files.length) name.toCString attr (watermark files)
        size) m₂) :
    Entered g media m (storeFree g m₂ buf (free - cdiv size g.bytesPerCluster)
        (watermark files + (cdiv size g.bytesPerCluster - 1) + 1)) buf files
        (newFile g name bytes) ∧
      Mem.Frame (systemBytes g buf) m (storeFree g m₂ buf (free - cdiv size g.bytesPerCluster)
        (watermark files + (cdiv size g.bytesPerCluster - 1) + 1)) := by
  have hnew : (newFile g name bytes).count = cdiv size g.bytesPerCluster - 1 + 1 := by
    rw [← hlength]
    rfl
  have hcount : clustersFor g size = cdiv size g.bytesPerCluster - 1 + 1 := rfl
  have hmax := g.maxCluster_le
  have hnum := g.numEntry_lt
  have hbps := g.bytesPerSector_bounds
  have htab := g.table_zero
  have htab1 := g.table_one
  have hrt := g.root_eq_table
  have hfat := g.bytesPerFAT_eq
  have hbpc := g.bytesPerCluster_eq
  have hfree' := hm.freeCount
  rw [← hfree] at hfree'
  obtain ⟨entry, hentry⟩ : ∃ entry, entry = buf + g.root + 32 * files.length := ⟨_, rfl⟩
  obtain ⟨m₁, hm₁⟩ : ∃ m₁, m₁ = storeDirEntry h m entry name.toCString attr (watermark files) size :=
    ⟨_, rfl⟩
  rw [← hentry, ← hm₁] at hchained
  obtain ⟨hframe, hload⟩ := hchained
  -- each update leaves what is outside its own region alone
  have happly₁ : ∀ a, a < entry ∨ entry + 32 ≤ a → m₁ a = m a := by
    intro a ha
    rw [hm₁]
    exact (storeDirEntry_frame h m entry name attr _ _).apply fun hin => by
      have hin : entry ≤ a ∧ a < entry + 32 := hin
      omega
  constructor
  · constructor
    · intro i hi
      rw [updates_out hframe (by omega) (by omega), happly₁ _ (by omega)]
    · show Mem.load (storeFree g m₂ buf _ _) (buf + g.bytesPerSector + 492) 4 = _
      rw [load_storeFree_next g m₂ buf _ (by omega), watermark_append, hnew]
      omega
    · show 2 * g.numEntry ≤ Mem.load (storeFree g m₂ buf _ _) (buf + g.bytesPerSector + 488) 4 + _
      have hlt : free < 2 ^ 32 := by
        rw [hfree]
        exact Mem.load_lt _ _ 4
      rw [load_storeFree_count g m₂ buf _ (by omega), watermark_append, hnew]
      omega
    · intro t ht e he
      have ht' := g.table_bounds ht
      have h10 : m₁.load (buf + g.table t + 4 * e) 4 = m.load (buf + g.table t + 4 * e) 4 :=
        Mem.load_congr fun i hi => happly₁ _ (by omega)
      rw [load_storeFree_table g m₂ buf _ _ e ht, hload t ht e he, h10, hm.tables t ht e he,
        tableValue_append, hnew, Nat.add_sub_cancel]
    · have hstored := storeDirEntry_holds h m entry name attr (watermark files) size
        hm.watermark_lt (show (newFile g name bytes).name = name from rfl) hlength hsize
      rw [← hm₁] at hstored
      rw [← hentry]
      apply hstored.congr
      intro j hj
      exact updates_out hframe (by omega) (by omega)
    · intro a hlo ha
      rw [← hentry] at ha
      rw [updates_out hframe (by omega) (by omega), happly₁ _ ha]
  · intro a ha
    have ha : ¬ (buf ≤ a ∧ a < buf + g.root + g.bytesPerCluster) := ha
    rw [updates_out hframe (by omega) (by omega), happly₁ _ (by omega)]

/-- The tail of a call runs its three updates, one after another, and copies sectors 0
    and 1 to 6 and 7. -/
private theorem copyinFinish_of_linked (h : Host) {m m₂ : Mem} {n w free next : Nat}
    (name : CString)
    (attr size ret : Nat) (hslot : m (buf + g.root + 32 * n) = 0)
    (hlink : linkClusters h (g.super buf n) (cdiv size g.bytesPerCluster - 1)
      (storeDirEntry h m (buf + g.root + 32 * n) name attr w size) w = .ok (m₂, next))
    (hfree : cdiv size g.bytesPerCluster ≤ free) :
    copyinFinish h m (g.super buf n) (buf + g.bytesPerSector) name attr w free size
        (cdiv size g.bytesPerCluster) ret =
      .ok ⟨ret, none, g.sync (storeFree g m₂ buf (free - cdiv size g.bytesPerCluster) next) buf⟩ := by
  -- the checks hold, so the stores follow each other
  have hslot : m (buf + g.root + 32 * n + FATDirEntry.name) = 0 := hslot
  unfold copyinFinish
  show (ensure (m (buf + g.root + 32 * n + FATDirEntry.name) = 0) _ >>=
    fun _ => linkClusters h (g.super buf n) (cdiv size g.bytesPerCluster - 1)
      (storeDirEntry h m (buf + g.root + 32 * n) name attr w size) w >>= _) = _
  rw [ensure_of hslot, Run.ok_bind, hlink, Run.ok_bind]
  show (ensure (cdiv size g.bytesPerCluster ≤ free) _ >>= fun _ => _) = _
  rw [ensure_of hfree, Run.ok_bind]
  simp only [Host.storeLe_eq, FSInfo.freeCount, FSInfo.nextFree, Width.bytes]
  show (fat32SuperFree (storeFree g m₂ buf _ _) _ >>= fun _ => _) = _
  rw [Geometry.fat32SuperFree_eq]
  rfl

/-- The tail of a call: the directory entry, both tables, FSInfo, and the copy of its sectors. -/
theorem copyinFinish_chained (h : Host) {n w free size : Nat} (name : CString) (attr ret : Nat)
    (hslot : m (buf + g.root + 32 * n) = 0) (hpos : 1 ≤ w)
    (hroom : w + clustersFor g size ≤ g.maxCluster) (hfree : cdiv size g.bytesPerCluster ≤ free) :
    ∃ m₂, Chained g buf w size (storeDirEntry h m (buf + g.root + 32 * n) name attr w size) m₂ ∧
      copyinFinish h m (g.super buf n) (buf + g.bytesPerSector) name attr w free size
          (cdiv size g.bytesPerCluster) ret =
        .ok ⟨ret, none, g.sync (storeFree g m₂ buf (free - cdiv size g.bytesPerCluster)
          (w + (cdiv size g.bytesPerCluster - 1) + 1)) buf⟩ := by
  have hcount : clustersFor g size = cdiv size g.bytesPerCluster - 1 + 1 := rfl
  -- the FAT update runs on the memory with the directory entry in it
  obtain ⟨m₂, hlink, hframe, hload⟩ := linkClusters_eq h
    (storeDirEntry h m (buf + g.root + 32 * n) name attr w size) buf n hpos
    (show w + (cdiv size g.bytesPerCluster - 1) < g.maxCluster by omega)
  exact ⟨m₂, ⟨hframe, hload⟩, copyinFinish_of_linked h name attr size ret hslot hlink hfree⟩

/-- The tail of a call appends the file, and writes to the file system only. -/
private theorem copyinFinish_eq (h : Host) (name : FileName) (attr ret : Nat) {size : Nat}
    {bytes : List UInt8} (hm : Holds g media m buf files) (hroot : files.length < g.numRootEntry)
    (hroom : watermark files + clustersFor g size ≤ g.maxCluster) (hsize : size < 2 ^ 32)
    (hfits : size ≤ clustersFor g size * g.bytesPerCluster) (hlength : bytes.length = size)
    (hbytes : m.read (buf + g.cluster (watermark files)) size = bytes) :
    ∃ m', copyinFinish h m (g.super buf files.length) (buf + g.bytesPerSector) name.toCString attr
        (watermark files) (m.load (buf + g.bytesPerSector + FSInfo.freeCount.off) 4) size
        (cdiv size g.bytesPerCluster) ret = .ok ⟨ret, none, m'⟩ ∧
      Image g media m' buf (files ++ [newFile g name bytes]) ∧
      Mem.Frame (systemBytes g buf) m m' := by
  have hthree := three_le_watermark files
  have hcount : clustersFor g size = cdiv size g.bytesPerCluster - 1 + 1 := rfl
  -- the file takes as many clusters as its bytes need
  have hnew : (newFile g name bytes).count = clustersFor g size := by
    rw [← hlength]
    rfl
  have hmax := g.maxCluster_le
  have hfree := hm.freeCount
  obtain ⟨free, hfreeEq⟩ : ∃ free,
    free = m.load (buf + g.bytesPerSector + FSInfo.freeCount.off) 4 := ⟨_, rfl⟩
  rw [← hfreeEq] at hfree ⊢
  -- the entry behind the last one is unused
  have hunused : m (buf + g.root + 32 * files.length) = 0 := hm.unused _ (Nat.le_refl _) hroot
  obtain ⟨m₂, hchained, hfinish⟩ := copyinFinish_chained h name.toCString attr ret hunused
    -- the entries of the new file are chained, and the volume holds it
    (show 1 ≤ watermark files by omega) hroom (show cdiv size g.bytesPerCluster ≤ free by omega)
  obtain ⟨hentered, hsystem⟩ := entered_of_updates h name attr hm hroot hroom hsize hlength hfreeEq
    hchained
  have hholds := hentered.holds hm hroot
    (by rw [hnew]; exact Nat.le_trans (Nat.le_of_eq hlength) hfits)
    (by rw [show (newFile g name bytes).bytes.length = size from hlength]; exact hbytes)
    (by rw [hnew]; exact hroom)
  exact ⟨_, hfinish, hholds.sync, hsystem.trans (sync_frame g _ buf)⟩

/-! ## The checks and the transfer -/

/-- The bytes of the clusters no file has. -/
def freeBytes (g : Geometry) (buf : Nat) (files : List File) : Set Nat :=
  Set.Ico (buf + g.cluster (watermark files)) (buf + g.cluster g.maxCluster)

/-- What is written to the free clusters is none of the file system's business. -/
private theorem Holds.of_free {m' : Mem} (hm : Holds g media m buf files)
    (hframe : Mem.Frame (freeBytes g buf files) m m') : Holds g media m' buf files := by
  refine hm.congr fun i hi _ => hframe.apply fun hin => ?_
  have hin : buf + g.cluster (watermark files) ≤ buf + i ∧
    buf + i < buf + g.cluster g.maxCluster := hin
  omega

/-- The memory after the clusters of the new file were cleared. -/
def cleared (g : Geometry) (m : Mem) (buf : Nat) (files : List File) (size : Nat) : Mem :=
  m.fill (buf + g.cluster (watermark files)) (cdiv size g.bytesPerCluster * g.bytesPerCluster) 0

/-- The memory after `read` stored the bytes. -/
def loaded (g : Geometry) (m : Mem) (buf : Nat) (files : List File) (fd : Fd) (size : Nat) : Mem :=
  (cleared g m buf files size).write (buf + g.cluster (watermark files)) (fd.data size)

/-- The bytes of the clusters from `w` on. -/
def freeFrom (g : Geometry) (buf w : Nat) : Set Nat :=
  Set.Ico (buf + g.cluster w) (buf + g.cluster g.maxCluster)

/-- The memory after the clusters from `w` on were cleared for a file. -/
def clearedFrom (g : Geometry) (m : Mem) (buf w size : Nat) : Mem :=
  m.fill (buf + g.cluster w) (cdiv size g.bytesPerCluster * g.bytesPerCluster) 0

/-- The memory after `read` stored the bytes from cluster `w` on. -/
def loadedFrom (g : Geometry) (m : Mem) (buf w : Nat) (fd : Fd) (size : Nat) : Mem :=
  (clearedFrom g m buf w size).write (buf + g.cluster w) (fd.data size)

/-- A file that passes the size check is cleared and read into the clusters from `w`
    on. -/
theorem loadedFrom_frame (m : Mem) (buf : Nat) (fd : Fd) {size w : Nat} (hthree : 3 ≤ w)
    (hw : w ≤ g.maxCluster) (hsize : size ≤ u32 (g.bytesPerCluster * (g.maxCluster - w))) :
    Mem.Frame (freeFrom g buf w) m (clearedFrom g m buf w size) ∧
      Mem.Frame (freeFrom g buf w) m (loadedFrom g m buf w fd size) := by
  obtain ⟨hfit, -, hcount, -⟩ := g.cdiv_spec hsize
  have hdata := fd.data_le size
  -- the size check leaves room for whole clusters up to `maxCluster`
  have hend := g.cluster_add (show 2 ≤ w by omega) (g.maxCluster - w)
  rw [Nat.add_sub_cancel' hw] at hend
  have hmul := Nat.mul_le_mul_right g.bytesPerCluster hcount
  have hin : ∀ n, n ≤ cdiv size g.bytesPerCluster * g.bytesPerCluster →
      Set.Ico (buf + g.cluster w) (buf + g.cluster w + n) ⊆ freeFrom g buf w := by
    rintro n hn a ⟨hlo, hhi⟩
    have hhi : a < buf + g.cluster w + n := hhi
    exact ⟨hlo, by show a < _; omega⟩
  have hfill := (Mem.frame_fill m (buf + g.cluster w)
    (cdiv size g.bytesPerCluster * g.bytesPerCluster) 0).mono (hin _ (Nat.le_refl _))
  exact ⟨hfill, hfill.trans ((Mem.frame_write _ _ _).mono (hin _ (by omega)))⟩

/-- A file that passes the size check is cleared and read into free clusters. -/
private theorem loaded_frame (m : Mem) (buf : Nat) (fd : Fd) {size : Nat}
    (hw : watermark files ≤ g.maxCluster)
    (hsize : size ≤ u32 (g.bytesPerCluster * (g.maxCluster - watermark files))) :
    Mem.Frame (freeBytes g buf files) m (cleared g m buf files size) ∧
      Mem.Frame (freeBytes g buf files) m (loaded g m buf files fd size) :=
  loadedFrom_frame m buf fd (three_le_watermark files) hw hsize

/-- A file of this size gets as far as the transfer: it passes the size check, and
    the root directory has an unused entry. -/
def Reaches (g : Geometry) (files : List File) (size : Nat) : Prop :=
  size ≤ u32 (g.bytesPerCluster * (g.maxCluster - watermark files)) ∧
    files.length < g.numRootEntry

/-- The sector number of a cluster, as `FAT32Copyin` computes it. -/
private theorem u32_sectorOf {c : Nat} (hc : 3 ≤ c) (h : c ≤ g.maxCluster) :
    u32 (u32 ((c - 2) * g.clusterSize) + u32 (8 + g.numFAT)) = g.sectorOf c := by
  have hlt := g.sectorOf_lt hc h
  have hns := g.nSector_lt
  have hsec : g.sectorOf c = (c - 2) * g.clusterSize + (8 + g.numFAT) := rfl
  rw [u32_of_lt (show (c - 2) * g.clusterSize < 2 ^ 32 by omega),
    u32_of_lt (show 8 + g.numFAT < 2 ^ 32 by omega), ← hsec, u32_of_lt (by omega)]

/-- A call that finds cluster `w` in FSInfo and root entry `n` unused, with the
    arithmetic resolved and the error paths spelled out. Whatever the name is, the
    transfer, if it comes to one, starts at a cluster that can be addressed. -/
theorem copyinWith_from (h : Host) (fd : Fd) (name : CString) (attr : Nat) {size w n : Nat}
    (hnext : m.load (buf + g.bytesPerSector + FSInfo.nextFree.off) 4 = w) (hthree : 3 ≤ w)
    (hw : w ≤ g.maxCluster) (hn : n ≤ g.numRootEntry)
    (hstart : size ≤ u32 (g.bytesPerCluster * (g.maxCluster - w)) → n < g.numRootEntry →
      g.cluster w < 2 ^ 32) :
    copyinWith h m (g.super buf n) fd name attr size =
      if u32 (g.bytesPerCluster * (g.maxCluster - w)) < size then
        .ok ⟨0, some edquot, g.sync m buf⟩
      else if n = g.numRootEntry then
        .ok ⟨0, some edquot, g.sync m buf⟩
      else if fd.lseek ≠ 0 then
        .ok ⟨0, some fd.errno, g.sync (clearedFrom g m buf w size) buf⟩
      else if fd.readRet size ≠ size then
        .ok ⟨0, some fd.errno, g.sync (loadedFrom g m buf w fd size) buf⟩
      else
        copyinFinish h (loadedFrom g m buf w fd size) (g.super buf n) (buf + g.bytesPerSector) name
          attr w (m.load (buf + g.bytesPerSector + FSInfo.freeCount.off) 4) size
          (cdiv size g.bytesPerCluster) (g.sectorOf w) := by
  have hbps := g.bytesPerSector_bounds
  have hbpc := g.bytesPerCluster_bounds
  have hlt := g.sectorOf_lt hthree hw
  have hspc : (g.super buf n).bytesPerCluster / (g.super buf n).bytesPerSector = g.clusterSize :=
    Nat.mul_div_cancel _ (show 0 < g.bytesPerSector by omega)
  have hnext : h.loadLe m (buf + g.bytesPerSector) FSInfo.nextFree = w := by
    rw [Host.loadLe_eq]
    exact hnext
  have hfree : h.loadLe m (buf + g.bytesPerSector) FSInfo.freeCount =
      m.load (buf + g.bytesPerSector + FSInfo.freeCount.off) 4 := Host.loadLe_eq _ _ _ _
  have hret : u32 (u32 ((w - 2) * g.clusterSize) +
      u32 ((g.super buf n).numReserved + (g.super buf n).numFAT)) = g.sectorOf w :=
    u32_sectorOf hthree hw
  -- the address does not wrap, by the condition on the first cluster
  have haddr : size ≤ u32 (g.bytesPerCluster * (g.maxCluster - w)) → n < g.numRootEntry →
      fat32SuperGetSector (g.super buf n) (g.sectorOf w) = some (buf + g.cluster w) := by
    intro hsize hslot
    rw [Geometry.getSector_super hlt (by rw [g.sectorOf_mul]; exact hstart hsize hslot),
      g.sectorOf_mul]
  have hinfo : deref (g.super buf n).fsInfo = .ok (buf + g.bytesPerSector) := rfl
  have herr : ∀ m errno, copyinErr m (g.super buf n) errno =
      .ok ⟨0, some errno, g.sync m buf⟩ := by
    intro m errno
    rw [copyinErr, Geometry.fat32SuperFree_eq]
    rfl
  rw [copyinWith, ensure_of (show (g.super buf n).bytesPerSector ≠ 0 from
    show g.bytesPerSector ≠ 0 by omega), Run.ok_bind, hinfo, Run.ok_bind]
  simp only [hnext, hfree, hspc]
  rw [ensure_of (show w ≤ (g.super buf n).maxCluster from hw), Run.ok_bind]
  show (if u32 (g.bytesPerCluster * (g.maxCluster - w)) < size then _ else _) = _
  -- from here on the branches of the source, in their order
  by_cases hbig : u32 (g.bytesPerCluster * (g.maxCluster - w)) < size
  · rw [if_pos hbig, if_pos hbig, herr]
  · have halloc : u32 (cdiv size (g.super buf n).bytesPerCluster *
        (g.super buf n).bytesPerCluster) = cdiv size g.bytesPerCluster * g.bytesPerCluster :=
      u32_of_lt (g.cdiv_spec (Nat.not_lt.mp hbig)).2.1
    rw [if_neg hbig, if_neg hbig, ensure_of (show (g.super buf n).bytesPerCluster ≠ 0
      from show g.bytesPerCluster ≠ 0 by omega), Run.ok_bind]
    show (if n = g.numRootEntry then _ else _) = _
    by_cases hfull : n = g.numRootEntry
    · rw [if_pos hfull, if_pos hfull, herr]
    · rw [if_neg hfull, if_neg hfull, ensure_of (show 2 < w by omega), Run.ok_bind, hret,
        haddr (Nat.not_lt.mp hbig) (Nat.lt_of_le_of_ne hn hfull), deref, Run.ok_bind, halloc]
      by_cases hseek : fd.lseek ≠ 0
      · rw [if_pos hseek, if_pos hseek, herr]
        rfl
      · rw [if_neg hseek, if_neg hseek]
        by_cases hread : fd.readRet size ≠ size
        · rw [if_pos hread, if_pos hread, herr]
          rfl
        · rw [if_neg hread, if_neg hread]
          rfl

/-- A call whose transfer, if it comes to one, starts at a cluster that can be
    addressed, with the arithmetic resolved and the error paths spelled out. -/
theorem copyinWith_eq (h : Host) (fd : Fd) (name : FileName) (attr : Nat) {size : Nat}
    (hm : Holds g media m buf files) (hw : watermark files ≤ g.maxCluster)
    (hstart : Reaches g files size → g.cluster (watermark files) < 2 ^ 32) :
    copyinWith h m (g.super buf files.length) fd name.toCString attr size =
      if u32 (g.bytesPerCluster * (g.maxCluster - watermark files)) < size then
        .ok ⟨0, some edquot, g.sync m buf⟩
      else if files.length = g.numRootEntry then
        .ok ⟨0, some edquot, g.sync m buf⟩
      else if fd.lseek ≠ 0 then
        .ok ⟨0, some fd.errno, g.sync (cleared g m buf files size) buf⟩
      else if fd.readRet size ≠ size then
        .ok ⟨0, some fd.errno, g.sync (loaded g m buf files fd size) buf⟩
      else
        copyinFinish h (loaded g m buf files fd size) (g.super buf files.length)
          (buf + g.bytesPerSector) name.toCString attr (watermark files)
          (m.load (buf + g.bytesPerSector + FSInfo.freeCount.off) 4) size
          (cdiv size g.bytesPerCluster) (g.sectorOf (watermark files)) :=
  copyinWith_from h fd name.toCString attr hm.nextFree (three_le_watermark files) hw hm.length_le
    fun hsize hslot => hstart ⟨hsize, hslot⟩

/-! ## Outcomes -/

/-- What a call that returns did to an image that held `files`. -/
inductive Copied (g : Geometry) (media : Nat) (m : Mem) (buf : Nat) (files : List File) (fd : Fd)
    (name : FileName) (r : CopyinResult) : Prop where
  | refused (ret : r.ret = 0) (image : Image g media r.mem buf files)
      (frame : Mem.Frame (systemBytes g buf ∪ freeBytes g buf files) m r.mem)
  | placed (stSize : UInt64) (fstat : fd.fstat = .ok stSize)
      (lseek : fd.lseek = 0) (read : fd.readRet (u32 stSize.toNat) = u32 stSize.toNat)
      (ret : r.ret = g.sectorOf (watermark files))
      (room : watermark files + clustersFor g (u32 stSize.toNat) ≤ g.maxCluster)
      (length : (fd.data (u32 stSize.toNat)).length = u32 stSize.toNat)
      (image : Image g media r.mem buf (files ++ [newFile g name (fd.data (u32 stSize.toNat))]))
      (frame : Mem.Frame (systemBytes g buf ∪ freeBytes g buf files) m r.mem)

/-- The call asserts that the cluster in FSInfo is in range. -/
theorem copyinWith_above (h : Host) (fd : Fd) (name : CString) (attr size n : Nat) {w : Nat}
    (hnext : m.load (buf + g.bytesPerSector + FSInfo.nextFree.off) 4 = w)
    (hw : g.maxCluster < w) :
    copyinWith h m (g.super buf n) fd name attr size = .error (.assert .incorrectFs) := by
  have hbps := g.bytesPerSector_bounds
  have hinfo : deref (g.super buf n).fsInfo = .ok (buf + g.bytesPerSector) := rfl
  have hnext : h.loadLe m (buf + g.bytesPerSector) FSInfo.nextFree = w := by
    rw [Host.loadLe_eq]
    exact hnext
  rw [copyinWith, ensure_of (show (g.super buf n).bytesPerSector ≠ 0 from
    show g.bytesPerSector ≠ 0 by omega), Run.ok_bind, hinfo, Run.ok_bind]
  simp only [hnext]
  rw [ensure_not (show ¬ w ≤ (g.super buf n).maxCluster from Nat.not_le.mpr hw), Run.error_bind]

/-- The call asserts that the watermark is in range. -/
theorem copyinWith_incorrect (h : Host) (fd : Fd) (name : CString) (attr size : Nat)
    (hm : Holds g media m buf files) (hw : g.maxCluster < watermark files) :
    copyinWith h m (g.super buf files.length) fd name attr size =
      .error (.assert .incorrectFs) :=
  copyinWith_above h fd name attr size files.length hm.nextFree hw

/-- The tail of a call returns only when the clusters are there. -/
theorem copyinFinish_room {h : Host} {sb : FAT32Super} (hmax : sb.maxCluster < 2 ^ 32)
    {fiPtr attr nextFree freeCount size allocCluster ret : Nat} {name : CString} {r : CopyinResult}
    (hret : copyinFinish h m sb fiPtr name attr nextFree freeCount size allocCluster ret = .ok r) :
    nextFree + (allocCluster - 1) < sb.maxCluster := by
  obtain ⟨rootDir, -, hret⟩ := Run.bind_eq_ok.mp hret
  obtain ⟨-, -, hret⟩ := Run.bind_eq_ok.mp hret
  obtain ⟨x, hlink, -⟩ := Run.bind_eq_ok.mp hret
  exact linkClusters_lt h sb hmax hlink

theorem maxCluster_lt (g : Geometry) : g.maxCluster < 2 ^ 32 := by
  have hmax := g.maxCluster_le
  have hnum := g.numEntry_lt
  omega

/-- What the tail of a call makes of the transferred bytes. -/
private theorem copyinFinish_loaded (h : Host) (fd : Fd) (name : FileName) (attr : Nat) {size : Nat}
    (hm : Holds g media m buf files) (hroot : files.length < g.numRootEntry)
    (hsize : size ≤ u32 (g.bytesPerCluster * (g.maxCluster - watermark files)))
    (hread : fd.readRet size = size)
    (hroom : watermark files + clustersFor g size ≤ g.maxCluster) :
    ∃ m', copyinFinish h (loaded g m buf files fd size) (g.super buf files.length)
        (buf + g.bytesPerSector) name.toCString attr (watermark files)
        (m.load (buf + g.bytesPerSector + FSInfo.freeCount.off) 4) size
        (cdiv size g.bytesPerCluster) (g.sectorOf (watermark files)) =
          .ok ⟨g.sectorOf (watermark files), none, m'⟩ ∧
      (fd.data size).length = size ∧
      Image g media m' buf (files ++ [newFile g name (fd.data size)]) ∧
      Mem.Frame (systemBytes g buf ∪ freeBytes g buf files) m m' := by
  have hend := root_end_le_cluster g (three_le_watermark files)
  have hbps := g.bytesPerSector_bounds
  have htab := g.table_zero
  have hrt := g.root_eq_table
  have hframe := (loaded_frame m buf fd (show watermark files ≤ g.maxCluster by omega) hsize).2
  have hsize' : size < 2 ^ 32 := Nat.lt_of_le_of_lt hsize (u32_lt _)
  -- FSInfo lies in front of the data region, so the transfer left it alone
  have hfree : (loaded g m buf files fd size).load
      (buf + g.bytesPerSector + FSInfo.freeCount.off) 4 =
      m.load (buf + g.bytesPerSector + FSInfo.freeCount.off) 4 := by
    refine hframe.load fun i hi hin => ?_
    have hin : buf + g.cluster (watermark files) ≤ buf + g.bytesPerSector + 488 + i := hin.1
    omega
  -- a full `read` delivered as many bytes as it was asked for
  have hlength : (fd.data size).length = size := by
    have hpos := fd.readRet_data size (by rw [hread]; exact Int.natCast_nonneg _)
    rw [hread] at hpos
    exact (Int.ofNat.inj hpos).symm
  -- the transfer is the last store so far, so its bytes can be read back
  have hbytes : (loaded g m buf files fd size).read (buf + g.cluster (watermark files)) size =
      fd.data size := by
    have hself := Mem.read_write_self (cleared g m buf files size)
      (buf + g.cluster (watermark files)) (fd.data size)
    rwa [hlength] at hself
  have hfits : size ≤ clustersFor g size * g.bytesPerCluster := by
    refine Nat.le_trans (g.cdiv_spec hsize).1 (Nat.mul_le_mul_right _ ?_)
    rw [clustersFor]
    omega
  obtain ⟨m', hrun, himage, hframe'⟩ := copyinFinish_eq h name attr (g.sectorOf (watermark files))
    (hm.of_free hframe) hroot hroom hsize' hfits hlength hbytes
  rw [hfree] at hrun
  exact ⟨m', hrun, hlength, himage,
    (hframe.mono Set.subset_union_right).trans (hframe'.mono Set.subset_union_left)⟩

/-- A call that returns refuses the file or appends it. -/
theorem fat32Copyin_cases {h : Host} {fd : Fd} {name : FileName} {attr : Nat} {r : CopyinResult}
    (hm : Image g media m buf files)
    (hstart : ∀ stSize, fd.fstat = .ok stSize → watermark files ≤ g.maxCluster →
      Reaches g files (u32 stSize.toNat) → g.cluster (watermark files) < 2 ^ 32)
    (hret : fat32Copyin h m buf fd name.toCString attr = .ok r) :
    Copied g media m buf files fd name r := by
  have hrefused : ∀ errno m', Mem.Frame (freeBytes g buf files) m m' →
      Copied g media m buf files fd name ⟨0, errno, g.sync m' buf⟩ := fun errno m' hframe =>
    .refused rfl (hm.toHolds.of_free hframe).sync
      ((hframe.mono Set.subset_union_right).trans ((sync_frame g m' buf).mono Set.subset_union_left))
  rw [fat32Copyin] at hret
  cases hstat : fd.fstat with
  | error errno =>
    rw [hstat] at hret
    cases hret
    exact .refused rfl hm (Mem.Frame.refl _ _)
  | ok stSize =>
    simp only [hstat] at hret
    obtain ⟨sb, hinit, hret⟩ := Run.bind_eq_ok.mp hret
    rw [hm.toHolds.superInit] at hinit
    cases hinit
    obtain ⟨size, hsizeEq⟩ : ∃ size, size = u32 stSize.toNat := ⟨_, rfl⟩
    have hstart := hstart stSize hstat
    rw [← hsizeEq] at hret hstart
    by_cases hw : watermark files ≤ g.maxCluster
    · rw [copyinWith_eq h fd name attr hm.toHolds hw (hstart hw)] at hret
      split_ifs at hret with hbig hfull hseek hread
      · cases hret
        exact hrefused _ m (Mem.Frame.refl _ _)
      · cases hret
        exact hrefused _ m (Mem.Frame.refl _ _)
      · have hframe := loaded_frame m buf fd hw (Nat.not_lt.mp hbig)
        cases hret
        exact hrefused _ _ hframe.1
      · have hframe := loaded_frame m buf fd hw (Nat.not_lt.mp hbig)
        cases hret
        exact hrefused _ _ hframe.2
      -- the call returned, so no write of the FAT update was out of bound
      · have hroom : watermark files + clustersFor g size ≤ g.maxCluster := by
          have hlt := copyinFinish_room (maxCluster_lt g) hret
          have hlt : watermark files + (cdiv size g.bytesPerCluster - 1) < g.maxCluster := hlt
          rw [clustersFor]
          omega
        have hroot : files.length < g.numRootEntry :=
          Nat.lt_of_le_of_ne hm.length_le hfull
        obtain ⟨m', hrun, hlength, himage, hframe⟩ := copyinFinish_loaded h fd name attr hm.toHolds
          hroot (Nat.not_lt.mp hbig) (not_not.mp hread) hroom
        rw [hrun] at hret
        cases hret
        subst hsizeEq
        exact .placed stSize hstat (not_not.mp hseek) (not_not.mp hread) rfl hroom hlength himage hframe
    · rw [copyinWith_incorrect h fd name.toCString attr size hm.toHolds (Nat.not_le.mp hw)] at hret
      cases hret

/-- A call returns when the watermark is in range, and an empty file that gets as
    far as the FAT update still finds a free cluster. -/
theorem fat32Copyin_returns (h : Host) (fd : Fd) (name : FileName) (attr : Nat)
    (hm : Image g media m buf files) (hw : watermark files ≤ g.maxCluster)
    (hstart : ∀ stSize, fd.fstat = .ok stSize → Reaches g files (u32 stSize.toNat) →
      g.cluster (watermark files) < 2 ^ 32)
    (hempty : ∀ stSize, fd.fstat = .ok stSize → Reaches g files (u32 stSize.toNat) →
      u32 stSize.toNat = 0 → fd.lseek = 0 → fd.readRet 0 = 0 → watermark files < g.maxCluster) :
    ∃ r, fat32Copyin h m buf fd name.toCString attr = .ok r := by
  rw [fat32Copyin]
  cases hstat : fd.fstat with
  | error errno => exact ⟨_, rfl⟩
  | ok stSize =>
    obtain ⟨size, hsizeEq⟩ : ∃ size, size = u32 stSize.toNat := ⟨_, rfl⟩
    have hstart := hstart stSize hstat
    have hempty := hempty stSize hstat
    rw [← hsizeEq] at hstart hempty
    simp only [hm.toHolds.superInit, Run.ok_bind, ← hsizeEq]
    rw [copyinWith_eq h fd name attr hm.toHolds hw hstart]
    split_ifs with hbig hfull hseek hread
    · exact ⟨_, rfl⟩
    · exact ⟨_, rfl⟩
    · exact ⟨_, rfl⟩
    · exact ⟨_, rfl⟩
    · obtain ⟨-, -, hcount, -⟩ := g.cdiv_spec (Nat.not_lt.mp hbig)
      have hroot : files.length < g.numRootEntry := Nat.lt_of_le_of_ne hm.length_le hfull
      have hroom : watermark files + clustersFor g size ≤ g.maxCluster := by
        rw [clustersFor]
        rcases Nat.eq_zero_or_pos size with h0 | h0
        · -- an empty file is given a cluster it did not ask for
          subst h0
          have hlt := hempty ⟨Nat.zero_le _, hroot⟩ rfl (not_not.mp hseek) (not_not.mp hread)
          omega
        · have hpos := (g.cdiv_spec (Nat.not_lt.mp hbig)).2.2.2 h0
          omega
      obtain ⟨m', hrun, -⟩ := copyinFinish_loaded h fd name attr hm.toHolds hroot
        (Nat.not_lt.mp hbig) (not_not.mp hread) hroom
      exact ⟨_, hrun⟩

/-- A file that can be served is served: it goes to the clusters from the watermark
    on, and the call returns their first sector. -/
theorem fat32Copyin_places (h : Host) {fd : Fd} (name : FileName) (attr : Nat)
    (hm : Image g media m buf files) {stSize : UInt64} (hstat : fd.fstat = .ok stSize)
    (hreach : Reaches g files (u32 stSize.toNat)) (hstart : g.cluster (watermark files) < 2 ^ 32)
    (hseek : fd.lseek = 0) (hread : fd.readRet (u32 stSize.toNat) = u32 stSize.toNat)
    (hroom : watermark files + clustersFor g (u32 stSize.toNat) ≤ g.maxCluster) :
    ∃ m', fat32Copyin h m buf fd name.toCString attr =
        .ok ⟨g.sectorOf (watermark files), none, m'⟩ ∧
      Image g media m' buf (files ++ [newFile g name (fd.data (u32 stSize.toNat))]) := by
  -- the checks before the transfer are passed
  obtain ⟨hsize, hroot⟩ := hreach
  obtain ⟨m', hrun, -, himage, -⟩ := copyinFinish_loaded h fd name attr hm.toHolds hroot hsize hread
    hroom
  refine ⟨m', ?_, himage⟩
  unfold fat32Copyin
  simp only [hstat, hm.toHolds.superInit, Run.ok_bind]
  rw [copyinWith_eq h fd name attr hm.toHolds (by omega) (fun _ => hstart),
    if_neg (Nat.not_lt.mpr hsize), if_neg (Nat.ne_of_lt hroot), if_neg (not_not.mpr hseek),
    if_neg (not_not.mpr hread), hrun]

/-! ## The sector a call returns -/

private theorem copyinErr_ret {sb : FAT32Super} {errno : Int} {r : CopyinResult}
    (hret : copyinErr m sb errno = .ok r) : r.ret = 0 := by
  unfold copyinErr at hret
  obtain ⟨m', -, hret⟩ := Run.bind_eq_ok.mp hret
  cases hret
  rfl

private theorem copyinFinish_ret {h : Host} {sb : FAT32Super} {name : CString} {r : CopyinResult}
    {fiPtr attr nextFree freeCount size allocCluster ret : Nat}
    (hret : copyinFinish h m sb fiPtr name attr nextFree freeCount size allocCluster ret = .ok r) :
    r.ret = ret := by
  unfold copyinFinish at hret
  -- the directory, the unused entry, the chain, the free count, the backups
  obtain ⟨rootDir, -, hret⟩ := Run.bind_eq_ok.mp hret
  obtain ⟨-, -, hret⟩ := Run.bind_eq_ok.mp hret
  obtain ⟨x, -, hret⟩ := Run.bind_eq_ok.mp hret
  obtain ⟨-, -, hret⟩ := Run.bind_eq_ok.mp hret
  obtain ⟨m', -, hret⟩ := Run.bind_eq_ok.mp hret
  cases hret
  rfl

/-- A call that does not return 0 returns the sector of the watermark, also where
    the offset of that sector wraps. -/
theorem fat32Copyin_sector {h : Host} {fd : Fd} {name : CString} {attr : Nat} {r : CopyinResult}
    (hm : Holds g media m buf files) (hret : fat32Copyin h m buf fd name attr = .ok r)
    (hne : r.ret ≠ 0) : r.ret = g.sectorOf (watermark files) := by
  have hthree := three_le_watermark files
  have hbps := g.bytesPerSector_bounds
  have hinfo : deref (g.super buf files.length).fsInfo = .ok (buf + g.bytesPerSector) := rfl
  have hspc : (g.super buf files.length).bytesPerCluster /
      (g.super buf files.length).bytesPerSector = g.clusterSize :=
    Nat.mul_div_cancel _ (show 0 < g.bytesPerSector by omega)
  have hnext : h.loadLe m (buf + g.bytesPerSector) FSInfo.nextFree = watermark files := by
    rw [Host.loadLe_eq]
    exact hm.nextFree
  unfold fat32Copyin at hret
  cases hstat : fd.fstat with
  | error errno =>
    simp only [hstat] at hret
    cases hret
    exact absurd rfl hne
  | ok stSize =>
    simp only [hstat, hm.superInit, Run.ok_bind] at hret
    unfold copyinWith at hret
    obtain ⟨-, -, hret⟩ := Run.bind_eq_ok.mp hret
    rw [hinfo, Run.ok_bind] at hret
    simp only [hnext, hspc] at hret
    obtain ⟨x, hensure, hret⟩ := Run.bind_eq_ok.mp hret
    have hw : watermark files ≤ g.maxCluster := by
      by_contra hnot
      rw [ensure_not (show ¬ watermark files ≤ (g.super buf files.length).maxCluster from hnot)]
        at hensure
      cases hensure
    -- every way to an error label returns 0
    split at hret
    · exact absurd (copyinErr_ret hret) hne
    · obtain ⟨-, -, hret⟩ := Run.bind_eq_ok.mp hret
      split at hret
      · exact absurd (copyinErr_ret hret) hne
      · obtain ⟨-, -, hret⟩ := Run.bind_eq_ok.mp hret
        obtain ⟨addr, -, hret⟩ := Run.bind_eq_ok.mp hret
        split at hret
        · exact absurd (copyinErr_ret hret) hne
        · split at hret
          · exact absurd (copyinErr_ret hret) hne
          · rw [copyinFinish_ret hret]
            exact u32_sectorOf hthree hw

end Tlibc.Fat
