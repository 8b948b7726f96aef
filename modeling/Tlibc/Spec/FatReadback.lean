import Tlibc.Spec.FatRuns

/-!
# Reading files back

`readFile` is a reader of the on-disk format: it looks a name up in the root
directory, walks the chain of the first table and concatenates the clusters, all
through the functions of `fat.c` that read an image. On an image that holds a
file it returns the file's bytes (`readFile_eq`), and so it does at the end of
every run (`copyin_run_reads_back`).
-/

namespace Tlibc.Fat

/-! ## The reader -/

/-- The first root entry with the given name. -/
def findEntry (m : Mem) (sb : FAT32Super) (rootDir : Nat) (name : FileName) : Option Nat :=
  ((List.range sb.numRootEntry).find? fun i =>
    m.read (rootDir + FATDirEntry.size * i + FATDirEntry.name) 11 == name.field).map
      fun i => rootDir + FATDirEntry.size * i

/-- The bytes of the given clusters, one after another. -/
def readClusters (m : Mem) (sb : FAT32Super) : List Nat → Except Fault (List UInt8)
  | [] => .ok []
  | c :: cs => do
    let a ← deref (fat32SuperCluster sb c)
    let rest ← readClusters m sb cs
    return m.read a sb.bytesPerCluster ++ rest

/-- The file of the given name, or `none` when there is none. A chain visits no
    cluster twice, so `maxCluster` steps are enough for any that ends. -/
def readFile (h : Host) (m : Mem) (buf : Nat) (name : FileName) :
    Except Fault (Option (List UInt8)) := do
  let sb ← fat32SuperInit h m buf
  let rootDir ← deref sb.rootDir
  match findEntry m sb rootDir name with
  | none => return none
  | some entry =>
    let high := h.loadLe m entry FATDirEntry.firstClusterHigh
    let low := h.loadLe m entry FATDirEntry.firstClusterLow
    let fileSize := h.loadLe m entry FATDirEntry.fileSize
    let clusters ←
      Chain.follow eoc (fat32SuperReadEntry h m sb) .diverges sb.maxCluster (high * 2 ^ 16 + low)
    let bytes ← readClusters m sb clusters
    return some (bytes.take fileSize)

/-! ## The reader on an image -/

section

variable {g : Geometry} {media : Nat} {m : Mem} {buf : Nat} {files : List File}

/-- `FAT32SuperCluster` finds every cluster that can be addressed. -/
private theorem fat32SuperCluster_eq {n c : Nat} (hlo : 2 ≤ c) (hhi : c < g.maxCluster)
    (hlt : g.cluster c < 2 ^ 32) :
    fat32SuperCluster (g.super buf n) c = some (buf + g.cluster c) := by
  have hroot := g.root_lt
  have hle := g.numFAT_le
  have hns := g.nSector_lt
  have hcl : g.cluster c = g.root + (c - 2) * g.bytesPerCluster := rfl
  -- the data region starts at the root directory, and nothing wraps
  have hoff : u32 (g.bytesPerSector * u32 (g.numFAT + 8)) = g.root := by
    rw [u32_of_lt (show g.numFAT + 8 < 2 ^ 32 by omega), Nat.mul_comm, Nat.add_comm, ← g.root_eq,
      u32_of_lt hroot]
  have hrest : u32 (g.bytesPerCluster * (c - 2)) = (c - 2) * g.bytesPerCluster := by
    rw [Nat.mul_comm, u32_of_lt (by omega)]
  unfold fat32SuperCluster
  rw [if_neg (show ¬ (c < 2 ∨ (g.super buf n).maxCluster ≤ c) from
    fun h => h.elim (Nat.not_lt.mpr hlo) (Nat.not_le.mpr hhi))]
  show some (buf + u32 (u32 (g.bytesPerSector * u32 (g.numFAT + 8)) +
    u32 (g.bytesPerCluster * (c - 2)))) = _
  rw [hoff, hrest, ← hcl, u32_of_lt hlt]

/-- Consecutive clusters are consecutive bytes. -/
private theorem readClusters_eq (m : Mem) (buf : Nat) (k : Nat) {c n : Nat} (hlo : 2 ≤ c)
    (hhi : c + n ≤ g.maxCluster) (hlt : g.cluster g.maxCluster < 2 ^ 32) :
    readClusters m (g.super buf k) (List.range' c n) =
      .ok (m.read (buf + g.cluster c) (n * g.bytesPerCluster)) := by
  induction n generalizing c with
  | zero =>
    rw [Nat.zero_mul]
    rfl
  | succ n ih =>
    have hc := g.cluster_mono hlo (show c ≤ g.maxCluster by omega)
    have hnext := g.cluster_add hlo 1
    rw [Nat.one_mul] at hnext
    -- the first cluster, then the others right behind it
    rw [List.range'_succ, readClusters, fat32SuperCluster_eq hlo (by omega) (by omega)]
    show (readClusters m (g.super buf k) (List.range' (c + 1) n) >>= fun _ => _) = _
    rw [ih (by omega) (by omega), Run.ok_bind, Nat.succ_mul,
      Nat.add_comm (n * g.bytesPerCluster), Mem.read_add, Nat.add_assoc buf, ← hnext]
    rfl

/-- The chain of a file is the list of its clusters. -/
private theorem follow_file (h : Host) (hm : Image g media m buf files) {i : Nat} {f : File}
    (hf : files[i]? = some f) :
    Chain.follow eoc (fat32SuperReadEntry h m (g.super buf files.length)) .diverges g.maxCluster
      (firstCluster files i) = .ok (List.range' (firstCluster files i) f.count) := by
  have hthree := three_le_firstCluster files i
  have hsucc := firstCluster_succ hf
  have hi := (List.getElem?_eq_some_iff.mp hf).1
  have hle := firstCluster_le_watermark (show i + 1 ≤ files.length from hi)
  have hmax := g.maxCluster_le
  have hnum := g.numEntry_lt
  have heoc : eoc = 2 ^ 32 - 1 := by decide
  have hroom := hm.watermark_le_maxCluster hf
  apply Chain.follow_block eoc f.count_pos (by omega) (by omega)
  intro e hlo hhi
  -- entry `e` lies in the block of file `i`
  have hentry := hm.tables 0 (by decide) e (by omega)
  rw [tableValue, if_neg (by omega), if_neg (by omega), if_neg (by omega)] at hentry
  have hlink := Chain.link_block eoc 3 (show i < (counts files).length by rwa [length_counts]) hlo
    (show e < firstCluster files (i + 1) by omega)
  have hlink : Chain.link eoc 3 (counts files) e =
    if e + 1 = firstCluster files (i + 1) then eoc else e + 1 := hlink
  unfold fat32SuperReadEntry
  rw [ensure_of (show e < (g.super buf files.length).maxCluster from
    show e < g.maxCluster by omega), Run.ok_bind, Host.loadLe_eq]
  show Except.ok (m.load (buf + g.table 0 + 4 * e) 4) = _
  rw [hentry, hlink, hsucc]

/-- A name that only one file has is found at that file's entry. -/
private theorem findEntry_eq (hm : Image g media m buf files)
    (hnames : (files.map fun f => f.name.chars).Nodup) {i : Nat} {f : File}
    (hf : files[i]? = some f) :
    findEntry m (g.super buf files.length) (buf + g.root) f.name =
      some (buf + g.root + 32 * i) := by
  have hi := (List.getElem?_eq_some_iff.mp hf).1
  have hlen := hm.length_le
  have hfind : (List.range g.numRootEntry).find? (fun j =>
      m.read (buf + g.root + FATDirEntry.size * j + FATDirEntry.name) 11 == f.name.field) =
      some i := by
    rw [List.find?_range_eq_some]
    refine ⟨beq_iff_eq.mpr (hm.entries i f hf).name, List.mem_range.mpr (by omega), fun j hj => ?_⟩
    -- an earlier entry has the name of another file
    obtain ⟨f', hf'⟩ : ∃ f', files[j]? = some f' :=
      ⟨_, List.getElem?_eq_getElem (Nat.lt_trans hj hi)⟩
    have hne : f'.name.field ≠ f.name.field := by
      intro hfield
      have hij : (files.map fun f => f.name.chars)[j]? = (files.map fun f => f.name.chars)[i]? := by
        rw [List.getElem?_map, List.getElem?_map, hf, hf']
        exact congrArg some (FileName.field_inj hfield)
      have hji := (List.getElem?_inj (by rw [List.length_map]; omega) hnames).mp hij
      omega
    have hname : m.read (buf + g.root + 32 * j) 11 = f'.name.field := (hm.entries j f' hf').name
    simpa [hname] using hne
  show ((List.range g.numRootEntry).find? _).map _ = _
  rw [hfind]
  rfl

/-- The reader returns the bytes of a file the image holds. -/
theorem readFile_eq (h : Host) (hm : Image g media m buf files)
    (hlt : g.cluster g.maxCluster < 2 ^ 32) (hnames : (files.map fun f => f.name.chars).Nodup)
    {i : Nat} {f : File} (hf : files[i]? = some f) :
    readFile h m buf f.name = .ok (some f.bytes) := by
  have hentry := hm.entries i f hf
  have hi := (List.getElem?_eq_some_iff.mp hf).1
  have hthree := three_le_firstCluster files i
  have hsucc := firstCluster_succ hf
  have hle := firstCluster_le_watermark (show i + 1 ≤ files.length from hi)
  have hfits := hm.fits f (List.mem_of_getElem? hf)
  have hroom := hm.watermark_le_maxCluster hf
  have hhigh : h.loadLe m (buf + g.root + 32 * i) FATDirEntry.firstClusterHigh =
      firstCluster files i / 2 ^ 16 := by
    rw [Host.loadLe_eq]
    exact hentry.firstClusterHigh
  have hlow : h.loadLe m (buf + g.root + 32 * i) FATDirEntry.firstClusterLow =
      firstCluster files i % 2 ^ 16 := by
    rw [Host.loadLe_eq]
    exact hentry.firstClusterLow
  have hsize : h.loadLe m (buf + g.root + 32 * i) FATDirEntry.fileSize = f.bytes.length := by
    rw [Host.loadLe_eq]
    exact hentry.fileSize
  -- the two halves make the cluster number again
  have hfirst : firstCluster files i / 2 ^ 16 * 2 ^ 16 + firstCluster files i % 2 ^ 16 =
      firstCluster files i := by omega
  have hcontents := hm.contents i f hf
  unfold readFile
  rw [hm.toHolds.superInit, Run.ok_bind]
  show (match findEntry m (g.super buf files.length) (buf + g.root) f.name with
    | none => _
    | some entry => _) = _
  rw [findEntry_eq hm hnames hf]
  simp only [hhigh, hlow, hsize, hfirst]
  show (Chain.follow eoc (fat32SuperReadEntry h m (g.super buf files.length)) .diverges g.maxCluster
    (firstCluster files i) >>= fun _ => _) = _
  rw [follow_file h hm hf, Run.ok_bind,
    readClusters_eq m buf _ (by omega) (by omega) hlt, Run.ok_bind]
  show Except.ok (some (List.take _ _)) = _
  rw [Mem.take_read _ _ _ _ hfits, hcontents]

end

/-! ## Runs that copy files -/

/-- The open file has the given bytes: `fstat` reports their number when it
    succeeds, and a `read` that is not cut short delivers them. -/
structure Delivers (fd : Fd) (bytes : List UInt8) : Prop where
  fstat : ∀ stSize, fd.fstat = .ok stSize → stSize.toNat = bytes.length
  read : ∀ n, fd.readRet n = n → fd.data n = bytes.take n

theorem delivers_ofBytes {bytes : List UInt8} (hlen : bytes.length < 2 ^ 64) :
    Delivers (Fd.ofBytes bytes) bytes where
  fstat stSize hstat := by
    rw [← Except.ok.inj hstat, UInt64.toNat_ofNat', Nat.mod_eq_of_lt hlen]
  read n _ := rfl

/-- A call together with the bytes of the file it copies. -/
structure FileCall extends Call where
  bytes : List UInt8
  delivers : Delivers fd bytes
  nonempty : bytes ≠ []
  length_lt : bytes.length < 2 ^ 32

/-- Where the abstract machine puts the files of a run: each file of the final
    list comes from a call, in order, and a call that placed its file returned the
    file's first sector. -/
theorem Runs.placed {g : Geometry} {files files' : List File} {calls : List FileCall}
    {rets : List Nat}
    (hrun : Run.Runs (VolumeStep g) files (calls.map fun c => c.toCall) rets files') :
    ∃ more, files' = files ++ more ∧
      (more.map fun f => f.name.chars).Sublist (calls.map fun c => c.name.chars) ∧
      ∀ (k : Nat) (c : FileCall) (ret : Nat), calls[k]? = some c → rets[k]? = some ret → ret ≠ 0 →
        ∃ i f, files'[i]? = some f ∧ f.name = c.name ∧ f.bytes = c.bytes ∧
          ret = g.sectorOf (firstCluster files' i) := by
  induction calls generalizing files rets with
  | nil =>
    cases hrun
    exact ⟨[], (List.append_nil _).symm, List.Sublist.refl _, fun k c ret hk => by simp at hk⟩
  | cons c calls ih =>
    rw [List.map_cons] at hrun
    cases hrun with
    | cons hstep htail =>
      obtain ⟨more, hmore, hsub, hplaced⟩ := ih htail
      cases hstep with
      | refuse =>
        refine ⟨more, hmore, hsub.cons _, fun k c' ret hk hret hne => ?_⟩
        cases k with
        | zero =>
          -- this call returned 0
          rw [List.getElem?_cons_zero] at hret
          exact absurd (Option.some.inj hret).symm hne
        | succ k => exact hplaced k c' ret hk hret hne
      | place stSize hstat hseek hread hlength hroom hslot =>
        have hsize : u32 stSize.toNat = c.bytes.length := by
          rw [c.delivers.fstat stSize hstat, u32_of_lt c.length_lt]
        have hdata : c.fd.data (u32 stSize.toNat) = c.bytes := by
          rw [c.delivers.read _ hread, hsize, List.take_length]
        refine ⟨newFile g c.name (c.fd.data (u32 stSize.toNat)) :: more, ?_, hsub.cons_cons _, ?_⟩
        · rw [hmore, List.append_assoc]
          rfl
        · intro k c' ret hk hret hne
          cases k with
          | zero =>
            rw [List.getElem?_cons_zero] at hk hret
            obtain rfl := Option.some.inj hk
            obtain rfl := Option.some.inj hret
            refine ⟨files.length, newFile g c.name (c.fd.data (u32 stSize.toNat)), ?_, rfl, hdata, ?_⟩
            · rw [hmore, List.append_assoc, List.getElem?_append_right (Nat.le_refl _), Nat.sub_self]
              rfl
            · -- later files do not move this one
              have hfirst : firstCluster (files ++ (newFile g c.name
                  (c.fd.data (u32 stSize.toNat)) :: more)) files.length = watermark files := by
                rw [← firstCluster_length, firstCluster, firstCluster, counts, counts,
                  List.map_append, Placement.startOf_append 3 _ _ (by rw [List.length_map])]
              rw [hmore, List.append_assoc]
              exact congrArg g.sectorOf hfirst.symm
          | succ k => exact hplaced k c' ret hk hret hne

/-- At the end of a run every file that was copied in reads back, lies contiguously
    from the sector its call returned, and no byte outside the volume changed. -/
theorem copyin_run_reads_back (h : Host) (m₀ m₁ m : Mem) (buf : Nat) (config : FATConfig)
    (hcreate : createFAT32 h m₀ buf config = .ok (0, m₁))
    (hsize : config.nSector.toNat * config.bytesPerSector.toNat < 2 ^ 32)
    (calls : List FileCall) (hnames : (calls.map fun c => c.name.chars).Nodup) (rets : List Nat)
    (hrun : Run.run (copyinStep h buf) m₁ (calls.map fun c => c.toCall) = .ok (rets, m)) :
    (∀ (k : Nat) (c : FileCall) (ret : Nat), calls[k]? = some c → rets[k]? = some ret → ret ≠ 0 →
      readFile h m buf c.name = .ok (some c.bytes) ∧
        m.read (buf + ret * config.bytesPerSector.toNat) c.bytes.length = c.bytes) ∧
      ∀ a, a ∉ Set.Ico buf (buf + config.nSector.toNat * config.bytesPerSector.toNat) →
        m a = m₁ a := by
  have ha := createFAT32_accepted hcreate
  have hs := ha.addressable hsize
  have hg := config.geometry_laid ha hs
  have hinit := createFAT32_image hcreate ha hs
  obtain ⟨g, hgEq⟩ : ∃ g, g = config.geometry ha hs := ⟨_, rfl⟩
  rw [← hgEq] at hg hinit
  have hgsize : g.size < 2 ^ 32 := by
    rw [hg.size]
    exact hsize
  have hmax : g.cluster g.maxCluster < 2 ^ 32 :=
    Nat.lt_of_le_of_lt g.cluster_maxCluster_le hgsize
  obtain ⟨files, hruns, hm, hframe⟩ := copyin_run hgsize hinit hrun
  -- which call placed which file, and where
  obtain ⟨more, hmore, hsub, hplaced⟩ := Runs.placed hruns
  rw [List.nil_append] at hmore
  subst hmore
  refine ⟨fun k c ret hk hret hne => ?_, fun a hout => hframe.apply ?_⟩
  · obtain ⟨i, f, hf, hname, hbytes, hsector⟩ := hplaced k c ret hk hret hne
    refine ⟨?_, ?_⟩
    · rw [← hname, ← hbytes]
      exact readFile_eq h hm hmax (hnames.sublist hsub) hf
    · rw [hsector, ← hg.bytesPerSector, g.sectorOf_mul, ← hbytes]
      exact hm.contents i f hf
  · rw [volumeBytes, hg.size]
    exact hout

theorem copyin_run_reads_back_small :
    ∃ m, readFile .little m 0 smallCall.name = .ok (some [7]) ∧ m.read (0 + 11 * 512) 1 = [7] := by
  obtain ⟨m₁, m, hcreate, hrun⟩ := smallVolume_run
  have hback := copyin_run_reads_back .little (fun _ => 0xFF) m₁ m 0 smallVolume hcreate (by decide)
    [⟨smallCall, [7], delivers_ofBytes (by decide), by decide, by decide⟩] (by decide) [11] hrun
  exact ⟨m, hback.1 0 _ 11 rfl rfl (by decide)⟩

end Tlibc.Fat
