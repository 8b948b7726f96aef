import Tlibc.Native.Mkgpt
import Tlibc.Spec.FatReadback
import Tlibc.Spec.GptKept
import Tlibc.Spec.InstallerSize

/-!
# Whole disks

`mkgpt.c` and `installer.c` write the same kind of disk: a table, a volume on its first
partition with four files on it, and boot code in front. Here the parts are put together:
what each tool writes last does not harm what it wrote before.

* `mkgpt_image`: the finished image has its table, its boot code and its files
* `install_image`: so has every disk the installer finishes with a volume below 4 GiB
-/

namespace Tlibc.Fat

variable {g : Geometry} {media : Nat} {h : Host} {m m' : Mem} {buf : Nat} {files : List File}

/-- `createFAT32` writes inside the volume. -/
private theorem createFAT32_frame {config : FATConfig} (ha : config.Accepted)
    (hs : config.Addressable)
    (hcreate : createFAT32 h m buf config = .ok (0, m')) :
    Mem.Frame (volumeBytes (config.geometry ha hs) buf) m m' := by
  rw [createFAT32_eq h m buf ha hs] at hcreate
  rw [← (Prod.mk.inj (Except.ok.inj hcreate)).2]
  intro a hout
  refine formatted_frame h m buf _ fun R hR hin => hout ?_
  exact (writtenRanges_disjoint (config.geometry ha hs) buf).2 R hR hin

/-- An image is the bytes of its volume. -/
private theorem Image.congr (hm : Image g media m buf files)
    (h : ∀ a ∈ volumeBytes g buf, m' a = m a) :
    Image g media m' buf files := by
  have hbps := g.bytesPerSector_bounds
  have hnum := g.numFAT_le
  have hroot := g.root_end_le
  have htab := g.table_zero
  have htables := g.root_eq_table
  have hin : ∀ i, i < g.size → m' (buf + i) = m (buf + i) :=
    fun i hi => h _ ⟨Nat.le_add_right _ _, Nat.add_lt_add_left hi buf⟩
  -- the watermark does not go beyond the volume
  have hend : g.cluster (watermark files) ≤ g.size := by
    rcases hm.room with hnil | hle
    · have hthree := g.cluster_add (Nat.le_refl 2) 1
      rw [hnil]
      show g.cluster (2 + 1) ≤ g.size
      rw [hthree, g.cluster_two, Nat.one_mul]
      exact hroot
    · exact g.cluster_le_size (Nat.le_trans (by decide) (three_le_watermark files)) hle
  refine { hm.toHolds.congr fun i hi _ => hin i (by omega) with bootCopy := ?_, infoCopy := ?_ }
  · intro i hi
    have hlt : i < 512 := hi
    rw [Nat.add_assoc, hin _ (by omega), hin _ (by omega), ← Nat.add_assoc]
    exact hm.bootCopy i hi
  · intro i hi
    have hlt : i < 512 := hi
    rw [Nat.add_assoc, Nat.add_assoc, hin _ (by omega), hin _ (by omega), ← Nat.add_assoc,
      ← Nat.add_assoc]
    exact hm.infoCopy i hi

/-- A name that no file has is not found. -/
private theorem readFile_absent (h : Host) (hm : Image g media m buf files) {name : FileName}
    (hne : ∀ f ∈ files, f.name.chars ≠ name.chars) : readFile h m buf name = .ok none := by
  have hentry : findEntry m (g.super buf files.length) (buf + g.root) name = none := by
    rw [findEntry, Option.map_eq_none_iff, List.find?_eq_none]
    intro i hi heq
    have hi := List.mem_range.mp hi
    have heq : m.read (buf + g.root + 32 * i) 11 = name.field := beq_iff_eq.mp heq
    by_cases hused : i < files.length
    · -- the entry of a file has that file's name
      have hf := List.getElem?_eq_getElem hused
      have hname : m.read (buf + g.root + 32 * i) 11 = (files[i]).name.field := (hm.entries i _ hf).name
      exact hne _ (List.getElem_mem hused) (FileName.field_inj (hname.symm.trans heq))
    · -- an unused entry begins with a zero, a name does not
      have hzero := hm.unused i (Nat.not_lt.mp hused) hi
      obtain ⟨c, cs, hc⟩ := List.exists_cons_of_length_pos name.length_pos
      rw [FileName.field, hc, Mem.read_add m _ 1 10] at heq
      have hhead : m (buf + g.root + 32 * i) = c := (List.cons.inj heq).1
      exact name.nul_free (by rw [hc, ← hzero, hhead]; exact List.mem_cons_self)
  have hdir : deref (g.super buf files.length).rootDir = .ok (buf + g.root) := rfl
  unfold readFile
  simp only [hm.toHolds.superInit, hdir, hentry, Run.ok_bind]
  rfl

/-- The sector of a file is not 0. -/
private theorem sectorOf_pos (g : Geometry) (c : Nat) : g.sectorOf c ≠ 0 := by
  unfold Geometry.sectorOf
  omega

/-- Every file of a run was placed by a call of that name. -/
private theorem Runs.origin {files files' : List File} {calls : List Call} {rets : List Nat}
    (hrun : Run.Runs (VolumeStep g) files calls rets files') {f : File} (hf : f ∈ files') :
    f ∈ files ∨ ∃ (k : Nat) (c : Call) (ret : Nat), calls[k]? = some c ∧ rets[k]? = some ret ∧
      ret ≠ 0 ∧ f.name = c.name := by
  -- induction on the run, from its first step
  induction hrun with
  | nil => exact .inl hf
  | cons hstep _ ih =>
    rcases ih hf with hmem | ⟨k, c, ret, hk, hret, hne, hname⟩
    · -- the file of `f` was there behind the first step: from the start, or placed by it
      cases hstep with
      | refuse => exact .inl hmem
      | place =>
        rcases List.mem_append.mp hmem with hmem | hmem
        · exact .inl hmem
        · obtain rfl := List.mem_singleton.mp hmem
          exact .inr ⟨0, _, _, rfl, rfl, sectorOf_pos g _, rfl⟩
    · -- or a later step placed it
      exact .inr ⟨k + 1, c, ret, hk, hret, hne, hname⟩

/-- What became of a call, for a reader of the finished volume: a file that was accepted is
    found with its bytes, which begin at the sector returned, and one that was refused is
    not there. -/
structure Delivered (h : Host) (m : Mem) (buf : Nat) (c : FileCall) (ret : Nat) : Prop where
  found : readFile h m buf c.name = .ok (if ret = 0 then none else some c.bytes)
  placed : ret ≠ 0 → m.read (buf + 512 * ret) c.bytes.length = c.bytes

/-- All calls of a run are served as they said, as long as nothing else writes to the
    volume. -/
private theorem run_delivered {m₁ : Mem} (h' : Host) (hbps : g.bytesPerSector = 512)
    (hsize : g.size < 2 ^ 32)
    (hinit : Image g media m buf []) {calls : List FileCall}
    (hnames : (calls.map fun c => c.name.chars).Nodup) {rets : List Nat}
    (hrun : Run.run (copyinStep h buf) m (calls.map fun c => c.toCall) = .ok (rets, m₁))
    (hkept : ∀ a ∈ volumeBytes g buf, m' a = m₁ a) {k : Nat} {c : FileCall} {ret : Nat}
    (hk : calls[k]? = some c) (hret : rets[k]? = some ret) : Delivered h' m' buf c ret := by
  have hmax : g.cluster g.maxCluster < 2 ^ 32 :=
    Nat.lt_of_le_of_lt g.cluster_maxCluster_le hsize
  obtain ⟨files, hruns, hm, -⟩ := copyin_run hsize hinit hrun
  obtain ⟨more, hmore, hsub, hplaced⟩ := Runs.placed hruns
  rw [List.nil_append] at hmore
  subst hmore
  have hm' := hm.congr hkept
  by_cases hne : ret = 0
  · refine ⟨?_, fun h => absurd hne h⟩
    rw [if_pos hne]
    -- no other call has this name
    refine readFile_absent h' hm' fun f hf heq => ?_
    rcases Runs.origin hruns hf with hmem | ⟨k', c', ret', hk', hret', hne', hname⟩
    · exact absurd hmem List.not_mem_nil
    · rw [hname] at heq
      have hchars : (calls.map fun c => c.name.chars)[k']? = (calls.map fun c => c.name.chars)[k]? := by
        rw [List.getElem?_map, Option.map_eq_some_iff] at hk'
        obtain ⟨fc, hfc, rfl⟩ := hk'
        rw [List.getElem?_map, List.getElem?_map, hfc, hk]
        exact congrArg some heq
      have hlen := (List.getElem?_eq_some_iff.mp hk).1
      have hkk : k' = k := by
        refine (List.getElem?_inj ?_ hnames).mp hchars
        have hlt := (List.getElem?_eq_some_iff.mp hk').1
        rwa [List.length_map] at hlt ⊢
      rw [hkk, hret] at hret'
      exact hne' ((Option.some.inj hret').symm.trans hne)
  · obtain ⟨i, f, hf, hname, hbytes, hsector⟩ := hplaced k c ret hk hret hne
    refine ⟨?_, fun _ => ?_⟩
    · rw [if_neg hne, ← hname, ← hbytes]
      exact readFile_eq h' hm' hmax (hnames.sublist hsub) hf
    · have hmul := g.sectorOf_mul (firstCluster files i)
      rw [hsector, Nat.mul_comm, ← hbps, hmul, ← hbytes]
      exact hm'.contents i f hf

/-! ## Files that fit -/

/-- The clusters that the first `k` files take. -/
def clustersBefore (g : Geometry) (calls : List FileCall) (k : Nat) : Nat :=
  ((calls.take k).map fun c => (c.bytes.length + g.bytesPerCluster - 1) / g.bytesPerCluster).sum

/-- What every call of `FAT32Copyin` needs of its file. -/
structure FileCall.Readable (c : FileCall) : Prop where
  fstat : c.fd.fstat = .ok (UInt64.ofNat c.bytes.length)
  lseek : c.fd.lseek = 0
  read : c.fd.readRet c.bytes.length = c.bytes.length

/-- A file whose system calls all succeed. -/
def bytesCall (bytes : List UInt8) (name : FileName) (attr : Nat) (hne : bytes ≠ [])
    (hlt : bytes.length < 2 ^ 32) : FileCall where
  fd := Fd.ofBytes bytes
  name := name
  attr := attr
  bytes := bytes
  delivers := delivers_ofBytes (Nat.lt_trans hlt (by decide))
  nonempty := hne
  length_lt := hlt

/-- A file that is given by its bytes can be read. -/
theorem bytesCall_readable {bytes : List UInt8} (name : FileName) (attr : Nat) (hne : bytes ≠ [])
    (hlt : bytes.length < 2 ^ 32) : (bytesCall bytes name attr hne hlt).Readable := by
  refine ⟨rfl, rfl, ?_⟩
  show ((bytes.take bytes.length).length : Int) = bytes.length
  rw [List.take_length]

/-- A file of one byte. -/
def byteCall (b : UInt8) (name : FileName) (attr : Nat) : FileCall :=
  bytesCall [b] name attr nofun (show 1 < 2 ^ 32 by decide)

/-- So can a file of one byte. -/
theorem byteCall_readable (b : UInt8) (name : FileName) (attr : Nat) :
    (byteCall b name attr).Readable := bytesCall_readable name attr _ _

/-- A file that is read completely and fits goes to the watermark. -/
private theorem copyin_fits {c : FileCall} (hsize : g.size < 2 ^ 32)
    (hm : Image g media m buf files)
    (hread : c.Readable) {n : Nat}
    (hn : n = (c.bytes.length + g.bytesPerCluster - 1) / g.bytesPerCluster)
    (hroom : watermark files + n ≤ g.maxCluster) (hslot : files.length < g.numRootEntry) :
    ∃ m' f, copyinStep h buf m c.toCall = .ok (g.sectorOf (watermark files), m') ∧
      Image g media m' buf (files ++ [f]) ∧ f.count = n := by
  have hbpc := g.bytesPerCluster_bounds
  have hlen := c.length_lt
  have hpos := List.length_pos_iff.mpr c.nonempty
  have hstSize : (UInt64.ofNat c.bytes.length).toNat = c.bytes.length := by
    rw [UInt64.toNat_ofNat']
    omega
  have hsz : u32 (UInt64.ofNat c.bytes.length).toNat = c.bytes.length := by
    rw [hstSize, u32_of_lt hlen]
  -- the clusters behind the watermark, in bytes
  have hthree := three_le_watermark files
  have hspan := g.cluster_add (show 2 ≤ watermark files by omega) (g.maxCluster - watermark files)
  rw [Nat.add_sub_cancel' (show watermark files ≤ g.maxCluster by omega)] at hspan
  have hend := root_end_le_cluster g hthree
  have hmax := g.cluster_maxCluster_le
  have hmul : n * g.bytesPerCluster ≤ (g.maxCluster - watermark files) * g.bytesPerCluster :=
    Nat.mul_le_mul_right _ (by omega)
  have hceil : c.bytes.length ≤ n * g.bytesPerCluster := by
    have hdiv := Nat.div_add_mod (c.bytes.length + g.bytesPerCluster - 1) g.bytesPerCluster
    have hmod := Nat.mod_lt (c.bytes.length + g.bytesPerCluster - 1)
      (show 0 < g.bytesPerCluster by omega)
    rw [← hn, Nat.mul_comm] at hdiv
    omega
  have hcount : clustersFor g c.bytes.length = n := by
    have hn1 : 1 ≤ n := by
      rw [hn]
      exact Nat.div_pos (by omega) (by omega)
    rw [clustersFor, cdiv_eq (by omega) (by omega), ← hn]
    omega
  have hreach : Reaches g files (u32 (UInt64.ofNat c.bytes.length).toNat) := by
    refine ⟨?_, hslot⟩
    rw [hsz, Nat.mul_comm, u32_of_lt (by omega)]
    omega
  obtain ⟨m', hcopy, himage⟩ := fat32Copyin_places h c.name c.attr hm hread.fstat hreach
    (cluster_lt_of_size hsize (by omega)) hread.lseek (by rw [hsz]; exact hread.read)
    (by rw [hsz, hcount]; exact hroom)
  refine ⟨m', _, copyinStep_ok.mpr ⟨_, hcopy, rfl, rfl⟩, himage, ?_⟩
  have hdata : (c.fd.data (u32 (UInt64.ofNat c.bytes.length).toNat)).length = c.bytes.length := by
    rw [hsz, c.delivers.read _ hread.read, List.take_length]
  show clustersFor g (c.fd.data _).length = n
  rw [hdata, hcount]

/-- When all files are read completely and fit, they are placed one after another. -/
private theorem run_fits (hsize : g.size < 2 ^ 32) (hm : Image g media m buf files)
    {calls : List FileCall}
    (hread : ∀ c ∈ calls, c.Readable)
    (hroom : watermark files + clustersBefore g calls calls.length ≤ g.maxCluster)
    (hslots : files.length + calls.length ≤ g.numRootEntry) :
    ∃ rets m', Run.run (copyinStep h buf) m (calls.map fun c => c.toCall) = .ok (rets, m') ∧
      ∀ k, k < calls.length →
        rets[k]? = some (g.sectorOf (watermark files + clustersBefore g calls k)) := by
  -- induction on the calls, with the files that are there already
  induction calls generalizing m files with
  | nil => exact ⟨[], m, rfl, fun k hk => absurd hk (Nat.not_lt_zero k)⟩
  | cons c calls ih =>
    have hcons : ∀ k, clustersBefore g (c :: calls) (k + 1) =
        (c.bytes.length + g.bytesPerCluster - 1) / g.bytesPerCluster + clustersBefore g calls k :=
      fun k => rfl
    rw [List.length_cons, hcons] at hroom
    rw [List.length_cons] at hslots
    -- the first call places its file, and takes as many clusters as its bytes need
    obtain ⟨m₁, f, hstep, himage, hcount⟩ := copyin_fits (h := h) hsize hm
      (hread c List.mem_cons_self) rfl (by omega) (by omega)
    -- the next free cluster is behind it
    have hwater : watermark (files ++ [f]) = watermark files +
        (c.bytes.length + g.bytesPerCluster - 1) / g.bytesPerCluster := by
      rw [watermark_append, hcount]
    obtain ⟨rets, m', hrun, hrets⟩ := ih himage (fun c' hc' => hread c' (List.mem_cons_of_mem _ hc'))
      (by rw [hwater]; omega) (by rw [List.length_append, List.length_singleton]; omega)
    refine ⟨_, m', Run.run_cons.mpr ⟨_, m₁, rets, hstep, hrun, rfl⟩, fun k hk => ?_⟩
    -- the sector that the first call returns, and those of the others
    cases k with
    | zero => rfl
    | succ k =>
      rw [hcons, ← Nat.add_assoc, ← hwater]
      exact hrets k (Nat.lt_of_succ_lt_succ hk)

end Tlibc.Fat

namespace Tlibc.Installer

open Gpt Fat

/-! ## A volume on the first of two partitions -/

section

variable {m m₁ m₂ : Mem} {buf : Nat} {volume bootVolume : UInt64}

/-- What both tools do to a disk behind `GPTGenerate`: write to the volume, then store the boot
    code. Neither harms the table, nor the boot code the volume. -/
private theorem twoPartitions_kept (hbuf : volume.toNat * 512 ≤ 2 ^ 64)
    (hfits : bootVolume.toNat + 64 ≤ volume.toNat) {g : Geometry}
    (hsize : g.size ≤ 512 * bootVolume.toNat) {code : List UInt8} (hcode : code.length ≤ 440)
    (hframe : Mem.Frame (volumeBytes g (buf + 1536))
      (gptGenerate .little m buf (twoPartitions volume bootVolume)).mem m₂) :
    TableHolds (m₂.write buf code) buf (twoPartitions volume bootVolume)
        (gptGenerate .little m buf (twoPartitions volume bootVolume)).partitions ∧
      (∀ n, Protects (gptGenerate .little m buf (twoPartitions volume bootVolume)).mem buf n →
        Protects (m₂.write buf code) buf n) ∧
      (∀ a ∈ volumeBytes g (buf + 1536), m₂.write buf code a = m₂ a) ∧
      code <+: (m₂.write buf code).read buf 440 := by
  obtain ⟨config, hconfig⟩ : ∃ config, config = twoPartitions volume bootVolume := ⟨_, rfl⟩
  obtain ⟨hok, hfit⟩ := twoPartitions_fit hfits
  rw [← hconfig] at hok hfit hframe ⊢
  have hvolume : config.volume = volume := by rw [hconfig]; rfl
  have htwo : config.numPart = 2 := by rw [hconfig]; rfl
  have hlen : config.partitions.length = 2 := by rw [config.length_partitions, htwo]; rfl
  have hnames : ∀ p ∈ config.partitions, p.name.chars.length ≤ 36 := by
    rw [hconfig]
    intro p hp
    simp only [twoPartitions, List.mem_cons, List.not_mem_nil, or_false] at hp
    rcases hp with rfl | rfl
    · exact show bootPartitionName.chars.length ≤ 36 by decide
    · exact show filesystemName.chars.length ≤ 36 by decide
  obtain ⟨hcreated, hparts⟩ := created_eq_partitions .little m buf hok (hfit.trans hlen.symm)
  -- the volume lies in the first partition
  have hboot : ∀ a ∈ volumeBytes g (buf + 1536),
      a ∈ usableBytes buf (gptGenerate .little m buf config).created := by
    intro a ha
    have hfirst : config.firstSector = 3 := by
      rw [GPTConfig.firstSector, GPTConfig.arraySectors, htwo]
      rfl
    rw [hcreated, hparts, hfirst, hconfig]
    refine .inr ⟨_, List.mem_cons_self, ?_⟩
    have hlo : buf + 1536 ≤ a := ha.1
    have hhi : a < buf + 1536 + g.size := ha.2
    show buf + 512 * 3 ≤ a ∧ a < buf + 512 * (3 + bootVolume.toNat)
    omega
  have hwrite := Mem.frame_write m₂ buf code
  obtain ⟨htable, hprotects⟩ := tableHolds_of_frame hok
    (by rw [hvolume]; exact hbuf) hnames (by rw [htwo]; decide)
    ((hframe.mono hboot).trans (hwrite.mono fun a ha => .inl ⟨ha.1, by
      have hhi : a < buf + code.length := ha.2
      show a < buf + 440
      omega⟩))
  rw [hcreated] at htable
  refine ⟨htable, hprotects, fun a ha => hwrite.apply fun hin => ?_, ?_⟩
  · have hlo : buf + 1536 ≤ a := ha.1
    have hhi : a < buf + code.length := hin.2
    omega
  · rw [← Nat.add_sub_cancel' hcode, Mem.read_add, Mem.read_write_self]
    exact List.prefix_append _ _

end

/-- The calls of a tool end in a run of `FAT32Copyin` on the volume of the first partition. -/
private theorem volume_delivered {m : Mem} {buf : Nat} {volume bootVolume : UInt64}
    (hbuf : volume.toNat * 512 ≤ 2 ^ 64) (hfits : bootVolume.toNat + 64 ≤ volume.toNat)
    {config : FATConfig} (ha : config.Accepted)
    (hbps : config.bytesPerSector.toNat = 512) (hsize : config.nSector.toNat * 512 < 2 ^ 32)
    (hinside : config.nSector.toNat ≤ bootVolume.toNat) {m₁ m₂ : Mem}
    (hcreate : createFAT32 .little (gptGenerate .little m buf (twoPartitions volume bootVolume)).mem
      (buf + 1536) config = .ok (0, m₁))
    {calls : List FileCall} (hnames : (calls.map fun c => c.name.chars).Nodup) {rets : List Nat}
    (hrun : Run.run (copyinStep .little (buf + 1536)) m₁ (calls.map fun c => c.toCall) = .ok (rets, m₂))
    {code : List UInt8} (hcode : code.length ≤ 440) :
    TableHolds (m₂.write buf code) buf (twoPartitions volume bootVolume)
        (gptGenerate .little m buf (twoPartitions volume bootVolume)).partitions ∧
      (∀ n, Protects (gptGenerate .little m buf (twoPartitions volume bootVolume)).mem buf n →
        Protects (m₂.write buf code) buf n) ∧
      code <+: (m₂.write buf code).read buf 440 ∧
      ∀ (k : Nat) (c : FileCall) (ret : Nat), calls[k]? = some c → rets[k]? = some ret →
        Delivered .little (m₂.write buf code) (buf + 1536) c ret := by
  have hs := ha.addressable (by rw [hbps]; exact hsize)
  have hg := config.geometry_laid ha hs
  -- the format and the copies change the volume of the partition only
  have hinit := createFAT32_image hcreate ha hs
  have hformat := createFAT32_frame ha hs hcreate
  obtain ⟨g, hgEq⟩ : ∃ g, g = config.geometry ha hs := ⟨_, rfl⟩
  rw [← hgEq] at hg hinit hformat
  have hbytes : g.size = config.nSector.toNat * 512 := by rw [hg.size, hbps]
  have hgsize : g.size < 2 ^ 32 := by rw [hbytes]; exact hsize
  obtain ⟨-, -, -, hcopies⟩ := copyin_run hgsize hinit hrun
  -- so the tables and the boot code stay as they were written in front of it
  obtain ⟨htable, hprotects, hkept, hprefix⟩ := twoPartitions_kept hbuf hfits
    (show g.size ≤ 512 * bootVolume.toNat by omega) hcode (hformat.trans hcopies)
  refine ⟨htable, hprotects, hprefix, fun k c ret hk hret => ?_⟩
  exact run_delivered .little (hg.bytesPerSector.trans hbps) hgsize hinit hnames hrun hkept hk hret

end Tlibc.Installer

/-! ## `mkgpt.c` -/

namespace Tlibc.Mkgpt

open Gpt Fat Installer

/-- `linuz`. -/
def linuzFile : FileName where
  toCString := linuzName
  dot_free := by decide
  length_pos := by decide
  length_le := by decide

/-- The calls of `FAT32Copyin`. -/
def Sources.calls (files : Sources) : List Call :=
  [⟨files.linuz, linuzFile, sysFlag⟩, ⟨files.kernel, kernelFile, sysFlag⟩,
    ⟨files.busybox, busyboxFile, attrReadOnly⟩, ⟨files.init, initFile, attrReadOnly⟩]

/-- Their results. -/
def Image.rets (d : Image) : List Nat := [d.linuz, d.kernel, d.busybox, d.init]

/-- The volume on the first partition. -/
def bootVolume : FATConfig := ⟨262140, 512, 8, true⟩

/-- The volume passes all checks. -/
private theorem bootVolume_accepted : bootVolume.Accepted :=
  ⟨by decide, by decide, by decide, by decide +kernel⟩

/-- It lies below 4 GiB. -/
private theorem bootVolume_addressable : bootVolume.Addressable :=
  bootVolume_accepted.addressable (by decide)

/-- The two partitions that every run makes. -/
private theorem mkgpt_partitions (h : Host) (m : Mem) (buf : Nat) :
    (gptGenerate h m buf mkgptConfig).ret = 2 ∧
      (gptGenerate h m buf mkgptConfig).partitions = placed 3 mkgptConfig.partitions := by
  have hok : mkgptConfig.tooSmall = false := by decide
  have hfit : mkgptConfig.fitting = 2 := by decide
  refine ⟨?_, (created_eq_partitions h m buf hok hfit).2⟩
  rw [← UInt64.toNat_inj, gptGenerate_ret h m buf hok, hfit]
  rfl

section

variable {h : Host} {m : Mem} {buf : Nat} {files : Sources} {written : Int} {d : Image}

/-- A call of `copyin` that does not stop is a step of the run. -/
private theorem copyin_ok_iff {m m' : Mem} {fat ret attr : Nat} {fd : Fd} {name : FileName} :
    copyin h m fat fd name.toCString attr = .ok (ret, m') ↔
      copyinStep h fat m ⟨fd, name, attr⟩ = .ok (ret, m') := by
  unfold copyin copyinStep
  cases fat32Copyin h m fat fd name.toCString attr with
  | error f => exact ⟨nofun, nofun⟩
  | ok r => exact ⟨fun h => congrArg _ (Except.ok.inj h), fun h => congrArg _ (Except.ok.inj h)⟩

/-- The first partition, and what the volume on it is given. -/
private theorem mkgpt_boot (h : Host) (m : Mem) (buf : Nat) :
    ∃ boot rest, (gptGenerate h m buf mkgptConfig).partitions = boot :: rest ∧
      sectorForFAT buf boot = buf + 1536 ∧ fconfig boot = bootVolume := by
  rw [(mkgpt_partitions h m buf).2]
  exact ⟨_, _, rfl, rfl, rfl⟩

/-- A run of the four calls, and a complete `write`, make `main` return 0. -/
private theorem main_of_run {m₁ m₂ : Mem} {linuz kernel busybox init : Nat}
    (hcreate : createFAT32 h (gptGenerate h m buf mkgptConfig).mem (buf + 1536) bootVolume =
      .ok (0, m₁))
    (hrun : Run.run (copyinStep h (buf + 1536)) m₁ files.calls =
      .ok ([linuz, kernel, busybox, init], m₂)) :
    main h m buf files diskSize = .ok
      { partitions := placed 3 mkgptConfig.partitions, linuz, kernel, busybox, init,
        mem := m₂.write buf (files.mbr.data 440) } := by
  obtain ⟨hret, hparts⟩ := mkgpt_partitions h m buf
  obtain ⟨boot, rest, hboot, hfat, hconfig⟩ := mkgpt_boot h m buf
  -- the table has as many partitions as were asked for
  have hnum : ¬ mkgptConfig.numPart ≠ (gptGenerate h m buf mkgptConfig).ret := by
    rw [hret]
    decide
  -- the four calls are the steps of the run
  obtain ⟨_, s₁, _, hlinuz, hrun, heq⟩ := Run.run_cons.mp hrun
  obtain ⟨rfl, rfl⟩ := List.cons.inj heq
  obtain ⟨_, s₂, _, hkernel, hrun, heq⟩ := Run.run_cons.mp hrun
  obtain ⟨rfl, rfl⟩ := List.cons.inj heq
  obtain ⟨_, s₃, _, hbusybox, hrun, heq⟩ := Run.run_cons.mp hrun
  obtain ⟨rfl, rfl⟩ := List.cons.inj heq
  obtain ⟨_, s₄, _, hinit, hrun, heq⟩ := Run.run_cons.mp hrun
  obtain ⟨rfl, rfl⟩ := List.cons.inj heq
  cases hrun
  have hlinuz : copyin h m₁ (buf + 1536) files.linuz linuzName sysFlag = .ok (linuz, s₁) :=
    (@copyin_ok_iff h m₁ s₁ (buf + 1536) linuz sysFlag files.linuz linuzFile).mpr hlinuz
  have hkernel : copyin h s₁ (buf + 1536) files.kernel kernelName sysFlag = .ok (kernel, s₂) :=
    (@copyin_ok_iff h s₁ s₂ (buf + 1536) kernel sysFlag files.kernel kernelFile).mpr hkernel
  have hbusybox : copyin h s₂ (buf + 1536) files.busybox busyboxName attrReadOnly = .ok (busybox, s₃) :=
    (@copyin_ok_iff h s₂ s₃ (buf + 1536) busybox attrReadOnly files.busybox busyboxFile).mpr hbusybox
  have hinit : copyin h s₃ (buf + 1536) files.init initName attrReadOnly = .ok (init, m₂) :=
    (@copyin_ok_iff h s₃ m₂ (buf + 1536) init attrReadOnly files.init initFile).mpr hinit
  -- with all of them given, `main` goes straight through
  unfold main
  simp only [if_neg hnum, hboot, hfat, hconfig, Run.mapError_eq_ok.mpr hcreate, hlinuz, hkernel,
    hbusybox, hinit, Run.ok_bind, ne_eq, not_true_eq_false, if_false]
  rw [← hparts, hboot]
  rfl

/-- Whatever the files are, as long as none is empty, the four calls return. -/
private theorem calls_return {calls : List FileCall} {g : Geometry} {media fat : Nat}
    (hsize : g.size < 2 ^ 32) (hmax : 3 ≤ g.maxCluster) (hm : Fat.Image g media m fat []) :
    ∃ rets m', Run.run (copyinStep h fat) m (calls.map fun c => c.toCall) = .ok (rets, m') := by
  have hsteps : Run.Steps (copyinStep h fat) (fun _ _ _ => True) m (calls.map fun c => c.toCall) := by
    refine Run.steps_of_meets (P := fun s => ∃ files, Fat.Image g media s fat files)
      (C := fun _ c => ∃ fc ∈ calls, fc.toCall = c) ?_ ⟨[], hm⟩ ?_
    · rintro s _ ⟨files, hs⟩ ⟨fc, -, rfl⟩
      have hw : watermark files ≤ g.maxCluster := by
        rcases hs.room with rfl | hle
        · exact hmax
        · exact hle
      obtain ⟨r, hr⟩ := fat32Copyin_returns h fc.fd fc.name fc.attr hs hw
        (fun _ _ _ => cluster_lt_of_size hsize hw) fun stSize hstat _ hzero => by
          -- the file has at least a byte
          have hlen := fc.delivers.fstat stSize hstat
          have hpos := List.length_pos_iff.mpr fc.nonempty
          have hlt := fc.length_lt
          rw [u32_of_lt (by omega)] at hzero
          omega
      have hstep := copyinStep_ok.mpr ⟨r, hr, rfl, rfl⟩
      obtain ⟨files', -, himage, -⟩ := copyinStep_simulates hs
        (fun _ _ hw _ => cluster_lt_of_size hsize hw) hstep
      exact ⟨r.ret, r.mem, hstep, trivial, files', himage⟩
    · -- the condition is about the calls alone
      have hmeets : ∀ (l : List FileCall) (s : Mem), (∀ c ∈ l, c ∈ calls) →
          Run.Meets (copyinStep h fat) (fun _ c => ∃ fc ∈ calls, fc.toCall = c) s
            (l.map fun c => c.toCall) := by
        intro l
        induction l with
        | nil => exact fun _ _ => trivial
        | cons c l ih =>
          exact fun s hl => ⟨⟨c, hl c List.mem_cons_self, rfl⟩, fun _ s' _ =>
            ih s' fun c' hc' => hl c' (List.mem_cons_of_mem _ hc')⟩
      exact hmeets calls m fun c hc => hc
  exact hsteps.run_ok

/-- The layout of the volume. -/
def volumeGeometry : Geometry := bootVolume.geometry bootVolume_accepted bootVolume_addressable

/-- The sectors of a table. -/
private theorem volumeGeometry_tables : volumeGeometry.fatSize = 256 := by decide +kernel

/-- The size of a cluster. -/
private theorem volumeGeometry_bytesPerCluster : volumeGeometry.bytesPerCluster = 4096 := by decide

/-- Where a cluster is. -/
private theorem volumeGeometry_sectorOf (c : Nat) :
    volumeGeometry.sectorOf c = (c - 2) * 8 + 520 := by
  rw [Geometry.sectorOf, Geometry.numFAT, volumeGeometry_tables]
  rfl

/-- The maximum cluster number. -/
private theorem volumeGeometry_maxCluster : volumeGeometry.maxCluster = 32702 := by
  rw [Geometry.maxCluster, Geometry.numData, Geometry.numFAT, volumeGeometry_tables]
  rfl

/-- The size of the volume. -/
private theorem volumeGeometry_size : volumeGeometry.size = 262140 * 512 := rfl

/-- The entries of the root directory. -/
private theorem volumeGeometry_numRootEntry : volumeGeometry.numRootEntry = 128 := by decide

/-- The formatted partition is a volume without files. -/
private theorem volume_image {m₁ : Mem}
    (hcreate : createFAT32 h (gptGenerate h m buf mkgptConfig).mem (buf + 1536) bootVolume =
      .ok (0, m₁)) : Fat.Image volumeGeometry bootVolume.media m₁ (buf + 1536) [] :=
  createFAT32_image hcreate bootVolume_accepted bootVolume_addressable

/-- With files that are not empty `main` returns 0, and its memory is that of a run. -/
private theorem main_returns (h : Host) (m : Mem) (buf : Nat) {calls : List FileCall}
    (hcalls : (calls.map fun c => c.toCall) = files.calls) :
    ∃ d m₁ m₂, main h m buf files diskSize = .ok d ∧
      d.partitions = placed 3 mkgptConfig.partitions ∧
      createFAT32 h (gptGenerate h m buf mkgptConfig).mem (buf + 1536) bootVolume = .ok (0, m₁) ∧
      Run.run (copyinStep h (buf + 1536)) m₁ (calls.map fun c => c.toCall) = .ok (d.rets, m₂) ∧
      d.mem = m₂.write buf (files.mbr.data 440) := by
  have hcreate := createFAT32_eq h (gptGenerate h m buf mkgptConfig).mem (buf + 1536)
    bootVolume_accepted bootVolume_addressable
  have hsize : volumeGeometry.size < 2 ^ 32 := by
    rw [volumeGeometry_size]
    decide
  have hmax : 3 ≤ volumeGeometry.maxCluster := by
    rw [volumeGeometry_maxCluster]
    decide
  obtain ⟨rets, m₂, hrun⟩ := @calls_return h _ calls _ _ _ hsize hmax (volume_image hcreate)
  -- one result for each of the four
  have hlen := Run.run_length hrun
  rw [hcalls] at hlen hrun
  obtain ⟨linuz, kernel, busybox, init, rfl⟩ : ∃ a b c d, rets = [a, b, c, d] := by
    match rets, hlen with
    | [a, b, c, d], _ => exact ⟨a, b, c, d, rfl⟩
  exact ⟨_, _, m₂, main_of_run hcreate hrun, rfl, hcreate, by rw [hcalls]; exact hrun, rfl⟩

/-- The image of a run, but for where the files are. -/
theorem main_delivered (m : Mem) (buf : Nat) {calls : List FileCall}
    (hcalls : (calls.map fun c => c.toCall) = files.calls) :
    ∃ d, main .little m buf files diskSize = .ok d ∧
      d.partitions = placed 3 mkgptConfig.partitions ∧
      TableHolds d.mem buf mkgptConfig d.partitions ∧
      Protects d.mem buf 524288 ∧
      files.mbr.data 440 <+: d.mem.read buf 440 ∧
      ∀ (k : Nat) (c : FileCall) (ret : Nat), calls[k]? = some c → d.rets[k]? = some ret →
        Delivered .little d.mem (buf + 512 * 3) c ret := by
  obtain ⟨d, m₁, m₂, hmain, hparts, hcreate, hrun, hmem⟩ := main_returns .little m buf hcalls
  have hnames : (calls.map fun c => c.name.chars).Nodup := by
    have hmap : (calls.map fun c => c.name.chars) =
        (calls.map fun c => c.toCall).map fun c => c.name.chars := by
      rw [List.map_map]
      rfl
    rw [hmap, hcalls]
    exact show [linuzName.chars, kernelName.chars, busyboxName.chars, initName.chars].Nodup by decide
  have hok : mkgptConfig.tooSmall = false := by decide
  obtain ⟨htable, hprotects, hcode, hserved⟩ := volume_delivered (by decide) (by decide)
    bootVolume_accepted (by decide) (by decide) (by decide) hcreate hnames hrun
    (files.mbr.data_le 440)
  rw [← hmem] at htable hprotects hcode hserved
  have hgen : (gptGenerate .little m buf mkgptConfig).partitions = d.partitions := by
    rw [hparts, (mkgpt_partitions .little m buf).2]
  refine ⟨d, hmain, hparts, ?_, hprotects _ ?_, hcode, hserved⟩
  · rw [← hgen]
    exact htable
  · -- 256 MiB are within what the record can say
    refine (gptGenerate_protects .little m buf hok _).mpr ?_
    obtain ⟨hsize, hend⟩ := createProtectGPT_fields m buf mkgptConfig.volume
    exact ⟨(createProtectGPT_startLBA .little m buf _).mpr rfl, hsize.trans (by decide),
      hend.trans (by decide)⟩

/-- Where the files are that can be read and fit. -/
theorem main_fits {calls : List FileCall} (hcalls : (calls.map fun c => c.toCall) = files.calls)
    (hmain : main .little m buf files diskSize = .ok d) (hread : ∀ c ∈ calls, c.Readable)
    (hsum : (calls.map fun c => (c.bytes.length + 4095) / 4096).sum ≤ 32699) {k : Nat} (hk : k < 4) :
    d.rets[k]? = some
      (528 + 8 * ((calls.take k).map fun c => (c.bytes.length + 4095) / 4096).sum) := by
  -- there is only one run of `main`
  obtain ⟨d', m₁, m₂, hmain', -, hcreate, hrun, -⟩ := main_returns .little m buf hcalls
  rw [hmain] at hmain'
  cases hmain'
  have hlen : calls.length = 4 := by
    have hlen := congrArg List.length hcalls
    rwa [List.length_map] at hlen
  -- the size of a cluster on the volume is 4096 bytes
  have hbefore : ∀ k, clustersBefore volumeGeometry calls k =
      ((calls.take k).map fun c => (c.bytes.length + 4095) / 4096).sum := by
    intro k
    rw [clustersBefore, volumeGeometry_bytesPerCluster]
    rfl
  have hwater : watermark [] = 3 := rfl
  obtain ⟨rets, m', hrun', hrets⟩ := run_fits (h := .little)
    (show volumeGeometry.size < 2 ^ 32 by rw [volumeGeometry_size]; decide) (volume_image hcreate)
    hread
    (by rw [hbefore, List.take_length, hwater, volumeGeometry_maxCluster]; omega)
    (by rw [hlen, volumeGeometry_numRootEntry]; decide)
  rw [hrun] at hrun'
  cases hrun'
  -- the data area begins at sector 520 of the volume, and files at cluster 3
  rw [hrets k (by omega), hbefore, volumeGeometry_sectorOf, hwater]
  exact congrArg some (by omega)

end

/-- `main` finishes unless a file is empty or has 4 GiB. Its image has a table of two
    partitions that fill the disk, the protective record and the boot code; every file that
    was accepted can be read from the volume on the first partition, at the sector printed
    for it, and no other. Files that can be read and together fit are accepted, one behind
    another from sector 531 of the disk on. -/
theorem mkgpt_image (m : Mem) (buf : Nat) (files : Sources) (calls : List FileCall)
    (hcalls : (calls.map fun c => c.toCall) = files.calls) :
    ∃ d, main .little m buf files diskSize = .ok d ∧
      d.partitions.map (fun p => (p.startLBA.toNat, p.volume.toNat)) =
        [(3, 262140), (262143, 262143)] ∧
      TableHolds d.mem buf mkgptConfig d.partitions ∧
      Protects d.mem buf 524288 ∧
      files.mbr.data 440 <+: d.mem.read buf 440 ∧
      (∀ (k : Nat) (c : FileCall) (ret : Nat), calls[k]? = some c → d.rets[k]? = some ret →
        Delivered .little d.mem (buf + 512 * 3) c ret) ∧
      ((∀ c ∈ calls, c.Readable) →
        (calls.map fun c => (c.bytes.length + 4095) / 4096).sum ≤ 32699 →
        ∀ k, k < 4 → d.rets[k]? = some
          (528 + 8 * ((calls.take k).map fun c => (c.bytes.length + 4095) / 4096).sum)) := by
  obtain ⟨d, hmain, hparts, htable, hprotects, hcode, hserved⟩ := main_delivered m buf hcalls
  refine ⟨d, hmain, ?_, htable, hprotects, hcode, hserved, fun hread hsum k hk =>
    main_fits hcalls hmain hread hsum hk⟩
  -- the sectors of the two partitions are numbers
  rw [hparts]
  decide

/-- Four files of one byte, and no boot code. -/
def byteFiles : Sources where
  linuz := Fd.ofBytes [1]
  kernel := Fd.ofBytes [2]
  busybox := Fd.ofBytes [3]
  init := Fd.ofBytes [4]
  mbr := Fd.ofBytes []

theorem mkgpt_image_bytes :
    ∃ d, main .little (fun _ => 0) 0 byteFiles diskSize = .ok d ∧
      d.rets[1]? = some 536 ∧ Delivered .little d.mem 1536 (byteCall 2 kernelFile sysFlag) 536 := by
  obtain ⟨d, hmain, -, -, -, -, hserved, hfits⟩ := mkgpt_image (fun _ => 0) 0 byteFiles
    [byteCall 1 linuzFile sysFlag, byteCall 2 kernelFile sysFlag, byteCall 3 busyboxFile attrReadOnly,
      byteCall 4 initFile attrReadOnly] rfl
  have hret := hfits (fun c hc => ?_) (by decide) 1 (by decide)
  · exact ⟨d, hmain, hret, hserved 1 _ _ rfl hret⟩
  · simp only [List.mem_cons, List.not_mem_nil, or_false] at hc
    rcases hc with rfl | rfl | rfl | rfl <;> exact byteCall_readable _ _ _

end Tlibc.Mkgpt

/-! ## `installer.c` -/

namespace Tlibc.Installer

open Gpt Fat

/-- What the installer copies, in order. -/
def Sources.requests (files : Sources) : List (Option Fd × FileName × Nat) :=
  [(files.loader, loaderFile, sysFlag), (files.kernel, kernelFile, sysFlag),
    (files.busybox, busyboxFile, sysFlag), (files.init, initFile, sysFlag)]

/-- The sectors it got. -/
def Installed.rets (d : Installed) : List Nat := [d.loader, d.kernel, d.busybox, d.init]

section

variable {h : Host} {m : Mem} {buf : Nat} {fdSize bootSize : UInt64} {files : Sources}
    {d : Installed}

/-- The call of the installer is a step of the run. -/
private theorem copyin_step {m m' : Mem} {fat ret : Nat} {src : Option Fd} {name : FileName}
    (hcopy : copyin h m fat src name.toCString = .ok (ret, m')) :
    ∃ fd, src = some fd ∧ copyinStep h fat m ⟨fd, name, sysFlag⟩ = .ok (ret, m') ∧ ret ≠ 0 := by
  obtain ⟨fd, r, hsrc, hr, hne, rfl, rfl⟩ := copyin_ok hcopy
  exact ⟨fd, hsrc, copyinStep_ok.mpr ⟨r, hr, rfl, rfl⟩, hne⟩

/-- The check of `mkpart` leaves 64 sectors. -/
private theorem mkpart_fits {m : Mem} {buf : Nat} {diskSize bootSize : UInt64} {result : GPTResult}
    (hpart : mkpart h m buf diskSize bootSize = .ok result) :
    (bootSize * (1024 * 1024) / blockSize).toNat + 64 ≤ (diskSize / blockSize).toNat := by
  have hmib : (1024 * 1024 : UInt64).toNat = 2 ^ 20 := by decide
  have hblock : blockSize.toNat = 512 := by decide
  have h64 : (blockSize * 64).toNat = 32768 := by decide
  unfold mkpart at hpart
  simp only at hpart
  split at hpart
  · cases hpart
  · rename_i hcheck
    -- the size is a multiple of `2 ^ 20`, so the sum does not wrap
    have hle := UInt64.le_iff_toNat_le.mp (UInt64.not_lt.mp hcheck)
    rw [UInt64.toNat_add, h64, UInt64.toNat_mul, hmib] at hle
    rw [UInt64.toNat_div, UInt64.toNat_div, hblock, UInt64.toNat_mul, hmib]
    omega

/-- The partitions are those of `mkpart`. -/
private theorem install_partitions {result : GPTResult}
    (hinst : install h m buf fdSize bootSize files = .ok d)
    (hpart : mkpart h m buf (fdSize / 4096 * 4096) bootSize = .ok result) :
    d.partitions = result.partitions := by
  unfold install at hinst
  simp only [hpart, Run.ok_bind] at hinst
  -- without a partition the installer stops
  cases hparts : result.partitions with
  | nil =>
    simp only [hparts] at hinst
    cases hinst
  | cons boot rest =>
    simp only [hparts] at hinst
    -- the checks and copies behind it do not change the table
    obtain ⟨_, -, hinst⟩ := Run.bind_eq_ok.mp hinst
    obtain ⟨_, -, hinst⟩ := Run.bind_eq_ok.mp hinst
    obtain ⟨_, -, hinst⟩ := Run.bind_eq_ok.mp hinst
    obtain ⟨_, -, hinst⟩ := Run.bind_eq_ok.mp hinst
    obtain ⟨_, -, hinst⟩ := Run.bind_eq_ok.mp hinst
    obtain ⟨_, -, hinst⟩ := Run.bind_eq_ok.mp hinst
    cases hinst
    rfl

/-- A read of the boot code that does not fail. -/
private theorem readMbr_ok {m m' : Mem} {mbr : Option Fd} (hmbr : readMbr m buf mbr = .ok m') :
    ∃ fd, mbr = some fd ∧ m' = m.write buf (fd.data 440) := by
  cases mbr with
  | none => cases hmbr
  | some fd =>
    unfold readMbr at hmbr
    simp only at hmbr
    split at hmbr
    · cases hmbr
    · cases hmbr
      exact ⟨fd, rfl, rfl⟩

/-- The disk of the installer. -/
def installConfig (fdSize bootSize : UInt64) : GPTConfig :=
  twoPartitions (fdSize / 4096 * 4096 / blockSize) (bootSize * (1024 * 1024) / blockSize)

/-- The copies of a finished installation are a run on the volume that was formatted. -/
private theorem install_run (hinst : install h m buf fdSize bootSize files = .ok d)
    (hn : bootSize.toNat % 2 ^ 21 ≠ 0) :
    (bootSize * (1024 * 1024) / blockSize).toNat + 64 ≤ (fdSize / 4096 * 4096 / blockSize).toNat ∧
      d.partitions = (gptGenerate h m buf (installConfig fdSize bootSize)).partitions ∧
      ∃ m₁ m₂ calls mbr,
        createFAT32 h (gptGenerate h m buf (installConfig fdSize bootSize)).mem (buf + 1536)
            (mebiVolume (bootSize.toNat % 2 ^ 21)) = .ok (0, m₁) ∧
          (calls.map fun c : Call => (some c.fd, c.name, c.attr)) = files.requests ∧
          Run.run (copyinStep h (buf + 1536)) m₁ calls = .ok (d.rets, m₂) ∧
          (∀ ret ∈ d.rets, ret ≠ 0) ∧ files.mbr = some mbr ∧
          d.mem = m₂.write buf (mbr.data 440) := by
  obtain ⟨result, boot, ret, m₁, m₂, m₃, m₄, m₅, hpart, hboot, hcreate, hcopy₁, hcopy₂, hcopy₃,
    hcopy₄, hmbr⟩ := install_ok hinst
  have hparts := install_partitions hinst hpart
  have hfits := mkpart_fits hpart
  obtain ⟨boot', fs, hboot', hstart, hvol⟩ := mkpart_ok hpart
  obtain ⟨rfl, -⟩ := mkpart_result hpart
  rw [hboot', List.head?_cons] at hboot
  obtain rfl := Option.some.inj hboot
  have hfat : sectorForFAT buf boot' = buf + 1536 := by
    rw [sectorForFAT, hstart]
    rfl
  rw [hfat] at hcreate hcopy₁ hcopy₂ hcopy₃ hcopy₄
  rw [fconfig_eq hvol] at hcreate
  -- the result of `createFAT32` is ignored, but this config is accepted
  have hlt : bootSize.toNat % 2 ^ 21 < 2 ^ 21 := Nat.mod_lt _ (by decide)
  obtain ⟨m', hzero⟩ := createFAT32_returns h
    (gptGenerate h m buf (installConfig fdSize bootSize)).mem (buf + 1536)
    ((mebiVolume_accepted_iff hlt).mpr hn)
  have hret : ret = 0 := by
    have hcreate : createFAT32 h (gptGenerate h m buf (installConfig fdSize bootSize)).mem (buf + 1536)
      (mebiVolume (bootSize.toNat % 2 ^ 21)) = .ok (ret, m₁) := hcreate
    rw [hzero] at hcreate
    exact (Prod.mk.inj (Except.ok.inj hcreate)).1.symm
  rw [hret] at hcreate
  obtain ⟨loader, hsrc₁, hstep₁, hne₁⟩ := @copyin_step h _ _ _ _ _ loaderFile hcopy₁
  obtain ⟨kernel, hsrc₂, hstep₂, hne₂⟩ := @copyin_step h _ _ _ _ _ kernelFile hcopy₂
  obtain ⟨busybox, hsrc₃, hstep₃, hne₃⟩ := @copyin_step h _ _ _ _ _ busyboxFile hcopy₃
  obtain ⟨init, hsrc₄, hstep₄, hne₄⟩ := @copyin_step h _ _ _ _ _ initFile hcopy₄
  obtain ⟨mbr, hsrc, hmem⟩ := readMbr_ok hmbr
  refine ⟨hfits, hparts, m₁, m₅, [⟨loader, loaderFile, sysFlag⟩, ⟨kernel, kernelFile, sysFlag⟩,
    ⟨busybox, busyboxFile, sysFlag⟩, ⟨init, initFile, sysFlag⟩], mbr, hcreate, ?_, ?_, ?_, hsrc, hmem⟩
  · rw [Sources.requests, hsrc₁, hsrc₂, hsrc₃, hsrc₄]
    rfl
  · exact Run.run_cons.mpr ⟨_, m₂, _, hstep₁, Run.run_cons.mpr ⟨_, m₃, _, hstep₂,
      Run.run_cons.mpr ⟨_, m₄, _, hstep₃, Run.run_cons.mpr ⟨_, m₅, [], hstep₄, rfl, rfl⟩, rfl⟩, rfl⟩,
      rfl⟩
  · intro r hr
    simp only [Installed.rets, List.mem_cons, List.not_mem_nil, or_false] at hr
    rcases hr with rfl | rfl | rfl | rfl
    · exact hne₁
    · exact hne₂
    · exact hne₃
    · exact hne₄

end

section

variable {h : Host} {m : Mem} {buf : Nat} {fdSize bootSize : UInt64} {files : Sources}

/-- A step that returns a cluster is a call of the installer. -/
private theorem copyin_of_step {m m' : Mem} {fat ret : Nat} {fd : Fd} {name : FileName}
    (hstep : copyinStep h fat m ⟨fd, name, sysFlag⟩ = .ok (ret, m')) (hne : ret ≠ 0) :
    copyin h m fat (some fd) name.toCString = .ok (ret, m') := by
  obtain ⟨r, hr, rfl, rfl⟩ := copyinStep_ok.mp hstep
  have hr : fat32Copyin h m fat fd name.toCString sysFlag = .ok r := hr
  unfold copyin
  simp only [hr, if_neg hne]

/-- An installation finishes when the partition fits on the disk, and the files on the volume. -/
private theorem install_finishes (m : Mem) (buf : Nat)
    (hfits : bootSize * (1024 * 1024) + blockSize * 64 ≤ fdSize / 4096 * 4096)
    (hn : 0 < bootSize.toNat % 2 ^ 21) (h4 : bootSize.toNat % 2 ^ 21 < 4096) {calls : List FileCall}
    (hcalls : (calls.map fun c => (some c.fd, c.name, c.attr)) = files.requests)
    (hread : ∀ c ∈ calls, c.Readable)
    (hsum : (calls.map fun c => (c.bytes.length + 4095) / 4096).sum + 3 ≤
      (2044 * (bootSize.toNat % 2 ^ 21) - 8) / 8)
    {mbr : Fd} (hmbr : files.mbr = some mbr) (hmbrRead : 0 ≤ mbr.readRet 440) :
    ∃ d, install h m buf fdSize bootSize files = .ok d := by
  have hlt : bootSize.toNat % 2 ^ 21 < 2 ^ 21 := Nat.mod_lt _ (by decide)
  have ha := (mebiVolume_accepted_iff hlt).mpr (Nat.ne_of_gt hn)
  have hs := (mebiVolume_addressable_iff hlt).mpr (show bootSize.toNat % 2 ^ 21 + 2 < 2 ^ 21 by omega)
  obtain ⟨result, hpart⟩ := mkpart_succeeds h m buf hfits
  obtain ⟨boot, fs, hparts, hstart, hvol⟩ := mkpart_ok hpart
  have hconfig := fconfig_eq hvol
  obtain ⟨m₁, hcreate⟩ : ∃ m₁, createFAT32 h result.mem (sectorForFAT buf boot)
      (mebiVolume (bootSize.toNat % 2 ^ 21)) = .ok (0, m₁) :=
    ⟨_, createFAT32_eq h result.mem (sectorForFAT buf boot) ha hs⟩
  have himage := createFAT32_image hcreate ha hs
  have hbpc := mebiVolume_bytesPerCluster ha hs
  have hmax := mebiVolume_maxCluster hlt ha hs
  have hlen : calls.length = 4 := by
    have hlen := congrArg List.length hcalls
    rwa [List.length_map] at hlen
  have hbefore : clustersBefore ((mebiVolume (bootSize.toNat % 2 ^ 21)).geometry ha hs) calls
      calls.length = (calls.map fun c => (c.bytes.length + 4095) / 4096).sum := by
    rw [clustersBefore, hbpc, List.take_length]
    rfl
  have hwater : watermark [] = 3 := rfl
  have hslots := ((mebiVolume (bootSize.toNat % 2 ^ 21)).geometry ha hs).numRootEntry_pos
  obtain ⟨rets, m', hrun, hrets⟩ := run_fits (h := h)
    (by rw [mebiVolume_size hlt ha hs]; omega) himage hread
    (by rw [hbefore, hwater, hmax]; omega) (by rw [hlen]; exact Nat.le_trans (by decide) hslots)
  -- the four results, none of which is 0
  obtain ⟨c₁, c₂, c₃, c₄, rfl⟩ : ∃ a b c d, calls = [a, b, c, d] := by
    match calls, hlen with
    | [a, b, c, d], _ => exact ⟨a, b, c, d, rfl⟩
  have hne : ∀ k ret, k < 4 → rets[k]? = some ret → ret ≠ 0 := by
    intro k ret hk hret
    rw [hrets k hk] at hret
    rw [← Option.some.inj hret]
    exact sectorOf_pos _ _
  simp only [List.map_cons, List.map_nil, Sources.requests, List.cons.injEq, Prod.mk.injEq] at hcalls
  obtain ⟨⟨hfile₁, hname₁, hattr₁⟩, ⟨hfile₂, hname₂, hattr₂⟩, ⟨hfile₃, hname₃, hattr₃⟩,
    ⟨hfile₄, hname₄, hattr₄⟩, -⟩ := hcalls
  obtain ⟨loader, s₁, _, hstep₁, hrun₁, rfl⟩ := Run.run_cons.mp hrun
  obtain ⟨kernel, s₂, _, hstep₂, hrun₂, rfl⟩ := Run.run_cons.mp hrun₁
  obtain ⟨busybox, s₃, _, hstep₃, hrun₃, rfl⟩ := Run.run_cons.mp hrun₂
  obtain ⟨init, s₄, _, hstep₄, -, rfl⟩ := Run.run_cons.mp hrun₃
  have hcopy₁ : copyin h m₁ (sectorForFAT buf boot) (some c₁.fd) loaderName = .ok (loader, s₁) :=
    @copyin_of_step h m₁ s₁ _ _ c₁.fd loaderFile (by rw [← hname₁, ← hattr₁]; exact hstep₁)
      (hne 0 _ (by decide) rfl)
  have hcopy₂ : copyin h s₁ (sectorForFAT buf boot) (some c₂.fd) kernelName = .ok (kernel, s₂) :=
    @copyin_of_step h s₁ s₂ _ _ c₂.fd kernelFile (by rw [← hname₂, ← hattr₂]; exact hstep₂)
      (hne 1 _ (by decide) rfl)
  have hcopy₃ : copyin h s₂ (sectorForFAT buf boot) (some c₃.fd) busyboxName = .ok (busybox, s₃) :=
    @copyin_of_step h s₂ s₃ _ _ c₃.fd busyboxFile (by rw [← hname₃, ← hattr₃]; exact hstep₃)
      (hne 2 _ (by decide) rfl)
  have hcopy₄ : copyin h s₃ (sectorForFAT buf boot) (some c₄.fd) initName = .ok (init, s₄) :=
    @copyin_of_step h s₃ s₄ _ _ c₄.fd initFile (by rw [← hname₄, ← hattr₄]; exact hstep₄)
      (hne 3 _ (by decide) rfl)
  have hboot : readMbr s₄ buf (some mbr) = .ok (s₄.write buf (mbr.data 440)) := by
    unfold readMbr
    simp only [if_neg (Int.not_lt.mpr hmbrRead)]
  rw [← hconfig] at hcreate
  unfold install
  simp only [hpart, hparts, Run.mapError_eq_ok.mpr hcreate, ← hfile₁, ← hfile₂, ← hfile₃, ← hfile₄,
    hmbr, hcopy₁, hcopy₂, hcopy₃, hcopy₄, hboot, Run.ok_bind]
  exact ⟨_, rfl⟩

end

/-- What a finished installation leaves, if the volume is smaller than 4 GiB: a table of two
    partitions that fill the disk, the boot code, and the four files, each of which was
    accepted and can be read from the volume. -/
theorem install_image (m : Mem) (buf : Nat) (fdSize bootSize : UInt64) (files : Sources)
    (d : Installed)
    (hinst : install .little m buf fdSize bootSize files = .ok d)
    (hn : 0 < bootSize.toNat % 2 ^ 21) (h4 : bootSize.toNat % 2 ^ 21 < 4096) (calls : List FileCall)
    (hcalls : (calls.map fun c => (some c.fd, c.name, c.attr)) = files.requests) :
    TableHolds d.mem buf (installConfig fdSize bootSize) d.partitions ∧
      (4096 ≤ fdSize.toNat → fdSize.toNat < 2 ^ 32 → Protects d.mem buf (fdSize.toNat / 4096 * 8)) ∧
      (∃ mbr, files.mbr = some mbr ∧ mbr.data 440 <+: d.mem.read buf 440) ∧
      ∀ (k : Nat) (c : FileCall) (ret : Nat), calls[k]? = some c → d.rets[k]? = some ret →
        ret ≠ 0 ∧ Delivered .little d.mem (buf + 512 * 3) c ret := by
  obtain ⟨hfits, hparts, m₁, m₂, calls', mbr, hcreate, hcalls', hrun, hne, hmbr, hmem⟩ :=
    install_run hinst (Nat.ne_of_gt hn)
  have hlt : bootSize.toNat % 2 ^ 21 < 2 ^ 21 := Nat.mod_lt _ (by decide)
  have hsec := mebiVolume_nSector hlt
  -- the requests are the calls
  have heq : calls' = calls.map fun c => c.toCall := by
    have hinj : Function.Injective fun c : Call => (some c.fd, c.name, c.attr) := by
      rintro ⟨fd, name, attr⟩ ⟨fd', name', attr'⟩ h
      cases h
      rfl
    apply List.map_injective_iff.mpr hinj
    rw [hcalls', ← hcalls, List.map_map]
    rfl
  have hnames : (calls.map fun c => c.name.chars).Nodup := by
    have hmap : (calls.map fun c => c.name.chars) = files.requests.map fun r => r.2.1.chars := by
      rw [← hcalls, List.map_map]
      rfl
    rw [hmap]
    exact show [loaderName.chars, kernelName.chars, busyboxName.chars, initName.chars].Nodup by decide
  have hvolume : (fdSize / 4096 * 4096 / blockSize).toNat * 512 ≤ 2 ^ 64 := by
    have hblock : blockSize.toNat = 512 := rfl
    have hsize := (fdSize / 4096 * 4096).toNat_lt
    rw [UInt64.toNat_div, hblock]
    omega
  have hboot := bootVolume_toNat bootSize
  rw [heq] at hrun
  obtain ⟨htable, hprotects, hcode, hserved⟩ := volume_delivered hvolume hfits
    ((mebiVolume_accepted_iff hlt).mpr (Nat.ne_of_gt hn)) rfl (by omega) (by omega) hcreate hnames
    hrun (mbr.data_le 440)
  rw [← hmem] at htable hprotects hcode hserved
  refine ⟨?_, fun hlo hhi => hprotects _ ?_, ⟨mbr, hmbr, hcode⟩,
    fun k c ret hk hret => ⟨?_, hserved k c ret hk hret⟩⟩
  · rw [hparts]
    exact htable
  · -- the record can say how large a disk below 4 GiB is
    obtain ⟨blocks, hblocks⟩ : ∃ n, n = fdSize / 4096 * 4096 / blockSize := ⟨_, rfl⟩
    have hcount : blocks.toNat = fdSize.toNat / 4096 * 8 := by
      have h4096 : (4096 : UInt64).toNat = 4096 := rfl
      have hblock : blockSize.toNat = 512 := rfl
      have hsize := fdSize.toNat_lt
      rw [hblocks, UInt64.toNat_div, UInt64.toNat_mul, UInt64.toNat_div, h4096, hblock]
      omega
    refine (gptGenerate_protects .little m buf (twoPartitions_fit hfits).1 _).mpr ?_
    show Protects (createProtectGPT .little m buf blockSize (fdSize / 4096 * 4096 / blockSize)) buf _
    rw [← hblocks, ← hcount]
    obtain ⟨hsize, hend⟩ := createProtectGPT_fields m buf blocks
    refine ⟨(createProtectGPT_startLBA .little m buf _).mpr rfl, hsize.trans ?_, hend.trans ?_⟩
    · rw [sizeField_toNat (by omega), if_neg (by omega)]
      omega
    · rw [endField_toNat (by omega)]
      split <;> omega
  · exact hne ret (List.mem_of_getElem? hret)

/-- Four files of one byte, and no boot code. -/
def byteFiles : Sources where
  loader := some (Fd.ofBytes [1])
  kernel := some (Fd.ofBytes [2])
  busybox := some (Fd.ofBytes [3])
  init := some (Fd.ofBytes [4])
  mbr := some (Fd.ofBytes [])

theorem install_image_bytes :
    ∃ d, install .little (fun _ => 0) 0 2097152 1 byteFiles = .ok d ∧ d.kernel ≠ 0 ∧
      Delivered .little d.mem 1536 (byteCall 2 kernelFile sysFlag) d.kernel := by
  -- every file of the example can be read
  have hread : ∀ c ∈ [byteCall 1 loaderFile sysFlag, byteCall 2 kernelFile sysFlag,
      byteCall 3 busyboxFile sysFlag, byteCall 4 initFile sysFlag], c.Readable := by
    intro c hc
    simp only [List.mem_cons, List.not_mem_nil, or_false] at hc
    rcases hc with rfl | rfl | rfl | rfl <;> exact byteCall_readable _ _ _
  have hfinish : ∃ d, install .little (fun _ => 0) 0 2097152 1 byteFiles = .ok d :=
    install_finishes (fun _ => 0) 0 (by decide) (by decide) (by decide) rfl hread (by decide) rfl
      (by decide)
  -- so the installer finishes, and what it wrote is served
  obtain ⟨d, hinst⟩ := hfinish
  obtain ⟨-, -, -, hserved⟩ := install_image (fun _ => 0) 0 2097152 1 byteFiles d hinst (by decide)
    (by decide) [byteCall 1 loaderFile sysFlag, byteCall 2 kernelFile sysFlag,
      byteCall 3 busyboxFile sysFlag, byteCall 4 initFile sysFlag] rfl
  obtain ⟨hne, hkernel⟩ := hserved 1 _ _ rfl rfl
  exact ⟨d, hinst, hne, hkernel⟩

end Tlibc.Installer
