import Tlibc.Lib.Overwrite
import Tlibc.Spec.FatCapacity

/-!
# What a call that succeeds does

`Served` is what a call that places a file, under any name, does to FSInfo, to
both tables and to the root directory (`Ledger.served`).

* `copyin_consumes_iff`: the counters and the tables account for the clusters that
  the file needs exactly when the file is not empty and its size fits in a
  `uint32_t`
-/

namespace Tlibc.Fat

variable {g : Geometry} {m m' : Mem} {buf w : Nat}

/-! ## Directory entries under any name -/

/-- The stores of `storeDirEntry` over the cleared entry: the name in two pieces, then
    the fields. -/
def entryStores (h : Host) (name : CString) (attr nextFree fobjSize : Nat) :
    List (Nat × List UInt8) :=
  let date := (fat32Date 1995 2 21).toNat
  let time := (fat32Time 8 30 25).toNat
  [(0, name.chars.takeWhile (· != dot)),
    (8, name.chars.dropWhile (· != dot)),
    (11, Mem.leBytes 1 attr),
    (12, Mem.leBytes 1 0),
    (13, Mem.leBytes 1 42),
    (14, Mem.leBytes 2 time),
    (16, Mem.leBytes 2 date),
    (18, Mem.leBytes 2 date),
    (20, Mem.leBytes 2 (nextFree >>> 16)),
    (22, h.bytesOf 2 (h.genericLoadLe .two (h.bytesOf 2 time))),
    (24, h.bytesOf 2 (h.genericLoadLe .two (h.bytesOf 2 date))),
    (26, Mem.leBytes 2 (nextFree &&& 0xFFFF)),
    (28, Mem.leBytes 4 fobjSize)]

/-- The entry is cleared, and then its members are stored. -/
theorem storeDirEntry_stores (h : Host) (m : Mem) (entry : Nat) (name : CString)
    (attr nextFree fobjSize : Nat) : storeDirEntry h m entry name attr nextFree fobjSize =
      (m.fill entry 32 0).writeAll entry (entryStores h name attr nextFree fobjSize) := by
  simp only [storeDirEntry, Host.storeLe_eq, Host.put, entryStores, Mem.writeAll, Nat.add_zero,
    FATDirEntry.size, FATDirEntry.name, FATDirEntry.suffix, FATDirEntry.attr,
    FATDirEntry.ntres, FATDirEntry.createTimeTenth, FATDirEntry.createTime, FATDirEntry.createDate,
    FATDirEntry.lastAccessDate, FATDirEntry.firstClusterHigh, FATDirEntry.writeTime,
    FATDirEntry.writeDate, FATDirEntry.firstClusterLow, FATDirEntry.fileSize, Width.bytes]

/-- A directory entry is stored without looking at what was there. -/
private theorem storeDirEntry_congr (h : Host) {m m' : Mem} {a : Nat} (entry : Nat) (name : CString)
    (attr nextFree fobjSize : Nat) (hsame : m' a = m a) :
    storeDirEntry h m' entry name attr nextFree fobjSize a =
      storeDirEntry h m entry name attr nextFree fobjSize a := by
  rw [storeDirEntry_stores, storeDirEntry_stores]
  have hover := (Mem.overwrites_writeAll entry (entryStores h name attr nextFree fobjSize)).comp
    (Mem.overwrites_fill entry 32 0)
  exact (hover.eq_iff m' m a).mpr (.inr hsame)

/-! ## Calls that succeed -/

/-- The call placed its file of `size` bytes at cluster `w`, in root entry `n`. -/
structure Served (h : Host) (g : Geometry) (m : Mem) (buf w : Nat) (c : RawCall) (size n : Nat)
    (m' : Mem) : Prop where
  used : g.RootUsed m buf n
  slot : n < g.numRootEntry
  fits : size ≤ u32 (g.bytesPerCluster * (g.maxCluster - w))
  room : w + clustersFor g size ≤ g.maxCluster
  ledger : Ledger g m' buf (w + clustersFor g size)
  freeCount : m'.load (buf + g.bytesPerSector + FSInfo.freeCount.off) 4 +
    cdiv size g.bytesPerCluster = m.load (buf + g.bytesPerSector + FSInfo.freeCount.off) 4
  entries : ∀ t, t < 2 → ∀ e, e < g.numEntry → m'.load (buf + g.table t + 4 * e) 4 =
    if w ≤ e ∧ e < w + clustersFor g size then
      (if e + 1 = w + clustersFor g size then eoc else e + 1)
    else m.load (buf + g.table t + 4 * e) 4
  root : ∀ i, i < g.bytesPerCluster → m' (buf + g.root + i) =
    storeDirEntry h m (buf + g.root + 32 * n) c.name c.attr w size (buf + g.root + i)

/-- The copy of the sectors behind FSInfo leaves the counters and the tables alone. -/
private theorem load_sync_count (g : Geometry) (m : Mem) (buf next : Nat) {free : Nat}
    (hfree : free < 2 ^ 32) :
    (g.sync (storeFree g m buf free next) buf).load
      (buf + g.bytesPerSector + FSInfo.freeCount.off) 4 = free := by
  have hbps := g.bytesPerSector_bounds
  have hoff : FSInfo.freeCount.off = 488 := rfl
  refine Eq.trans (Mem.load_congr fun i hi => ?_) (load_storeFree_count g m buf next hfree)
  rw [hoff, Nat.add_assoc, Nat.add_assoc, sync_apply_out (by omega)]

/-- The copies of the counters are not in the tables. -/
private theorem load_sync_table (g : Geometry) (m : Mem) (buf free next : Nat) {t e : Nat}
    (ht : t < 2) :
    (g.sync (storeFree g m buf free next) buf).load
      (buf + g.table t + 4 * e) 4 = m.load (buf + g.table t + 4 * e) 4 := by
  have ht' := g.table_bounds ht
  have htab := g.table_zero
  rw [← load_storeFree_table g m buf free next e ht]
  refine Mem.load_congr fun i hi => ?_
  rw [Nat.add_assoc, Nat.add_assoc, sync_apply_out (by omega)]

/-- A call that returns another value than 0 placed its file. -/
theorem Ledger.served {h : Host} {c : RawCall} {ret : Nat} (hm : Ledger g m buf w)
    (hstart : ∀ stSize, c.fd.fstat = .ok stSize → StartsBelow g m buf w (u32 stSize.toNat))
    (hstep : rawStep h buf m c = .ok (ret, m')) (hret : ret ≠ 0) :
    ∃ stSize n, c.fd.fstat = .ok stSize ∧ Served h g m buf w c (u32 stSize.toNat) n m' := by
  obtain ⟨r, hcall, rfl, rfl⟩ := rawStep_ok.mp hstep
  rcases hm.copyin_split hstart hcall with ⟨hzero, -⟩ |
    ⟨stSize, n, hstat, hused, hn, hw, hfits, -, -, hfinish⟩
  · exact absurd hzero hret
  obtain ⟨size, hsize⟩ : ∃ size, size = u32 stSize.toNat := ⟨_, rfl⟩
  rw [← hsize] at hfits hfinish
  refine ⟨stSize, n, hstat, ?_⟩
  rw [← hsize]
  have hroom := clustersFor_room hfinish
  have hcount : clustersFor g size = cdiv size g.bytesPerCluster - 1 + 1 := rfl
  have hthree := hm.three_le
  have hmax := g.maxCluster_le
  have hbps := g.bytesPerSector_bounds
  have hbpc := g.bytesPerCluster_eq
  have htab := g.table_zero
  have hrt := g.root_eq_table
  have hfat := g.bytesPerFAT_eq
  have hend := root_end_le_cluster g hthree
  have hframe := (loadedFrom_frame m buf c.fd hthree hw hfits).2
  -- the transfer changes nothing below the file's first cluster
  have hbelow : ∀ i, i < g.cluster w → loadedFrom g m buf w c.fd size (buf + i) = m (buf + i) := by
    intro i hi
    refine hframe.apply fun hin => ?_
    have hin : buf + g.cluster w ≤ buf + i := hin.1
    omega
  have hslot : loadedFrom g m buf w c.fd size (buf + g.root + 32 * n) = 0 := by
    rw [Nat.add_assoc, hbelow _ (by omega), ← Nat.add_assoc]
    exact hused.2.2 hn
  obtain ⟨m₂, m₃, hchained, hm₃, hledger, -, hresult⟩ :=
    (hm.of_free hframe).linked h c.name c.attr (g.sectorOf w) size hslot hroom
  rw [loadedFrom_freeCount hm hw hfits] at hm₃ hresult
  have hmem : r.mem = g.sync m₃ buf :=
    congrArg CopyinResult.mem (Except.ok.inj (hfinish.symm.trans hresult))
  have hledger := hledger.sync
  rw [← hmem] at hledger
  refine ⟨hused, hn, hfits, hroom, hledger, ?_, ?_, ?_⟩
  · have hfree := hm.freeCount
    obtain ⟨free, hfreeEq⟩ : ∃ free,
      free = m.load (buf + g.bytesPerSector + FSInfo.freeCount.off) 4 := ⟨_, rfl⟩
    have hfreeLt : free < 2 ^ 32 := by
      rw [hfreeEq]
      exact Mem.load_lt _ _ 4
    rw [hmem, hm₃, ← hfreeEq, load_sync_count g m₂ buf _ (by omega)]
    omega
  · intro t ht e he
    have ht' := g.table_bounds ht
    have hold : (storeDirEntry h (loadedFrom g m buf w c.fd size) (buf + g.root + 32 * n) c.name
        c.attr w size).load (buf + g.table t + 4 * e) 4 = m.load (buf + g.table t + 4 * e) 4 := by
      refine Mem.load_congr fun i hi => ?_
      rw [storeDirEntry_below h _ c.name c.attr w size (by omega), Nat.add_assoc, Nat.add_assoc,
        hbelow _ (by omega)]
    rw [hmem, hm₃, load_sync_table g m₂ buf _ _ ht, hchained.load t ht e he, hold]
    by_cases hin : w ≤ e ∧ e < w + clustersFor g size
    · rw [if_pos hin, if_pos (by omega)]
      by_cases hlast : e + 1 = w + clustersFor g size
      · rw [if_pos hlast, if_pos (by omega)]
      · rw [if_neg hlast, if_neg (by omega)]
    · rw [if_neg hin, if_neg (by omega)]
  · intro i hi
    rw [hmem, Nat.add_assoc, sync_apply_out (.inr (by omega)), hm₃,
      updates_out hchained.frame (by omega) (by omega)]
    exact storeDirEntry_congr h _ _ _ _ _ (hbelow _ (by omega))

/-! ## The tables mirror each other -/

/-- Both tables hold the same entries. -/
def Mirrored (g : Geometry) (m : Mem) (buf : Nat) : Prop :=
  ∀ e, e < g.numEntry → m.load (buf + g.table 1 + 4 * e) 4 = m.load (buf + g.table 0 + 4 * e) 4

/-- A call keeps the two tables equal. -/
private theorem Served.mirrored {h : Host} {c : RawCall} {size n : Nat}
    (hs : Served h g m buf w c size n m') (hm : Mirrored g m buf) : Mirrored g m' buf := by
  intro e he
  rw [hs.entries 1 (by decide) e he, hs.entries 0 (by decide) e he, hm e he]

/-- A call that refuses leaves both tables alone. -/
private theorem mirrored_refused (hthree : 3 ≤ w) (hframe : Mem.Frame (freeFrom g buf w) m m')
    (hm : Mirrored g m buf) : Mirrored g (g.sync m' buf) buf := by
  have hend := root_end_le_cluster g hthree
  have htab := g.table_zero
  have hfat := g.bytesPerFAT_eq
  have hload : ∀ t, t < 2 → ∀ e, e < g.numEntry →
      (g.sync m' buf).load (buf + g.table t + 4 * e) 4 = m.load (buf + g.table t + 4 * e) 4 := by
    intro t ht e he
    have ht' := g.table_bounds ht
    refine Mem.load_congr fun i hi => ?_
    rw [Nat.add_assoc, Nat.add_assoc, sync_apply_out (.inr (by omega))]
    refine hframe.apply fun hin => ?_
    have hin : buf + g.cluster w ≤ buf + (g.table t + (4 * e + i)) := hin.1
    omega
  intro e he
  rw [hload 1 (by decide) e he, hload 0 (by decide) e he, hm e he]

/-- A call keeps the ledger and the mirror. -/
theorem Ledger.step_mirrored {h : Host} {c : RawCall} {ret : Nat} (hm : Ledger g m buf w)
    (hmirror : Mirrored g m buf)
    (hstart : ∀ stSize, c.fd.fstat = .ok stSize → StartsBelow g m buf w (u32 stSize.toNat))
    (hstep : rawStep h buf m c = .ok (ret, m')) :
    ∃ w', Ledger g m' buf w' ∧ Mirrored g m' buf := by
  obtain ⟨r, hcall, hretEq, hmemEq⟩ := rawStep_ok.mp hstep
  -- a call that is refused leaves the tables as they are, and one that is served changes both
  cases hm.copyin_cases hstart hcall with
  | refused _ hmem =>
    rcases hmem with hsame | ⟨m₁, hframe, hsync⟩
    · rw [← hmemEq, hsame]
      exact ⟨w, hm, hmirror⟩
    · rw [← hmemEq, hsync]
      exact ⟨w, (hm.of_free hframe).sync, mirrored_refused hm.three_le hframe hmirror⟩
  | placed stSize hstat hret =>
    have hne : ret ≠ 0 := by
      rw [← hretEq, hret, Geometry.sectorOf]
      omega
    obtain ⟨stSize, n, -, hserved⟩ := hm.served hstart hstep hne
    exact ⟨_, hserved.ledger, hserved.mirrored hmirror⟩

/-- A run of calls keeps the ledger and the mirror. -/
private theorem Ledger.run_mirrored {h : Host} {calls : List RawCall} {rets : List Nat}
    (hsize : g.size < 2 ^ 32) (hm : Ledger g m buf w) (hmirror : Mirrored g m buf)
    (hrun : Run.run (rawStep h buf) m calls = .ok (rets, m')) :
    ∃ w', Ledger g m' buf w' ∧ Mirrored g m' buf := by
  refine Run.run_keeps (P := fun s => ∃ w', Ledger g s buf w' ∧ Mirrored g s buf) ?_
    ⟨w, hm, hmirror⟩ hrun
  rintro s c ret s' ⟨w', hs, hmir⟩ hstep
  exact hs.step_mirrored hmir (fun _ _ => startsBelow_of_size hsize hs.three_le _) hstep

/-- The tables of a formatted volume mirror each other. -/
theorem Image.mirrored {media : Nat} (hm : Image g media m buf []) : Mirrored g m buf := by
  intro e he
  rw [hm.tables 1 (by decide) e he, hm.tables 0 (by decide) e he]

/-! ## The clusters a call consumes -/

namespace FATConfig

variable (config : FATConfig) (buf : Nat) (m : Mem)

/-- Entry `e` of table `t`. -/
def entryOf (t e : Nat) : Nat :=
  m.load (buf + (8 + t * config.fatSizeInSector) * config.bytesPerSector.toNat + 4 * e) 4

/-- `FSInfo.freeCount`. -/
def freeCount : Nat := m.load (buf + config.bytesPerSector.toNat + FSInfo.freeCount.off) 4

/-- Where root entry `i` begins. -/
def rootEntry (i : Nat) : Nat :=
  buf + (8 + 2 * config.fatSizeInSector) * config.bytesPerSector.toNat + FATDirEntry.size * i

/-- The entries of the root directory, which is one cluster. -/
def rootEntries : Nat := config.clusterBytes / FATDirEntry.size

/-- The number of the first root entry that is not in use. -/
def newIndex : Nat := firstUnused m (config.rootEntry buf 0) config.rootEntries

/-- The first root entry that is not in use. -/
def newEntry : Nat := config.rootEntry buf (config.newIndex buf m)

/-- Between `m` and `m'` exactly `k` clusters were consumed. -/
structure Consumes (m m' : Mem) (k : Nat) : Prop where
  nextFree : config.nextFree buf m' = config.nextFree buf m + k
  freeCount : config.freeCount buf m' + k = config.freeCount buf m
  entries : ∀ t, t < 2 → (List.range config.tableEntries).countP (fun e =>
    config.entryOf buf m t e = 0 ∧ config.entryOf buf m' t e ≠ 0) = k
  firstCluster : k = 0 →
    m'.load (config.newEntry buf m + FATDirEntry.firstClusterHigh.off) 2 = 0 ∧
      m'.load (config.newEntry buf m + FATDirEntry.firstClusterLow.off) 2 = 0

end FATConfig

section

variable {config : FATConfig} (hg : config.Laid g)
include hg

/-- An entry of a table is the word at its place. -/
private theorem entryOf_eq {t e : Nat} (ht : t < 2) :
    config.entryOf buf m t e = m.load (buf + g.table t + 4 * e) 4 := by
  have htable : (8 + t * config.fatSizeInSector) * config.bytesPerSector.toNat = g.table t := by
    obtain rfl | rfl : t = 0 ∨ t = 1 := by omega
    · rw [hg.table_zero, Nat.zero_mul, Nat.add_zero]
    · rw [hg.table_one, Nat.one_mul]
  rw [FATConfig.entryOf, htable]

/-- The counter of free clusters is in the FSInfo block. -/
private theorem freeCount_eq : config.freeCount buf m =
    m.load (buf + g.bytesPerSector + FSInfo.freeCount.off) 4 := by
  rw [FATConfig.freeCount, hg.bytesPerSector]

/-- The next free cluster is in the FSInfo block. -/
theorem nextFree_eq : config.nextFree buf m =
    m.load (buf + g.bytesPerSector + FSInfo.nextFree.off) 4 := by
  rw [FATConfig.nextFree, hg.bytesPerSector]

/-- The clusters of a file, in the terms of the geometry. -/
private theorem clustersOf_eq (size : Nat) :
    config.clustersOf size = (size + g.bytesPerCluster - 1) / g.bytesPerCluster := by
  rw [FATConfig.clustersOf, FATConfig.clusterBytes, hg.bytesPerCluster]

/-- An empty file has none. -/
theorem clustersOf_zero : config.clustersOf 0 = 0 := by
  have hbpc := g.bytesPerCluster_bounds
  rw [clustersOf_eq hg, Nat.zero_add, Nat.div_eq_of_lt (by omega)]

/-- A call turns exactly the entries of the clusters it gives the file from 0 to another
    value, in both tables. -/
theorem Served.entries_count {h : Host} {c : RawCall} {size n t : Nat}
    (hs : Served h g m buf w c size n m') (hm : Ledger g m buf w) (hmirror : Mirrored g m buf)
    (ht : t < 2) : (List.range config.tableEntries).countP (fun e =>
      config.entryOf buf m t e = 0 ∧ config.entryOf buf m' t e ≠ 0) = clustersFor g size := by
  have hroom := hs.room
  have hmax := g.maxCluster_le
  have heoc : eoc ≠ 0 := by decide
  rw [tableEntries_eq hg, List.range_eq_range']
  refine countP_range'_interval (Nat.zero_le w) (by omega) fun e _ he => ?_
  rw [Nat.zero_add] at he
  -- both tables held the same, before the call
  have hold : m.load (buf + g.table t + 4 * e) 4 = m.load (buf + g.table 0 + 4 * e) 4 := by
    obtain rfl | rfl : t = 0 ∨ t = 1 := by omega
    · rfl
    · exact hmirror e he
  simp only [decide_eq_true_eq, entryOf_eq hg ht, hs.entries t ht e he, hold]
  -- the entries of the new file were 0, and are not any more
  by_cases hin : w ≤ e ∧ e < w + clustersFor g size
  · have hzero := hm.free e hin.1 he
    rw [if_pos hin]
    refine iff_of_true ⟨hzero, ?_⟩ hin
    split_ifs
    · exact heoc
    · omega
  · rw [if_neg hin]
    exact iff_of_false (fun hboth => hboth.2 hboth.1) hin

/-- The rounded-up division does not wrap for a file that is accepted. -/
private theorem Served.cdiv_eq {h : Host} {c : RawCall} {size n : Nat}
    (hs : Served h g m buf w c size n m') :
    cdiv size g.bytesPerCluster = config.clustersOf size := by
  have hbpc : 1 ≤ g.bytesPerCluster := Nat.le_trans (by decide) g.bytesPerCluster_bounds.1
  have hle := g.u32_clusters_le (g.maxCluster - w)
  have hfits := hs.fits
  rw [clustersOf_eq hg, Fat.cdiv_eq hbpc (by omega)]

/-- A file that is not empty gets the clusters its size needs. -/
theorem Served.count {h : Host} {c : RawCall} {size n : Nat}
    (hs : Served h g m buf w c size n m') (hpos : 1 ≤ size) :
    clustersFor g size = config.clustersOf size := by
  have hone := (g.cdiv_spec hs.fits).2.2.2 hpos
  rw [clustersFor, ← hs.cdiv_eq hg]
  omega

/-- A file whose size fits in a `uint32_t` and is not 0 gets the clusters it needs. -/
theorem Served.consumes {h : Host} {c : RawCall} {size n : Nat}
    (hs : Served h g m buf w c size n m') (hm : Ledger g m buf w) (hmirror : Mirrored g m buf)
    (hpos : 1 ≤ size) : config.Consumes buf m m' (config.clustersOf size) := by
  have hcdiv := hs.cdiv_eq hg
  have hcount := hs.count hg hpos
  constructor
  · rw [nextFree_eq hg, nextFree_eq hg, hs.ledger.nextFree, hm.nextFree, hcount]
  · rw [freeCount_eq hg, freeCount_eq hg, ← hcdiv]
    exact hs.freeCount
  · intro t ht
    rw [hs.entries_count hg hm hmirror ht, hcount]
  · intro hzero
    have hle : 1 ≤ clustersFor g size := Nat.le_add_left 1 _
    omega

/-- An empty file gets a cluster too, and a file of `2 ^ 32` bytes or more fewer than it
    needs. -/
private theorem Served.size_of_consumes {h : Host} {c : RawCall} {n : Nat} {stSize : UInt64}
    (hs : Served h g m buf w c (u32 stSize.toNat) n m') (hm : Ledger g m buf w)
    (hsize : g.size < 2 ^ 32)
    (hcons : config.Consumes buf m m' (config.clustersOf stSize.toNat)) :
    1 ≤ stSize.toNat ∧ stSize.toNat < 2 ^ 32 := by
  have hbpc := g.bytesPerCluster_bounds
  have hnext := hcons.nextFree
  rw [nextFree_eq hg, nextFree_eq hg, hs.ledger.nextFree, hm.nextFree] at hnext
  have hcount : 1 ≤ clustersFor g (u32 stSize.toNat) := Nat.le_add_left 1 _
  have hk := clustersOf_eq hg stSize.toNat
  refine ⟨?_, ?_⟩
  · by_contra hzero
    have h0 : stSize.toNat = 0 := by omega
    rw [h0] at hnext hcount
    have hzero := clustersOf_zero hg
    omega
  · by_contra hbig
    -- so many clusters do not fit below `maxCluster`
    have hlast := g.cluster_add (Nat.le_refl 2) g.maxCluster
    have hend := g.cluster_end_le
    rw [Nat.add_comm 2] at hlast
    have hmax : g.maxCluster * g.bytesPerCluster < 2 ^ 32 := by omega
    have hle : config.clustersOf stSize.toNat ≤ g.maxCluster := by
      have hroom := hs.room
      omega
    rw [hk] at hle
    have hmul := Nat.mul_le_mul_right g.bytesPerCluster hle
    have hdiv := Nat.div_add_mod (stSize.toNat + g.bytesPerCluster - 1) g.bytesPerCluster
    have hmod := Nat.mod_lt (stSize.toNat + g.bytesPerCluster - 1)
      (show g.bytesPerCluster > 0 by omega)
    rw [Nat.mul_comm] at hdiv
    omega

end

/-- On a reachable volume a call that succeeds consumes exactly the clusters the file
    needs if and only if the file is not empty and its size fits in a `uint32_t`. -/
theorem copyin_consumes_iff (h : Host) (m₀ m₁ m : Mem) (buf : Nat) (config : FATConfig)
    (hcreate : createFAT32 h m₀ buf config = .ok (0, m₁))
    (hsize : config.nSector.toNat * config.bytesPerSector.toNat < 2 ^ 32) (calls : List RawCall)
    (rets : List Nat) (hrun : Run.run (rawStep h buf) m₁ calls = .ok (rets, m)) (c : RawCall)
    (stSize : UInt64) (hstat : c.fd.fstat = .ok stSize) (ret : Nat) (m' : Mem)
    (hstep : rawStep h buf m c = .ok (ret, m')) (hret : ret ≠ 0) :
    config.Consumes buf m m' (config.clustersOf stSize.toNat) ↔
      1 ≤ stSize.toNat ∧ stSize.toNat < 2 ^ 32 := by
  have ha := createFAT32_accepted hcreate
  have hs := ha.addressable hsize
  have hg := config.geometry_laid ha hs
  have himage := createFAT32_image hcreate ha hs
  obtain ⟨g, hgEq⟩ : ∃ g, g = config.geometry ha hs := ⟨_, rfl⟩
  rw [← hgEq] at hg himage
  have hgsize : g.size < 2 ^ 32 := by rwa [hg.size]
  obtain ⟨w, hm, hmirror⟩ := himage.ledger.run_mirrored hgsize himage.mirrored hrun
  obtain ⟨stSize', n, hstat', hserved⟩ := hm.served
    (fun _ _ => startsBelow_of_size hgsize hm.three_le _) hstep hret
  obtain rfl := Except.ok.inj (hstat.symm.trans hstat')
  -- what is consumed says what the size is, and a size that fits is consumed
  constructor
  · exact fun hcons => hserved.size_of_consumes hg hm hgsize hcons
  · rintro ⟨hpos, hlt⟩
    have hu32 := u32_of_lt hlt
    rw [hu32] at hserved
    exact hserved.consumes hg hm hmirror hpos

/-- A file of one byte takes one cluster. -/
theorem copyin_consumes_iff_small :
    ∃ m₁ m', createFAT32 .little (fun _ => 0xFF) 0 smallVolume = .ok (0, m₁) ∧
      rawStep .little 0 m₁ smallCall.raw = .ok (11, m') ∧
      smallVolume.Consumes 0 m₁ m' (smallVolume.clustersOf 1) := by
  obtain ⟨m₁, m', hcreate, hrun⟩ := smallVolume_run
  have hraw := (run_raw .little 0 m₁ [smallCall]).trans hrun
  obtain ⟨ret, m₂, rets, hstep, hnil, hrets⟩ := Run.run_cons.mp hraw
  cases hnil
  cases hrets
  exact ⟨m₁, m', hcreate, hstep, (copyin_consumes_iff .little (fun _ => 0xFF) m₁ m₁ 0 smallVolume
    hcreate (by decide) [] [] rfl smallCall.raw 1 rfl 11 m' hstep (by decide)).mpr (by decide)⟩

/-- An empty file, `"a"`. -/
def emptyCall : RawCall := ⟨Fd.ofBytes [], smallCall.name.toCString, 0⟩

/-- On the smallest volume an empty file takes a cluster, though it needs none. -/
theorem smallVolume_empty :
    ∃ m₁ ret m', createFAT32 .little (fun _ => 0xFF) 0 smallVolume = .ok (0, m₁) ∧
      rawStep .little 0 m₁ emptyCall = .ok (ret, m') ∧ ret ≠ 0 ∧ smallVolume.clustersOf 0 = 0 ∧
      ¬ smallVolume.Consumes 0 m₁ m' (smallVolume.clustersOf 0) := by
  have hcreate := createFAT32_eq .little (fun _ => 0xFF) 0 smallVolume_accepted
    smallVolume_addressable
  have himage := createFAT32_image hcreate smallVolume_accepted smallVolume_addressable
  have hg := smallVolume.geometry_laid smallVolume_accepted smallVolume_addressable
  have hgsize : (smallVolume.geometry smallVolume_accepted smallVolume_addressable).size < 2 ^ 32 :=
    by decide
  have hm := himage.ledger
  have hslot := himage.rootHasRoom_iff.mpr (by decide)
  have hstat : emptyCall.fd.fstat = .ok 0 := rfl
  -- the empty file is served
  obtain ⟨m', hcall, -⟩ := hm.copyin_places .little emptyCall.name emptyCall.attr hstat
    (startsBelow_of_size hgsize hm.three_le _) (Nat.zero_le _) hslot rfl rfl (by decide)
  have hstep : rawStep .little 0 _ emptyCall = .ok (11, m') := rawStep_ok.mpr ⟨_, hcall, rfl, rfl⟩
  refine ⟨_, 11, m', hcreate, hstep, by decide, by decide, fun hcons => ?_⟩
  obtain ⟨stSize, n, hstat', hserved⟩ := hm.served
    (fun _ _ => startsBelow_of_size hgsize hm.three_le _) hstep (by decide)
  obtain rfl := Except.ok.inj (hstat.symm.trans hstat')
  -- it would have to consume no cluster, but it took one
  exact absurd (hserved.size_of_consumes hg hm hgsize hcons).1 (by decide)

end Tlibc.Fat
