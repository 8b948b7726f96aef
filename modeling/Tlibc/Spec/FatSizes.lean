import Tlibc.Spec.FatNames

/-!
# The size of a file

A call takes the size `fstat` reports, which has 64 bits, as a `uint32_t`.

* `copyin_size_iff`: a call that succeeds records the file's size and links the
  clusters it needs exactly when that size is not 0 and fits
-/

namespace Tlibc.Fat

variable {g : Geometry} {m m' : Mem} {buf w : Nat}

/-- Between `m` and `m'` a file of `size` bytes was recorded with its size, in as many
    clusters as it needs, and it was not too large for them or for its field. -/
structure SizeKept (config : FATConfig) (buf : Nat) (m m' : Mem) (size : Nat) : Prop where
  fileSize : m'.load (config.newEntry buf m + FATDirEntry.fileSize.off) 4 = size
  linked : ∀ t, t < 2 → (List.range config.tableEntries).countP (fun e =>
    config.entryOf buf m t e = 0 ∧ config.entryOf buf m' t e ≠ 0) = config.clustersOf size
  fits : config.clustersOf size ≤ config.unallocated buf m
  lt : size < 2 ^ 32

/-- The size is stored last, so no name runs over it. -/
private theorem storeDirEntry_fileSize (h : Host) (m : Mem) (entry : Nat) (name : CString)
    (attr nextFree fobjSize : Nat) (hlt : fobjSize < 2 ^ 32) :
    (storeDirEntry h m entry name attr nextFree fobjSize).load
      (entry + FATDirEntry.fileSize.off) 4 = fobjSize := by
  simp only [storeDirEntry, Host.storeLe_eq]
  exact Mem.load_write_of_lt hlt

section

variable {config : FATConfig} (hg : config.Laid g) {h : Host} {c : RawCall}
include hg

/-- What a call that succeeds records is the size as a `uint32_t`. -/
private theorem Served.fileSize {size n : Nat} (hs : Served h g m buf w c size n m')
    (hlt : size < 2 ^ 32) :
    m'.load (config.newEntry buf m + FATDirEntry.fileSize.off) 4 = size := by
  have hoff : FATDirEntry.fileSize.off = 28 := rfl
  rw [FATConfig.newEntry, newIndex_eq hg hs.used]
  rw [← storeDirEntry_fileSize h m (config.rootEntry buf n) c.name c.attr w size hlt]
  apply Mem.load_congr
  intro i hi
  rw [hoff, Nat.add_assoc]
  exact hs.entry hg (by omega)

private theorem Served.sizeKept_iff {stSize n : Nat} (hs : Served h g m buf w c (u32 stSize) n m')
    (hm : Ledger g m buf w) (hmirror : Mirrored g m buf) :
    SizeKept config buf m m' stSize ↔ 1 ≤ stSize ∧ stSize < 2 ^ 32 := by
  constructor
  · intro hk
    refine ⟨?_, hk.lt⟩
    by_contra hzero
    -- an empty file is given a cluster
    have hlinked := hk.linked 0 (by decide)
    have hcount : 1 ≤ clustersFor g (u32 stSize) := Nat.le_add_left 1 _
    have hnone : config.clustersOf stSize = 0 := by
      rw [show stSize = 0 by omega]
      exact clustersOf_zero hg
    rw [hs.entries_count hg hm hmirror (by decide)] at hlinked
    omega
  · rintro ⟨hpos, hlt⟩
    have hu32 : u32 stSize = stSize := u32_of_lt hlt
    rw [hu32] at hs
    have hcount := hs.count hg hpos
    refine ⟨hs.fileSize hg hlt, fun t ht => ?_, ?_, hlt⟩
    · rw [hs.entries_count hg hm hmirror ht, hcount]
    · have hroom := hs.room
      rw [hm.unallocated_eq hg, dataClusters_eq hg]
      omega

/-- A run of calls on addressable clusters keeps the ledger and the mirror. -/
private theorem Ledger.run_mirrored_of_meets {calls : List RawCall} {rets : List Nat}
    (hm : Ledger g m buf w) (hmirror : Mirrored g m buf)
    (hrun : Run.run (rawStep h buf) m calls = .ok (rets, m'))
    (hmeets : Run.Meets (rawStep h buf) (config.StartsAddressable buf) m calls) :
    ∃ w', Ledger g m' buf w' ∧ Mirrored g m' buf := by
  refine hmeets.run_keeps (P := fun s => ∃ w', Ledger g s buf w' ∧ Mirrored g s buf) ?_
    ⟨w, hm, hmirror⟩ hrun
  rintro s c ret s' ⟨w', hs, hmir⟩ hstart hstep
  exact hs.step_mirrored hmir (fun _ _ => startsBelow_of_addressable hg hs hstart _) hstep

end

/-- After every run of calls on clusters that can be addressed, a call that succeeds
    keeps the size of its file if and only if the file is not empty and its size fits
    in a `uint32_t`. -/
theorem copyin_size_iff (h : Host) (m₀ m₁ m : Mem) (buf : Nat) (config : FATConfig)
    (hcreate : createFAT32 h m₀ buf config = .ok (0, m₁)) (hs : config.Addressable)
    (calls : List RawCall) (rets : List Nat)
    (hrun : Run.run (rawStep h buf) m₁ calls = .ok (rets, m))
    (hmeets : Run.Meets (rawStep h buf) (config.StartsAddressable buf) m₁ calls) (c : RawCall)
    (hstart : config.StartsAddressable buf m c) (stSize : UInt64)
    (hstat : c.fd.fstat = .ok stSize) (ret : Nat) (m' : Mem)
    (hstep : rawStep h buf m c = .ok (ret, m')) (hret : ret ≠ 0) :
    SizeKept config buf m m' stSize.toNat ↔ 1 ≤ stSize.toNat ∧ stSize.toNat < 2 ^ 32 := by
  have ha := createFAT32_accepted hcreate
  have hg := config.geometry_laid ha hs
  have himage := createFAT32_image hcreate ha hs
  -- up to the call the tables are intact
  obtain ⟨w, hm, hmirror⟩ := himage.ledger.run_mirrored_of_meets hg himage.mirrored hrun hmeets
  -- the call is served, and then the size is kept or not
  obtain ⟨stSize', n, hstat', hserved⟩ := hm.served
    (fun _ _ => startsBelow_of_addressable hg hm hstart _) hstep hret
  obtain rfl := Except.ok.inj (hstat.symm.trans hstat')
  exact hserved.sizeKept_iff hg hm hmirror

theorem copyin_size_iff_small :
    ∃ m₁ m', createFAT32 .little (fun _ => 0xFF) 0 smallVolume = .ok (0, m₁) ∧
      rawStep .little 0 m₁ smallCall.raw = .ok (11, m') ∧ SizeKept smallVolume 0 m₁ m' 1 := by
  obtain ⟨m₁, m', hcreate, hrun⟩ := smallVolume_run
  have hraw := (run_raw .little 0 m₁ [smallCall]).trans hrun
  obtain ⟨ret, m₂, rets, hstep, hnil, hrets⟩ := Run.run_cons.mp hraw
  cases hnil
  cases hrets
  have himage := createFAT32_image hcreate smallVolume_accepted smallVolume_addressable
  exact ⟨m₁, m', hcreate, hstep, (copyin_size_iff .little (fun _ => 0xFF) m₁ m₁ 0 smallVolume
    hcreate smallVolume_addressable [] [] rfl trivial smallCall.raw
    (smallVolume_starts himage.nextFree) 1 rfl 11 m' hstep (by decide)).mpr (by decide)⟩

/-- A file of `2 ^ 32 + 1` bytes, `"a"`. -/
def hugeCall : RawCall where
  fd := { Fd.ofBytes [7] with fstat := .ok 4294967297 }
  name := smallCall.name.toCString
  attr := 0

/-- The smallest volume takes a file of `2 ^ 32 + 1` bytes, as one of a single byte. -/
theorem smallVolume_huge :
    ∃ m₁ ret m', createFAT32 .little (fun _ => 0xFF) 0 smallVolume = .ok (0, m₁) ∧
      rawStep .little 0 m₁ hugeCall = .ok (ret, m') ∧ ret ≠ 0 ∧
      hugeCall.fd.fstat = .ok 4294967297 ∧
      m'.load (smallVolume.newEntry 0 m₁ + FATDirEntry.fileSize.off) 4 = 1 ∧
      ¬ SizeKept smallVolume 0 m₁ m' 4294967297 := by
  have hcreate := createFAT32_eq .little (fun _ => 0xFF) 0 smallVolume_accepted
    smallVolume_addressable
  have himage := createFAT32_image hcreate smallVolume_accepted smallVolume_addressable
  have hg := smallVolume.geometry_laid smallVolume_accepted smallVolume_addressable
  have hgsize : (smallVolume.geometry smallVolume_accepted smallVolume_addressable).size < 2 ^ 32 :=
    by decide
  have hm := himage.ledger
  have hslot := himage.rootHasRoom_iff.mpr (by decide)
  have hstat : hugeCall.fd.fstat = .ok 4294967297 := rfl
  -- the call is served as one of a single byte
  obtain ⟨m', hcall, -⟩ := hm.copyin_places .little hugeCall.name hugeCall.attr hstat
    (startsBelow_of_size hgsize hm.three_le _) (by decide) hslot rfl rfl (by decide)
  have hstep : rawStep .little 0 _ hugeCall = .ok (11, m') := rawStep_ok.mpr ⟨_, hcall, rfl, rfl⟩
  obtain ⟨stSize, n, hstat', hserved⟩ := hm.served
    (fun _ _ => startsBelow_of_size hgsize hm.three_le _) hstep (by decide)
  obtain rfl := Except.ok.inj (hstat.symm.trans hstat')
  -- that is the size in its entry
  exact ⟨_, 11, m', hcreate, hstep, by decide, hstat, hserved.fileSize hg (by decide),
    fun hk => absurd hk.lt (by decide)⟩

end Tlibc.Fat
