import Tlibc.Spec.FatCapacity

/-!
# The chain of the root directory

`FAT32SuperInit` follows the links of the first table from entry 2 on, until it
meets `0xFFFFFFFF`. It checks no link.

* `superInit_eq`: behind a boot sector that `createFAT32` writes, the loop decides
  whether the call returns
* `superInit_chain_iff`: it returns, and reads inside the table only, when there is
  a path of different entries to the mark
-/

namespace Tlibc.Fat

variable {m : Mem} {buf : Nat} {config : FATConfig}

/-- The boot sector at `buf` is the one `createFAT32` stores. -/
def FATConfig.HasBPB (config : FATConfig) (h : Host) (m : Mem) (buf : Nat) : Prop :=
  ∀ i, i < BPB.size → m (buf + i) = storeBPB h (fun _ => 0) buf config (buf + i)

/-- The boot sector is stored without looking at what was there. -/
theorem storeBPB_congr (h : Host) {m m' : Mem} (config : FATConfig) {i : Nat} (hi : i < 512) :
    storeBPB h m' buf config (buf + i) = storeBPB h m buf config (buf + i) := by
  rw [storeBPB_eq, storeBPB_eq]
  apply Mem.writeAll_congr
  rw [Mem.fill_apply_in (by omega) (by omega), Mem.fill_apply_in (by omega) (by omega)]

private theorem FATConfig.HasBPB.load {h : Host} (hb : config.HasBPB h m buf) {off n v : Nat}
    (hs : (off, Mem.leBytes n v) ∈ bpbStores config) (hoff : off + n ≤ 512) (hv : v < 256 ^ n) :
    m.load (buf + off) n = v := by
  have hsame : m.load (buf + off) n = (storeBPB h (fun _ => 0) buf config).load (buf + off) n := by
    apply Mem.load_congr
    intro i hi
    rw [Nat.add_assoc]
    exact hb (off + i) (show off + i < 512 by omega)
  rw [hsame, storeBPB_eq, Mem.load_writeAll (bpbStores_ascending config).apart hs,
    Nat.mod_eq_of_lt hv]

/-- Even when it wraps, `CDIV` computes no more than the quotient rounded up. -/
private theorem cdiv_le {a b : Nat} (hb : 1 ≤ b) : cdiv a b ≤ (a + b - 1) / b := by
  rw [cdiv, sub32, u32, u32]
  apply Nat.div_le_div_right
  omega

/-- The computed tables end inside the volume, whether or not `CDIV` wrapped. -/
private theorem FATConfig.Accepted.fat_le (ha : config.Accepted) :
    8 + 2 * config.fatSizeInSector < config.nSector.toNat := by
  have hle : config.fatSizeInSector ≤ config.tableSectors :=
    cdiv_le (Nat.le_trans (by decide) ha.entries_pos.1)
  have hroot := ha.root_le
  have hc := ha.clusterSize
  simp only [List.mem_cons, List.not_mem_nil, or_false] at hc
  omega

/-- A bind that goes on without failing is a map. -/
private theorem bind_ok_eq_map {α β ε : Type} (x : Except ε α) (f : α → β) :
    (x >>= fun a => .ok (f a)) = x.map f := by
  cases x <;> rfl

/-- Behind its boot sector `FAT32SuperInit` fails only in the loop over the chain. -/
theorem superInit_eq {h : Host} (ha : config.Accepted) (hb : config.HasBPB h m buf) :
    ∃ f, fat32SuperInit h m buf =
      (rootChain h m (buf + 8 * config.bytesPerSector.toNat) (2 ^ 32)
        (config.tableEntryAt buf m 2) 1).map f := by
  have hbps := ha.bytesPerSector_bounds
  have hfat := ha.fat_le
  have hns := config.nSector.toNat_lt
  have hc := ha.clusterSize
  simp only [List.mem_cons, List.not_mem_nil, or_false] at hc
  have h11 := hb.load (show (11, Mem.leBytes 2 config.bytesPerSector.toNat) ∈ _ by simp [bpbStores])
    (by decide) (by omega)
  have h13 := hb.load (show (13, Mem.leBytes 1 config.clusterSize.toNat) ∈ _ by simp [bpbStores])
    (by decide) (by omega)
  have h14 := hb.load (show (14, Mem.leBytes 2 8) ∈ _ by simp [bpbStores]) (by decide) (by decide)
  have h16 := hb.load (show (16, Mem.leBytes 1 2) ∈ _ by simp [bpbStores]) (by decide) (by decide)
  have h32 := hb.load (show (32, Mem.leBytes 4 config.nSector.toNat) ∈ _ by simp [bpbStores])
    (by decide) hns
  have h36 := hb.load (show (36, Mem.leBytes 4 config.fatSizeInSector) ∈ _ by simp [bpbStores])
    (by decide) (by omega)
  have h44 := hb.load (show (44, Mem.leBytes 4 2) ∈ _ by simp [bpbStores]) (by decide) (by decide)
  have htable : u32 (config.bytesPerSector.toNat * 8) = 8 * config.bytesPerSector.toNat :=
    ha.sectorOffset (Nat.le_refl 8)
  -- the root directory's sector exists
  have hroot : ¬ config.nSector.toNat ≤ u32 (8 + u32 (config.fatSizeInSector * 2)) := by
    rw [u32, u32]
    omega
  unfold fat32SuperInit
  simp only [Host.loadLe_eq, Width.bytes, BPB.bytesPerSector, BPB.numSectorPerCluster,
    BPB.fatSize32, BPB.numSectors32, BPB.numReservedSectors, BPB.numAllocTable, BPB.rootCluster,
    tableEntry, h11, h13, h14, h16, h32, h36, h44, htable,
    ensure_of (show config.clusterSize.toNat ≠ 0 by omega), ensure_of (show 2 ≤ 4 by decide),
    Run.ok_bind, fat32SuperGetSector, if_neg hroot, ne_eq, reduceCtorEq, not_false_eq_true, or_true,
    ensure_of trivial]
  exact ⟨_, bind_ok_eq_map _ _⟩

/-- Within its fuel the loop ends exactly on the walks that do. -/
private theorem rootChain_ok_iff {h : Host} {table : Nat} {next : Nat → Nat}
    (hnext : ∀ e, h.loadLe m table (tableEntry e) = next e) (fuel c k : Nat) :
    (∃ r, rootChain h m table fuel (next c) k = .ok r) ↔
      ∃ l, Chain.Path eoc next c l ∧ l.length ≤ fuel := by
  -- induction on the fuel, which the chain must not exceed
  induction fuel generalizing c k with
  | zero =>
    constructor
    · rintro ⟨r, hr⟩
      cases hr
    · rintro ⟨l, hl, hlen⟩
      cases hl <;> exact absurd hlen (Nat.not_succ_le_zero _)
  | succ fuel ih =>
    rw [rootChain, show (0xFFFFFFFF : Nat) = eoc from rfl]
    -- the entry ends the chain, or it is the next cluster
    by_cases hlast : next c = eoc
    · rw [if_pos hlast]
      exact iff_of_true ⟨k, rfl⟩ ⟨[c], .done hlast, Nat.le_add_left 1 fuel⟩
    · rw [if_neg hlast, hnext, ih (next c)]
      constructor
      · rintro ⟨l, hl, hlen⟩
        exact ⟨c :: l, .step hlast hl, Nat.succ_le_succ hlen⟩
      · rintro ⟨l, hl, hlen⟩
        cases hl with
        | done hdone => exact absurd hdone hlast
        | step _ tail => exact ⟨_, tail, Nat.le_of_succ_le_succ hlen⟩

/-- A walk through a table of 32-bit numbers is short enough for the loop's fuel. -/
private theorem rootPath_length {l : List Nat}
    (h : Chain.Path eoc (config.tableEntryAt buf m) 2 l) :
    l.length ≤ 2 ^ 32 := by
  apply h.length_le
  intro d hd
  have hlink : ∀ e, config.tableEntryAt buf m e < 2 ^ 32 := fun e => Mem.load_lt _ _ 4
  have hvisit := h.visits_iff.mpr hd
  cases hvisit with
  | start => decide
  | step _ _ => exact hlink _

/-- So behind its boot sector the call returns exactly when the walk from entry 2
    ends. -/
private theorem superInit_ok_iff {h : Host} (ha : config.Accepted) (hb : config.HasBPB h m buf) :
    (∃ sb, fat32SuperInit h m buf = .ok sb) ↔
      ∃ l, Chain.Path eoc (config.tableEntryAt buf m) 2 l := by
  obtain ⟨f, hinit⟩ := superInit_eq ha hb
  have hnext : ∀ e, h.loadLe m (buf + 8 * config.bytesPerSector.toNat) (tableEntry e) =
      config.tableEntryAt buf m e := fun e => h.loadLe_eq m _ _
  have hloop := rootChain_ok_iff hnext (2 ^ 32) 2 1
  -- the other fields are read without a loop
  have hmap : (∃ sb, fat32SuperInit h m buf = .ok sb) ↔
      ∃ r, rootChain h m (buf + 8 * config.bytesPerSector.toNat) (2 ^ 32)
        (config.tableEntryAt buf m 2) 1 = .ok r := by
    rw [hinit]
    cases rootChain h m (buf + 8 * config.bytesPerSector.toNat) (2 ^ 32)
      (config.tableEntryAt buf m 2) 1 <;> simp [Except.map]
  rw [hmap, hloop]
  constructor
  · rintro ⟨l, hl, -⟩
    exact ⟨l, hl⟩
  · -- a chain that ends visits no cluster twice, and so it is shorter than `2 ^ 32`
    rintro ⟨l, hl⟩
    exact ⟨l, hl, rootPath_length hl⟩

/-- `FAT32SuperInit` returns, and every entry it reads on the way is one of the first
    table. -/
structure ChainFollowed (h : Host) (config : FATConfig) (m : Mem) (buf : Nat) : Prop where
  returns : ∃ sb, fat32SuperInit h m buf = .ok sb
  inTable : ∀ e, Chain.Visits eoc (config.tableEntryAt buf m) 2 e → e < config.tableEntries

/-- Whatever the tables hold behind a boot sector of `createFAT32`, the root
    directory's chain is followed to its end inside the first table exactly when
    different entries of that table link entry 2 to the mark. -/
theorem superInit_chain_iff (h : Host) (config : FATConfig) (ha : config.Accepted) (m : Mem)
    (buf : Nat) (hb : config.HasBPB h m buf) :
    ChainFollowed h config m buf ↔
      ∃ l : List Nat, l.Nodup ∧ (∀ e ∈ l, e < config.tableEntries) ∧
        Chain.Path eoc (config.tableEntryAt buf m) 2 l := by
  constructor
  · rintro ⟨hreturns, hin⟩
    obtain ⟨l, hl⟩ := (superInit_ok_iff ha hb).mp hreturns
    exact ⟨l, hl.nodup, fun e he => hin e (hl.visits_iff.mpr he), hl⟩
  · rintro ⟨l, -, hin, hl⟩
    exact ⟨(superInit_ok_iff ha hb).mpr ⟨l, hl⟩, fun e he => hin e (hl.visits_iff.mp he)⟩

/-- The boot sector of the smallest volume, with `v` in entry 2 of the first table. -/
def linkedVolume (v : Nat) : Mem :=
  (storeBPB .little (fun _ => 0) 0 smallVolume).write 4104 (Mem.leBytes 4 v)

private theorem linkedVolume_hasBPB (v : Nat) : smallVolume.HasBPB .little (linkedVolume v) 0 := by
  intro i hi
  have hi : i < 512 := hi
  exact Mem.write_apply_out (.inl (by omega))

private theorem linkedVolume_entry {v : Nat} (hv : v < 2 ^ 32) :
    smallVolume.tableEntryAt 0 (linkedVolume v) 2 = v :=
  Mem.load_write_of_lt hv

theorem superInit_chain_iff_small : ChainFollowed .little smallVolume (linkedVolume eoc) 0 :=
  (superInit_chain_iff .little smallVolume smallVolume_accepted (linkedVolume eoc) 0
    (linkedVolume_hasBPB eoc)).mpr
      ⟨[2], by decide, by decide, .done (linkedVolume_entry (by decide))⟩

/-- An entry that holds its own number keeps `FAT32SuperInit` in its loop. -/
theorem linkedVolume_loops :
    smallVolume.Accepted ∧ smallVolume.HasBPB .little (linkedVolume 2) 0 ∧
      ¬ ChainFollowed .little smallVolume (linkedVolume 2) 0 := by
  refine ⟨smallVolume_accepted, linkedVolume_hasBPB 2, fun hfollowed => ?_⟩
  have hentry : smallVolume.tableEntryAt 0 (linkedVolume 2) 2 = 2 := linkedVolume_entry (by decide)
  obtain ⟨l, hl⟩ :=
    (superInit_ok_iff smallVolume_accepted (linkedVolume_hasBPB 2)).mp hfollowed.returns
  -- a walk from entry 2 would contain itself
  cases hl with
  | done hlast =>
    rw [hentry] at hlast
    exact absurd hlast (by decide)
  | step hne tail =>
    have hloop := tail
    rw [hentry] at hloop
    have hlen := congrArg List.length (hloop.unique (.step hne tail))
    simp at hlen

end Tlibc.Fat
