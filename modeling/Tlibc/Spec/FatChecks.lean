import Tlibc.Spec.FatCreate

/-!
# The checks of `createFAT32`

Each field of a config is checked on its own; the sizes combine them.

* `createFAT32_checks_iff`: when the checks leave nothing for the assertion to catch
  and nothing that wraps
-/

namespace Tlibc.Fat

/-- The table size and the offsets and lengths in bytes that `createFAT32` computes
    are the numbers they stand for. -/
structure FATConfig.SizesExact (config : FATConfig) : Prop where
  fatSizeInSector : config.fatSizeInSector = config.tableSectors
  firstTable : u32 (config.bytesPerSector.toNat * numReservedSector) =
    8 * config.bytesPerSector.toNat
  tablesLength : u32 (config.bytesPerSector.toNat * config.numFATSector) =
    2 * config.tableSectors * config.bytesPerSector.toNat
  secondTable : u32 (config.bytesPerSector.toNat *
    u32 (numReservedSector + config.fatSizeInSector)) =
      (8 + config.tableSectors) * config.bytesPerSector.toNat
  dataOffset : config.dataOffset =
    (8 + 2 * config.tableSectors) * config.bytesPerSector.toNat

/-- The call rejects its config and leaves the memory alone, or creates a volume with
    sizes that are exact. -/
def Checked (h : Host) (m : Mem) (buf : Nat) (config : FATConfig) : Prop :=
  ∃ ret m', createFAT32 h m buf config = .ok (ret, m') ∧
    ((ret ≠ 0 ∧ m' = m) ∨ (ret = 0 ∧ config.SizesExact))

/-- Tables that end below byte `2 ^ 32` have exact sizes. -/
private theorem FATConfig.Accepted.sizesExact {config : FATConfig} (ha : config.Accepted)
    (hs : config.Addressable) : config.SizesExact := by
  have hg := config.geometry_laid ha hs
  obtain ⟨g, hgEq⟩ : ∃ g, g = config.geometry ha hs := ⟨_, rfl⟩
  rw [← hgEq] at hg
  have htable : config.tableSectors = g.fatSize := by rw [hgEq]; rfl
  have hfat : g.bytesPerFAT = g.fatSize * g.bytesPerSector := rfl
  constructor
  · exact ha.fatSizeInSector_eq hs
  · rw [hg.firstTable, g.table_zero, hg.bytesPerSector]
  · rw [hg.tablesLength, htable, ← hg.bytesPerSector, hfat, Nat.mul_assoc]
  · rw [hg.secondTable, hg.table_one, ha.fatSizeInSector_eq hs]
  · rw [hg.dataOffset, g.root_eq, htable, ← hg.bytesPerSector, Geometry.numFAT, Nat.mul_comm 2]

/-- A config that fails a check is rejected. -/
private theorem createFAT32_rejects (h : Host) (m : Mem) (buf : Nat) {config : FATConfig}
    (hv : config.valid = false) : createFAT32 h m buf config = .ok (1, m) := by
  rw [createFAT32, hv]
  rfl

/-- One that passes them all is not. -/
private theorem createFAT32_ret {h : Host} {m m' : Mem} {buf ret : Nat} {config : FATConfig}
    (hv : config.valid = true) (hcreate : createFAT32 h m buf config = .ok (ret, m')) :
    ret = 0 := by
  rw [createFAT32] at hcreate
  simp only [hv, Bool.not_true, Bool.false_eq_true, if_false] at hcreate
  obtain ⟨_, -, hrest⟩ := Run.bind_eq_ok.mp hcreate
  exact (Prod.mk.inj (Except.ok.inj hrest)).1.symm

/-- Whatever the memory, `createFAT32` ends well exactly when the config fails a
    check, or has more than two clusters and tables that end below byte `2 ^ 32`. -/
theorem createFAT32_checks_iff (h : Host) (m : Mem) (buf : Nat) (config : FATConfig) :
    Checked h m buf config ↔ config.valid = false ∨
      (2 < config.nSector.toNat / config.clusterSize.toNat ∧
        (8 + 2 * config.tableSectors) * config.bytesPerSector.toNat < 2 ^ 32) := by
  constructor
  · rintro ⟨ret, m', hcreate, hend⟩
    cases hv : config.valid with
    | false => exact .inl rfl
    | true =>
      right
      obtain rfl := createFAT32_ret hv hcreate
      have hexact : config.SizesExact := by
        rcases hend with ⟨hne, -⟩ | ⟨-, hexact⟩
        · exact absurd rfl hne
        · exact hexact
      refine ⟨(createFAT32_accepted hcreate).clusters, ?_⟩
      -- the root directory's offset is a `uint32_t`
      rw [← hexact.dataOffset, FATConfig.dataOffset]
      exact u32_lt _
  · rintro (hv | ⟨hclusters, hs⟩)
    · exact ⟨1, m, createFAT32_rejects h m buf hv, .inl ⟨by decide, rfl⟩⟩
    · cases hv : config.valid with
      | false => exact ⟨1, m, createFAT32_rejects h m buf hv, .inl ⟨by decide, rfl⟩⟩
      | true =>
        simp only [FATConfig.valid, Bool.and_eq_true, decide_eq_true_eq, List.contains_iff_mem]
          at hv
        have ha : config.Accepted := ⟨hv.1.1, hv.1.2, hv.2, hclusters⟩
        exact ⟨0, _, createFAT32_eq h m buf ha hs, .inr ⟨rfl, ha.sizesExact hs⟩⟩

/-- Sixteen sectors in clusters of eight pass every check and fail the assertion. -/
theorem createFAT32_aborts :
    (⟨16, 512, 8, true⟩ : FATConfig).valid = true ∧
      createFAT32 .little (fun _ => 0) 0 ⟨16, 512, 8, true⟩ =
        .error (.assert .tooFewClusters) ∧
      ¬ Checked .little (fun _ => 0) 0 ⟨16, 512, 8, true⟩ := by
  have habort : createFAT32 .little (fun _ => 0) 0 ⟨16, 512, 8, true⟩ =
    .error (.assert .tooFewClusters) := rfl
  refine ⟨by decide, habort, ?_⟩
  rintro ⟨ret, m', hcreate, -⟩
  rw [habort] at hcreate
  cases hcreate

end Tlibc.Fat
