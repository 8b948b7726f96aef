import Tlibc.Lib.Placement
import Tlibc.Native.Gpt
import Mathlib.Order.Bounds.Basic
import Mathlib.Order.CompletePartialOrder
import Mathlib.Order.Interval.Set.Disjoint

/-!
# Partition placement of `GPTGenerate`

The allocation loop keeps a running start and a running remainder in unsigned
64-bit integers. Here it is shown to be the greedy placement of
`Placement.fit`: the loop's `ret` is the length of the longest prefix of the
requested volumes that fits, and partition `i` starts at `Placement.startOf`.

`gptGenerate_places_greedily` is the statement about whole calls.
-/

namespace Tlibc.Gpt

/-- The requested volumes, in sectors. -/
def volumes (ps : List PartitionConfig) : List Nat := ps.map fun p => p.volume.toNat

/-- `ps` laid one after another from `start` on. -/
def placed (start : Nat) : List PartitionConfig → List PartitionConfig
  | [] => []
  | p :: ps => { p with startLBA := UInt64.ofNat start } :: placed (start + p.volume.toNat) ps

namespace GPTConfig

/-- The sectors of the entry array: `numPart / 4`, rounded up. -/
def arraySectors (config : GPTConfig) : Nat := (config.numPart.toNat + 3) / 4

/-- The sectors partitions may be placed in. -/
def room (config : GPTConfig) : Nat := config.volume.toNat - 4 - config.arraySectors

/-- How many partitions fit. -/
def fitting (config : GPTConfig) : Nat := Placement.fit config.room (volumes config.partitions)

/-- The sectors that hold the protective MBR, the primary header, the entry array,
    the reserved sector and the backup header. -/
def metadata (config : GPTConfig) : Set Nat :=
  {s | s = 0 ∨ s = 1 ∨ (2 ≤ s ∧ s < 2 + config.arraySectors) ∨
    s = config.volume.toNat - 2 ∨ s = config.volume.toNat - 1}

end GPTConfig

/-- The sectors a placed partition occupies. -/
def PartitionConfig.sectors (p : PartitionConfig) : Set Nat :=
  Set.Ico p.startLBA.toNat (p.startLBA.toNat + p.volume.toNat)

/-- The partitions a call created. -/
def GPTResult.created (r : GPTResult) : List PartitionConfig := r.partitions.take r.ret.toNat

/-! ## The size check -/

/-- The sectors of the entry array do not wrap around. -/
private theorem nSectorForArray_toNat (config : GPTConfig) (h : config.numPart.toNat + 3 < 2 ^ 64) :
    config.nSectorForArray.toNat = config.arraySectors := by
  have h4 : GPTConfig.nEntryPerSector = 4 := by decide
  have h3 : (3 : UInt64).toNat = 3 := rfl
  rw [GPTConfig.nSectorForArray, GPTConfig.arraySectors, h4, UInt64.toNat_div, UInt64.toNat_add]
  show (3 + config.numPart.toNat) % 2 ^ 64 / 4 = _
  omega

/-- What a config that passes the size check satisfies. -/
theorem of_not_tooSmall {config : GPTConfig} (h : config.tooSmall = false) :
    config.nSectorForArray.toNat = config.arraySectors ∧ 1 ≤ config.arraySectors ∧
      1 ≤ config.numPart.toNat ∧ 4 + config.arraySectors ≤ config.volume.toNat := by
  have h4 : GPTConfig.nEntryPerSector = 4 := by decide
  have hdiv : config.nSectorForArray.toNat = (3 + config.numPart.toNat) % 2 ^ 64 / 4 := by
    rw [GPTConfig.nSectorForArray, h4, UInt64.toNat_div, UInt64.toNat_add]
    rfl
  simp only [GPTConfig.tooSmall, Bool.or_eq_false_iff, decide_eq_false_iff_not,
    beq_eq_false_iff_ne, ne_eq, ← UInt64.toNat_inj, UInt64.lt_iff_toNat_lt, UInt64.toNat_add] at h
  obtain ⟨hvol, hne⟩ := h
  have h4' : (4 : UInt64).toNat = 4 := rfl
  have h0' : (0 : UInt64).toNat = 0 := rfl
  have hlt := config.numPart.toNat_lt
  rw [GPTConfig.arraySectors]
  omega

/-- A config with a partition and enough room passes the size check. -/
theorem not_tooSmall {config : GPTConfig} (hpart : 1 ≤ config.numPart.toNat)
    (hpart' : config.numPart.toNat + 3 < 2 ^ 64)
    (hvol : 4 + config.arraySectors ≤ config.volume.toNat) : config.tooSmall = false := by
  have hn := nSectorForArray_toNat config hpart'
  have hn1 : 1 ≤ config.arraySectors := by rw [GPTConfig.arraySectors]; omega
  have h4' : (4 : UInt64).toNat = 4 := rfl
  have h0' : (0 : UInt64).toNat = 0 := rfl
  have hlt := config.volume.toNat_lt
  simp only [GPTConfig.tooSmall, Bool.or_eq_false_iff, decide_eq_false_iff_not,
    beq_eq_false_iff_ne, ne_eq, ← UInt64.toNat_inj, UInt64.lt_iff_toNat_lt, UInt64.toNat_add]
  omega

/-- The sectors that are left for partitions do not wrap around. -/
private theorem nSectorsForFS_toNat {config : GPTConfig} (h : config.tooSmall = false) :
    config.nSectorsForFS.toNat = config.room := by
  obtain ⟨hn, -, -, hvol⟩ := of_not_tooSmall h
  have hlt := config.volume.toNat_lt
  have h4' : (4 : UInt64).toNat = 4 := rfl
  rw [GPTConfig.nSectorsForFS, UInt64.toNat_sub, UInt64.toNat_sub, hn, GPTConfig.room]
  omega

/-! ## The allocation loop -/

/-- Every partition is placed. -/
@[simp] theorem length_placed (start : Nat) (ps : List PartitionConfig) :
    (placed start ps).length = ps.length := by
  induction ps generalizing start with
  | nil => rfl
  | cons p ps ih => simp only [placed, List.length_cons, ih]

/-- One volume for each partition. -/
theorem length_volumes (ps : List PartitionConfig) : (volumes ps).length = ps.length :=
  List.length_map _

/-- Partition `i` of a placement keeps its request and starts at `startOf`. -/
theorem getElem?_placed (start : Nat) (ps : List PartitionConfig) (i : Nat) :
    (placed start ps)[i]? = ps[i]?.map fun p =>
      { p with startLBA := UInt64.ofNat (Placement.startOf start (volumes ps) i) } := by
  induction ps generalizing start i with
  | nil => rfl
  | cons p ps ih =>
    cases i with
    | zero => rfl
    | succ i =>
      rw [placed, List.getElem?_cons_succ, List.getElem?_cons_succ, ih]
      simp only [volumes, List.map_cons, Placement.startOf_cons_succ]

/-- The allocation loop is greedy placement, as long as start and remainder
    together stay below `2 ^ 64`. -/
private theorem allocate_eq (start remains : UInt64) (ps : List PartitionConfig)
    (hlen : ps.length < 2 ^ 64) (hroom : start.toNat + remains.toNat < 2 ^ 64) :
    let k := Placement.fit remains.toNat (volumes ps)
    allocate start remains ps =
      (UInt64.ofNat k, placed start.toNat (ps.take k) ++ ps.drop k,
        UInt64.ofNat (Placement.startOf start.toNat (volumes ps) k)) := by
  induction ps generalizing start remains with
  | nil => simp [allocate, volumes, Placement.fit, placed]
  | cons p ps ih =>
    intro k
    have hk : k = Placement.fit remains.toNat (p.volume.toNat :: volumes ps) := rfl
    rw [Placement.fit] at hk
    rw [allocate]
    by_cases hv : remains < p.volume
    · -- the first partition does not fit: nothing is placed
      have hv' := UInt64.lt_iff_toNat_lt.mp hv
      rw [if_pos hv'] at hk
      rw [if_pos hv, hk]
      simp [placed]
    -- it fits, so neither the start nor the remainder wraps
    · have hv' : ¬ remains.toNat < p.volume.toNat := fun h => hv (UInt64.lt_iff_toNat_lt.mpr h)
      have hadd : (start + p.volume).toNat = start.toNat + p.volume.toNat := by
        rw [UInt64.toNat_add]; omega
      have hsub : (remains - p.volume).toNat = remains.toNat - p.volume.toNat :=
        UInt64.toNat_sub_of_le _ _ (UInt64.le_iff_toNat_le.mpr (Nat.not_lt.mp hv'))
      have hlen' : ps.length < 2 ^ 64 := Nat.lt_of_succ_lt hlen
      have ih := ih (start + p.volume) (remains - p.volume) hlen' (by omega)
      rw [if_neg hv'] at hk
      rw [hadd, hsub] at ih
      rw [if_neg hv, ih, hk]
      simp only [List.take_succ_cons, List.drop_succ_cons, placed, List.cons_append,
        UInt64.ofNat_toNat, volumes, List.map_cons, Placement.startOf_cons_succ, Prod.mk.injEq,
        and_true]
      rw [UInt64.ofNat_add]
      rfl

/-- The sector the first partition starts at. -/
def GPTConfig.firstSector (config : GPTConfig) : Nat := 2 + config.arraySectors

/-- No more fit than there are. -/
theorem fitting_le (config : GPTConfig) : config.fitting ≤ config.partitions.length := by
  rw [← length_volumes]
  exact Placement.fit_le_length _ _

/-- A call that passes the size check, with the loops replaced by what they compute. -/
theorem gptGenerate_eq (h : Host) (m : Mem) (buf : Nat) {config : GPTConfig}
    (hok : config.tooSmall = false) :
    let k := config.fitting
    let created := placed config.firstSector (config.partitions.take k)
    let start := UInt64.ofNat (Placement.startOf config.firstSector (volumes config.partitions) k)
    let m₁ := writeEntries h (createProtectGPT h m buf blockSize config.volume) (getSector buf 2)
      config.nSectorForArray created
    gptGenerate h m buf config =
      { ret := UInt64.ofNat k
        partitions := created ++ config.partitions.drop k
        mem := writeHeaders h m₁ (getSector buf 1) (getSector buf (config.volume - 1)) config start
          (UInt64.ofNat k) (crc32 (m₁.read (getSector buf 2) (128 * UInt64.ofNat k).toNat)) } := by
  intro k created start m₁
  obtain ⟨hn, -, -, hvol⟩ := of_not_tooSmall hok
  have hroom := nSectorsForFS_toNat hok
  have hlt := config.volume.toNat_lt
  have hlen : config.partitions.length < 2 ^ 64 := by
    rw [config.length_partitions]; exact config.numPart.toNat_lt
  -- the loop starts behind the array with all the room there is
  have hfirst : (2 + config.nSectorForArray).toNat = config.firstSector := by
    have h2 : (2 : UInt64).toNat = 2 := rfl
    rw [UInt64.toNat_add, hn, GPTConfig.firstSector]
    omega
  have halloc : allocate (2 + config.nSectorForArray) config.nSectorsForFS config.partitions =
      (UInt64.ofNat k, created ++ config.partitions.drop k, start) := by
    have h := allocate_eq (2 + config.nSectorForArray) config.nSectorsForFS config.partitions
      hlen (by rw [hfirst, hroom, GPTConfig.firstSector, GPTConfig.room]; omega)
    rwa [hfirst, hroom] at h
  have hk : k ≤ config.partitions.length := fitting_le config
  have hkNat : (UInt64.ofNat k).toNat = k := by
    rw [UInt64.toNat_ofNat', Nat.mod_eq_of_lt (Nat.lt_of_le_of_lt hk hlen)]
  -- the entry loop runs over the partitions that were placed
  have htake : (created ++ config.partitions.drop k).take (UInt64.ofNat k).toNat = created := by
    have hc : created.length = k := by simp [created, hk]
    rw [hkNat, List.take_append_of_le_length (Nat.le_of_eq hc.symm),
      List.take_of_length_le (Nat.le_of_eq hc)]
  simp only [gptGenerate, hok, Bool.false_eq_true, if_false, halloc, htake, m₁]

/-- The result is the number of partitions that fit. -/
theorem gptGenerate_ret (h : Host) (m : Mem) (buf : Nat) {config : GPTConfig}
    (hok : config.tooSmall = false) : (gptGenerate h m buf config).ret.toNat = config.fitting := by
  have hlt := config.numPart.toNat_lt
  have hk := fitting_le config
  rw [config.length_partitions] at hk
  rw [gptGenerate_eq h m buf hok, UInt64.toNat_ofNat', Nat.mod_eq_of_lt (Nat.lt_of_le_of_lt hk hlt)]

/-- The partitions that were created are those that fit, one behind the other. -/
theorem gptGenerate_created (h : Host) (m : Mem) (buf : Nat) {config : GPTConfig}
    (hok : config.tooSmall = false) : (gptGenerate h m buf config).created =
      placed config.firstSector (config.partitions.take config.fitting) := by
  have hlen : (placed config.firstSector (config.partitions.take config.fitting)).length =
      config.fitting := by
    rw [length_placed, List.length_take, Nat.min_eq_left (fitting_le config)]
  rw [GPTResult.created, gptGenerate_ret h m buf hok, gptGenerate_eq h m buf hok,
    List.take_append_of_le_length (Nat.le_of_eq hlen.symm),
    List.take_of_length_le (Nat.le_of_eq hlen)]

/-! ## Where the created partitions lie -/

/-- The end of the last created partition is at most `volume - 2`. -/
theorem startOf_fitting_le {config : GPTConfig} (hok : config.tooSmall = false) :
    Placement.startOf config.firstSector (volumes config.partitions) config.fitting ≤
      config.volume.toNat - 2 := by
  obtain ⟨-, -, -, hvol⟩ := of_not_tooSmall hok
  have hsum := Placement.sum_take_fit_le config.room (volumes config.partitions)
  have hroom : config.room = config.volume.toNat - 4 - config.arraySectors := rfl
  have hfirst : config.firstSector = 2 + config.arraySectors := rfl
  show config.firstSector + ((volumes config.partitions).take config.fitting).sum ≤ _
  rw [GPTConfig.fitting]
  omega

/-- Created partition `i` is request `i`, placed at `startOf`. -/
theorem of_created (h : Host) (m : Mem) (buf : Nat) {config : GPTConfig}
    (hok : config.tooSmall = false) {i : Nat} {p : PartitionConfig}
    (hp : (gptGenerate h m buf config).created[i]? = some p) :
    i < config.fitting ∧
      p.startLBA.toNat = Placement.startOf config.firstSector (volumes config.partitions) i ∧
      p.startLBA.toNat + p.volume.toNat =
        Placement.startOf config.firstSector (volumes config.partitions) (i + 1) ∧
      ∃ q, config.partitions[i]? = some q ∧ p = { q with startLBA := p.startLBA } := by
  have hlt := config.volume.toNat_lt
  have hend := startOf_fitting_le hok
  have hk := fitting_le config
  rw [gptGenerate_created h m buf hok, getElem?_placed, Option.map_eq_some_iff] at hp
  obtain ⟨q, hq, rfl⟩ := hp
  have hi : i < (config.partitions.take config.fitting).length := (List.getElem?_eq_some_iff.mp hq).1
  rw [List.length_take, Nat.min_eq_left hk] at hi
  rw [List.getElem?_take_of_lt hi] at hq
  have hvols : volumes (config.partitions.take config.fitting) =
      (volumes config.partitions).take config.fitting := List.map_take
  -- cutting the list behind partition `i` does not move it
  have hstart : Placement.startOf config.firstSector
      (volumes (config.partitions.take config.fitting)) i =
      Placement.startOf config.firstSector (volumes config.partitions) i := by
    rw [hvols, Placement.startOf, Placement.startOf, List.take_take,
      Nat.min_eq_left (Nat.le_of_lt hi)]
  have hmono := Placement.startOf_mono config.firstSector (volumes config.partitions) hi
  have hvol : (volumes config.partitions)[i]? = some q.volume.toNat := by
    rw [volumes, List.getElem?_map, hq]; rfl
  obtain ⟨hiv, hvol⟩ := List.getElem?_eq_some_iff.mp hvol
  have hsucc := Placement.startOf_succ config.firstSector hiv
  rw [hvol] at hsucc
  -- the start is at most `volume - 2`, so it is what the 64-bit sum holds
  have hNat : (UInt64.ofNat (Placement.startOf config.firstSector
      (volumes config.partitions) i)).toNat =
      Placement.startOf config.firstSector (volumes config.partitions) i := by
    rw [UInt64.toNat_ofNat', Nat.mod_eq_of_lt]
    rw [Nat.succ_eq_add_one] at hmono
    omega
  rw [hstart]
  exact ⟨hi, hNat, by rw [hNat, hsucc], q, hq, rfl⟩

/-- `GPTGenerate` places the longest prefix of the requests that fits, one
    partition right after another, clear of everything the table itself uses. -/
theorem gptGenerate_places_greedily (h : Host) (m : Mem) (buf : Nat) (config : GPTConfig)
    (hpart : 1 ≤ config.numPart.toNat) (hpart' : config.numPart.toNat < 2 ^ 32)
    (hvol : 4 + (config.numPart.toNat + 3) / 4 ≤ config.volume.toNat) :
    let r := gptGenerate h m buf config
    IsGreatest
        {k | k ≤ config.numPart.toNat ∧
          ((config.partitions.take k).map fun p => p.volume.toNat).sum ≤
            config.volume.toNat - 4 - (config.numPart.toNat + 3) / 4}
        r.ret.toNat ∧
      r.created.length = r.ret.toNat ∧
      r.created.map (fun p => p.volume) =
        (config.partitions.take r.ret.toNat).map (fun p => p.volume) ∧
      (∀ p, r.created[0]? = some p →
        p.startLBA.toNat = 2 + (config.numPart.toNat + 3) / 4) ∧
      (∀ i p q, r.created[i]? = some p → r.created[i + 1]? = some q →
        q.startLBA.toNat = p.startLBA.toNat + p.volume.toNat) ∧
      r.created.Pairwise (fun p q => Disjoint p.sectors q.sectors) ∧
      ∀ p ∈ r.created, ∀ s ∈ p.sectors, s ≤ config.volume.toNat - 3 ∧ s ∉ config.metadata := by
  intro r
  have hok : config.tooSmall = false := not_tooSmall hpart (by omega) hvol
  obtain ⟨-, -, -, hvol'⟩ := of_not_tooSmall hok
  have hret : r.ret.toNat = config.fitting := gptGenerate_ret h m buf hok
  have hk := fitting_le config
  have hend := startOf_fitting_le hok
  have hfirst : config.firstSector = 2 + (config.numPart.toNat + 3) / 4 := rfl
  have harr : config.arraySectors = (config.numPart.toNat + 3) / 4 := rfl
  have hcreated : r.created = placed config.firstSector (config.partitions.take config.fitting) :=
    gptGenerate_created h m buf hok
  -- the greedy count, as a bound on sums
  have hfit : ∀ j, j ≤ config.numPart.toNat → (j ≤ config.fitting ↔
      ((config.partitions.take j).map fun p => p.volume.toNat).sum ≤
        config.volume.toNat - 4 - (config.numPart.toNat + 3) / 4) := by
    intro j hj
    rw [← config.length_partitions, ← length_volumes] at hj
    have hiff := @Placement.le_fit_iff config.room _ _ hj
    rwa [volumes, ← List.map_take] at hiff
  refine ⟨⟨?_, ?_⟩, ?_, ?_, ?_, ?_, ?_, ?_⟩
  · have hle : r.ret.toNat ≤ config.numPart.toNat := by
      rw [hret, ← config.length_partitions]; exact hk
    exact ⟨hle, (hfit _ hle).mp (Nat.le_of_eq hret)⟩
  · rintro j ⟨hj, hsum⟩
    rw [hret]
    exact (hfit j hj).mpr hsum
  · rw [hcreated, length_placed, List.length_take, Nat.min_eq_left hk, hret]
  · rw [hcreated, hret]
    refine List.ext_getElem? fun i => ?_
    rw [List.getElem?_map, getElem?_placed, List.getElem?_map, Option.map_map]
    rfl
  · intro p hp
    exact (of_created h m buf hok hp).2.1
  · intro i p q hp hq
    rw [(of_created h m buf hok hp).2.2.1, (of_created h m buf hok hq).2.1]
  · rw [List.pairwise_iff_getElem]
    intro i j hi hj hij
    have hpi := of_created h m buf hok (List.getElem?_eq_getElem hi)
    have hpj := of_created h m buf hok (List.getElem?_eq_getElem hj)
    -- partition `j` starts where `i` ends, or later
    have hmono := Placement.startOf_mono config.firstSector (volumes config.partitions) hij
    rw [PartitionConfig.sectors, PartitionConfig.sectors, hpi.2.2.1, hpj.2.1]
    exact Set.Ico_disjoint_Ico.mpr (by
      show min _ _ ≤ max _ _
      exact le_trans (min_le_left _ _) (le_trans hmono (le_max_right _ _)))
  · intro p hp s hs
    obtain ⟨i, hi⟩ := List.mem_iff_getElem?.mp hp
    obtain ⟨hik, hstart, hstop, -⟩ := of_created h m buf hok hi
    have hlo := Placement.base_le_startOf config.firstSector (volumes config.partitions) i
    have hhi := Placement.startOf_mono config.firstSector (volumes config.partitions) hik
    have hs : p.startLBA.toNat ≤ s ∧ s < p.startLBA.toNat + p.volume.toNat := hs
    have hhi : Placement.startOf config.firstSector (volumes config.partitions) (i + 1) ≤
      Placement.startOf config.firstSector (volumes config.partitions) config.fitting := hhi
    refine ⟨by omega, fun hmeta => ?_⟩
    have hmeta : s = 0 ∨ s = 1 ∨ (2 ≤ s ∧ s < 2 + config.arraySectors) ∨
      s = config.volume.toNat - 2 ∨ s = config.volume.toNat - 1 := hmeta
    omega

/-- For the configuration of `mkgpt`. -/
theorem gptGenerate_places_greedily_mkgpt :
    let r := gptGenerate .little (fun _ => 0) 0 mkgptConfig
    4 + (mkgptConfig.numPart.toNat + 3) / 4 ≤ mkgptConfig.volume.toNat ∧
      r.created.length = r.ret.toNat ∧
      r.created.Pairwise (fun p q => Disjoint p.sectors q.sectors) := by
  obtain ⟨-, hlen, -, -, -, hdisj, -⟩ := gptGenerate_places_greedily .little (fun _ => 0) 0
    mkgptConfig (by decide) (by decide) (by decide)
  exact ⟨by decide, hlen, hdisj⟩

end Tlibc.Gpt
