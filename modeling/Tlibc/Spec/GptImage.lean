import Tlibc.Spec.GptAlloc
import Tlibc.Spec.GptHeaders

/-!
# The disk image `GPTGenerate` writes

Statements about whole calls, read off the final memory.

* `gptGenerate_usable_iff`: when the created partitions lie in the usable range
  the headers announce. `firstUsableLBA` is stored from the variable the
  allocation loop has already moved past the partitions.
* `gptGenerate_frame_iff`: when nothing outside the table changes. The clear in
  iteration `i` of the entry loop runs `128 * i` bytes past the array.
-/

namespace Tlibc.Gpt

/-! ## Addresses -/

/-- LBA 1 is the second block. -/
theorem getSector_one (buf : Nat) : getSector buf 1 = buf + 512 := rfl

/-- LBA 2 is the third block. -/
theorem getSector_two (buf : Nat) : getSector buf 2 = buf + 1024 := rfl

/-- Two sectors of the 64-bit address space are the same one or do not overlap. -/
private theorem getSector_apart (buf : Nat) (s t : UInt64) :
    getSector buf s = getSector buf t ∨ getSector buf s + 512 ≤ getSector buf t ∨
      getSector buf t + 512 ≤ getSector buf s := by
  have h512 : blockSize.toNat = 512 := rfl
  simp only [getSector, UInt64.toNat_mul, h512]
  omega

/-- The last sector of a buffer that exists. -/
private theorem getSector_last (buf : Nat) {volume : UInt64} (hpos : 1 ≤ volume.toNat)
    (hbuf : volume.toNat * 512 ≤ 2 ^ 64) :
    getSector buf (volume - 1) = buf + 512 * (volume.toNat - 1) := by
  have h512 : blockSize.toNat = 512 := rfl
  have h1 : (volume - 1).toNat = volume.toNat - 1 :=
    UInt64.toNat_sub_of_le _ _ (UInt64.le_iff_toNat_le.mpr hpos)
  rw [getSector, UInt64.toNat_mul, h512, h1]
  omega

/-! ## The usable range -/

/-- All sectors of `p` lie between the `firstUsableLBA` and the `lastUsableLBA` of
    the header at `hdr`. -/
def PartitionConfig.UsableBy (p : PartitionConfig) (m : Mem) (hdr : Nat) : Prop :=
  ∀ s ∈ p.sectors,
    m.load (hdr + GPTHeader.firstUsableLBA.off) 8 ≤ s ∧
      s ≤ m.load (hdr + GPTHeader.lastUsableLBA.off) 8

/-- The sector behind the last created partition. -/
def GPTConfig.endOfPartitions (config : GPTConfig) : Nat :=
  Placement.startOf config.firstSector (volumes config.partitions) config.fitting

/-- The memory after the entry loop. -/
def arrayMem (h : Host) (m : Mem) (buf : Nat) (config : GPTConfig) : Mem :=
  writeEntries h (createProtectGPT h m buf blockSize config.volume) (getSector buf 2)
    config.nSectorForArray (placed config.firstSector (config.partitions.take config.fitting))

/-- The checksum of the entries the loop wrote. -/
def arrayCRC (h : Host) (m : Mem) (buf : Nat) (config : GPTConfig) : UInt32 :=
  crc32 ((arrayMem h m buf config).read (getSector buf 2)
    (128 * UInt64.ofNat config.fitting).toNat)

section

variable (h : Host) (m : Mem) (buf : Nat) {config : GPTConfig} (hok : config.tooSmall = false)

include hok

/-- The memory a call leaves: the headers over the entry array. -/
theorem gptGenerate_mem :
    (gptGenerate h m buf config).mem =
      writeHeaders h (arrayMem h m buf config) (getSector buf 1) (getSector buf (config.volume - 1))
        config (UInt64.ofNat config.endOfPartitions) (UInt64.ofNat config.fitting)
        (arrayCRC h m buf config) := by
  rw [gptGenerate_eq h m buf hok]
  rfl

/-- What `storeHeader` stored is in both headers, the LBAs and the checksum of
    the header aside. -/
theorem gptGenerate_shared {off n v : Nat}
    (hs : (off, Mem.leBytes n v) ∈ headerStores h config (UInt64.ofNat config.endOfPartitions)
      (UInt64.ofNat config.fitting) (arrayCRC h m buf config))
    (hoff : off + n ≤ 16 ∨ (20 ≤ off ∧ off + n ≤ 24) ∨ 40 ≤ off) (hv : v < 256 ^ n) :
    let m' := (gptGenerate h m buf config).mem
    m'.load (getSector buf 1 + off) n = v ∧
      m'.load (getSector buf (config.volume - 1) + off) n = v := by
  have hsep := getSector_apart buf (config.volume - 1) 1
  have hw := writeHeaders_shared h (arrayMem h m buf config) (getSector buf 1)
    (getSector buf (config.volume - 1)) config (UInt64.ofNat config.endOfPartitions)
    (UInt64.ofNat config.fitting) (arrayCRC h m buf config) (by omega) hs hoff
  rw [Nat.mod_eq_of_lt hv] at hw
  rw [gptGenerate_mem h m buf hok]
  exact hw

/-- Both headers announce the sector behind the last created partition as the
    first usable one. -/
private theorem firstUsableLBA_eq :
    let m' := (gptGenerate h m buf config).mem
    m'.load (getSector buf 1 + 40) 8 = config.endOfPartitions ∧
      m'.load (getSector buf (config.volume - 1) + 40) 8 = config.endOfPartitions := by
  have hend : config.endOfPartitions ≤ config.volume.toNat - 2 := startOf_fitting_le hok
  have hlt : config.endOfPartitions < 256 ^ 8 :=
    Nat.lt_of_le_of_lt (Nat.le_trans hend (Nat.sub_le _ _)) config.volume.toNat_lt
  have hNat : (UInt64.ofNat config.endOfPartitions).toNat = config.endOfPartitions := by
    rw [UInt64.toNat_ofNat']
    exact Nat.mod_eq_of_lt hlt
  have hs := gptGenerate_shared h m buf hok
    (show (40, Mem.leBytes 8 (UInt64.ofNat config.endOfPartitions).toNat) ∈ _ by
      simp [headerStores]) (by omega) (by rw [hNat]; exact hlt)
  rwa [hNat] at hs

end

/-- The created partitions lie in the range the headers call usable exactly when
    there are none, that is when not even the first request fits. -/
theorem gptGenerate_usable_iff (h : Host) (m : Mem) (buf : Nat) (config : GPTConfig)
    (hok : config.tooSmall = false) (hvol : ∀ p ∈ config.partitions, 1 ≤ p.volume.toNat) :
    let r := gptGenerate h m buf config
    (∀ p ∈ r.created, p.UsableBy r.mem (getSector buf 1) ∧
        p.UsableBy r.mem (getSector buf (config.volume - 1))) ↔
      ∀ p, config.partitions[0]? = some p →
        config.volume.toNat - 4 - (config.numPart.toNat + 3) / 4 < p.volume.toNat := by
  intro r
  obtain ⟨-, -, hpart, -⟩ := of_not_tooSmall hok
  obtain ⟨p₀, hp₀⟩ : ∃ p, config.partitions[0]? = some p :=
    ⟨_, List.getElem?_eq_getElem (by rw [config.length_partitions]; exact hpart)⟩
  -- the greedy loop stops at once exactly when the first request exceeds the room
  have hone : config.fitting = 0 ↔ config.room < p₀.volume.toNat := by
    have hvols : (volumes config.partitions).take 1 = [p₀.volume.toNat] := by
      obtain ⟨ps, hps⟩ : ∃ ps, config.partitions = p₀ :: ps := by
        cases hc : config.partitions with
        | nil => simp [hc] at hp₀
        | cons p ps => exact ⟨ps, by simpa [hc] using hp₀⟩
      simp [volumes, hps]
    have hiff := @Placement.le_fit_iff config.room (volumes config.partitions) 1 (by
      rw [length_volumes, config.length_partitions]; exact hpart)
    rw [hvols, List.sum_singleton] at hiff
    rw [GPTConfig.fitting]
    omega
  have hroom : config.room = config.volume.toNat - 4 - (config.numPart.toNat + 3) / 4 := rfl
  constructor
  · intro hus p hp
    obtain rfl : p₀ = p := Option.some.inj (hp₀.symm.trans hp)
    rw [← hroom, ← hone]
    -- a created first partition would start below the announced first usable sector
    by_contra hne
    have hlen : 0 < r.created.length := by
      rw [gptGenerate_created h m buf hok, length_placed, List.length_take,
        Nat.min_eq_left (fitting_le config)]
      exact Nat.pos_of_ne_zero hne
    obtain ⟨-, hstart, hstop, q, hq, hpq⟩ :=
      of_created h m buf hok (List.getElem?_eq_getElem hlen)
    have hvol₀ : 1 ≤ (r.created[0]).volume.toNat := by
      have hv : (r.created[0]).volume = q.volume := by rw [hpq]
      rw [hv]
      exact hvol q (List.mem_of_getElem? hq)
    have hmem : (r.created[0]).startLBA.toNat ∈ (r.created[0]).sectors :=
      ⟨Nat.le_refl _, Nat.lt_add_of_pos_right hvol₀⟩
    have hfirst : r.mem.load (getSector buf 1 + 40) 8 ≤ (r.created[0]).startLBA.toNat :=
      ((hus _ (List.getElem_mem hlen)).1 _ hmem).1
    rw [(firstUsableLBA_eq h m buf hok).1] at hfirst
    have hmono : Placement.startOf config.firstSector (volumes config.partitions) (0 + 1) ≤
        config.endOfPartitions :=
      Placement.startOf_mono _ _ (Nat.pos_of_ne_zero hne)
    have hstop : (r.created[0]).startLBA.toNat + (r.created[0]).volume.toNat =
      Placement.startOf config.firstSector (volumes config.partitions) (0 + 1) := hstop
    omega
  · intro hall p hp
    -- with nothing created there is nothing to be outside the range
    have hnone : r.created = [] := by
      rw [gptGenerate_created h m buf hok, hone.mpr (hall p₀ hp₀)]
      rfl
    rw [hnone] at hp
    exact absurd hp List.not_mem_nil

/-- For the configuration of `mkgpt`. -/
theorem gptGenerate_usable_iff_mkgpt :
    let r := gptGenerate .little (fun _ => 0) 0 mkgptConfig
    mkgptConfig.tooSmall = false ∧
      ((∀ p ∈ r.created, p.UsableBy r.mem (getSector 0 1) ∧
          p.UsableBy r.mem (getSector 0 (mkgptConfig.volume - 1))) ↔
        ∀ p, mkgptConfig.partitions[0]? = some p → 524283 < p.volume.toNat) :=
  ⟨by decide, gptGenerate_usable_iff .little (fun _ => 0) 0 mkgptConfig (by decide)
    (by decide)⟩

/-- On the disk of `mkgpt.c` the first partition starts at sector 3, and both
    headers say that sectors below 524286 are not usable. -/
theorem mkgpt_first_not_usable :
    let r := gptGenerate .little (fun _ => 0) 0 mkgptConfig
    ∃ p, r.created[0]? = some p ∧ p.startLBA.toNat = 3 ∧ 1 ≤ p.volume.toNat ∧
      ¬ p.UsableBy r.mem (getSector 0 1) ∧
      ¬ p.UsableBy r.mem (getSector 0 (mkgptConfig.volume - 1)) := by
  intro r
  have hok : mkgptConfig.tooSmall = false := by decide
  have hend : mkgptConfig.endOfPartitions = 524286 := by decide
  obtain ⟨hfirst₁, hfirst₂⟩ := firstUsableLBA_eq .little (fun _ => 0) 0 hok
  have hlen : 0 < r.created.length := by
    rw [gptGenerate_created .little (fun _ => 0) 0 hok, length_placed]
    decide
  -- the first partition takes the sectors 3 to 262142
  obtain ⟨-, hstart, hstop, -⟩ :=
    of_created .little (fun _ => 0) 0 hok (List.getElem?_eq_getElem hlen)
  have hstart : (r.created[0]).startLBA.toNat = 3 := hstart.trans (by decide)
  have hstop : (r.created[0]).startLBA.toNat + (r.created[0]).volume.toNat = 262143 :=
    hstop.trans (by decide)
  have hmem : 3 ∈ (r.created[0]).sectors := by
    show (r.created[0]).startLBA.toNat ≤ 3 ∧ 3 < _
    omega
  refine ⟨r.created[0], List.getElem?_eq_getElem hlen, hstart, by omega, ?_, ?_⟩
  · -- the first header says that sector 524286 is the first usable one
    intro hus
    have h3 : r.mem.load (getSector 0 1 + 40) 8 ≤ 3 := (hus 3 hmem).1
    rw [hfirst₁, hend] at h3
    exact absurd h3 (by decide)
  · -- so does the second header
    intro hus
    have h3 : r.mem.load (getSector 0 (mkgptConfig.volume - 1) + 40) 8 ≤ 3 := (hus 3 hmem).1
    rw [hfirst₂, hend] at h3
    exact absurd h3 (by decide)

/-! ## What a call may change -/

/-- The bytes of the `k` sectors from sector `s` on. -/
def sectorBytes (buf s k : Nat) : Set Nat := Set.Ico (buf + 512 * s) (buf + 512 * (s + k))

/-- The bytes of LBA 0, LBA 1, the entry array, and the last LBA. -/
def tableBytes (buf : Nat) (config : GPTConfig) : Set Nat :=
  sectorBytes buf 0 1 ∪ sectorBytes buf 1 1 ∪ sectorBytes buf 2 config.arraySectors ∪
    sectorBytes buf (config.volume.toNat - 1) 1

/-- The stores of `createProtectGPT` over the cleared sector. -/
def mbrStores (h : Host) (blockSize nBlock : UInt64) : List (Nat × List UInt8) :=
  let endLBA := (blockSize * nBlock).toUInt32
  let endLBA := if endLBA > 0xFFFFFF then 0xFFFFFF else endLBA
  let sizeInLBA := (if nBlock ≥ 0xFFFFFFFF then 0xFFFFFFFF else nBlock - 1).toUInt32
  [(510, h.bytesOf 2 0xAA55),
    (440, h.bytesOf 4 0),
    (444, h.bytesOf 2 0),
    (446, h.bytesOf 1 0x80),
    (447, (h.bytesOf 4 0x000200).take 3),
    (450, h.bytesOf 1 0xEE),
    (451, (h.bytesOf 4 endLBA.toNat).take 3),
    (454, h.bytesOf 4 1),
    (458, h.bytesOf 4 sizeInLBA.toNat)]

/-- The block is cleared, and then its members are stored. -/
theorem createProtectGPT_eq (h : Host) (m : Mem) (mbr : Nat) (blockSize nBlock : UInt64) :
    createProtectGPT h m mbr blockSize nBlock =
      (m.fill mbr 512 0).writeAll mbr (mbrStores h blockSize nBlock) := by
  simp only [createProtectGPT, assign, Host.put, mbrStores, Mem.writeAll, MBR.signature,
    MBR.rDiskSignature, MBR.unknown, MBR.records, PartitionRecord.bootIndicator,
    PartitionRecord.startCHS, PartitionRecord.osType, PartitionRecord.endCHS,
    PartitionRecord.startLBA, PartitionRecord.sizeInLBA, Width.bytes, Nat.add_assoc, Nat.reduceAdd]

/-- Nothing outside the block is stored. -/
private theorem createProtectGPT_out (h : Host) (m : Mem) (mbr : Nat) (blockSize nBlock : UInt64)
    {a : Nat}
    (ha : a < mbr ∨ mbr + 512 ≤ a) : createProtectGPT h m mbr blockSize nBlock a = m a := by
  have hstores : ∀ s ∈ mbrStores h blockSize nBlock,
      a < mbr + s.1 ∨ mbr + s.1 + s.2.length ≤ a := by
    intro s hs
    simp only [mbrStores, List.mem_cons, List.not_mem_nil, or_false] at hs
    rcases hs with rfl | rfl | rfl | rfl | rfl | rfl | rfl | rfl | rfl <;>
      simp only [List.length_take, Host.length_bytesOf] <;> omega
  rw [createProtectGPT_eq, Mem.writeAll_apply_out hstores, Mem.fill_apply_out ha]

/-- The partitions that fit take at least a sector each. -/
private theorem fitting_le_room {config : GPTConfig}
    (hvol : ∀ p ∈ config.partitions, 1 ≤ p.volume.toNat) :
    config.fitting ≤ config.room := by
  have hsum := Placement.sum_take_fit_le config.room (volumes config.partitions)
  -- a sum of positive numbers is at least as large as their number
  have hcard : ∀ l : List Nat, (∀ v ∈ l, 1 ≤ v) → l.length ≤ l.sum := by
    intro l hl
    induction l with
    | nil => exact Nat.le_refl 0
    | cons v l ih =>
      have hv := hl v List.mem_cons_self
      have := ih fun w hw => hl w (List.mem_cons_of_mem _ hw)
      simp only [List.length_cons, List.sum_cons]
      omega
  have hlen := hcard ((volumes config.partitions).take config.fitting) fun v hv => by
    obtain ⟨p, hp, rfl⟩ := List.mem_map.mp (List.mem_of_mem_take hv)
    exact hvol p hp
  rw [List.length_take, length_volumes, Nat.min_eq_left (fitting_le config)] at hlen
  exact Nat.le_trans hlen hsum

/-- Partitions that are placed keep their names. -/
private theorem placed_names {config : GPTConfig}
    (hname : ∀ p ∈ config.partitions, p.name.chars.length ≤ 36) (start : Nat) :
    ∀ p ∈ placed start (config.partitions.take config.fitting), p.name.chars.length ≤ 36 := by
  intro p hp
  obtain ⟨i, hi⟩ := List.mem_iff_getElem?.mp hp
  rw [getElem?_placed, Option.map_eq_some_iff] at hi
  obtain ⟨q, hq, rfl⟩ := hi
  exact hname q (List.mem_of_mem_take (List.mem_of_getElem? hq))

/-- As many are placed as fit. -/
private theorem length_placed_fitting (config : GPTConfig) (start : Nat) :
    (placed start (config.partitions.take config.fitting)).length = config.fitting := by
  rw [length_placed, List.length_take, Nat.min_eq_left (fitting_le config)]

section

variable (h : Host) (m : Mem) (buf : Nat) {config : GPTConfig} (hok : config.tooSmall = false)
  (hbuf : config.volume.toNat * 512 ≤ 2 ^ 64)

include hok hbuf

/-- The bytes one clear of the entry loop covers. -/
theorem clear_length : (config.nSectorForArray * blockSize).toNat = 512 * config.arraySectors := by
  obtain ⟨hn, -, -, hvol⟩ := of_not_tooSmall hok
  have h512 : blockSize.toNat = 512 := rfl
  rw [UInt64.toNat_mul, h512, hn]
  omega

/-- The last block is where its LBA says. -/
theorem getSector_last_eq :
    getSector buf (config.volume - 1) = buf + 512 * (config.volume.toNat - 1) := by
  obtain ⟨-, -, -, hvol⟩ := of_not_tooSmall hok
  exact getSector_last buf (by omega) hbuf

/-- Behind the headers a call leaves what the entry loop left. -/
theorem gptGenerate_apply {a : Nat} (hlo : buf + 1024 ≤ a)
    (hhi : a < buf + 512 * (config.volume.toNat - 1) ∨ buf + 512 * config.volume.toNat ≤ a) :
    (gptGenerate h m buf config).mem a = arrayMem h m buf config a := by
  obtain ⟨-, -, -, hvol⟩ := of_not_tooSmall hok
  have hlast := getSector_last_eq buf hok hbuf
  rw [gptGenerate_mem h m buf hok]
  -- the headers take 92 bytes of LBA 1 and of the last LBA
  refine (writeHeaders_frame h _ _ _ config _ _ _).apply fun ha => ?_
  have ha : (getSector buf 1 ≤ a ∧ a < getSector buf 1 + 92) ∨
    (getSector buf (config.volume - 1) ≤ a ∧ a < getSector buf (config.volume - 1) + 92) := ha
  rw [hlast, getSector_one] at ha
  omega

variable (hname : ∀ p ∈ config.partitions, p.name.chars.length ≤ 36)

include hname

/-- Bytes outside LBA 0 and outside everything the entry loop clears are untouched. -/
private theorem arrayMem_out {a : Nat} (hlo : a < buf ∨ buf + 512 ≤ a)
    (ha : a < buf + 1024 ∨
      buf + 1024 + 128 * (config.fitting - 1) + 512 * config.arraySectors ≤ a) :
    arrayMem h m buf config a = m a := by
  obtain ⟨-, hn, -, -⟩ := of_not_tooSmall hok
  have hlen := length_placed_fitting config config.firstSector
  have hclear := clear_length hok hbuf
  rw [arrayMem, writeEntries_out h _ _ _ _ (placed_names hname _) (by omega)
    (by rw [hlen, hclear, getSector_two]; exact ha), createProtectGPT_out h m buf _ _ hlo]

/-- Behind the last created entry the entry loop leaves zeros, up to
    `128 * (k - 1)` bytes past the array. -/
theorem arrayMem_zero {a : Nat} (hpos : 1 ≤ config.fitting)
    (hlo : buf + 1024 + 128 * config.fitting ≤ a)
    (hhi : a < buf + 1024 + 128 * (config.fitting - 1) + 512 * config.arraySectors) :
    arrayMem h m buf config a = 0 := by
  have hlen := length_placed_fitting config config.firstSector
  have hclear := clear_length hok hbuf
  refine writeEntries_zero h _ _ _ _ (placed_names hname _) ?_ ?_ ?_
  · rw [hlen, getSector_two]; exact hlo
  · rw [hlen, hclear, getSector_two]; exact hhi
  · intro hnil
    rw [hnil, List.length_nil] at hlen
    omega

end

/-- A call changes nothing outside the table exactly when the bytes behind the
    entry array are already zero: 128 of them for every partition that fits after
    the first. -/
theorem gptGenerate_frame_iff (h : Host) (m : Mem) (buf : Nat) (config : GPTConfig)
    (hok : config.tooSmall = false) (hbuf : config.volume.toNat * 512 ≤ 2 ^ 64)
    (hvol : ∀ p ∈ config.partitions, 1 ≤ p.volume.toNat)
    (hname : ∀ p ∈ config.partitions, p.name.chars.length ≤ 36) :
    Mem.Frame (tableBytes buf config) m (gptGenerate h m buf config).mem ↔
      ∀ j, j ≤ config.numPart.toNat →
        ((config.partitions.take j).map fun p => p.volume.toNat).sum ≤
            config.volume.toNat - 4 - (config.numPart.toNat + 3) / 4 →
        ∀ a, a < 128 * (j - 1) →
          m (buf + 512 * (2 + (config.numPart.toNat + 3) / 4) + a) = 0 := by
  obtain ⟨-, hn, -, hroom⟩ := of_not_tooSmall hok
  have hk := fitting_le config
  rw [config.length_partitions] at hk
  have hkroom := fitting_le_room hvol
  have harr : config.arraySectors = (config.numPart.toNat + 3) / 4 := rfl
  have hroom' : config.room = config.volume.toNat - 4 - config.arraySectors := rfl
  -- `fitting` is the largest number of requests that fits
  have hfit : ∀ j, j ≤ config.numPart.toNat → (j ≤ config.fitting ↔
      ((config.partitions.take j).map fun p => p.volume.toNat).sum ≤ config.room) := by
    intro j hj
    rw [← config.length_partitions, ← length_volumes] at hj
    have hiff := @Placement.le_fit_iff config.room _ _ hj
    rwa [volumes, ← List.map_take] at hiff
  rw [← harr, ← hroom']
  have hmem : ∀ a, a ∈ tableBytes buf config ↔
      (buf ≤ a ∧ a < buf + 512 * (2 + config.arraySectors)) ∨
        (buf + 512 * (config.volume.toNat - 1) ≤ a ∧ a < buf + 512 * config.volume.toNat) := by
    intro a
    show (((buf + 512 * 0 ≤ a ∧ a < buf + 512 * (0 + 1)) ∨
      (buf + 512 * 1 ≤ a ∧ a < buf + 512 * (1 + 1))) ∨
      (buf + 512 * 2 ≤ a ∧ a < buf + 512 * (2 + config.arraySectors))) ∨
      (buf + 512 * (config.volume.toNat - 1) ≤ a ∧
        a < buf + 512 * (config.volume.toNat - 1 + 1)) ↔ _
    omega
  constructor
  -- the loop clears these bytes, so a frame means they were zero before
  · intro hframe j hj hsum a ha
    have hjk := (hfit j hj).mpr hsum
    rw [← hframe.apply fun hin => by
        have := (hmem _).mp hin
        omega,
      gptGenerate_apply h m buf hok hbuf (by omega) (by omega)]
    exact arrayMem_zero h m buf hok hbuf hname (by omega) (by omega) (by omega)
  · intro hzero a ha
    have hnot : ¬ ((buf ≤ a ∧ a < buf + 512 * (2 + config.arraySectors)) ∨
        (buf + 512 * (config.volume.toNat - 1) ≤ a ∧ a < buf + 512 * config.volume.toNat)) :=
      fun hin => ha ((hmem a).mpr hin)
    by_cases hover : buf + 1024 ≤ a ∧
        a < buf + 1024 + 128 * (config.fitting - 1) + 512 * config.arraySectors
    · -- the overrun: what was zero is cleared again
      obtain ⟨d, rfl⟩ := Nat.exists_eq_add_of_le
        (show buf + 512 * (2 + config.arraySectors) ≤ a by omega)
      rw [gptGenerate_apply h m buf hok hbuf (by omega) (by omega),
        arrayMem_zero h m buf hok hbuf hname (by omega) (by omega) (by omega)]
      exact (hzero config.fitting hk ((hfit _ hk).mp (Nat.le_refl _)) d (by omega)).symm
    · by_cases hlo : buf + 1024 ≤ a
      · rw [gptGenerate_apply h m buf hok hbuf hlo (by omega),
          arrayMem_out h m buf hok hbuf hname (by omega) (by omega)]
      · -- in front of the buffer
        rw [gptGenerate_mem h m buf hok, (writeHeaders_frame h _ _ _ config _ _ _).apply fun hin => by
            have hin : (getSector buf 1 ≤ a ∧ a < getSector buf 1 + 92) ∨
              (getSector buf (config.volume - 1) ≤ a ∧
                a < getSector buf (config.volume - 1) + 92) := hin
            rw [getSector_last_eq buf hok hbuf, getSector_one] at hin
            omega,
          arrayMem_out h m buf hok hbuf hname (by omega) (by omega)]

/-- For the configuration of `mkgpt`, on cleared memory. -/
theorem gptGenerate_frame_iff_mkgpt :
    mkgptConfig.tooSmall = false ∧ (Mem.Frame (tableBytes 0 mkgptConfig) (fun _ => 0)
        (gptGenerate .little (fun _ => 0) 0 mkgptConfig).mem ↔
      ∀ j, j ≤ mkgptConfig.numPart.toNat →
        ((mkgptConfig.partitions.take j).map fun p => p.volume.toNat).sum ≤
          mkgptConfig.volume.toNat - 4 - (mkgptConfig.numPart.toNat + 3) / 4 →
        ∀ a, a < 128 * (j - 1) → (0 : UInt8) = 0) :=
  ⟨by decide, gptGenerate_frame_iff .little (fun _ => 0) 0 mkgptConfig (by decide) (by decide)
    (by decide) (by decide)⟩

/-- On a used disk `mkgpt.c` clears the first byte of its first partition. -/
theorem mkgpt_clears_partition :
    let r := gptGenerate .little (fun _ => 0xFF) 0 mkgptConfig
    r.mem (512 * 3) = 0 ∧ 512 * 3 ∉ tableBytes 0 mkgptConfig := by
  intro r
  have hok : mkgptConfig.tooSmall = false := by decide
  have hbuf : mkgptConfig.volume.toNat * 512 ≤ 2 ^ 64 := by decide
  have hname : ∀ p ∈ mkgptConfig.partitions, p.name.chars.length ≤ 36 := by decide
  -- both partitions have entries, in one sector
  have hfit : mkgptConfig.fitting = 2 := by decide
  have hvolume : mkgptConfig.volume.toNat = 524288 := by decide
  have harr : mkgptConfig.arraySectors = 1 := by decide
  refine ⟨?_, ?_⟩
  · -- clearing the first entry has cleared the sector behind it
    rw [gptGenerate_apply .little _ 0 hok hbuf (by decide) (by rw [hvolume]; decide)]
    exact arrayMem_zero .little _ 0 hok hbuf hname (by rw [hfit]; decide) (by rw [hfit]; decide)
      (by rw [hfit, harr]; decide)
  · -- which is the first one of a partition
    show ¬ ((((0 + 512 * 0 ≤ 512 * 3 ∧ 512 * 3 < 0 + 512 * (0 + 1)) ∨
      (0 + 512 * 1 ≤ 512 * 3 ∧ 512 * 3 < 0 + 512 * (1 + 1))) ∨
      (0 + 512 * 2 ≤ 512 * 3 ∧ 512 * 3 < 0 + 512 * (2 + mkgptConfig.arraySectors))) ∨
      (0 + 512 * (mkgptConfig.volume.toNat - 1) ≤ 512 * 3 ∧
        512 * 3 < 0 + 512 * (mkgptConfig.volume.toNat - 1 + 1)))
    rw [harr, hvolume]
    decide

end Tlibc.Gpt
