import Tlibc.Spec.GptImage

/-!
# Reading a generated table back

What a reader of the disk finds, whatever the buffer held before. `readEntry` and
`HeaderValid` are written from the layout of the table alone.

* `gptGenerate_decodes`: the entries decode to the config.
* `gptGenerate_valid`: both headers pass validation, on the final bytes.
-/

namespace Tlibc.Gpt

/-! ## Readers -/

/-- The GUID at address `a`: three little-endian numbers, then bytes. -/
def GUID.read (m : Mem) (a : Nat) : GUID where
  timeLow := UInt32.ofNat (m.load a 4)
  timeMid := UInt16.ofNat (m.load (a + 4) 2)
  timeHigh := UInt16.ofNat (m.load (a + 6) 2)
  clockSeqHigh := m (a + 8)
  clockSeqLow := m (a + 9)
  node := Vector.ofFn fun i => m (a + 10 + i)

/-- A partition entry as a reader sees it; `name` has the 36 UTF-16 units of the
    name field. -/
structure Entry where
  partType : GUID
  partId : GUID
  startLBA : Nat
  endLBA : Nat
  attrs : Nat
  name : List Nat

/-- Decode the partition entry at address `a`. -/
def readEntry (m : Mem) (a : Nat) : Entry where
  partType := GUID.read m (a + PartitionEntry.partType)
  partId := GUID.read m (a + PartitionEntry.partId)
  startLBA := m.load (a + PartitionEntry.startLBA.off) 8
  endLBA := m.load (a + PartitionEntry.endLBA.off) 8
  attrs := m.load (a + PartitionEntry.attrs.off) 8
  name := (List.range 36).map fun i => m.load (a + PartitionEntry.partitionName + 2 * i) 2

/-- The UTF-16 units of a name field that holds `name`, padded with zeros. -/
def nameUnits (name : List UInt8) : List Nat :=
  name.map (fun c => c.toNat) ++ List.replicate (36 - name.length) 0

/-- What an entry must say about `p`: bits 0 and 2 of the attributes are set. -/
def PartitionConfig.entry (p : PartitionConfig) : Entry where
  partType := p.partType
  partId := p.partId
  startLBA := p.startLBA.toNat
  endLBA := p.startLBA.toNat + p.volume.toNat - 1
  attrs := 5
  name := nameUnits p.name.chars

/-- `"EFI PART"`, as a little-endian number. -/
def efiSignature : Nat := 0x5452415020494645

/-- The header in sector `lba` passes validation: it has the signature, its checksums are
    those of the bytes on disk, and it names its own sector and the other header's. -/
structure HeaderValid (m : Mem) (buf : Nat) (lba alternate : UInt64) : Prop where
  signature : m.load (getSector buf lba + GPTHeader.signature) 8 = efiSignature
  headerCRC32 : m.load (getSector buf lba + GPTHeader.headerCRC32.off) 4 =
    (Crc.crc32 ((m.fill (getSector buf lba + GPTHeader.headerCRC32.off) 4 0).read
      (getSector buf lba) GPTHeader.size)).toNat
  thisLBA : m.load (getSector buf lba + GPTHeader.thisLBA.off) 8 = lba.toNat
  alternateLBA : m.load (getSector buf lba + GPTHeader.alternateLBA.off) 8 = alternate.toNat
  crc32EntryArray : m.load (getSector buf lba + GPTHeader.crc32EntryArray.off) 4 =
    (Crc.crc32 (m.read
      (buf + 512 * m.load (getSector buf lba + GPTHeader.startEntryArray.off) 8)
      (m.load (getSector buf lba + GPTHeader.numEntries.off) 4 *
        m.load (getSector buf lba + GPTHeader.sizeEntryArray.off) 4))).toNat

/-! ## Round trips -/

/-- A GUID is read back from its bytes. -/
private theorem GUID.read_eq {m : Mem} {a : Nat} {g : GUID} (h : m.read a 16 = g.bytes .little) :
    GUID.read m a = g := by
  have hlen : ∀ n v, (Mem.leBytes n v).length = n := Mem.length_leBytes
  -- cut the sixteen bytes at the members
  rw [show 16 = 4 + (2 + (2 + (2 + 6))) from rfl, Mem.read_add, Mem.read_add, Mem.read_add,
    Mem.read_add, GUID.bytes] at h
  simp only [Host.bytesOf_little, List.append_assoc] at h
  obtain ⟨hlow, h⟩ := List.append_inj h (by rw [Mem.length_read, hlen])
  obtain ⟨hmid, h⟩ := List.append_inj h (by rw [Mem.length_read, hlen])
  obtain ⟨hhigh, h⟩ := List.append_inj h (by rw [Mem.length_read, hlen])
  obtain ⟨hseq, hnode⟩ := List.append_inj h (by rw [Mem.length_read]; rfl)
  -- the last six bytes are the node
  have hbyte : ∀ i (hi : i < 6), m (a + 10 + i) = g.node[i] := by
    intro i hi
    have hi' : i < (m.read (a + 4 + 2 + 2 + 2) 6).length := by rw [Mem.length_read]; exact hi
    have hget := Mem.getElem_read m (a + 4 + 2 + 2 + 2) 6 i hi'
    rw [← hget]
    simp only [hnode, Vector.getElem_toList]
  have h8 : m (a + 8) = g.clockSeqHigh := (List.cons.inj hseq).1
  have h9 : m (a + 9) = g.clockSeqLow := (List.cons.inj (List.cons.inj hseq).2).1
  have hl4 : m.load a 4 = g.timeLow.toNat := by
    rw [Mem.load, hlow, Mem.leNat_leBytes]
    exact Nat.mod_eq_of_lt g.timeLow.toNat_lt
  have hl6 : m.load (a + 4) 2 = g.timeMid.toNat := by
    rw [Mem.load, hmid, Mem.leNat_leBytes]
    exact Nat.mod_eq_of_lt g.timeMid.toNat_lt
  have hl8 : m.load (a + 6) 2 = g.timeHigh.toNat := by
    rw [Mem.load, hhigh, Mem.leNat_leBytes]
    exact Nat.mod_eq_of_lt g.timeHigh.toNat_lt
  have hn : Vector.ofFn (fun i : Fin 6 => m (a + 10 + i)) = g.node := by
    ext i hi
    rw [Vector.getElem_ofFn, hbyte i hi]
  rw [GUID.read, hl4, hl6, hl8, h8, h9, hn, UInt32.ofNat_toNat, UInt16.ofNat_toNat,
    UInt16.ofNat_toNat]

/-- The name field is read back: the characters, then zeros. -/
private theorem read_name {m : Mem} {a : Nat} {name : List UInt8} (hlen : name.length ≤ 36)
    (hname : m.read a (2 * name.length) = nameBytes name)
    (hzero : ∀ j, 2 * name.length ≤ j → j < 72 → m (a + j) = 0) :
    (List.range 36).map (fun i => m.load (a + 2 * i) 2) = nameUnits name := by
  -- unit `i` of the name, from the two bytes it was written as
  have hunit : ∀ (name : List UInt8) (a i : Nat) (hi : i < name.length),
      m.read a (2 * name.length) = nameBytes name → m.load (a + 2 * i) 2 = name[i].toNat := by
    intro name
    induction name with
    | nil => exact fun a i hi _ => absurd hi (Nat.not_lt_zero i)
    | cons c name ih =>
      intro a i hi h
      rw [List.length_cons, show 2 * (name.length + 1) = 2 + 2 * name.length by omega,
        Mem.read_add] at h
      obtain ⟨hhead, htail⟩ := List.append_inj h (by rw [Mem.length_read]; rfl)
      cases i with
      | zero =>
        rw [Nat.mul_zero, Nat.add_zero, Mem.load, hhead]
        exact Nat.add_zero _
      | succ i =>
        rw [show a + 2 * (i + 1) = a + 2 + 2 * i by omega,
          ih (a + 2) i (Nat.lt_of_succ_lt_succ hi) htail, List.getElem_cons_succ]
  refine List.ext_getElem ?_ fun i h₁ h₂ => ?_
  · simp only [nameUnits, List.length_map, List.length_range, List.length_append,
      List.length_replicate]
    omega
  · simp only [List.length_map, List.length_range] at h₁
    simp only [List.getElem_map, List.getElem_range, nameUnits]
    by_cases hi : i < name.length
    · rw [List.getElem_append_left (by rwa [List.length_map]), List.getElem_map,
        hunit name a i hi hname]
    -- behind the name both bytes of a unit are zero
    · rw [List.getElem_append_right (by rw [List.length_map]; omega), List.getElem_replicate]
      exact Mem.load_eq_zero fun j hj => by
        rw [Nat.add_assoc]
        exact hzero _ (by omega) (by omega)

/-- An entry decodes to the partition it was written for, wherever it lies. -/
theorem readEntry_eq {m : Mem} {a : Nat} {p : PartitionConfig}
    (hbytes : ∀ j, j < 128 → m (a + j) = entryByte .little p j)
    (hname : p.name.chars.length ≤ 36) (hend : 1 ≤ p.startLBA.toNat)
    (hend' : p.startLBA.toNat + p.volume.toNat < 2 ^ 64) : readEntry m a = p.entry := by
  have hapart := entryStores_apart .little p
  -- every store of the iteration can be read back, as they lie apart
  have hstore : ∀ s ∈ entryStores .little p, m.read (a + s.1) s.2.length = s.2 := by
    intro s hs
    have hb := entryStores_bounds .little hname hs
    have hsize : PartitionEntry.size = 128 := rfl
    have hr := @Mem.read_writeAll (fun _ => 0) 0 _ hapart s hs
    conv => rhs; rw [← hr]
    exact Mem.read_congr fun i hi => by
      rw [Nat.zero_add, Nat.add_assoc, hbytes _ (by omega), entryByte]
  have hload : ∀ off v, (off, Mem.leBytes 8 v) ∈ entryStores .little p → v < 2 ^ 64 →
      m.load (a + off) 8 = v := by
    intro off v hs hv
    have hr := hstore _ hs
    rw [Mem.length_leBytes] at hr
    rw [Mem.load, hr, Mem.leNat_leBytes]
    exact Nat.mod_eq_of_lt hv
  -- the last LBA does not wrap: the partition ends below `2 ^ 64`
  have hlast : (p.startLBA + p.volume - 1).toNat = p.startLBA.toNat + p.volume.toNat - 1 := by
    have h1 : (1 : UInt64).toNat = 1 := rfl
    have hadd : (p.startLBA + p.volume).toNat = p.startLBA.toNat + p.volume.toNat := by
      rw [UInt64.toNat_add, Nat.mod_eq_of_lt hend']
    have hle : 1 ≤ p.startLBA + p.volume := by
      rw [UInt64.le_iff_toNat_le, hadd, h1]
      omega
    rw [UInt64.toNat_sub_of_le _ _ hle, hadd, h1]
  have hguid : ∀ off g, (off, GUID.bytes .little g) ∈ entryStores .little p →
      GUID.read m (a + off) = g := by
    intro off g hs
    have hr := hstore _ hs
    rw [length_GUID_bytes] at hr
    exact GUID.read_eq hr
  have htype : GUID.read m (a + 0) = p.partType := hguid 0 _ (by simp [entryStores])
  have hid : GUID.read m (a + 16) = p.partId := hguid 16 _ (by simp [entryStores])
  have hstart : m.load (a + 32) 8 = p.startLBA.toNat :=
    hload 32 _ (by simp [entryStores]) p.startLBA.toNat_lt
  have hstop : m.load (a + 40) 8 = p.startLBA.toNat + p.volume.toNat - 1 := by
    rw [← hlast]
    exact hload 40 _ (by simp [entryStores]) (UInt64.toNat_lt _)
  have hattrs : m.load (a + 48) 8 = 5 := hload 48 5 (by simp [entryStores]) (by decide)
  have hchars : m.read (a + 56) (2 * p.name.chars.length) = nameBytes p.name.chars := by
    have hr := hstore (56, nameBytes p.name.chars) (by simp [entryStores])
    rwa [length_nameBytes] at hr
  -- what the name leaves of its field was cleared
  have hpad : ∀ j, 2 * p.name.chars.length ≤ j → j < 72 → m (a + 56 + j) = 0 := by
    intro j hj hj'
    rw [Nat.add_assoc, hbytes _ (by omega)]
    refine entryByte_zero .little fun s hs => ?_
    simp only [entryStores, List.mem_cons, List.not_mem_nil, or_false] at hs
    rcases hs with rfl | rfl | rfl | rfl | rfl | rfl <;>
      simp only [Mem.length_leBytes, length_GUID_bytes, length_nameBytes] <;> omega
  have hn := read_name hname hchars hpad
  simp only [readEntry, PartitionConfig.entry, PartitionEntry.partType, PartitionEntry.partId,
    PartitionEntry.startLBA, PartitionEntry.endLBA, PartitionEntry.attrs,
    PartitionEntry.partitionName, htype, hid, hstart, hstop, hattrs, hn]

/-! ## Whole calls -/

private theorem fitting_toNat (config : GPTConfig) :
    (UInt64.ofNat config.fitting).toNat = config.fitting := by
  have hk := fitting_le config
  rw [config.length_partitions] at hk
  rw [UInt64.toNat_ofNat', Nat.mod_eq_of_lt (Nat.lt_of_le_of_lt hk config.numPart.toNat_lt)]

section

variable (m : Mem) (buf : Nat) {config : GPTConfig} (hok : config.tooSmall = false)
  (hpart : config.numPart.toNat < 2 ^ 32)

include hok hpart

/-- Both headers locate the created entries. -/
theorem header_locates (lba : UInt64) (hlba : lba = 1 ∨ lba = config.volume - 1) :
    let m' := (gptGenerate .little m buf config).mem
    m'.load (getSector buf lba + GPTHeader.numEntries.off) 4 = config.fitting ∧
      m'.load (getSector buf lba + GPTHeader.sizeEntryArray.off) 4 = 128 ∧
      m'.load (getSector buf lba + GPTHeader.startEntryArray.off) 8 = 2 ∧
      m'.load (getSector buf lba + GPTHeader.crc32EntryArray.off) 4 =
        (arrayCRC .little m buf config).toNat := by
  have hk := fitting_le config
  rw [config.length_partitions] at hk
  have hNat := fitting_toNat config
  -- each of the four fields is a store both headers share
  have hnum := gptGenerate_shared .little m buf hok
    (show (80, Mem.leBytes 4 (UInt64.ofNat config.fitting).toNat) ∈ _ by simp [headerStores])
    (by omega) (by rw [hNat]; exact Nat.lt_of_le_of_lt hk hpart)
  rw [hNat] at hnum
  have hsize := gptGenerate_shared .little m buf hok
    (show (84, Mem.leBytes 4 128) ∈ _ by simp [headerStores]) (by omega) (by decide)
  have hstart := gptGenerate_shared .little m buf hok
    (show (72, Mem.leBytes 8 2) ∈ _ by simp [headerStores]) (by omega) (by decide)
  have hcrc := gptGenerate_shared .little m buf hok
    (show (88, Mem.leBytes 4 (arrayCRC .little m buf config).toNat) ∈ _ by simp [headerStores])
    (by omega) (UInt32.toNat_lt _)
  rcases hlba with rfl | rfl
  · exact ⟨hnum.1, hsize.1, hstart.1, hcrc.1⟩
  · exact ⟨hnum.2, hsize.2, hstart.2, hcrc.2⟩

omit hpart in
/-- Both headers begin with the signature. -/
private theorem header_signature (lba : UInt64) (hlba : lba = 1 ∨ lba = config.volume - 1) :
    (gptGenerate .little m buf config).mem.load (getSector buf lba + GPTHeader.signature) 8 =
      efiSignature := by
  have hbytes : efiPart = Mem.leBytes 8 efiSignature := by decide
  have hsig := gptGenerate_shared .little m buf hok
    (show (0, Mem.leBytes 8 efiSignature) ∈ _ by rw [← hbytes]; simp [headerStores]) (by omega)
    (by decide)
  rcases hlba with rfl | rfl
  · exact hsig.1
  · exact hsig.2

variable (hbuf : config.volume.toNat * 512 ≤ 2 ^ 64)

include hbuf

omit hpart in
/-- The checksum in the headers is that of the entries as they finally are. -/
theorem arrayCRC_eq : arrayCRC .little m buf config =
    Crc.crc32 ((gptGenerate .little m buf config).mem.read (getSector buf 2)
      (config.fitting * 128)) := by
  obtain ⟨-, -, -, hvol⟩ := of_not_tooSmall hok
  have hk := fitting_le config
  rw [config.length_partitions] at hk
  have harr : config.arraySectors = (config.numPart.toNat + 3) / 4 := rfl
  have hlen : (128 * UInt64.ofNat config.fitting).toNat = config.fitting * 128 := by
    have h128 : (128 : UInt64).toNat = 128 := rfl
    rw [UInt64.toNat_mul, fitting_toNat, h128]
    omega
  rw [arrayCRC, crc32_eq, hlen]
  congr 1
  exact Mem.read_congr fun i hi =>
    (gptGenerate_apply .little m buf hok hbuf (by rw [getSector_two]; omega)
      (by rw [getSector_two]; omega)).symm

theorem headerValid (lba alternate : UInt64)
    (hlba : (lba = 1 ∧ alternate = config.volume - 1) ∨ (lba = config.volume - 1 ∧ alternate = 1)) :
    HeaderValid (gptGenerate .little m buf config).mem buf lba alternate := by
  obtain ⟨-, -, -, hvol⟩ := of_not_tooSmall hok
  have hlast := getSector_last_eq buf hok hbuf
  have hone := getSector_one buf
  -- the disk has at least five sectors, so the headers lie apart
  have hsep : getSector buf (config.volume - 1) + 92 ≤ getSector buf 1 ∨
      getSector buf 1 + 92 ≤ getSector buf (config.volume - 1) := by omega
  have hmem := gptGenerate_mem .little m buf hok
  have hcrc := writeHeaders_crc (arrayMem .little m buf config) (getSector buf 1)
    (getSector buf (config.volume - 1)) config (UInt64.ofNat config.endOfPartitions)
    (UInt64.ofNat config.fitting) (arrayCRC .little m buf config) hsep
  have hlbas := writeHeaders_lbas .little (arrayMem .little m buf config) (getSector buf 1)
    (getSector buf (config.volume - 1)) config (UInt64.ofNat config.endOfPartitions)
    (UInt64.ofNat config.fitting) (arrayCRC .little m buf config) hsep
  simp only [← hmem] at hcrc hlbas
  obtain ⟨hthis₁, halt₁, hthis₂, halt₂⟩ := hlbas
  have hsel : lba = 1 ∨ lba = config.volume - 1 := hlba.imp (fun h => h.1) fun h => h.1
  obtain ⟨hnum, hsize, hstart, hacrc⟩ := header_locates m buf hok hpart lba hsel
  have harray := arrayCRC_eq m buf hok hbuf
  refine ⟨header_signature m buf hok lba hsel, ?_, ?_, ?_, ?_⟩
  · rcases hlba with ⟨rfl, -⟩ | ⟨rfl, -⟩
    · exact hcrc.1
    · exact hcrc.2
  · rcases hlba with ⟨rfl, -⟩ | ⟨rfl, -⟩
    · exact hthis₁
    · exact hthis₂
  · rcases hlba with ⟨rfl, rfl⟩ | ⟨rfl, rfl⟩
    · exact halt₁
    · exact halt₂
  · rw [hacrc, hnum, hsize, hstart, harray]
    rfl

end

/-- The headers in sectors 1 and `volume - 1` both validate against the final
    buffer, and agree in everything but the two LBAs and their own checksums. -/
theorem gptGenerate_valid (m : Mem) (buf : Nat) (config : GPTConfig)
    (hok : config.tooSmall = false) (hpart : config.numPart.toNat < 2 ^ 32)
    (hbuf : config.volume.toNat * 512 ≤ 2 ^ 64) :
    let m' := (gptGenerate .little m buf config).mem
    HeaderValid m' buf 1 (config.volume - 1) ∧ HeaderValid m' buf (config.volume - 1) 1 ∧
      ∀ i, i < GPTHeader.size → (i < 16 ∨ (20 ≤ i ∧ i < 24) ∨ 40 ≤ i) →
        m' (getSector buf (config.volume - 1) + i) = m' (getSector buf 1 + i) := by
  intro m'
  refine ⟨headerValid m buf hok hpart hbuf _ _ (.inl ⟨rfl, rfl⟩),
    headerValid m buf hok hpart hbuf _ _ (.inr ⟨rfl, rfl⟩), fun i hi hne => ?_⟩
  obtain ⟨-, -, -, hvol⟩ := of_not_tooSmall hok
  have hlast := getSector_last_eq buf hok hbuf
  have hone := getSector_one buf
  simp only [m', gptGenerate_mem .little m buf hok]
  exact writeHeaders_copy .little _ _ _ config _ _ _ (by omega) hi hne

theorem gptGenerate_valid_mkgpt :
    let m' := (gptGenerate .little (fun _ => 0) 0 mkgptConfig).mem
    mkgptConfig.tooSmall = false ∧ HeaderValid m' 0 1 (mkgptConfig.volume - 1) ∧
      HeaderValid m' 0 (mkgptConfig.volume - 1) 1 := by
  obtain ⟨hprimary, hbackup, -⟩ := gptGenerate_valid (fun _ => 0) 0 mkgptConfig
    (by decide) (by decide) (by decide)
  exact ⟨by decide, hprimary, hbackup⟩

/-- Decoding the table gives the created partitions back, entry for entry, and
    the rest of the array is zero whatever the buffer held. -/
theorem gptGenerate_decodes (m : Mem) (buf : Nat) (config : GPTConfig)
    (hok : config.tooSmall = false) (hpart : config.numPart.toNat < 2 ^ 32)
    (hbuf : config.volume.toNat * 512 ≤ 2 ^ 64)
    (hname : ∀ p ∈ config.partitions, p.name.chars.length ≤ 36) :
    let r := gptGenerate .little m buf config
    let header := getSector buf 1
    1 ≤ r.ret.toNat →
      (∀ i, i < r.ret.toNat → ∃ p q, r.created[i]? = some p ∧ config.partitions[i]? = some q ∧
        p = { q with startLBA := p.startLBA } ∧
        readEntry r.mem (getSector buf 2 + 128 * i) = p.entry) ∧
      (∀ a, getSector buf 2 + 128 * r.ret.toNat ≤ a →
        a < buf + 512 * (2 + (config.numPart.toNat + 3) / 4) → r.mem a = 0) ∧
      r.mem.load (header + GPTHeader.numEntries.off) 4 = r.ret.toNat ∧
      r.mem.load (header + GPTHeader.sizeEntryArray.off) 4 = PartitionEntry.size ∧
      r.mem.load (header + GPTHeader.startEntryArray.off) 8 = 2 := by
  intro r header hpos
  have hret : r.ret.toNat = config.fitting := gptGenerate_ret .little m buf hok
  obtain ⟨-, -, -, hroom⟩ := of_not_tooSmall hok
  have hk := fitting_le config
  rw [config.length_partitions] at hk
  have harr : config.arraySectors = (config.numPart.toNat + 3) / 4 := rfl
  have hlt := config.volume.toNat_lt
  have hend := startOf_fitting_le hok
  have hclear := clear_length hok hbuf
  obtain ⟨hnum, hsize, hstart, -⟩ := header_locates m buf hok hpart 1 (.inl rfl)
  have hcreated : r.created = placed config.firstSector (config.partitions.take config.fitting) :=
    gptGenerate_created .little m buf hok
  have hnames : ∀ p ∈ r.created, p.name.chars.length ≤ 36 := by
    intro p hp
    obtain ⟨i, hi⟩ := List.mem_iff_getElem?.mp hp
    obtain ⟨-, -, -, q, hq, hpq⟩ := of_created .little m buf hok hi
    rw [hpq]
    exact hname q (List.mem_of_getElem? hq)
  refine ⟨fun i hi => ?_, fun a hlo hhi => ?_, by rw [hret]; exact hnum, hsize, hstart⟩
  · have hlen : i < r.created.length := by
      rw [hcreated, length_placed, List.length_take, config.length_partitions]
      omega
    have hp := List.getElem?_eq_getElem hlen
    -- partition `i` starts behind the array and ends before `volume - 1`
    obtain ⟨hik, hstart, hstop, q, hq, hpq⟩ := of_created .little m buf hok hp
    have hmono := Placement.startOf_mono config.firstSector (volumes config.partitions) hik
    have hbase := Placement.base_le_startOf config.firstSector (volumes config.partitions) i
    have hfirst : config.firstSector = 2 + config.arraySectors := rfl
    have hstop : (r.created[i]).startLBA.toNat + (r.created[i]).volume.toNat =
      Placement.startOf config.firstSector (volumes config.partitions) (i + 1) := hstop
    rw [Nat.succ_eq_add_one] at hmono
    refine ⟨r.created[i], q, hp, hq, hpq, ?_⟩
    refine readEntry_eq (fun j hj => ?_) (hnames _ (List.getElem_mem hlen)) (by omega) (by omega)
    -- the headers lie elsewhere, and the later clears start behind this entry
    rw [gptGenerate_apply .little m buf hok hbuf (by rw [getSector_two]; omega)
      (by rw [getSector_two]; omega), arrayMem, ← hcreated]
    exact writeEntries_entry .little _ _ _ _ hnames (by rw [hclear]; omega) hp hj
  · rw [getSector_two] at hlo
    rw [gptGenerate_apply .little m buf hok hbuf (by omega) (by omega)]
    exact arrayMem_zero .little m buf hok hbuf hname (by omega) (by omega) (by omega)

theorem gptGenerate_decodes_mkgpt :
    let r := gptGenerate .little (fun _ => 0xFF) 0 mkgptConfig
    r.ret.toNat = 2 ∧ ∃ p, r.created[1]? = some p ∧
      readEntry r.mem (getSector 0 2 + 128 * 1) = p.entry := by
  intro r
  have hok : mkgptConfig.tooSmall = false := by decide
  have hfit : mkgptConfig.fitting = 2 := by decide
  have hret : r.ret.toNat = 2 := (gptGenerate_ret .little _ 0 hok).trans hfit
  obtain ⟨hentry, -⟩ := gptGenerate_decodes (fun _ => 0xFF) 0 mkgptConfig hok (by decide)
    (by decide) (by decide) (by rw [hret]; decide)
  obtain ⟨p, -, hp, -, -, hread⟩ := hentry 1 (by rw [hret]; decide)
  exact ⟨hret, p, hp, hread⟩

end Tlibc.Gpt
