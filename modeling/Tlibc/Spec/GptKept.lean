import Tlibc.Spec.GptDecode
import Tlibc.Spec.GptProtect

/-!
# A partition table in use

What a disk may be used for without harm to its table. Boot code goes to the first 440
bytes of LBA 0, files go to the partitions; whatever is written there, a reader still finds
the table that `GPTGenerate` left.

* `gptGenerate_table_kept`: such writes keep both headers, the entries and the record of
  the protective MBR
-/

namespace Tlibc.Gpt

/-- The sectors of a partition, byte by byte. -/
def PartitionConfig.bytes (p : PartitionConfig) (buf : Nat) : Set Nat :=
  sectorBytes buf p.startLBA.toNat p.volume.toNat

/-- The bytes in front of the disk signature. -/
def bootCodeBytes (buf : Nat) : Set Nat := Set.Ico buf (buf + MBR.rDiskSignature.off)

/-- What boot code and partitions may be written to. -/
def usableBytes (buf : Nat) (created : List PartitionConfig) : Set Nat :=
  bootCodeBytes buf ∪ {a | ∃ p ∈ created, a ∈ p.bytes buf}

/-- A reader of the disk finds the table of `config` with the given partitions. -/
structure TableHolds (m : Mem) (buf : Nat) (config : GPTConfig) (created : List PartitionConfig) :
    Prop where
  primary : HeaderValid m buf 1 (config.volume - 1)
  backup : HeaderValid m buf (config.volume - 1) 1
  numEntries : m.load (getSector buf 1 + GPTHeader.numEntries.off) 4 = created.length
  startEntryArray : m.load (getSector buf 1 + GPTHeader.startEntryArray.off) 8 = 2
  entries : ∀ i p, created[i]? = some p → readEntry m (getSector buf 2 + 128 * i) = p.entry

/-! ## What a reader looks at -/

/-- A header is its sector and the entries it locates. -/
private theorem HeaderValid.congr {m m' : Mem} {buf : Nat} {lba alternate : UInt64}
    (hv : HeaderValid m buf lba alternate)
    (hsector : ∀ i, i < 512 → m' (getSector buf lba + i) = m (getSector buf lba + i))
    (harray : ∀ i, i < m.load (getSector buf lba + GPTHeader.numEntries.off) 4 *
        m.load (getSector buf lba + GPTHeader.sizeEntryArray.off) 4 →
      m' (buf + 512 * m.load (getSector buf lba + GPTHeader.startEntryArray.off) 8 + i) =
        m (buf + 512 * m.load (getSector buf lba + GPTHeader.startEntryArray.off) 8 + i)) :
    HeaderValid m' buf lba alternate := by
  have hload : ∀ off n, off + n ≤ 512 →
      m'.load (getSector buf lba + off) n = m.load (getSector buf lba + off) n := by
    intro off n hoff
    refine Mem.load_congr fun i hi => ?_
    rw [Nat.add_assoc]
    exact hsector _ (by omega)
  -- the checksum is taken over the header with its own field cleared
  have hcleared : (m'.fill (getSector buf lba + 16) 4 0).read (getSector buf lba) 92 =
      (m.fill (getSector buf lba + 16) 4 0).read (getSector buf lba) 92 := by
    refine Mem.read_congr fun i hi => ?_
    by_cases hin : 16 ≤ i ∧ i < 20
    · rw [Mem.fill_apply_in (by omega) (by omega), Mem.fill_apply_in (by omega) (by omega)]
    · rw [Mem.fill_apply_out (by omega), Mem.fill_apply_out (by omega)]
      exact hsector i (by omega)
  have hsig := hload 0 8 (by decide)
  have hcrc := hload 16 4 (by decide)
  have hthis := hload 24 8 (by decide)
  have halt := hload 32 8 (by decide)
  have hstart := hload 72 8 (by decide)
  have hnum := hload 80 4 (by decide)
  have hsize := hload 84 4 (by decide)
  have hacrc := hload 88 4 (by decide)
  constructor
  · exact hsig.trans hv.signature
  · show m'.load (getSector buf lba + 16) 4 = (Crc.crc32
      ((m'.fill (getSector buf lba + 16) 4 0).read (getSector buf lba) 92)).toNat
    rw [hcrc, hcleared]
    exact hv.headerCRC32
  · exact hthis.trans hv.thisLBA
  · exact halt.trans hv.alternateLBA
  · have hentries : m'.read (buf + 512 * m.load (getSector buf lba + 72) 8)
        (m.load (getSector buf lba + 80) 4 * m.load (getSector buf lba + 84) 4) =
        m.read (buf + 512 * m.load (getSector buf lba + 72) 8)
          (m.load (getSector buf lba + 80) 4 * m.load (getSector buf lba + 84) 4) :=
      Mem.read_congr harray
    show m'.load (getSector buf lba + 88) 4 = (Crc.crc32
      (m'.read (buf + 512 * m'.load (getSector buf lba + 72) 8)
        (m'.load (getSector buf lba + 80) 4 * m'.load (getSector buf lba + 84) 4))).toNat
    rw [hacrc, hstart, hnum, hsize, hentries]
    exact hv.crc32EntryArray

/-- The record of the protective MBR lies behind the boot code. -/
private theorem Protects.congr {m m' : Mem} {mbr n : Nat} (hp : Protects m mbr n)
    (h : ∀ i, 440 ≤ i → i < 512 → m' (mbr + i) = m (mbr + i)) : Protects m' mbr n := by
  have hload : ∀ off k, 440 ≤ off → off + k ≤ 512 → m'.load (mbr + off) k = m.load (mbr + off) k := by
    intro off k hlo hhi
    refine Mem.load_congr fun i hi => ?_
    rw [Nat.add_assoc]
    exact h _ (by omega) (by omega)
  exact ⟨(hload 454 4 (by decide) (by decide)).trans hp.startLBA,
    (hload 458 4 (by decide) (by decide)).trans hp.sizeInLBA,
    (hload 451 3 (by decide) (by decide)).trans hp.endCHS⟩

/-! ## Writes that stay clear of the table -/

/-- When all partitions fit, all are created. -/
theorem created_eq_partitions (h : Host) (m : Mem) (buf : Nat) {config : GPTConfig}
    (hok : config.tooSmall = false) (hfit : config.fitting = config.partitions.length) :
    (gptGenerate h m buf config).created = (gptGenerate h m buf config).partitions ∧
      (gptGenerate h m buf config).partitions = placed config.firstSector config.partitions := by
  have hparts := congrArg GPTResult.partitions (gptGenerate_eq h m buf hok)
  rw [hfit, List.take_length, List.drop_length, List.append_nil] at hparts
  rw [gptGenerate_created h m buf hok, hfit, List.take_length, hparts]
  exact ⟨rfl, rfl⟩

section

variable {m m' : Mem} {buf : Nat} {config : GPTConfig} (hok : config.tooSmall = false)

include hok

/-- The created partitions lie between the entry array and the last two sectors. -/
private theorem created_bounds (h : Host) {p : PartitionConfig}
    (hp : p ∈ (gptGenerate h m buf config).created) :
    config.firstSector ≤ p.startLBA.toNat ∧
      p.startLBA.toNat + p.volume.toNat ≤ config.volume.toNat - 2 := by
  obtain ⟨i, hi⟩ := List.mem_iff_getElem?.mp hp
  obtain ⟨hfit, hstart, hstop, -⟩ := of_created h m buf hok hi
  have hmono := Placement.startOf_mono config.firstSector (volumes config.partitions)
    (Nat.succ_le_of_lt hfit)
  have hend := startOf_fitting_le hok
  rw [Nat.succ_eq_add_one] at hmono
  exact ⟨by rw [hstart]; exact Placement.base_le_startOf _ _ _, by omega⟩

/-- The table itself is none of the usable bytes. -/
private theorem table_not_usable (h : Host) {a : Nat}
    (ha : (buf + 440 ≤ a ∧ a < buf + 512 * config.firstSector) ∨
      (buf + 512 * (config.volume.toNat - 1) ≤ a)) :
    a ∉ usableBytes buf (gptGenerate h m buf config).created := by
  obtain ⟨-, -, -, hvol⟩ := of_not_tooSmall hok
  rintro (⟨hlo, hhi⟩ | ⟨p, hp, hlo, hhi⟩)
  · have hhi : a < buf + 440 := hhi
    omega
  · obtain ⟨hfirst, hlast⟩ := created_bounds hok h hp
    omega

variable (hbuf : config.volume.toNat * 512 ≤ 2 ^ 64)
  (hname : ∀ p ∈ config.partitions, p.name.chars.length ≤ 36)

include hbuf hname

/-- The bytes of a created entry, when the call returns. -/
private theorem gptGenerate_entry {i j : Nat} {p : PartitionConfig}
    (hp : (gptGenerate .little m buf config).created[i]? = some p) (hj : j < 128) :
    (gptGenerate .little m buf config).mem (getSector buf 2 + 128 * i + j) =
      entryByte .little p j := by
  obtain ⟨hi, -⟩ := of_created .little m buf hok hp
  obtain ⟨-, -, -, hvol⟩ := of_not_tooSmall hok
  have hk := fitting_le config
  rw [config.length_partitions] at hk
  have harr : config.arraySectors = (config.numPart.toNat + 3) / 4 := rfl
  have hclear := clear_length hok hbuf
  have hcreated := gptGenerate_created .little m buf hok
  -- the names of what was created are those of the configuration
  have hnames : ∀ q ∈ (gptGenerate .little m buf config).created, q.name.chars.length ≤ 36 := by
    intro q hq
    obtain ⟨k, hk⟩ := List.mem_iff_getElem?.mp hq
    obtain ⟨-, -, -, r, hr, hqr⟩ := of_created .little m buf hok hk
    rw [hqr]
    exact hname r (List.mem_of_getElem? hr)
  -- the entry is where it was written, as nothing is stored there afterwards
  rw [gptGenerate_apply .little m buf hok hbuf (by rw [getSector_two]; omega)
    (by rw [getSector_two]; omega), arrayMem, ← hcreated]
  exact writeEntries_entry .little _ _ _ _ hnames (by rw [hclear]; omega) hp hj

/-- A memory that differs in usable bytes only still has the table. -/
theorem tableHolds_of_frame (hpart : config.numPart.toNat < 2 ^ 32)
    (hwrites : Mem.Frame (usableBytes buf (gptGenerate .little m buf config).created)
      (gptGenerate .little m buf config).mem m') :
    TableHolds m' buf config (gptGenerate .little m buf config).created ∧
      ∀ n, Protects (gptGenerate .little m buf config).mem buf n → Protects m' buf n := by
  obtain ⟨r, hr⟩ : ∃ r, r = gptGenerate .little m buf config := ⟨_, rfl⟩
  obtain ⟨-, harr, -, hvol⟩ := of_not_tooSmall hok
  have hlast := getSector_last_eq buf hok hbuf
  have hk := fitting_le config
  rw [config.length_partitions] at hk
  have hfirst : config.firstSector = 2 + config.arraySectors := rfl
  have harrEq : config.arraySectors = (config.numPart.toNat + 3) / 4 := rfl
  have hkept : ∀ a, (buf + 440 ≤ a ∧ a < buf + 512 * config.firstSector) ∨
      buf + 512 * (config.volume.toNat - 1) ≤ a → m' a = r.mem a := by
    intro a ha
    rw [hr]
    exact hwrites.apply (table_not_usable hok .little ha)
  have hone : ∀ i, i < 512 → m' (getSector buf 1 + i) = r.mem (getSector buf 1 + i) :=
    fun i hi => hkept _ (.inl (by rw [getSector_one]; omega))
  -- the two headers lie on both sides of the partitions, and locate the same entries
  have hheader : ∀ lba alternate, (lba = 1 ∧ alternate = config.volume - 1) ∨
      (lba = config.volume - 1 ∧ alternate = 1) → HeaderValid m' buf lba alternate := by
    intro lba alternate hlba
    have hsel : lba = 1 ∨ lba = config.volume - 1 := hlba.imp (fun h => h.1) fun h => h.1
    obtain ⟨hnum, hsize, hstart, -⟩ := header_locates m buf hok hpart lba hsel
    have hv := headerValid m buf hok hpart hbuf lba alternate hlba
    rw [← hr] at hnum hsize hstart hv
    refine hv.congr (fun i hi => ?_) fun i hi => ?_
    · rcases hsel with rfl | rfl
      · exact hone i hi
      · exact hkept _ (.inr (by rw [hlast]; omega))
    · rw [hnum, hsize] at hi
      rw [hstart]
      exact hkept _ (.inl (by omega))
  obtain ⟨hnum, -, hstart, -⟩ := header_locates m buf hok hpart 1 (.inl rfl)
  rw [← hr] at hnum hstart
  have hload : ∀ off n, off + n ≤ 512 →
      m'.load (getSector buf 1 + off) n = r.mem.load (getSector buf 1 + off) n := by
    intro off n hoff
    refine Mem.load_congr fun i hi => ?_
    rw [Nat.add_assoc]
    exact hone _ (by omega)
  have hlen : r.created.length = config.fitting := by
    rw [hr, gptGenerate_created .little m buf hok, length_placed, List.length_take,
      config.length_partitions]
    omega
  rw [← hr]
  refine ⟨⟨hheader _ _ (.inl ⟨rfl, rfl⟩), hheader _ _ (.inr ⟨rfl, rfl⟩), ?_, ?_, fun i p hp => ?_⟩,
    fun n hn => ?_⟩
  · rw [hlen, ← hnum]
    exact hload 80 4 (by decide)
  · rw [← hstart]
    exact hload 72 8 (by decide)
  · rw [hr] at hp
    obtain ⟨hi, hpstart, hpstop, q, hq, hpq⟩ := of_created .little m buf hok hp
    obtain ⟨hlo, hhi⟩ := created_bounds hok .little (List.mem_of_getElem? hp)
    have hpname : p.name.chars.length ≤ 36 := by
      rw [hpq]
      exact hname q (List.mem_of_getElem? hq)
    have hlt := config.volume.toNat_lt
    refine readEntry_eq (fun j hj => ?_) hpname (by omega) (by omega)
    rw [hkept _ (.inl (by rw [getSector_two]; omega)), hr]
    exact gptGenerate_entry hok hbuf hname hp hj
  · exact hn.congr fun i hlo hhi => hkept _ (.inl (by omega))

end

/-- However the boot code and the created partitions are written to, both headers stay valid,
    the entries decode to the partitions, and a record that covered the disk still does. -/
theorem gptGenerate_table_kept (m : Mem) (buf : Nat) (config : GPTConfig)
    (hok : config.tooSmall = false) (hpart : config.numPart.toNat < 2 ^ 32)
    (hbuf : config.volume.toNat * 512 ≤ 2 ^ 64)
    (hname : ∀ p ∈ config.partitions, p.name.chars.length ≤ 36)
    (writes : List (Nat × List UInt8))
    (hwrites : ∀ w ∈ writes, ∀ i, i < w.2.length →
      w.1 + i ∈ usableBytes buf (gptGenerate .little m buf config).created) :
    let r := gptGenerate .little m buf config
    let m' := writes.foldl (fun m w => m.write w.1 w.2) r.mem
    TableHolds m' buf config r.created ∧
      ∀ n, Protects r.mem buf n → Protects m' buf n := by
  intro r m'
  -- each write leaves everything else as it is
  have hframe : ∀ (ws : List (Nat × List UInt8)) (m₁ : Mem), (∀ w ∈ ws, w ∈ writes) →
      Mem.Frame (usableBytes buf r.created) m₁ (ws.foldl (fun m w => m.write w.1 w.2) m₁) := by
    intro ws
    induction ws with
    | nil => exact fun m₁ _ => Mem.Frame.refl _ m₁
    | cons w ws ih =>
      intro m₁ hmem
      refine Mem.Frame.trans ?_ (ih (m₁.write w.1 w.2) fun w' hw' => hmem w'
        (List.mem_cons_of_mem _ hw'))
      refine (Mem.frame_write m₁ w.1 w.2).mono fun a ha => ?_
      have hlo : w.1 ≤ a := ha.1
      have hhi : a < w.1 + w.2.length := ha.2
      have husable := hwrites w (hmem w List.mem_cons_self) (a - w.1) (by omega)
      rwa [Nat.add_sub_cancel' hlo] at husable
  exact tableHolds_of_frame hok hbuf hname hpart (hframe writes r.mem fun w hw => hw)

/-- An endless loop for boot code, on the disk of `mkgpt.c`. -/
theorem gptGenerate_table_kept_loop :
    let r := gptGenerate .little (fun _ => 0) 0 mkgptConfig
    TableHolds (r.mem.write 0 [0xeb, 0xfe]) 0 mkgptConfig r.created := by
  intro r
  refine (gptGenerate_table_kept (fun _ => 0) 0 mkgptConfig (by decide) (by decide) (by decide)
    (by decide) [(0, [0xeb, 0xfe])] fun w hw i hi => ?_).1
  obtain rfl := List.mem_singleton.mp hw
  have hi : i < 2 := hi
  exact .inl ⟨Nat.zero_le _, by show 0 + i < 0 + 440; omega⟩

end Tlibc.Gpt
