import Tlibc.Spec.GptEntries
import Tlibc.Spec.GptCrc

/-!
# The two GPT headers

What `writeHeaders` leaves at the primary and at the backup header: the fields
the two share (`writeHeaders_shared`), the two LBAs that name each other
(`writeHeaders_lbas`), and checksums that cover the bytes as they finally are
(`writeHeaders_crc`).
-/

namespace Tlibc.Gpt

/-- The stores of `storeHeader`, in their order. -/
def headerStores (h : Host) (config : GPTConfig) (start nPartition : UInt64)
    (entryArrayCRC : UInt32) : List (Nat × List UInt8) :=
  [(0, efiPart),
    (8, Mem.leBytes 4 0x00010000),
    (12, Mem.leBytes 4 92),
    (20, Mem.leBytes 4 0),
    (24, Mem.leBytes 8 1),
    (32, Mem.leBytes 8 (config.volume - 1).toNat),
    (40, Mem.leBytes 8 start.toNat),
    (48, Mem.leBytes 8 (config.volume - 2).toNat),
    (56, config.diskId.bytes h),
    (72, Mem.leBytes 8 2),
    (80, Mem.leBytes 4 nPartition.toNat),
    (84, Mem.leBytes 4 128),
    (88, Mem.leBytes 4 entryArrayCRC.toNat)]

section

variable (h : Host) (m : Mem) (lba1 last : Nat) (config : GPTConfig) (start nPartition : UInt64)
  (entryArrayCRC : UInt32)

private theorem storeHeader_eq : storeHeader h m lba1 config start nPartition entryArrayCRC =
    m.writeAll lba1 (headerStores h config start nPartition entryArrayCRC) := by
  simp only [storeHeader, Host.storeLe_eq, headerStores, Mem.writeAll, GPTHeader.signature,
    GPTHeader.revision, GPTHeader.headerSize, GPTHeader.size, GPTHeader.reserved,
    GPTHeader.thisLBA, GPTHeader.alternateLBA, GPTHeader.firstUsableLBA, GPTHeader.lastUsableLBA,
    GPTHeader.diskID, GPTHeader.startEntryArray, GPTHeader.numEntries, GPTHeader.sizeEntryArray,
    GPTHeader.crc32EntryArray, PartitionEntry.size, Width.bytes]

private theorem headerStores_ascending :
    Mem.Ascending 92 0 (headerStores h config start nPartition entryArrayCRC) := by
  simp [Mem.Ascending, headerStores, efiPart]

/-- The memory before the checksums go in. -/
def headersNoCRC : Mem :=
  let m := storeHeader h ((m.fill lba1 92 0).fill last 92 0) lba1 config start nPartition
    entryArrayCRC
  ((m.copy last lba1 92).write (last + 24) (Mem.leBytes 8 (config.volume - 1).toNat)).write
    (last + 32) (Mem.leBytes 8 1)

private theorem writeHeaders_eq :
    let m₁ := headersNoCRC h m lba1 last config start nPartition entryArrayCRC
    let m₂ := m₁.write (lba1 + 16)
      (Mem.leBytes 4 (crc32 (m₁.read lba1 (headerSizeOf h m₁ lba1))).toNat)
    writeHeaders h m lba1 last config start nPartition entryArrayCRC =
      m₂.write (last + 16) (Mem.leBytes 4 (crc32 (m₂.read last (headerSizeOf h m₂ lba1))).toNat) := by
  simp only [writeHeaders, headersNoCRC, Host.storeLe_eq, GPTHeader.size, GPTHeader.thisLBA,
    GPTHeader.alternateLBA, GPTHeader.headerCRC32, Width.bytes]

/-- A field outside the two LBAs and the checksum is the same in both headers. -/
private theorem headersNoCRC_shared (hsep : last = lba1 ∨ last + 92 ≤ lba1 ∨ lba1 + 92 ≤ last)
    {off n v : Nat}
    (hs : (off, Mem.leBytes n v) ∈ headerStores h config start nPartition entryArrayCRC)
    (hoff : off + n ≤ 24 ∨ 40 ≤ off) :
    let m' := headersNoCRC h m lba1 last config start nPartition entryArrayCRC
    m'.load (lba1 + off) n = v % 256 ^ n ∧ m'.load (last + off) n = v % 256 ^ n := by
  have hasc := headerStores_ascending h config start nPartition entryArrayCRC
  have hb : 0 ≤ off ∧ off + (Mem.leBytes n v).length ≤ 92 := hasc.bounds hs
  rw [Mem.length_leBytes] at hb
  have hload := @Mem.load_writeAll ((m.fill lba1 92 0).fill last 92 0) lba1 _ _ _ _ hasc.apart hs
  -- the two LBAs are stored at 24 and 32, clear of the field
  have hout : ∀ (m : Mem) b k v', b + off + n ≤ b + k ∨ b + k + 8 ≤ b + off →
      (m.write (b + k) (Mem.leBytes 8 v')).load (b + off) n = m.load (b + off) n :=
    fun m b k v' hk => Mem.load_write_ne (by rw [Mem.length_leBytes]; omega)
  -- the copy takes the field to the backup
  have hlast : Mem.load ((((m.fill lba1 92 0).fill last 92 0).writeAll lba1
      (headerStores h config start nPartition entryArrayCRC)).copy last lba1 92) (last + off) n =
      v % 256 ^ n := by
    rw [Mem.load_copy_in hb.2, hload]
  simp only [headersNoCRC, storeHeader_eq]
  rcases hsep with rfl | hsep
  · -- one and the same header: the copy is the identity
    refine ⟨?_, ?_⟩ <;> rw [hout _ _ _ _ (by omega), hout _ _ _ _ (by omega), hlast]
  · refine ⟨?_, ?_⟩
    · rw [Mem.load_write_ne (by rw [Mem.length_leBytes]; omega),
        Mem.load_write_ne (by rw [Mem.length_leBytes]; omega), Mem.load_copy_ne (by omega), hload]
    · rw [hout _ _ _ _ (by omega), hout _ _ _ _ (by omega), hlast]

/-- The fields both headers share, as `writeHeaders` leaves them. -/
theorem writeHeaders_shared (hsep : last = lba1 ∨ last + 92 ≤ lba1 ∨ lba1 + 92 ≤ last)
    {off n v : Nat}
    (hs : (off, Mem.leBytes n v) ∈ headerStores h config start nPartition entryArrayCRC)
    (hoff : off + n ≤ 16 ∨ (20 ≤ off ∧ off + n ≤ 24) ∨ 40 ≤ off) :
    let m' := writeHeaders h m lba1 last config start nPartition entryArrayCRC
    m'.load (lba1 + off) n = v % 256 ^ n ∧ m'.load (last + off) n = v % 256 ^ n := by
  have hasc := headerStores_ascending h config start nPartition entryArrayCRC
  have hb : 0 ≤ off ∧ off + (Mem.leBytes n v).length ≤ 92 := hasc.bounds hs
  rw [Mem.length_leBytes] at hb
  have hno := headersNoCRC_shared h m lba1 last config start nPartition entryArrayCRC hsep hs
    (by omega)
  -- neither checksum overlaps the field, in whichever header it is stored
  have hcrc : ∀ (m : Mem) b k v', (b = lba1 ∨ b = last) → (k = lba1 ∨ k = last) →
      (m.write (k + 16) (Mem.leBytes 4 v')).load (b + off) n = m.load (b + off) n := by
    intro m b k v' hb' hk
    refine Mem.load_write_ne ?_
    rw [Mem.length_leBytes]
    rcases hb' with rfl | rfl <;> rcases hk with rfl | rfl <;> omega
  simp only [writeHeaders_eq]
  refine ⟨?_, ?_⟩
  · rw [hcrc _ _ _ _ (.inl rfl) (.inr rfl), hcrc _ _ _ _ (.inl rfl) (.inl rfl), hno.1]
  · rw [hcrc _ _ _ _ (.inr rfl) (.inr rfl), hcrc _ _ _ _ (.inr rfl) (.inl rfl), hno.2]

/-! ## Two headers in two places -/

section

variable (hsep : last + 92 ≤ lba1 ∨ lba1 + 92 ≤ last)

include hsep

/-- Outside the two LBAs the backup is a copy of the primary. -/
private theorem headersNoCRC_copy {i : Nat} (hi : i < 92) (hne : i < 24 ∨ 40 ≤ i) :
    let m' := headersNoCRC h m lba1 last config start nPartition entryArrayCRC
    m' (last + i) = m' (lba1 + i) := by
  have hlen : ∀ v, (Mem.leBytes 8 v).length = 8 := Mem.length_leBytes 8
  simp only [headersNoCRC]
  rw [Mem.write_apply_out (by rw [hlen]; omega), Mem.write_apply_out (by rw [hlen]; omega),
    Mem.write_apply_out (by rw [hlen]; omega), Mem.write_apply_out (by rw [hlen]; omega),
    Mem.copy_apply_in (by omega) (by omega), Mem.copy_apply_out (by omega), Nat.add_sub_cancel_left]

/-- The checksum fields are still zero. -/
private theorem headersNoCRC_zero {i : Nat} (hi : i < 4) :
    let m' := headersNoCRC h m lba1 last config start nPartition entryArrayCRC
    m' (lba1 + 16 + i) = 0 ∧ m' (last + 16 + i) = 0 := by
  have hlen : ∀ v, (Mem.leBytes 8 v).length = 8 := Mem.length_leBytes 8
  -- no store of `storeHeader` touches bytes 16 to 19
  have hgap : ∀ s ∈ headerStores h config start nPartition entryArrayCRC,
      lba1 + 16 + i < lba1 + s.1 ∨ lba1 + s.1 + s.2.length ≤ lba1 + 16 + i := by
    intro s hs
    simp only [headerStores, List.mem_cons, List.not_mem_nil, or_false] at hs
    rcases hs with rfl | rfl | rfl | rfl | rfl | rfl | rfl | rfl | rfl | rfl | rfl | rfl | rfl <;>
      simp only [Mem.length_leBytes, length_GUID_bytes, efiPart, List.length_cons,
        List.length_nil] <;> omega
  have hprimary : headersNoCRC h m lba1 last config start nPartition entryArrayCRC (lba1 + 16 + i) =
      0 := by
    simp only [headersNoCRC, storeHeader_eq]
    rw [Mem.write_apply_out (by rw [hlen]; omega), Mem.write_apply_out (by rw [hlen]; omega),
      Mem.copy_apply_out (by omega), Mem.writeAll_apply_out hgap, Mem.fill_apply_out (by omega),
      Mem.fill_apply_in (by omega) (by omega)]
  refine ⟨hprimary, ?_⟩
  -- the backup got its four zeros with the copy
  have hcopy := headersNoCRC_copy h m lba1 last config start nPartition entryArrayCRC hsep
    (show 16 + i < 92 by omega) (by omega)
  rw [← Nat.add_assoc, ← Nat.add_assoc] at hcopy
  exact hcopy.trans hprimary

/-- Each header names its own sector and the other's. -/
theorem writeHeaders_lbas :
    let m' := writeHeaders h m lba1 last config start nPartition entryArrayCRC
    m'.load (lba1 + 24) 8 = 1 ∧ m'.load (lba1 + 32) 8 = (config.volume - 1).toNat ∧
      m'.load (last + 24) 8 = (config.volume - 1).toNat ∧ m'.load (last + 32) 8 = 1 := by
  have hasc := headerStores_ascending h config start nPartition entryArrayCRC
  have hlen : ∀ n v, (Mem.leBytes n v).length = n := Mem.length_leBytes
  have hvol : (config.volume - 1).toNat < 256 ^ 8 := (config.volume - 1).toNat_lt
  -- the primary keeps what `storeHeader` put there
  have hload : ∀ off v, (off, Mem.leBytes 8 v) ∈
      headerStores h config start nPartition entryArrayCRC → off + 8 ≤ 92 →
      (headersNoCRC h m lba1 last config start nPartition entryArrayCRC).load (lba1 + off) 8 =
        v % 256 ^ 8 := by
    intro off v hs hoff
    simp only [headersNoCRC, storeHeader_eq]
    rw [Mem.load_write_ne (by rw [hlen]; omega), Mem.load_write_ne (by rw [hlen]; omega),
      Mem.load_copy_ne (by omega), Mem.load_writeAll hasc.apart hs]
  simp only [writeHeaders_eq]
  refine ⟨?_, ?_, ?_, ?_⟩
  · rw [Mem.load_write_ne (by rw [hlen]; omega), Mem.load_write_ne (by rw [hlen]; omega),
      hload 24 1 (by simp [headerStores]) (by omega)]
    rfl
  · rw [Mem.load_write_ne (by rw [hlen]; omega), Mem.load_write_ne (by rw [hlen]; omega),
      hload 32 (config.volume - 1).toNat (by simp [headerStores]) (by omega),
      Nat.mod_eq_of_lt hvol]
  · rw [Mem.load_write_ne (by rw [hlen]; omega), Mem.load_write_ne (by rw [hlen]; omega),
      headersNoCRC, Mem.load_write_ne (by rw [hlen]; omega), Mem.load_write_of_lt hvol]
  · rw [Mem.load_write_ne (by rw [hlen]; omega), Mem.load_write_ne (by rw [hlen]; omega),
      headersNoCRC, Mem.load_write_of_lt (by decide)]

/-- Outside the two LBAs and the checksum the headers are the same. -/
theorem writeHeaders_copy {i : Nat} (hi : i < 92)
    (hne : i < 16 ∨ (20 ≤ i ∧ i < 24) ∨ 40 ≤ i) :
    let m' := writeHeaders h m lba1 last config start nPartition entryArrayCRC
    m' (last + i) = m' (lba1 + i) := by
  have hlen : ∀ v, (Mem.leBytes 4 v).length = 4 := Mem.length_leBytes 4
  simp only [writeHeaders_eq]
  rw [Mem.write_apply_out (by rw [hlen]; omega), Mem.write_apply_out (by rw [hlen]; omega),
    Mem.write_apply_out (by rw [hlen]; omega), Mem.write_apply_out (by rw [hlen]; omega)]
  exact headersNoCRC_copy h m lba1 last config start nPartition entryArrayCRC hsep hi (by omega)

end

/-- On a little-endian host the checksum stored in each header is the CRC-32 of
    the header's final bytes with the checksum field zeroed. -/
theorem writeHeaders_crc (hsep : last + 92 ≤ lba1 ∨ lba1 + 92 ≤ last) :
    let m' := writeHeaders .little m lba1 last config start nPartition entryArrayCRC
    m'.load (lba1 + 16) 4 = (Crc.crc32 ((m'.fill (lba1 + 16) 4 0).read lba1 92)).toNat ∧
      m'.load (last + 16) 4 = (Crc.crc32 ((m'.fill (last + 16) 4 0).read last 92)).toNat := by
  intro m'
  have hlen : ∀ v, (Mem.leBytes 4 v).length = 4 := Mem.length_leBytes 4
  obtain ⟨m₁, hm₁⟩ : ∃ m₁, m₁ = headersNoCRC .little m lba1 last config start nPartition
    entryArrayCRC := ⟨_, rfl⟩
  have hzero : ∀ i, i < 4 → m₁ (lba1 + 16 + i) = 0 ∧ m₁ (last + 16 + i) = 0 := by
    intro i hi
    rw [hm₁]
    exact headersNoCRC_zero .little m lba1 last config start nPartition entryArrayCRC hsep hi
  -- both checksums run over `lba1->headerSize` bytes, read from the primary
  have hsize : m₁.load (lba1 + 12) 4 = 92 := by
    rw [hm₁]
    exact (headersNoCRC_shared .little m lba1 last config start nPartition entryArrayCRC
      (.inr hsep) (show (12, Mem.leBytes 4 92) ∈ _ by simp [headerStores]) (by omega)).1
  obtain ⟨m₂, hm₂⟩ : ∃ m₂, m₂ = m₁.write (lba1 + 16)
    (Mem.leBytes 4 (crc32 (m₁.read lba1 92)).toNat) := ⟨_, rfl⟩
  have hsize₂ : m₂.load (lba1 + 12) 4 = 92 := by
    rw [hm₂, Mem.load_write_ne (by omega), hsize]
  -- storing the primary's checksum leaves the backup alone
  have hread₂ : m₂.read last 92 = m₁.read last 92 := by
    rw [hm₂]
    exact Mem.read_congr fun i hi => Mem.write_apply_out (by rw [hlen]; omega)
  have hm' : m' = m₂.write (last + 16) (Mem.leBytes 4 (crc32 (m₁.read last 92)).toNat) := by
    have h := writeHeaders_eq .little m lba1 last config start nPartition entryArrayCRC
    have hs₁ : headerSizeOf .little m₁ lba1 = 92 := hsize
    have hs₂ : headerSizeOf .little m₂ lba1 = 92 := hsize₂
    rw [← hm₁] at h
    simp only [hs₁, ← hm₂, hs₂, hread₂] at h
    exact h
  -- zeroing the stored checksum gives back the bytes it was computed over
  have hback : ∀ b, (b = lba1 ∨ b = last) → (m'.fill (b + 16) 4 0).read b 92 = m₁.read b 92 := by
    intro b hb
    refine Mem.read_congr fun i hi => ?_
    by_cases hcrc : 16 ≤ i ∧ i < 20
    · obtain ⟨j, rfl⟩ := Nat.exists_eq_add_of_le hcrc.1
      have hz := hzero j (by omega)
      rw [Mem.fill_apply_in (by omega) (by omega), ← Nat.add_assoc]
      rcases hb with rfl | rfl
      · exact hz.1.symm
      · exact hz.2.symm
    · rw [Mem.fill_apply_out (by omega), hm', hm₂]
      rcases hb with rfl | rfl <;>
        rw [Mem.write_apply_out (by rw [hlen]; omega), Mem.write_apply_out (by rw [hlen]; omega)]
  rw [hback lba1 (.inl rfl), hback last (.inr rfl), ← crc32_eq, ← crc32_eq]
  refine ⟨?_, ?_⟩
  · rw [hm', Mem.load_write_ne (by rw [hlen]; omega), hm₂]
    exact Mem.load_write_of_lt (UInt32.toNat_lt _)
  · rw [hm']
    exact Mem.load_write_of_lt (UInt32.toNat_lt _)

/-- Only the two headers change. -/
theorem writeHeaders_frame :
    Mem.Frame (Set.Ico lba1 (lba1 + 92) ∪ Set.Ico last (last + 92)) m
      (writeHeaders h m lba1 last config start nPartition entryArrayCRC) := by
  intro a ha
  -- the byte is in neither of the two headers
  have hp : ¬ (lba1 ≤ a ∧ a < lba1 + 92) := fun hp => ha (.inl hp)
  have hl : ¬ (last ≤ a ∧ a < last + 92) := fun hl => ha (.inr hl)
  have hlen : ∀ n v, (Mem.leBytes n v).length = n := Mem.length_leBytes
  have hstores : ∀ s ∈ headerStores h config start nPartition entryArrayCRC,
      a < lba1 + s.1 ∨ lba1 + s.1 + s.2.length ≤ a := by
    intro s hs
    have := (headerStores_ascending h config start nPartition entryArrayCRC).bounds hs
    omega
  -- the stores, the clears and the copy are all inside of them
  simp only [writeHeaders_eq, headersNoCRC, storeHeader_eq]
  rw [Mem.write_apply_out (by rw [hlen]; omega), Mem.write_apply_out (by rw [hlen]; omega),
    Mem.write_apply_out (by rw [hlen]; omega), Mem.write_apply_out (by rw [hlen]; omega),
    Mem.copy_apply_out (by omega), Mem.writeAll_apply_out hstores, Mem.fill_apply_out (by omega),
    Mem.fill_apply_out (by omega)]

end

end Tlibc.Gpt
