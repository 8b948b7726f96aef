import Tlibc.Spec.GptImage

/-!
# The protective MBR

The first record of LBA 0 should cover the whole disk, as far as its fields hold
numbers that large.

* `createProtectGPT_protects_iff`: when it does. The end field is narrowed to 32
  bits before it is clamped, and the size clamps one block early.
-/

namespace Tlibc.Gpt

/-- The record as a reader of the disk finds it: block 1 up to the last block of
    `nBlock`, and an end field of the disk's size in bytes. -/
structure Protects (m : Mem) (mbr nBlock : Nat) : Prop where
  startLBA : m.load (mbr + MBR.records + PartitionRecord.startLBA.off) 4 = 1
  sizeInLBA : m.load (mbr + MBR.records + PartitionRecord.sizeInLBA.off) 4 =
    min (nBlock - 1) 0xFFFFFFFF
  endCHS : m.load (mbr + MBR.records + PartitionRecord.endCHS) 3 =
    if 0xFFFFFF < 512 * nBlock then 0xFFFFFF else 512 * nBlock

/-- The value of the 24-bit end field. -/
def endField (nBlock : UInt64) : UInt32 :=
  if (blockSize * nBlock).toUInt32 > 0xFFFFFF then 0xFFFFFF else (blockSize * nBlock).toUInt32

/-- The value of the size field. -/
def sizeField (nBlock : UInt64) : UInt32 :=
  (if nBlock ≥ 0xFFFFFFFF then 0xFFFFFFFF else nBlock - 1).toUInt32

theorem sizeField_toNat {nBlock : UInt64} (hn : 1 ≤ nBlock.toNat) :
    (sizeField nBlock).toNat = if 0xFFFFFFFF ≤ nBlock.toNat then 0xFFFFFFFF else nBlock.toNat - 1 := by
  have hmax : (0xFFFFFFFF : UInt64).toNat = 0xFFFFFFFF := rfl
  have hle : (1 : UInt64) ≤ nBlock := UInt64.le_iff_toNat_le.mpr hn
  have hsub : (nBlock - 1).toNat = nBlock.toNat - 1 := UInt64.toNat_sub_of_le _ _ hle
  simp only [sizeField, ge_iff_le, UInt64.le_iff_toNat_le, hmax]
  split
  · rfl
  · rw [UInt64.toNat_toUInt32, hsub]
    omega

theorem endField_toNat {nBlock : UInt64} (hsize : 512 * nBlock.toNat < 2 ^ 64) :
    (endField nBlock).toNat = min (512 * nBlock.toNat % 2 ^ 32) 0xFFFFFF := by
  have h512 : blockSize.toNat = 512 := rfl
  have hmax : (0xFFFFFF : UInt32).toNat = 0xFFFFFF := rfl
  have hnarrow : (blockSize * nBlock).toUInt32.toNat = 512 * nBlock.toNat % 2 ^ 32 := by
    rw [UInt64.toNat_toUInt32, UInt64.toNat_mul, h512, Nat.mod_eq_of_lt hsize]
  simp only [endField, gt_iff_lt, UInt32.lt_iff_toNat_lt, hmax, hnarrow]
  split
  · omega
  · omega

section

variable (h : Host) (m : Mem) (mbr : Nat) (nBlock : UInt64)

/-- Each store of `createProtectGPT` is found in the sector. -/
private theorem createProtectGPT_read (off : Nat) (bs : List UInt8)
    (hs : (off, bs) ∈ mbrStores h blockSize nBlock) :
    (createProtectGPT h m mbr blockSize nBlock).read (mbr + off) bs.length = bs := by
  rw [createProtectGPT_eq]
  exact Mem.read_writeAll (by simp [Mem.Apart, mbrStores]) hs

/-- The record's first block is a plain assignment: only a little-endian host
    stores it for a reader of the disk. -/
theorem createProtectGPT_startLBA :
    (createProtectGPT h m mbr blockSize nBlock).load
      (mbr + MBR.records + PartitionRecord.startLBA.off) 4 = 1 ↔ h = .little := by
  have hread := createProtectGPT_read h m mbr nBlock 454 (h.bytesOf 4 1) (by simp [mbrStores])
  rw [Host.length_bytesOf] at hread
  have hoff : mbr + MBR.records + PartitionRecord.startLBA.off = mbr + 454 := rfl
  rw [hoff, Mem.load, hread]
  cases h <;> decide

/-- On a little-endian host the record holds the two fields. -/
theorem createProtectGPT_fields :
    let m' := createProtectGPT .little m mbr blockSize nBlock
    m'.load (mbr + MBR.records + PartitionRecord.sizeInLBA.off) 4 = (sizeField nBlock).toNat ∧
      m'.load (mbr + MBR.records + PartitionRecord.endCHS) 3 = (endField nBlock).toNat := by
  intro m'
  have htake : (Mem.leBytes 4 (endField nBlock).toNat).take 3 =
    Mem.leBytes 3 (endField nBlock).toNat := rfl
  have hsize := createProtectGPT_read .little m mbr nBlock 458
    (Mem.leBytes 4 (sizeField nBlock).toNat) (by simp [mbrStores, sizeField])
  have hend := createProtectGPT_read .little m mbr nBlock 451
    (Mem.leBytes 3 (endField nBlock).toNat) (by rw [← htake]; simp [mbrStores, endField])
  rw [Mem.length_leBytes] at hsize hend
  -- the clamp leaves a number of 24 bits
  have hclamp : (endField nBlock).toNat < 256 ^ 3 := by
    have hmax : (0xFFFFFF : UInt32).toNat = 0xFFFFFF := rfl
    simp only [endField, gt_iff_lt, UInt32.lt_iff_toNat_lt, hmax]
    split
    · decide
    · omega
  have hoff : mbr + MBR.records + PartitionRecord.sizeInLBA.off = mbr + 458 := rfl
  have hoff' : mbr + MBR.records + PartitionRecord.endCHS = mbr + 451 := rfl
  constructor
  · rw [hoff, Mem.load, hsize, Mem.leNat_leBytes]
    exact Nat.mod_eq_of_lt (UInt32.toNat_lt _)
  · rw [hoff', Mem.load, hend, Mem.leNat_leBytes]
    exact Nat.mod_eq_of_lt hclamp

/-- Behind the headers' bytes the first sector is what `createProtectGPT` left. -/
theorem gptGenerate_mbr (buf : Nat) {config : GPTConfig} (hok : config.tooSmall = false) {i : Nat}
    (hlo : 92 ≤ i) (hhi : i < 512) :
    (gptGenerate h m buf config).mem (buf + i) =
      createProtectGPT h m buf blockSize config.volume (buf + i) := by
  have h512 : blockSize.toNat = 512 := rfl
  obtain ⟨k, hk⟩ : ∃ k, getSector buf (config.volume - 1) = buf + 512 * k := by
    refine ⟨((config.volume - 1) * blockSize).toNat / 512, ?_⟩
    rw [getSector, UInt64.toNat_mul, h512]
    omega
  rw [gptGenerate_mem h m buf hok]
  -- a header takes the first bytes of its sector, an entry lies behind sector 1
  have hframe := writeHeaders_frame h (arrayMem h m buf config) (getSector buf 1)
    (getSector buf (config.volume - 1)) config (UInt64.ofNat config.endOfPartitions)
    (UInt64.ofNat config.fitting) (arrayCRC h m buf config)
  rw [hframe.apply fun ha => by
    have ha : (getSector buf 1 ≤ buf + i ∧ buf + i < getSector buf 1 + 92) ∨
      (getSector buf (config.volume - 1) ≤ buf + i ∧
        buf + i < getSector buf (config.volume - 1) + 92) := ha
    rw [hk, getSector_one] at ha
    omega]
  rw [arrayMem, writeEntries_below _ _ _ _ _ (by rw [getSector_two]; omega)]

/-- So the record of a generated table covers the disk if the one
    `createProtectGPT` wrote does. -/
theorem gptGenerate_protects (buf : Nat) {config : GPTConfig} (hok : config.tooSmall = false)
    (n : Nat) :
    Protects (gptGenerate h m buf config).mem buf n ↔
      Protects (createProtectGPT h m buf blockSize config.volume) buf n := by
  -- the record is bytes 446 to 461 of the sector
  have hload : ∀ off k, 92 ≤ off → off + k ≤ 512 →
      (gptGenerate h m buf config).mem.load (buf + off) k =
        (createProtectGPT h m buf blockSize config.volume).load (buf + off) k := by
    intro off k hlo hhi
    apply Mem.load_congr
    intro i hi
    rw [Nat.add_assoc, gptGenerate_mbr h m buf hok (by omega) (by omega)]
  have hstart := hload 454 4 (by omega) (by omega)
  have hsize := hload 458 4 (by omega) (by omega)
  have hend := hload 451 3 (by omega) (by omega)
  constructor
  · intro hp
    exact ⟨hstart.symm.trans hp.startLBA, hsize.symm.trans hp.sizeInLBA, hend.symm.trans hp.endCHS⟩
  · intro hp
    exact ⟨hstart.trans hp.startLBA, hsize.trans hp.sizeInLBA, hend.trans hp.endCHS⟩

end

/-- A disk of at least five blocks is covered exactly when the host is little-endian,
    the disk is not the one whose last block has the largest 32-bit number but one,
    and its size in bytes, if beyond 32 bits, still exceeds the clamp when narrowed. -/
theorem createProtectGPT_protects_iff (h : Host) (m : Mem) (mbr : Nat) (nBlock : UInt64)
    (hn : 5 ≤ nBlock.toNat) (hsize : 512 * nBlock.toNat < 2 ^ 64) :
    Protects (createProtectGPT h m mbr blockSize nBlock) mbr nBlock.toNat ↔
      h = .little ∧ nBlock.toNat ≠ 2 ^ 32 - 1 ∧
        (512 * nBlock.toNat < 2 ^ 32 ∨ 0xFFFFFF < 512 * nBlock.toNat % 2 ^ 32) := by
  obtain ⟨hsz, hend⟩ := createProtectGPT_fields m mbr nBlock
  rw [sizeField_toNat (by omega)] at hsz
  rw [endField_toNat hsize] at hend
  -- the start has to be 1, and the size is what the disk has behind it
  constructor
  · rintro ⟨hstart, hsize', hend'⟩
    obtain rfl := (createProtectGPT_startLBA h m mbr nBlock).mp hstart
    rw [hsz] at hsize'
    rw [hend] at hend'
    refine ⟨rfl, ?_, ?_⟩
    · -- with `2 ^ 32 - 1` blocks the size is clamped, although it would fit
      intro hmax
      simp [hmax] at hsize'
    · split at hend' <;> omega
  · -- conversely both numbers are stored as they are
    rintro ⟨rfl, hmax, hwrap⟩
    refine ⟨(createProtectGPT_startLBA .little m mbr nBlock).mpr rfl, ?_, ?_⟩
    · rw [hsz]
      split <;> omega
    · rw [hend]
      split <;> omega

theorem createProtectGPT_protects_iff_mkgpt :
    Protects (createProtectGPT .little (fun _ => 0) 0 blockSize 524288) 0 524288 :=
  (createProtectGPT_protects_iff .little (fun _ => 0) 0 524288 (by decide) (by decide)).mpr
    (by decide)

/-- On a disk of 4 GiB the end field is zero: the narrowing leaves nothing of the
    size. -/
theorem createProtectGPT_4GiB :
    ¬ Protects (createProtectGPT .little (fun _ => 0) 0 blockSize 8388608) 0 8388608 := by
  intro h
  have hend := (createProtectGPT_fields (fun _ => 0) 0 8388608).2
  rw [h.endCHS] at hend
  exact absurd hend (by decide)

end Tlibc.Gpt
