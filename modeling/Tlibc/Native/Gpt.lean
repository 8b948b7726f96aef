import Tlibc.Native.Endian

/-!
# `gpt/gpt.c`

The GUID partition table writer: the table-driven CRC-32, the packed on-disk
structs, the protective MBR and `GPTGenerate`. Members of packed structs are
`Field`s; a struct pointer is the address of its first byte.
-/

namespace Tlibc.Gpt

/-- `crc32_tab`. -/
def crc32Tab : Array UInt32 := #[
    0x00000000, 0x77073096, 0xee0e612c, 0x990951ba, 0x076dc419, 0x706af48f, 0xe963a535, 0x9e6495a3,
    0x0edb8832, 0x79dcb8a4, 0xe0d5e91e, 0x97d2d988, 0x09b64c2b, 0x7eb17cbd, 0xe7b82d07, 0x90bf1d91,
    0x1db71064, 0x6ab020f2, 0xf3b97148, 0x84be41de, 0x1adad47d, 0x6ddde4eb, 0xf4d4b551, 0x83d385c7,
    0x136c9856, 0x646ba8c0, 0xfd62f97a, 0x8a65c9ec, 0x14015c4f, 0x63066cd9, 0xfa0f3d63, 0x8d080df5,
    0x3b6e20c8, 0x4c69105e, 0xd56041e4, 0xa2677172, 0x3c03e4d1, 0x4b04d447, 0xd20d85fd, 0xa50ab56b,
    0x35b5a8fa, 0x42b2986c, 0xdbbbc9d6, 0xacbcf940, 0x32d86ce3, 0x45df5c75, 0xdcd60dcf, 0xabd13d59,
    0x26d930ac, 0x51de003a, 0xc8d75180, 0xbfd06116, 0x21b4f4b5, 0x56b3c423, 0xcfba9599, 0xb8bda50f,
    0x2802b89e, 0x5f058808, 0xc60cd9b2, 0xb10be924, 0x2f6f7c87, 0x58684c11, 0xc1611dab, 0xb6662d3d,
    0x76dc4190, 0x01db7106, 0x98d220bc, 0xefd5102a, 0x71b18589, 0x06b6b51f, 0x9fbfe4a5, 0xe8b8d433,
    0x7807c9a2, 0x0f00f934, 0x9609a88e, 0xe10e9818, 0x7f6a0dbb, 0x086d3d2d, 0x91646c97, 0xe6635c01,
    0x6b6b51f4, 0x1c6c6162, 0x856530d8, 0xf262004e, 0x6c0695ed, 0x1b01a57b, 0x8208f4c1, 0xf50fc457,
    0x65b0d9c6, 0x12b7e950, 0x8bbeb8ea, 0xfcb9887c, 0x62dd1ddf, 0x15da2d49, 0x8cd37cf3, 0xfbd44c65,
    0x4db26158, 0x3ab551ce, 0xa3bc0074, 0xd4bb30e2, 0x4adfa541, 0x3dd895d7, 0xa4d1c46d, 0xd3d6f4fb,
    0x4369e96a, 0x346ed9fc, 0xad678846, 0xda60b8d0, 0x44042d73, 0x33031de5, 0xaa0a4c5f, 0xdd0d7cc9,
    0x5005713c, 0x270241aa, 0xbe0b1010, 0xc90c2086, 0x5768b525, 0x206f85b3, 0xb966d409, 0xce61e49f,
    0x5edef90e, 0x29d9c998, 0xb0d09822, 0xc7d7a8b4, 0x59b33d17, 0x2eb40d81, 0xb7bd5c3b, 0xc0ba6cad,
    0xedb88320, 0x9abfb3b6, 0x03b6e20c, 0x74b1d29a, 0xead54739, 0x9dd277af, 0x04db2615, 0x73dc1683,
    0xe3630b12, 0x94643b84, 0x0d6d6a3e, 0x7a6a5aa8, 0xe40ecf0b, 0x9309ff9d, 0x0a00ae27, 0x7d079eb1,
    0xf00f9344, 0x8708a3d2, 0x1e01f268, 0x6906c2fe, 0xf762575d, 0x806567cb, 0x196c3671, 0x6e6b06e7,
    0xfed41b76, 0x89d32be0, 0x10da7a5a, 0x67dd4acc, 0xf9b9df6f, 0x8ebeeff9, 0x17b7be43, 0x60b08ed5,
    0xd6d6a3e8, 0xa1d1937e, 0x38d8c2c4, 0x4fdff252, 0xd1bb67f1, 0xa6bc5767, 0x3fb506dd, 0x48b2364b,
    0xd80d2bda, 0xaf0a1b4c, 0x36034af6, 0x41047a60, 0xdf60efc3, 0xa867df55, 0x316e8eef, 0x4669be79,
    0xcb61b38c, 0xbc66831a, 0x256fd2a0, 0x5268e236, 0xcc0c7795, 0xbb0b4703, 0x220216b9, 0x5505262f,
    0xc5ba3bbe, 0xb2bd0b28, 0x2bb45a92, 0x5cb36a04, 0xc2d7ffa7, 0xb5d0cf31, 0x2cd99e8b, 0x5bdeae1d,
    0x9b64c2b0, 0xec63f226, 0x756aa39c, 0x026d930a, 0x9c0906a9, 0xeb0e363f, 0x72076785, 0x05005713,
    0x95bf4a82, 0xe2b87a14, 0x7bb12bae, 0x0cb61b38, 0x92d28e9b, 0xe5d5be0d, 0x7cdcefb7, 0x0bdbdf21,
    0x86d3d2d4, 0xf1d4e242, 0x68ddb3f8, 0x1fda836e, 0x81be16cd, 0xf6b9265b, 0x6fb077e1, 0x18b74777,
    0x88085ae6, 0xff0f6a70, 0x66063bca, 0x11010b5c, 0x8f659eff, 0xf862ae69, 0x616bffd3, 0x166ccf45,
    0xa00ae278, 0xd70dd2ee, 0x4e048354, 0x3903b3c2, 0xa7672661, 0xd06016f7, 0x4969474d, 0x3e6e77db,
    0xaed16a4a, 0xd9d65adc, 0x40df0b66, 0x37d83bf0, 0xa9bcae53, 0xdebb9ec5, 0x47b2cf7f, 0x30b5ffe9,
    0xbdbdf21c, 0xcabac28a, 0x53b39330, 0x24b4a3a6, 0xbad03605, 0xcdd70693, 0x54de5729, 0x23d967bf,
    0xb3667a2e, 0xc4614ab8, 0x5d681b02, 0x2a6f2b94, 0xb40bbe37, 0xc30c8ea1, 0x5a05df1b, 0x2d02ef8d]

/-- `__efi_crc32` over the bytes `buf[0..len)`. -/
def efiCrc32 (buf : List UInt8) (seed : UInt32) : UInt32 :=
  buf.foldl (fun crc32val s =>
    crc32Tab.getD ((crc32val ^^^ s.toUInt32) &&& 0xff).toNat 0 ^^^ (crc32val >>> 8)) seed

/-- `crc32`: seed and final mask are `~0L`, truncated to 32 bits. -/
def crc32 (buf : List UInt8) : UInt32 := efiCrc32 buf 0xFFFFFFFF ^^^ 0xFFFFFFFF

/-! ## Packed structs -/

/-- `BLOCK_SIZE`, which is `GPT_SECTOR_SIZE`. -/
def blockSize : UInt64 := 512

/-- `struct GUID`. -/
structure GUID where
  timeLow : UInt32
  timeMid : UInt16
  timeHigh : UInt16
  clockSeqHigh : UInt8
  clockSeqLow : UInt8
  node : Vector UInt8 6
  deriving DecidableEq

/-- The sixteen bytes `memcpy` copies out of a `struct GUID`. -/
def GUID.bytes (h : Host) (g : GUID) : List UInt8 :=
  h.bytesOf 4 g.timeLow.toNat ++ h.bytesOf 2 g.timeMid.toNat ++ h.bytesOf 2 g.timeHigh.toNat ++
    [g.clockSeqHigh, g.clockSeqLow] ++ g.node.toList

/-- `struct PartitionConfig`. -/
structure PartitionConfig where
  partType : GUID
  partId : GUID
  name : CString
  /-- volume in sectors -/
  volume : UInt64
  /-- written by `gptGenerate` -/
  startLBA : UInt64

/-- `struct GPTConfig`, with `partitions` pointing to `numPart` elements. The
    buffer is an address of its own, passed beside the config. -/
structure GPTConfig where
  volume : UInt64
  numPart : UInt64
  partitions : List PartitionConfig
  diskId : GUID
  length_partitions : partitions.length = numPart.toNat

namespace MBR

@[simp] def rDiskSignature : Field := ⟨440, .four⟩
@[simp] def unknown : Field := ⟨444, .two⟩
/-- the offset of `records[0]` -/
@[simp] def records : Nat := 446
@[simp] def signature : Field := ⟨510, .two⟩

end MBR

namespace PartitionRecord

@[simp] def bootIndicator : Field := ⟨0, .one⟩
@[simp] def startCHS : Nat := 1
@[simp] def osType : Field := ⟨4, .one⟩
@[simp] def endCHS : Nat := 5
@[simp] def startLBA : Field := ⟨8, .four⟩
@[simp] def sizeInLBA : Field := ⟨12, .four⟩

end PartitionRecord

namespace GPTHeader

/-- `sizeof(struct GPTHeader)` -/
@[simp] def size : Nat := 92
@[simp] def signature : Nat := 0
@[simp] def revision : Field := ⟨8, .four⟩
@[simp] def headerSize : Field := ⟨12, .four⟩
@[simp] def headerCRC32 : Field := ⟨16, .four⟩
@[simp] def reserved : Field := ⟨20, .four⟩
@[simp] def thisLBA : Field := ⟨24, .eight⟩
@[simp] def alternateLBA : Field := ⟨32, .eight⟩
@[simp] def firstUsableLBA : Field := ⟨40, .eight⟩
@[simp] def lastUsableLBA : Field := ⟨48, .eight⟩
@[simp] def diskID : Nat := 56
@[simp] def startEntryArray : Field := ⟨72, .eight⟩
@[simp] def numEntries : Field := ⟨80, .four⟩
@[simp] def sizeEntryArray : Field := ⟨84, .four⟩
@[simp] def crc32EntryArray : Field := ⟨88, .four⟩

end GPTHeader

namespace PartitionEntry

/-- `sizeof(struct PartitionEntry)` -/
@[simp] def size : Nat := 128
@[simp] def partType : Nat := 0
@[simp] def partId : Nat := 16
@[simp] def startLBA : Field := ⟨32, .eight⟩
@[simp] def endLBA : Field := ⟨40, .eight⟩
@[simp] def attrs : Field := ⟨48, .eight⟩
@[simp] def partitionName : Nat := 56

end PartitionEntry

/-! ## Functions -/

/-- `getSector`: the product is a `size_t`. -/
def getSector (buf : Nat) (sector : UInt64) : Nat := buf + (sector * blockSize).toNat

/-- The plain assignment `s->f = v` to the member `f` of the struct at `s`. -/
def assign (h : Host) (m : Mem) (s : Nat) (f : Field) (v : Nat) : Mem :=
  h.put m (s + f.off) f.width.bytes v

/-- `createProtectGPT`. -/
def createProtectGPT (h : Host) (m : Mem) (mbr : Nat) (blockSize nBlock : UInt64) : Mem :=
  let record := mbr + MBR.records
  let endLBA := (blockSize * nBlock).toUInt32
  let endLBA := if endLBA > 0xFFFFFF then 0xFFFFFF else endLBA
  let sizeInLBA := (if nBlock ≥ 0xFFFFFFFF then 0xFFFFFFFF else nBlock - 1).toUInt32
  let m := m.fill mbr 512 0
  let m := assign h m mbr MBR.signature 0xAA55
  let m := assign h m mbr MBR.rDiskSignature 0
  let m := assign h m mbr MBR.unknown 0
  let m := assign h m record PartitionRecord.bootIndicator 0x80
  let m := m.write (record + PartitionRecord.startCHS) ((h.bytesOf 4 0x000200).take 3)
  let m := assign h m record PartitionRecord.osType 0xEE
  let m := m.write (record + PartitionRecord.endCHS) ((h.bytesOf 4 endLBA.toNat).take 3)
  let m := assign h m record PartitionRecord.startLBA 1
  assign h m record PartitionRecord.sizeInLBA sizeInLBA.toNat

/-- The loop of `writePartitionName`, from character number `idx / 2` on: every
    character is followed by a zero byte. -/
def writePartitionName (m : Mem) (entry idx : Nat) : List UInt8 → Mem
  | [] => m
  | pt :: name =>
    let m := m.write (entry + PartitionEntry.partitionName + idx) [pt]
    let m := m.write (entry + PartitionEntry.partitionName + (idx + 1)) [0]
    writePartitionName m entry (idx + 2) name

/-- The allocation loop of `GPTGenerate`: hand out `remains` sectors from `start`
    on until a partition does not fit. Returns how many partitions it placed, the
    partitions with their `startLBA`, and the final `start`. -/
def allocate (start remains : UInt64) :
    List PartitionConfig → UInt64 × List PartitionConfig × UInt64
  | [] => (0, [], start)
  | cp :: rest =>
    if remains < cp.volume then
      (0, cp :: rest, start)
    else
      let (ret, rest', start') := allocate (start + cp.volume) (remains - cp.volume) rest
      (ret + 1, { cp with startLBA := start } :: rest', start')

/-- One iteration of the entry loop: clear from this entry on for the length of
    the whole array, then fill the entry in. -/
def writeEntry (h : Host) (m : Mem) (entryArray : Nat) (nSectorForArray : UInt64)
    (cp : PartitionConfig) : Mem :=
  let m := m.fill entryArray (nSectorForArray * blockSize).toNat 0
  let m := h.storeLe m entryArray PartitionEntry.startLBA cp.startLBA.toNat
  let m := h.storeLe m entryArray PartitionEntry.endLBA (cp.startLBA + cp.volume - 1).toNat
  let m := h.storeLe m entryArray PartitionEntry.attrs ((1 <<< 2) ||| (1 <<< 0))
  let m := m.write (entryArray + PartitionEntry.partId) (cp.partId.bytes h)
  let m := m.write (entryArray + PartitionEntry.partType) (cp.partType.bytes h)
  writePartitionName m entryArray 0 cp.name.chars

/-- The entry loop of `GPTGenerate` over the partitions that were placed. -/
def writeEntries (h : Host) (m : Mem) (entryArray : Nat) (nSectorForArray : UInt64) :
    List PartitionConfig → Mem
  | [] => m
  | cp :: cps =>
    writeEntries h (writeEntry h m entryArray nSectorForArray cp)
      (entryArray + PartitionEntry.size) nSectorForArray cps

/-- `"EFI PART"`. -/
def efiPart : List UInt8 := [0x45, 0x46, 0x49, 0x20, 0x50, 0x41, 0x52, 0x54]

/-- The stores of `GPTGenerate` into the primary header at `lba1`, the CRC of the
    header left out. -/
def storeHeader (h : Host) (m : Mem) (lba1 : Nat) (config : GPTConfig)
    (start nPartition : UInt64) (entryArrayCRC : UInt32) : Mem :=
  let nBlock := config.volume
  let m := m.write (lba1 + GPTHeader.signature) efiPart
  let m := h.storeLe m lba1 GPTHeader.revision 0x00010000
  let m := h.storeLe m lba1 GPTHeader.headerSize GPTHeader.size
  let m := h.storeLe m lba1 GPTHeader.reserved 0
  let m := h.storeLe m lba1 GPTHeader.thisLBA 1
  let m := h.storeLe m lba1 GPTHeader.alternateLBA (nBlock - 1).toNat
  let m := h.storeLe m lba1 GPTHeader.firstUsableLBA start.toNat
  let m := h.storeLe m lba1 GPTHeader.lastUsableLBA (nBlock - 2).toNat
  let m := m.write (lba1 + GPTHeader.diskID) (config.diskId.bytes h)
  let m := h.storeLe m lba1 GPTHeader.startEntryArray 2
  let m := h.storeLe m lba1 GPTHeader.numEntries nPartition.toNat
  let m := h.storeLe m lba1 GPTHeader.sizeEntryArray PartitionEntry.size
  h.storeLe m lba1 GPTHeader.crc32EntryArray entryArrayCRC.toNat

/-- The value of `lba1->headerSize`, a plain access in the host's byte order. -/
def headerSizeOf (h : Host) (m : Mem) (lba1 : Nat) : Nat :=
  h.valueOf (m.read (lba1 + GPTHeader.headerSize.off) GPTHeader.headerSize.width.bytes)

/-- Both headers of `GPTGenerate`: the backup is a copy of the primary with the
    two LBAs exchanged, and each gets its own CRC last. -/
def writeHeaders (h : Host) (m : Mem) (lba1 last : Nat) (config : GPTConfig)
    (start nPartition : UInt64) (entryArrayCRC : UInt32) : Mem :=
  let nBlock := config.volume
  let m := m.fill lba1 GPTHeader.size 0
  let m := m.fill last GPTHeader.size 0
  let m := storeHeader h m lba1 config start nPartition entryArrayCRC
  let m := m.copy last lba1 GPTHeader.size
  let m := h.storeLe m last GPTHeader.thisLBA (nBlock - 1).toNat
  let m := h.storeLe m last GPTHeader.alternateLBA 1
  let m := h.storeLe m lba1 GPTHeader.headerCRC32
    (crc32 (m.read lba1 (headerSizeOf h m lba1))).toNat
  h.storeLe m last GPTHeader.headerCRC32 (crc32 (m.read last (headerSizeOf h m lba1))).toNat

/-- What `GPTGenerate` leaves behind: its result, the partitions with their
    `startLBA`, and the memory. -/
structure GPTResult where
  ret : UInt64
  partitions : List PartitionConfig
  mem : Mem

namespace GPTConfig

/-- `nEntryPerSector`. -/
def nEntryPerSector : UInt64 := blockSize / 128

/-- `nSectorForArray`. -/
def nSectorForArray (config : GPTConfig) : UInt64 :=
  (nEntryPerSector - 1 + config.numPart) / nEntryPerSector

/-- `nSectorsForFS`: the sectors left for partitions. -/
def nSectorsForFS (config : GPTConfig) : UInt64 := config.volume - 4 - config.nSectorForArray

/-- The size check of `GPTGenerate`: the disk is too small, or has no partition. -/
def tooSmall (config : GPTConfig) : Bool :=
  config.volume < 4 + config.nSectorForArray || config.nSectorForArray == 0

end GPTConfig

/-- `GPTGenerate` on the buffer at `buf`. -/
def gptGenerate (h : Host) (m : Mem) (buf : Nat) (config : GPTConfig) : GPTResult :=
  let nBlock := config.volume
  let nSectorForArray := config.nSectorForArray
  if config.tooSmall then
    { ret := 0, partitions := config.partitions, mem := m }
  else
    let m := createProtectGPT h m buf blockSize nBlock
    let (ret, partitions, start) :=
      allocate (2 + nSectorForArray) config.nSectorsForFS config.partitions
    let nPartition := ret
    let entryArrayBase := getSector buf 2
    let m := writeEntries h m entryArrayBase nSectorForArray (partitions.take nPartition.toNat)
    let entryArrayCRC := crc32 (m.read entryArrayBase (128 * nPartition).toNat)
    let m := writeHeaders h m (getSector buf 1) (getSector buf (nBlock - 1)) config start
      nPartition entryArrayCRC
    { ret := ret, partitions := partitions, mem := m }

/-! ## The table `mkgpt.c` asks for -/

/-- `EFI_SYSTEM_PARTITION`. -/
def efiSystemPartition : GUID where
  timeLow := 0xc12a7328
  timeMid := 0xf81f
  timeHigh := 0x11d2
  clockSeqHigh := 0xba
  clockSeqLow := 0x4b
  node := #v[0x00, 0xa0, 0xc9, 0x3e, 0xc9, 0x3b]

/-- `myDiskID`. -/
def myDiskID : GUID where
  timeLow := 0x9e8d8d40
  timeMid := 0xe4d1
  timeHigh := 0x3547
  clockSeqHigh := 0xad
  clockSeqLow := 0x9e
  node := #v[0x86, 0x52, 0x3f, 0x5e, 0x2f, 0x4a]

/-- `"Boot Partition"`. -/
def bootPartitionName : CString where
  chars := [0x42, 0x6f, 0x6f, 0x74, 0x20, 0x50, 0x61, 0x72, 0x74, 0x69, 0x74, 0x69, 0x6f, 0x6e]
  nul_free := by decide

/-- `"Filesystem"`. -/
def filesystemName : CString where
  chars := [0x46, 0x69, 0x6c, 0x65, 0x73, 0x79, 0x73, 0x74, 0x65, 0x6d]
  nul_free := by decide

/-- The config of two partitions that `mkgpt.c` and `installer.c` fill in: a boot
    partition of `bootVolume` sectors and a second one over the rest of the disk. -/
def twoPartitions (volume bootVolume : UInt64) : GPTConfig where
  volume := volume
  numPart := 2
  partitions :=
    [{ partType := efiSystemPartition, partId := myDiskID, name := bootPartitionName,
       volume := bootVolume, startLBA := 0 },
     { partType := efiSystemPartition, partId := myDiskID, name := filesystemName,
       volume := volume - 5 - bootVolume, startLBA := 0 }]
  diskId := myDiskID
  length_partitions := rfl

/-- The config of `mkgpt.c`: a disk of 256 MiB. -/
def mkgptConfig : GPTConfig := twoPartitions (1024 * 1024 * 256 / 512) 262140

end Tlibc.Gpt
