import Tlibc.Native.Endian

/-!
# `gpt/fat.c`

The FAT32 writer: `createFAT32` lays an empty file system out, `FAT32Copyin` adds
one file to its root directory. `uint32_t` values are natural numbers, reduced by
`u32` wherever the C arithmetic can wrap. A pointer that may be `NULL` is an
`Option Nat`.
-/

namespace Tlibc.Fat

/-- A `uint32_t` result. -/
def u32 (n : Nat) : Nat := n % 2 ^ 32

/-- `a - b` on `uint32_t`. -/
def sub32 (a b : Nat) : Nat := u32 (a + (2 ^ 32 - b))

/-- `CDIV(a, b)` on `uint32_t`. -/
def cdiv (a b : Nat) : Nat := sub32 (u32 (a + b)) 1 / b

/-- `assert(p)`, and the other ways a statement can end the call. -/
def ensure (p : Prop) [Decidable p] (fault : Fault) : Except Fault Unit :=
  if p then .ok () else .error fault

/-- The target of a pointer that is about to be accessed. -/
def deref : Option Nat → Except Fault Nat
  | some a => .ok a
  | none => .error .nullPointer

/-! ## Packed structs -/

/-- `struct FATConfig`, without the flag that no function reads. -/
structure FATConfig where
  nSector : UInt32
  bytesPerSector : UInt32
  /-- size of a cluster in sectors -/
  clusterSize : UInt32
  isFixed : Bool

namespace BPB

/-- `sizeof(struct BPB)` -/
@[simp] def size : Nat := 512
@[simp] def jmpBoot : Nat := 0
@[simp] def oefName : Nat := 3
@[simp] def bytesPerSector : Field := ⟨11, .two⟩
@[simp] def numSectorPerCluster : Field := ⟨13, .one⟩
@[simp] def numReservedSectors : Field := ⟨14, .two⟩
@[simp] def numAllocTable : Field := ⟨16, .one⟩
@[simp] def rootEntryCount : Field := ⟨17, .two⟩
@[simp] def numSectors16 : Field := ⟨19, .two⟩
@[simp] def media : Field := ⟨21, .one⟩
@[simp] def sectorsPerTrack : Field := ⟨24, .two⟩
@[simp] def numHeads : Field := ⟨26, .two⟩
@[simp] def hiddenSec : Field := ⟨28, .four⟩
@[simp] def numSectors32 : Field := ⟨32, .four⟩
@[simp] def fatSize32 : Field := ⟨36, .four⟩
@[simp] def extFlags : Field := ⟨40, .two⟩
@[simp] def revision : Field := ⟨42, .two⟩
@[simp] def rootCluster : Field := ⟨44, .four⟩
@[simp] def fsInfo : Field := ⟨48, .two⟩
@[simp] def bootRecordSector : Field := ⟨50, .two⟩
@[simp] def driverNum : Field := ⟨64, .one⟩
@[simp] def bootSignature : Field := ⟨66, .one⟩
@[simp] def volSerialNumber : Field := ⟨67, .four⟩
@[simp] def volLabel : Nat := 71
@[simp] def fileSysType : Nat := 82
@[simp] def signatureByte1 : Field := ⟨510, .one⟩
@[simp] def signatureByte2 : Field := ⟨511, .one⟩

end BPB

namespace FSInfo

/-- `sizeof(struct FSInfo)` -/
@[simp] def size : Nat := 512
@[simp] def leadSignature : Field := ⟨0, .four⟩
@[simp] def structSignature : Field := ⟨484, .four⟩
@[simp] def freeCount : Field := ⟨488, .four⟩
@[simp] def nextFree : Field := ⟨492, .four⟩
@[simp] def trailSignature : Field := ⟨508, .four⟩

end FSInfo

namespace FATDirEntry

/-- `sizeof(struct FATDirEntry)` -/
@[simp] def size : Nat := 32
@[simp] def name : Nat := 0
/-- where the suffix of a name goes -/
@[simp] def suffix : Nat := 8
@[simp] def attr : Field := ⟨11, .one⟩
@[simp] def ntres : Field := ⟨12, .one⟩
@[simp] def createTimeTenth : Field := ⟨13, .one⟩
@[simp] def createTime : Field := ⟨14, .two⟩
@[simp] def createDate : Field := ⟨16, .two⟩
@[simp] def lastAccessDate : Field := ⟨18, .two⟩
@[simp] def firstClusterHigh : Field := ⟨20, .two⟩
@[simp] def writeTime : Field := ⟨22, .two⟩
@[simp] def writeDate : Field := ⟨24, .two⟩
@[simp] def firstClusterLow : Field := ⟨26, .two⟩
@[simp] def fileSize : Field := ⟨28, .four⟩

end FATDirEntry

/-! ## `createFAT32` -/

/-- `FAT_IMPL`. -/
def fatImpl : List UInt8 := [0x6d, 0x6b, 0x66, 0x73, 0x2e, 0x66, 0x61, 0x74]

/-- The eleven bytes of `"NO NAME         "` that fit the volume label. -/
def noName : List UInt8 := [0x4e, 0x4f, 0x20, 0x4e, 0x41, 0x4d, 0x45, 0x20, 0x20, 0x20, 0x20]

/-- `"FAT32   "`. -/
def fat32Type : List UInt8 := [0x46, 0x41, 0x54, 0x33, 0x32, 0x20, 0x20, 0x20]

namespace FATConfig

/-- `media`. -/
def media (config : FATConfig) : Nat := if config.isFixed then 0xF8 else 0xF0

/-- `numEntryPerSector`. -/
def numEntryPerSector (config : FATConfig) : Nat := config.bytesPerSector.toNat / 4

/-- `numClusterOnDisk`. -/
def numClusterOnDisk (config : FATConfig) : Nat :=
  config.nSector.toNat / config.clusterSize.toNat

/-- `fatSizeInSector`. -/
def fatSizeInSector (config : FATConfig) : Nat :=
  cdiv config.numClusterOnDisk config.numEntryPerSector

/-- `numFATSector`: a backup is stored. -/
def numFATSector (config : FATConfig) : Nat := u32 (config.fatSizeInSector * 2)

/-- `numFreeFATEntry`. -/
def numFreeFATEntry (config : FATConfig) : Nat :=
  sub32 (u32 (config.numFATSector * config.numEntryPerSector)) 3

/-- The checks at the top of `createFAT32`. -/
def valid (config : FATConfig) : Bool :=
  16 ≤ config.nSector.toNat && [512, 1024, 2048, 4096].contains config.bytesPerSector.toNat &&
    [1, 2, 4, 8, 16, 32, 64, 128].contains config.clusterSize.toNat

end FATConfig

/-- `numResevedSector`. -/
def numReservedSector : Nat := 8

/-- The stores of `createFAT32` into the boot sector. -/
def storeBPB (h : Host) (m : Mem) (bpb : Nat) (config : FATConfig) : Mem :=
  let m := m.fill bpb BPB.size 0
  let m := m.write (bpb + BPB.jmpBoot) [0xeb, 0x00, 0x90]
  let m := m.write (bpb + BPB.oefName) fatImpl
  let m := h.storeLe m bpb BPB.bytesPerSector config.bytesPerSector.toNat
  let m := h.storeLe m bpb BPB.numSectorPerCluster config.clusterSize.toNat
  let m := h.storeLe m bpb BPB.numReservedSectors numReservedSector
  let m := h.storeLe m bpb BPB.numAllocTable 2
  let m := h.storeLe m bpb BPB.rootEntryCount 0
  let m := h.storeLe m bpb BPB.numSectors16 0
  let m := h.storeLe m bpb BPB.media config.media
  let m := h.storeLe m bpb BPB.sectorsPerTrack 32
  let m := h.storeLe m bpb BPB.numHeads 8
  let m := h.storeLe m bpb BPB.hiddenSec 0
  let m := h.storeLe m bpb BPB.numSectors32 config.nSector.toNat
  let m := h.storeLe m bpb BPB.fatSize32 config.fatSizeInSector
  let m := h.storeLe m bpb BPB.extFlags 0
  let m := h.storeLe m bpb BPB.revision 0
  let m := h.storeLe m bpb BPB.rootCluster 2
  let m := h.storeLe m bpb BPB.fsInfo 1
  let m := h.storeLe m bpb BPB.bootRecordSector 6
  let m := h.storeLe m bpb BPB.driverNum 0x80
  let m := h.storeLe m bpb BPB.bootSignature 0x29
  let m := h.storeLe m bpb BPB.volSerialNumber 0xe5792f15
  let m := m.write (bpb + BPB.volLabel) noName
  let m := m.write (bpb + BPB.fileSysType) fat32Type
  let m := h.storeLe m bpb BPB.signatureByte1 0x55
  h.storeLe m bpb BPB.signatureByte2 0xaa

/-- The stores of `createFAT32` into the FSInfo block. -/
def storeFSInfo (h : Host) (m : Mem) (finfo : Nat) (config : FATConfig) : Mem :=
  let m := h.storeLe m finfo FSInfo.leadSignature 0x41615252
  let m := h.storeLe m finfo FSInfo.structSignature 0x61417272
  let m := h.storeLe m finfo FSInfo.freeCount config.numFreeFATEntry
  let m := h.storeLe m finfo FSInfo.nextFree 0x3
  h.storeLe m finfo FSInfo.trailSignature 0xAA550000

/-- Entry number `cluster` of the file allocation table at `table`, as a member of
    the array. -/
@[simp] def tableEntry (cluster : Nat) : Field := ⟨4 * cluster, .four⟩

/-- `fat1Value`: `FAT32_CHUNK_SHUT_BITMASK | FAT32_HDR_ERROR_BITMASK`. -/
def fat1Value : Nat := 0x08000000 ||| 0x04000000

/-- The three entries `createFAT32` stores in a file allocation table. -/
def storeTable (h : Host) (m : Mem) (table : Nat) (config : FATConfig) : Mem :=
  let m := h.storeLe m table (tableEntry 0) (0xFFFF00 ||| config.media)
  let m := h.storeLe m table (tableEntry 1) fat1Value
  h.storeLe m table (tableEntry 2) 0xFFFFFFFF

/-- `createFAT32` on the volume at `buf`: its result, 0 on success, and the memory. -/
def createFAT32 (h : Host) (m : Mem) (buf : Nat) (config : FATConfig) :
    Except Fault (Nat × Mem) := do
  if !config.valid then
    return (1, m)
  else
    let sectorSize := config.bytesPerSector.toNat
    ensure (2 < config.numClusterOnDisk) (.assert .tooFewClusters)
    let m := storeBPB h m buf config
    let m := m.copy (buf + u32 (sectorSize * 6)) buf BPB.size
    let finfo := buf + u32 (sectorSize * 1)
    let m := storeFSInfo h m finfo config
    let m := m.copy (buf + u32 (sectorSize * 7)) finfo FSInfo.size
    let firstTable := buf + u32 (sectorSize * numReservedSector)
    let m := m.fill firstTable (u32 (sectorSize * config.numFATSector)) 0
    let m := storeTable h m firstTable config
    let secondTable := buf + u32 (sectorSize * u32 (numReservedSector + config.fatSizeInSector))
    let m := storeTable h m secondTable config
    let dataOffset := u32 (sectorSize * u32 (numReservedSector + config.numFATSector))
    let m := m.fill (buf + dataOffset) (u32 (sectorSize * config.clusterSize.toNat)) 0
    return (0, m)

/-! ## The super block -/

/-- `FAT32Date`. -/
def fat32Date (year month day : UInt16) : UInt16 :=
  (day &&& (0x1F : UInt16)) ||| ((month &&& (0xF : UInt16)) <<< 5) |||
    (((year - 1980) &&& (0x7F : UInt16)) <<< 9)

/-- `FAT32Time`. -/
def fat32Time (hour minute second : UInt16) : UInt16 :=
  let second := second >>> 1
  (second &&& (0x1F : UInt16)) ||| ((minute &&& (0x3F : UInt16)) <<< 5) |||
    ((hour &&& (0x1F : UInt16)) <<< 11)

/-- `struct FAT32Super`. `tables` has the pointers that are set. -/
structure FAT32Super where
  buf : Nat
  fsInfo : Option Nat
  bytesPerSector : Nat
  bytesPerCluster : Nat
  bytesPerFAT : Nat
  numSector : Nat
  numReserved : Nat
  numFAT : Nat
  numData : Nat
  maxCluster : Nat
  rootCluster : Nat
  numEntryTable : Nat
  tables : List Nat
  rootDir : Option Nat
  nextRootEntry : Nat
  numRootEntry : Nat
  deriving DecidableEq, Repr

/-- `FAT32SuperGetSector`. -/
def fat32SuperGetSector (sb : FAT32Super) (sector : Nat) : Option Nat :=
  if sb.numSector ≤ sector then none else some (sb.buf + u32 (sector * sb.bytesPerSector))

/-- The pointers `tables[i]` for the `n` values of `i` after the one of `table`. -/
def tablesAfter (table stride : Nat) : Nat → List Nat
  | 0 => []
  | n + 1 => (table + stride) :: tablesAfter (table + stride) stride n

/-- The loop over the root directory's chain, from the entry `nextPtr` on: the
    number of clusters, `rootDirCluster` of them behind us. The loop's state is
    `nextPtr` alone, so a run longer than there are values of it never ends. -/
def rootChain (h : Host) (m : Mem) (table : Nat) : Nat → Nat → Nat → Except Fault Nat
  | 0, _, _ => .error .diverges
  | fuel + 1, nextPtr, rootDirCluster =>
    if nextPtr = 0xFFFFFFFF then
      .ok rootDirCluster
    else
      rootChain h m table fuel (h.loadLe m table (tableEntry nextPtr)) (u32 (rootDirCluster + 1))

/-- The loop over the root entries: the first unused one, or `numRootEntry`. -/
def firstUnused (m : Mem) (rootDir numRootEntry : Nat) : Nat :=
  ((List.range numRootEntry).find? fun i =>
    m (rootDir + FATDirEntry.size * i + FATDirEntry.name) == 0).getD numRootEntry

/-- `FAT32SuperInit`. -/
def fat32SuperInit (h : Host) (m : Mem) (buf : Nat) : Except Fault FAT32Super := do
  let bytesPerSector := h.loadLe m buf BPB.bytesPerSector
  let nsecPerCluster := h.loadLe m buf BPB.numSectorPerCluster
  let fatSize := h.loadLe m buf BPB.fatSize32
  let numSector := h.loadLe m buf BPB.numSectors32
  let numReservedSectors := h.loadLe m buf BPB.numReservedSectors
  let numAllocTable := h.loadLe m buf BPB.numAllocTable
  let bytesPerFAT := u32 (fatSize * bytesPerSector)
  let numFAT := u32 (fatSize * numAllocTable)
  let numData := sub32 (sub32 numSector numReservedSectors) numFAT
  ensure (nsecPerCluster ≠ 0) .divByZero
  let table := buf + u32 (bytesPerSector * numReservedSectors)
  let sb : FAT32Super :=
    { buf := buf
      fsInfo := none
      bytesPerSector := bytesPerSector
      bytesPerCluster := u32 (nsecPerCluster * bytesPerSector)
      bytesPerFAT := bytesPerFAT
      numSector := numSector
      numReserved := numReservedSectors
      numFAT := numFAT
      numData := numData
      maxCluster := numData / nsecPerCluster
      rootCluster := h.loadLe m buf BPB.rootCluster
      numEntryTable := numAllocTable
      tables := table :: tablesAfter table (bytesPerFAT / 4 * 4) (numAllocTable - 1)
      rootDir := none
      nextRootEntry := 0
      numRootEntry := 0 }
  let sb := { sb with fsInfo := fat32SuperGetSector sb 1 }
  ensure (numAllocTable ≤ 4) .outOfBounds
  let rootDirCluster ←
    rootChain h m table (2 ^ 32) (h.loadLe m table (tableEntry sb.rootCluster)) 1
  let rootDir := fat32SuperGetSector sb (u32 (sb.numReserved + sb.numFAT))
  let numRootEntry := u32 (rootDirCluster * sb.bytesPerCluster) / FATDirEntry.size
  ensure (numRootEntry = 0 ∨ rootDir ≠ none) .nullPointer
  return { sb with
    rootDir := rootDir
    numRootEntry := numRootEntry
    nextRootEntry := firstUnused m (rootDir.getD 0) numRootEntry }

/-- `FAT32SuperCluster`. -/
def fat32SuperCluster (sb : FAT32Super) (cluster : Nat) : Option Nat :=
  if cluster < 2 ∨ sb.maxCluster ≤ cluster then
    none
  else
    some (sb.buf + u32 (u32 (sb.bytesPerSector * u32 (sb.numFAT + sb.numReserved)) +
      u32 (sb.bytesPerCluster * (cluster - 2))))

/-- `FAT32SuperReadEntry`. -/
def fat32SuperReadEntry (h : Host) (m : Mem) (sb : FAT32Super) (cluster : Nat) :
    Except Fault Nat := do
  ensure (cluster < sb.maxCluster) (.assert .readOutOfBound)
  return h.loadLe m (sb.tables.headD 0) (tableEntry cluster)

/-- `FAT32SuperWriteEntry`. -/
def fat32SuperWriteEntry (h : Host) (m : Mem) (sb : FAT32Super) (cluster value : Nat) :
    Except Fault Mem := do
  ensure (cluster < sb.maxCluster) (.assert .writeOutOfBound)
  ensure (1 ≤ cluster) (.assert .entryZero)
  return (sb.tables.take sb.numEntryTable).foldl
    (fun m table => h.storeLe m table (tableEntry cluster) value) m

/-- `FAT32SuperFree`. -/
def fat32SuperFree (m : Mem) (sb : FAT32Super) : Except Fault Mem := do
  let sector6 ← deref (fat32SuperGetSector sb 6)
  let m := m.copy sector6 sb.buf sb.bytesPerSector
  let sector7 ← deref (fat32SuperGetSector sb 7)
  let sector1 ← deref (fat32SuperGetSector sb 1)
  return m.copy sector7 sector1 sb.bytesPerSector

/-! ## `FAT32Copyin` -/

/-- `EDQUOT`. -/
def edquot : Int := 122

/-- What a call that returns leaves behind: its result, the value it assigned to
    `FAT32Errno`, if it did, and the memory. -/
structure CopyinResult where
  ret : Nat
  errno : Option Int
  mem : Mem

/-- `'.'`. -/
def dot : UInt8 := 0x2e

/-- The directory entry of a new file. The two write stamps go through
    `_generic_load_le`, which assigns to its first argument. -/
def storeDirEntry (h : Host) (m : Mem) (entry : Nat) (name : CString)
    (attr nextFree fobjSize : Nat) : Mem :=
  let date := (fat32Date 1995 2 21).toNat
  let time := (fat32Time 8 30 25).toNat
  let m := m.fill entry FATDirEntry.size 0
  let m := m.write (entry + FATDirEntry.name) (name.chars.takeWhile (· != dot))
  let m := m.write (entry + FATDirEntry.suffix) (name.chars.dropWhile (· != dot))
  let m := h.storeLe m entry FATDirEntry.attr attr
  let m := h.storeLe m entry FATDirEntry.ntres 0
  let m := h.storeLe m entry FATDirEntry.createTimeTenth 42
  let m := h.storeLe m entry FATDirEntry.createTime time
  let m := h.storeLe m entry FATDirEntry.createDate date
  let m := h.storeLe m entry FATDirEntry.lastAccessDate date
  let m := h.storeLe m entry FATDirEntry.firstClusterHigh (nextFree >>> 16)
  let m := h.put m (entry + FATDirEntry.writeTime.off) 2 (h.genericLoadLe .two (h.bytesOf 2 time))
  let m := h.put m (entry + FATDirEntry.writeDate.off) 2 (h.genericLoadLe .two (h.bytesOf 2 date))
  let m := h.storeLe m entry FATDirEntry.firstClusterLow (nextFree &&& 0xFFFF)
  h.storeLe m entry FATDirEntry.fileSize fobjSize

/-- The FAT update: chain `n` clusters from `nextFree` on to their successors,
    then mark the one behind them as the last. Returns the new `nextFree`. -/
def linkClusters (h : Host) (sb : FAT32Super) : Nat → Mem → Nat → Except Fault (Mem × Nat)
  | 0, m, nextFree => do
    let m ← fat32SuperWriteEntry h m sb nextFree 0xFFFFFFFF
    return (m, u32 (nextFree + 1))
  | n + 1, m, nextFree => do
    let m ← fat32SuperWriteEntry h m sb nextFree (u32 (1 + nextFree))
    linkClusters h sb n m (u32 (nextFree + 1))

/-- The label `err`, reached after `FAT32Errno` was set. -/
def copyinErr (m : Mem) (sb : FAT32Super) (errno : Int) : Except Fault CopyinResult := do
  let m ← fat32SuperFree m sb
  return { ret := 0, errno := some errno, mem := m }

/-- `FAT32Copyin` behind the two transfers: create the directory entry, mark the
    clusters, update FSInfo. -/
def copyinFinish (h : Host) (m : Mem) (sb : FAT32Super) (fiPtr : Nat) (name : CString)
    (attr nextFree freeCount fobjSize allocCluster ret : Nat) : Except Fault CopyinResult := do
  let rootDir ← deref sb.rootDir
  let entry := rootDir + FATDirEntry.size * sb.nextRootEntry
  ensure (m (entry + FATDirEntry.name) = 0) (.assert .entryUnused)
  let m := storeDirEntry h m entry name attr nextFree fobjSize
  let (m, nextFree) ← linkClusters h sb (allocCluster - 1) m nextFree
  ensure (allocCluster ≤ freeCount) (.assert .freeCount)
  let m := h.storeLe m fiPtr FSInfo.freeCount (freeCount - allocCluster)
  let m := h.storeLe m fiPtr FSInfo.nextFree nextFree
  let m ← fat32SuperFree m sb
  return { ret := ret, errno := none, mem := m }

/-- `FAT32Copyin` behind the super block: check the size, clear the clusters, read
    the file into them. -/
def copyinWith (h : Host) (m : Mem) (sb : FAT32Super) (fd : Fd) (name : CString)
    (attr fobjSize : Nat) : Except Fault CopyinResult := do
  ensure (sb.bytesPerSector ≠ 0) .divByZero
  let sectorPerCluster := sb.bytesPerCluster / sb.bytesPerSector
  let fiPtr ← deref sb.fsInfo
  let nextFree := h.loadLe m fiPtr FSInfo.nextFree
  let freeCount := h.loadLe m fiPtr FSInfo.freeCount
  ensure (nextFree ≤ sb.maxCluster) (.assert .incorrectFs)
  let maxFileSize := u32 (sb.bytesPerCluster * (sb.maxCluster - nextFree))
  if maxFileSize < fobjSize then
    copyinErr m sb edquot
  else
    ensure (sb.bytesPerCluster ≠ 0) .divByZero
    let allocCluster := cdiv fobjSize sb.bytesPerCluster
    if sb.nextRootEntry = sb.numRootEntry then
      copyinErr m sb edquot
    else
      ensure (2 < nextFree) (.assert .nextFree)
      let ret := u32 (u32 ((nextFree - 2) * sectorPerCluster) + u32 (sb.numReserved + sb.numFAT))
      let addr ← deref (fat32SuperGetSector sb ret)
      let m := m.fill addr (u32 (allocCluster * sb.bytesPerCluster)) 0
      if fd.lseek ≠ 0 then
        copyinErr m sb fd.errno
      else
        let m := m.write addr (fd.data fobjSize)
        if fd.readRet fobjSize ≠ fobjSize then
          copyinErr m sb fd.errno
        else
          copyinFinish h m sb fiPtr name attr nextFree freeCount fobjSize allocCluster ret

/-- `FAT32Copyin`. -/
def fat32Copyin (h : Host) (m : Mem) (buf : Nat) (fd : Fd) (name : CString) (attr : Nat) :
    Except Fault CopyinResult :=
  match fd.fstat with
  | .error errno => .ok { ret := 0, errno := some errno, mem := m }
  | .ok stSize => do
    let sb ← fat32SuperInit h m buf
    copyinWith h m sb fd name attr (u32 stSize.toNat)

end Tlibc.Fat
