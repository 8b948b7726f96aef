import Tlibc.Spec.FatRuns
import Tlibc.Spec.GptProtect

/-!
# The byte order of the host

`endian.h` is there so that an image does not depend on the machine that wrote it.

* `formatAndCopy_host`: the FAT32 writer keeps to it, over whole runs
* `gptGenerate_host_differs`: the GPT writer does not. The protective MBR is filled
  in by plain assignments, so its signature has the byte order of the host.
-/

namespace Tlibc

/-! ## The FAT32 writer -/

namespace Fat

variable (h h' : Host)

/-- The boot sector is stored through byte arrays, so it is the same on both hosts. -/
private theorem storeBPB_host (m : Mem) (bpb : Nat) (config : FATConfig) :
    storeBPB h m bpb config = storeBPB h' m bpb config := by
  rw [storeBPB_eq, storeBPB_eq]

/-- So is the FSInfo block. -/
private theorem storeFSInfo_host (m : Mem) (finfo : Nat) (config : FATConfig) :
    storeFSInfo h m finfo config = storeFSInfo h' m finfo config := by
  rw [storeFSInfo_eq, storeFSInfo_eq]

/-- The first entries of a table are stored in the byte order of the disk. -/
private theorem storeTable_host (m : Mem) (table : Nat) (config : FATConfig) :
    storeTable h m table config = storeTable h' m table config := by
  rw [storeTable_eq, storeTable_eq]

/-- The whole format is the same on both hosts. -/
private theorem createFAT32_host (m : Mem) (buf : Nat) (config : FATConfig) :
    createFAT32 h m buf config = createFAT32 h' m buf config := by
  unfold createFAT32
  -- each of the three blocks is the same
  simp only [storeBPB_host h h', storeFSInfo_host h h', storeTable_host h h']

/-- The chain of the root directory is followed through the same entries. -/
private theorem rootChain_host (m : Mem) (table fuel nextPtr rootDirCluster : Nat) :
    rootChain h m table fuel nextPtr rootDirCluster =
      rootChain h' m table fuel nextPtr rootDirCluster := by
  induction fuel generalizing nextPtr rootDirCluster with
  | zero => rfl
  | succ fuel ih =>
    unfold rootChain
    -- the entry that leads on is read in the byte order of the disk
    rw [Host.loadLe_eq, Host.loadLe_eq, ih]

/-- Every field of the boot sector is read in the byte order of the disk. -/
private theorem fat32SuperInit_host (m : Mem) (buf : Nat) :
    fat32SuperInit h m buf = fat32SuperInit h' m buf := by
  unfold fat32SuperInit
  simp only [Host.loadLe_eq, rootChain_host h h']

/-- `_generic_load_le` in front of a plain assignment swaps once each, like a
    little-endian store. -/
private theorem put_genericLoadLe (m : Mem) (dst v : Nat) (hv : v < 256 ^ 2) :
    h.put m dst 2 (h.genericLoadLe .two (h.bytesOf 2 v)) = m.write dst (Mem.leBytes 2 v) := by
  -- the load swaps on one of the hosts, and the store that follows swaps back
  rw [Host.genericLoadLe_eq h .two _ (Host.length_bytesOf h 2 v)]
  cases h with
  | little =>
    simp only [Host.put, Host.bytesOf, Mem.leNat_leBytes]
    rw [Nat.mod_eq_of_lt hv]
  | big =>
    have hlen : (Mem.leBytes 2 v).reverse.length = 2 := by simp
    simp only [Host.put, Host.bytesOf, Mem.leBytes_leNat hlen, List.reverse_reverse]

/-- A directory entry is stored as the same 32 bytes. -/
private theorem storeDirEntry_host (m : Mem) (entry : Nat) (name : CString)
    (attr nextFree fobjSize : Nat) :
    storeDirEntry h m entry name attr nextFree fobjSize =
      storeDirEntry h' m entry name attr nextFree fobjSize := by
  have hdate : (fat32Date 1995 2 21).toNat < 256 ^ 2 := UInt16.toNat_lt _
  have htime : (fat32Time 8 30 25).toNat < 256 ^ 2 := UInt16.toNat_lt _
  unfold storeDirEntry
  -- the date and the time are the members that are assigned after a swap
  simp only [Host.storeLe_eq, put_genericLoadLe _ _ _ _ hdate, put_genericLoadLe _ _ _ _ htime]

/-- An entry of the tables is written in the byte order of the disk. -/
private theorem fat32SuperWriteEntry_host (m : Mem) (sb : FAT32Super) (cluster value : Nat) :
    fat32SuperWriteEntry h m sb cluster value = fat32SuperWriteEntry h' m sb cluster value := by
  unfold fat32SuperWriteEntry
  simp only [Host.storeLe_eq]

/-- The loop that links clusters writes the same entries, by induction on its passes. -/
private theorem linkClusters_host (sb : FAT32Super) (n : Nat) (m : Mem) (nextFree : Nat) :
    linkClusters h sb n m nextFree = linkClusters h' sb n m nextFree := by
  induction n generalizing m nextFree with
  | zero =>
    unfold linkClusters
    -- the last entry ends the chain
    rw [fat32SuperWriteEntry_host h h']
  | succ n ih =>
    unfold linkClusters
    simp only [fat32SuperWriteEntry_host h h', ih]

/-- What is stored behind the transfer is the same on both hosts. -/
private theorem copyinFinish_host (m : Mem) (sb : FAT32Super) (fiPtr : Nat) (name : CString)
    (attr nextFree freeCount fobjSize allocCluster ret : Nat) :
    copyinFinish h m sb fiPtr name attr nextFree freeCount fobjSize allocCluster ret =
      copyinFinish h' m sb fiPtr name attr nextFree freeCount fobjSize allocCluster ret := by
  unfold copyinFinish
  -- the entry in the directory, the chain, and the counters in the FSInfo block
  simp only [Host.storeLe_eq, storeDirEntry_host h h', linkClusters_host h h']

/-- A call on a parsed volume does the same on both hosts. -/
private theorem copyinWith_host (m : Mem) (sb : FAT32Super) (fd : Fd) (name : CString)
    (attr fobjSize : Nat) :
    copyinWith h m sb fd name attr fobjSize = copyinWith h' m sb fd name attr fobjSize := by
  unfold copyinWith
  simp only [Host.loadLe_eq, copyinFinish_host h h']

/-- Parsing included, so does every call. -/
private theorem fat32Copyin_host (m : Mem) (buf : Nat) (fd : Fd) (name : CString) (attr : Nat) :
    fat32Copyin h m buf fd name attr = fat32Copyin h' m buf fd name attr := by
  unfold fat32Copyin
  simp only [fat32SuperInit_host h h', copyinWith_host h h']

/-- `createFAT32` and then a run of calls on what it left: its result, theirs, and
    the memory. -/
def formatAndCopy (h : Host) (m : Mem) (buf : Nat) (config : FATConfig) (calls : List Call) :
    Except Fault (Nat × List Nat × Mem) := do
  let (ret, m) ← createFAT32 h m buf config
  let (rets, m) ← Run.run (copyinStep h buf) m calls
  return (ret, rets, m)

/-- Hosts of either byte order return the same sectors and leave the same bytes. -/
theorem formatAndCopy_host (m : Mem) (buf : Nat) (config : FATConfig) (calls : List Call) :
    formatAndCopy .little m buf config calls = formatAndCopy .big m buf config calls := by
  -- a step of the run is the same call on both
  have hstep : copyinStep .little buf = copyinStep .big buf := by
    funext m c
    unfold copyinStep
    rw [fat32Copyin_host .little .big]
  unfold formatAndCopy
  rw [createFAT32_host .little .big, hstep]

end Fat

/-! ## The GPT writer -/

namespace Gpt

/-- The last two bytes of LBA 0 are the signature as the host represents it. -/
private theorem gptGenerate_signature (h : Host) (m : Mem) (buf : Nat) {config : GPTConfig}
    (hok : config.tooSmall = false) :
    (gptGenerate h m buf config).mem.read (buf + 510) 2 = h.bytesOf 2 0xAA55 := by
  -- the signature is among the members that are stored, and nothing overlaps it
  have hsig := @Mem.read_writeAll (m.fill buf 512 0) buf (mbrStores h blockSize config.volume)
    (by simp [Mem.Apart, mbrStores]) (510, h.bytesOf 2 0xAA55) (by simp [mbrStores])
  rw [← createProtectGPT_eq] at hsig
  simp only [Host.length_bytesOf] at hsig
  conv => rhs; rw [← hsig]
  -- behind the protective MBR its block is not stored to
  refine Mem.read_congr fun i hi => ?_
  rw [Nat.add_assoc]
  exact gptGenerate_mbr h m buf hok (by omega) (by omega)

/-- No accepted config has the same image on hosts of either byte order. -/
theorem gptGenerate_host_differs (m : Mem) (buf : Nat) (config : GPTConfig)
    (hok : config.tooSmall = false) :
    (gptGenerate .little m buf config).mem ≠ (gptGenerate .big m buf config).mem := by
  intro heq
  have hlittle := gptGenerate_signature .little m buf hok
  have hbig := gptGenerate_signature .big m buf hok
  rw [heq, hbig] at hlittle
  exact absurd hlittle (by decide)

/-- The configuration of `mkgpt` itself gives two different tables. -/
theorem gptGenerate_host_differs_mkgpt :
    mkgptConfig.tooSmall = false ∧
      (gptGenerate .little (fun _ => 0) 0 mkgptConfig).mem ≠
        (gptGenerate .big (fun _ => 0) 0 mkgptConfig).mem :=
  ⟨by decide, gptGenerate_host_differs (fun _ => 0) 0 mkgptConfig (by decide)⟩

/-- `mkgpt.c`'s disk ends its first sector in `55 AA` on one host, in `AA 55` on the
    other. -/
theorem mkgpt_signature_differs :
    (gptGenerate .little (fun _ => 0) 0 mkgptConfig).mem.read 510 2 = [0x55, 0xAA] ∧
      (gptGenerate .big (fun _ => 0) 0 mkgptConfig).mem.read 510 2 = [0xAA, 0x55] := by
  have hok : mkgptConfig.tooSmall = false := by decide
  have hlittle := gptGenerate_signature .little (fun _ => 0) 0 hok
  have hbig := gptGenerate_signature .big (fun _ => 0) 0 hok
  rw [Nat.zero_add] at hlittle hbig
  exact ⟨hlittle, hbig⟩

end Gpt

end Tlibc
