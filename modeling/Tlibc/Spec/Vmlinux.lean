import Tlibc.Spec.BootDisk
import Mathlib.Data.Set.Lattice
import Mathlib.Order.CompletePartialOrder

/-!
# What `vmlinux.c` leaves in memory

The loader takes every program header with an odd type for a segment to load, and copies
byte by byte from a scratch buffer.

* `kReadfile_ok`: which byte of the file goes where, also where the copy runs into the
  scratch buffer
* `loads_iff`: exactly the segments to load are loaded, whatever was in memory, if and only if
  the headers with odd types leave what those segments leave
* `segments_load`: what the headers alone say about it
-/

namespace Tlibc.Boot.Vmlinux

variable {stack : Stack} {d : Disk} {m m' : Mem}

/-! ## Addresses -/

/-- A number below `2 ^ 32` is its own word. -/
theorem toNat_ofNat_lt {i : Nat} (h : i < 2 ^ 32) : (UInt32.ofNat i).toNat = i :=
  UInt32.toNat_ofNat_of_lt' h

/-- The distance between two addresses. -/
private theorem toNat_sub_eq_iff {a addr : UInt32} {i : Nat} (hi : i < 2 ^ 32) :
    (a - addr).toNat = i ↔ a = addr + UInt32.ofNat i := by
  constructor
  · rintro rfl
    rw [UInt32.ofNat_toNat, UInt32.add_comm, UInt32.sub_add_cancel]
  · rintro rfl
    rw [UInt32.add_comm, UInt32.add_sub_cancel, toNat_ofNat_lt hi]

/-- Different offsets below `2 ^ 32` lead to different addresses. -/
theorem add_ofNat_inj {addr : UInt32} {i j : Nat} (hi : i < 2 ^ 32) (hj : j < 2 ^ 32) :
    (addr + UInt32.ofNat i).toNat = (addr + UInt32.ofNat j).toNat ↔ i = j := by
  rw [UInt32.toNat_inj, ← toNat_sub_eq_iff hj, UInt32.add_comm, UInt32.add_sub_cancel,
    toNat_ofNat_lt hi]

/-- An address behind the first `nb`. -/
theorem add_add_ofNat (addr nb : UInt32) (i : Nat) :
    addr + nb + UInt32.ofNat i = addr + UInt32.ofNat (nb.toNat + i) := by
  rw [UInt32.ofNat_add, UInt32.ofNat_toNat, UInt32.add_assoc]

/-! ## The loops over bytes -/

/-- The bytes from `addr` on are not on the stack. -/
def RangeOff (stack : Stack) (addr : UInt32) (n : Nat) : Prop :=
  ∀ i, i < n → stack.Off (addr + UInt32.ofNat i).toNat 1

/-- A store returns exactly when it is off the stack. -/
private theorem store_returns_iff {a : UInt32} {b : UInt8} :
    (∃ m', store stack m a b = .ok m') ↔ stack.Off a.toNat 1 := by
  rw [store]
  constructor
  · rintro ⟨m', h⟩
    by_contra hon
    rw [if_neg hon] at h
    cases h
  · intro hoff
    exact ⟨_, if_pos hoff⟩

/-- It changes one byte. -/
private theorem store_ok {a : UInt32} {b : UInt8} (h : store stack m a b = .ok m') :
    m' = Function.update m a.toNat b := by
  rw [store] at h
  split at h
  · cases h
    rfl
  · cases h

/-- `k_memzero` returns exactly when its range is off the stack. -/
private theorem kMemzero_returns_iff {addr size : UInt32} :
    (∃ m', kMemzero stack m addr size = .ok m') ↔ RangeOff stack addr size.toNat :=
  Loop.forLoop_returns_iff fun _ _ _ => store_returns_iff

/-- It clears the range, and nothing else. -/
private theorem kMemzero_ok {addr size : UInt32} (h : kMemzero stack m addr size = .ok m')
    (a : UInt32) :
    m' a.toNat = if (a - addr).toNat < size.toNat then 0 else m a.toNat := by
  refine Loop.forLoop_keeps (fun i m' => m' a.toNat = if (a - addr).toNat < i then 0 else m a.toNat)
    (fun i m₁ m₂ hi hm₁ hok => ?_) (if_neg (Nat.not_lt_zero _)).symm h
  have hlt : i < 2 ^ 32 := Nat.lt_trans hi size.toNat_lt
  rw [store_ok hok]
  by_cases ha : (a - addr).toNat = i
  · rw [← (toNat_sub_eq_iff hlt).mp ha, Function.update_self, if_pos (by omega)]
  · have hne : a.toNat ≠ (addr + UInt32.ofNat i).toNat := fun heq =>
      ha ((toNat_sub_eq_iff hlt).mpr (UInt32.toNat_inj.mp heq))
    rw [Function.update_of_ne hne, hm₁]
    refine if_congr ?_ rfl rfl
    omega

/-- Copying a part of the sector returns exactly when the destination is off the stack. -/
private theorem copySector_returns_iff {dst src : UInt32} {n : Nat} :
    (∃ m', copySector stack m dst src n = .ok m') ↔ RangeOff stack dst n :=
  Loop.forLoop_returns_iff fun _ _ _ => store_returns_iff

/-- The bytes are copied one by one, from the lowest address up. -/
theorem copySector_ok {dst src : UInt32} {n : Nat} (h : copySector stack m dst src n = .ok m') :
    m' = Loop.copyUp (fun i => (dst + UInt32.ofNat i).toNat) (fun i => (src + UInt32.ofNat i).toNat)
      n m := by
  refine Loop.forLoop_keeps (fun i m' => m' = Loop.copyUp (fun i => (dst + UInt32.ofNat i).toNat)
    (fun i => (src + UInt32.ofNat i).toNat) i m) (fun i m₁ m₂ hi hm₁ hok => ?_) rfl h
  rw [store_ok hok, hm₁]
  rfl

/-- Where the destination is a little behind the source, the first bytes repeat. -/
private theorem copySector_apply {dst src : UInt32} {n i : Nat} (hn : n ≤ 2 ^ 32)
    (h : copySector stack m dst src n = .ok m') (hi : i < n) :
    m' (dst + UInt32.ofNat i).toNat = m (src + UInt32.ofNat (i % (dst - src).toNat)).toNat := by
  rw [copySector_ok h]
  refine Loop.copyUp_apply (fun i hi j hj heq => ?_) (fun i hi j hj => ?_) hi
  · have := (add_ofNat_inj (by omega) (by omega)).mp heq
    omega
  · have hdst := dst.toNat_lt
    have hsrc := src.toNat_lt
    rw [UInt32.toNat_add, UInt32.toNat_add, UInt32.toNat_sub, toNat_ofNat_lt (show i < 2 ^ 32 by omega),
      toNat_ofNat_lt (show j < 2 ^ 32 by omega)]
    omega

/-- Outside the destination nothing changes. -/
private theorem copySector_frame {dst src a : UInt32} {n : Nat} (hn : n ≤ 2 ^ 32)
    (h : copySector stack m dst src n = .ok m') (ha : n ≤ (a - dst).toNat) :
    m' a.toNat = m a.toNat := by
  rw [copySector_ok h]
  refine Loop.copyUp_out fun i hi heq => ?_
  have := (toNat_sub_eq_iff (show i < 2 ^ 32 by omega)).mpr (UInt32.toNat_inj.mp heq)
  omega

/-! ## `__k_readfile` -/

/-- The offset in the file of the byte that `__k_readfile` copies to `addr + k`. The sector
    that offset `foff + k` is in was copied from its byte `r - i` on, and what is stored a
    little behind the place it is read from is read again. -/
def sourceOf (addr foff : UInt32) (k : Nat) : Nat :=
  let r := (foff.toNat + k) % 512
  let i := min k r
  (foff.toNat + (k - i)) % 2 ^ 32 +
    i % (addr + UInt32.ofNat (k - i) - (sectorDataStart + UInt32.ofNat (r - i))).toNat

/-- The first sector. -/
private theorem sourceOf_first {addr foff fsize : UInt32} {k : Nat}
    (hk : k < (chunk foff fsize).toNat) :
    sourceOf addr foff k =
      foff.toNat + k % (addr - (sectorDataStart + foff % 512)).toNat := by
  have hlt := foff.toNat_lt
  rw [toNat_chunk] at hk
  have hmin : min k ((foff.toNat + k) % 512) = k := by omega
  have hrest : (foff.toNat + k) % 512 - k = foff.toNat % 512 := by omega
  have hmod : UInt32.ofNat (foff.toNat % 512) = foff % 512 := by
    rw [← UInt32.toNat_inj, UInt32.toNat_mod, toNat_ofNat_lt (by omega)]
    rfl
  have hzero : addr + UInt32.ofNat 0 = addr := UInt32.add_zero addr
  rw [sourceOf]
  simp only [hmin, hrest, Nat.sub_self, hmod, hzero, Nat.add_zero, Nat.mod_eq_of_lt hlt]

/-- The sectors behind the first are those of the rest of the file. -/
private theorem sourceOf_rest {addr foff fsize : UInt32} {k : Nat}
    (hk : (chunk foff fsize).toNat ≤ k)
    (hsize : k < fsize.toNat) : sourceOf (addr + chunk foff fsize) (foff + chunk foff fsize)
      (k - (chunk foff fsize).toNat) = sourceOf addr foff k := by
  have hnb : (chunk foff fsize).toNat = 512 - foff.toNat % 512 := by
    rw [toNat_chunk] at hk ⊢
    omega
  generalize chunk foff fsize = nb at hk hnb ⊢
  have hlt := foff.toNat_lt
  have hk32 := Nat.lt_trans hsize fsize.toNat_lt
  have hfoff : (foff + nb).toNat = (foff.toNat + nb.toNat) % 2 ^ 32 := UInt32.toNat_add _ _
  -- `foff + nb` may wrap, but 512 divides 2 ^ 32
  have hr : ((foff + nb).toNat + (k - nb.toNat)) % 512 = (foff.toNat + k) % 512 := by omega
  have hmin : min (k - nb.toNat) ((foff.toNat + k) % 512) = min k ((foff.toNat + k) % 512) := by omega
  have haddr : ∀ i, i ≤ k - nb.toNat →
      addr + nb + UInt32.ofNat (k - nb.toNat - i) = addr + UInt32.ofNat (k - i) := by
    intro i hi
    have hsum : nb.toNat + (k - nb.toNat - i) = k - i := by omega
    rw [add_add_ofNat, hsum]
  rw [sourceOf, sourceOf]
  simp only [hr, hmin]
  rw [haddr _ (by omega)]
  congr 1
  omega

/-- A sector is read to the scratch buffer, and nothing else changes. -/
private theorem readDisk_scratch_ok {sect : UInt32}
    (h : readDisk .ports stack d m sectorDataStart sect = .ok m') :
    (∀ i, i < 512 → m' (0x1000 + i) = (d.sector sect).getD i 0) ∧
      ∀ a, a ∉ scratch → m' a = m a := by
  obtain ⟨hread, hframe⟩ := readDisk_ok (by decide) h
  refine ⟨hread, fun a ha => hframe.apply ?_⟩
  rintro (hin | hin)
  · exact ha hin
  · exact ha hin

/-- The bytes of the first sector of the rest of a file. -/
theorem file_chunk (d : Disk) (fstart foff : UInt32) {i : Nat} (hi : foff.toNat % 512 + i < 512) :
    (d.sector (fstart + foff / 512)).getD (foff.toNat % 512 + i) 0 =
      d.file fstart (foff.toNat + i) := by
  have hsect : UInt32.ofNat (foff.toNat / 512) = foff / 512 := by
    have hlt := foff.toNat_lt
    rw [← UInt32.toNat_inj, UInt32.toNat_div, toNat_ofNat_lt (by omega)]
    rfl
  rw [← hsect, ← file_sector d fstart hi, ← Nat.add_assoc, Nat.div_add_mod]

/-- Outside the scratch buffer the bytes of the file are at `addr` and nothing else has
    changed. -/
theorem kReadfile_ok {addr fstart foff fsize : UInt32}
    (h : kReadfile stack d m addr fstart foff fsize = .ok m') {a : UInt32} (ha : a.toNat ∉ scratch) :
    m' a.toNat = if (a - addr).toNat < fsize.toNat then
      d.file fstart (sourceOf addr foff (a - addr).toNat) else m a.toNat := by
  -- the recursion is on the bytes that are left, with another address and offset each time
  induction hn : fsize.toNat using Nat.strongRecOn generalizing m addr foff fsize with
  | ind n ih =>
    subst hn
    rw [kReadfile] at h
    split at h
    · next hend =>
      cases h
      rw [hend]
      rfl
    · next hend =>
      obtain ⟨m₁, h₁, h⟩ := Run.bind_eq_ok.mp h
      obtain ⟨m₂, h₂, h⟩ := Run.bind_eq_ok.mp h
      obtain ⟨hread, hkept⟩ := readDisk_scratch_ok h₁
      have ih := ih _ (sub_chunk_lt hend) h rfl
      have hsub := toNat_sub_chunk foff fsize
      have hrest := @sourceOf_rest addr foff fsize (a - addr).toNat
      have hfirst := @sourceOf_first addr foff fsize (a - addr).toNat
      have hchunk := toNat_chunk foff fsize
      have hlt := fsize.toNat_lt
      generalize chunk foff fsize = nb at *
      -- addresses wrap, so the distance from the next start is one of two values
      have hdist : (a - (addr + nb)).toNat = if (a - addr).toNat < nb.toNat then
          (a - addr).toNat + 2 ^ 32 - nb.toNat else (a - addr).toNat - nb.toNat := by
        have := a.toNat_lt
        have := addr.toNat_lt
        have := nb.toNat_lt
        rw [UInt32.toNat_sub, UInt32.toNat_sub, UInt32.toNat_add]
        split <;> omega
      by_cases hin : (a - addr).toNat < nb.toNat
      · -- stored in this pass, and by no later one
        rw [if_pos hin] at hdist
        rw [ih, if_neg (by omega), if_pos (by omega), hfirst hin]
        have haddr := (toNat_sub_eq_iff (a - addr).toNat_lt).mp (rfl : (a - addr).toNat = _)
        have hbyte := copySector_apply (by omega) h₂ hin
        rw [← haddr] at hbyte
        rw [hbyte]
        have hle := Nat.mod_le (a - addr).toNat (addr - (sectorDataStart + foff % 512)).toNat
        generalize (a - addr).toNat % (addr - (sectorDataStart + foff % 512)).toNat = i at hle ⊢
        have hsrc : (sectorDataStart + foff % 512 + UInt32.ofNat i).toNat =
            0x1000 + (foff.toNat % 512 + i) := by
          rw [UInt32.toNat_add, UInt32.toNat_add, UInt32.toNat_mod, toNat_ofNat_lt (by omega),
            show sectorDataStart.toNat = 0x1000 from rfl, show (512 : UInt32).toNat = 512 from rfl]
          omega
        rw [hsrc, hread _ (by omega), file_chunk d fstart foff (by omega)]
      · -- left alone in this pass
        rw [if_neg hin] at hdist
        rw [ih, hdist, hsub]
        by_cases hsize : (a - addr).toNat < fsize.toNat
        · rw [if_pos (by omega), if_pos hsize, hrest (by omega) hsize]
        · rw [if_neg (by omega), if_neg hsize, copySector_frame (by omega) h₂ (by omega), hkept _ ha]

/-- Two ranges, one behind the other. -/
private theorem rangeOff_split {addr nb : UInt32} {n : Nat} (h : nb.toNat ≤ n) :
    RangeOff stack addr n ↔
      RangeOff stack addr nb.toNat ∧ RangeOff stack (addr + nb) (n - nb.toNat) := by
  constructor
  · intro hoff
    refine ⟨fun i hi => hoff i (by omega), fun i hi => ?_⟩
    rw [add_add_ofNat]
    exact hoff _ (by omega)
  · rintro ⟨hfirst, hrest⟩ i hi
    by_cases hin : i < nb.toNat
    · exact hfirst i hin
    · obtain ⟨j, rfl⟩ := Nat.exists_eq_add_of_le (Nat.not_lt.mp hin)
      rw [← add_add_ofNat]
      exact hrest j (by omega)

/-- `k_readfile` returns exactly when the destination is off the stack. -/
private theorem kReadfile_returns_iff {addr fstart foff fsize : UInt32} :
    (∃ m', kReadfile stack d m addr fstart foff fsize = .ok m') ↔
      RangeOff stack addr fsize.toNat := by
  induction hn : fsize.toNat using Nat.strongRecOn generalizing m addr foff fsize with
  | ind n ih =>
    subst hn
    rw [kReadfile]
    split
    · next hend =>
      rw [hend]
      exact iff_of_true ⟨m, rfl⟩ fun i hi => absurd hi (Nat.not_lt_zero i)
    · next hend =>
      -- reading the sector never fails, as the scratch buffer is off the stack
      obtain ⟨m₁, h₁⟩ := (@readDisk_returns_iff .ports stack d m sectorDataStart
        (fstart + foff / 512) (by decide)).mpr stack.off_scratch
      have hsub := toNat_sub_chunk foff fsize
      have hle : (chunk foff fsize).toNat ≤ fsize.toNat := by
        rw [toNat_chunk]
        exact Nat.min_le_right _ _
      have ih {m : Mem} := @ih _ (sub_chunk_lt hend) m (addr + chunk foff fsize)
        (foff + chunk foff fsize) (fsize - chunk foff fsize) rfl
      have hsplit : RangeOff stack addr fsize.toNat ↔ RangeOff stack addr (chunk foff fsize).toNat ∧
          RangeOff stack (addr + chunk foff fsize) (fsize - chunk foff fsize).toNat := by
        rw [hsub]
        exact rangeOff_split hle
      rw [hsplit]
      constructor
      · rintro ⟨m', h⟩
        obtain ⟨_, -, h⟩ := Run.bind_eq_ok.mp h
        obtain ⟨m₂, h₂, h⟩ := Run.bind_eq_ok.mp h
        exact ⟨copySector_returns_iff.mp ⟨m₂, h₂⟩, ih.mp ⟨m', h⟩⟩
      · rintro ⟨hfirst, hrest⟩
        obtain ⟨m₂, h₂⟩ := copySector_returns_iff.mpr hfirst
        obtain ⟨m', h⟩ := ih.mpr hrest
        exact ⟨m', Run.bind_eq_ok.mpr ⟨m₁, h₁, Run.bind_eq_ok.mpr ⟨m₂, h₂, h⟩⟩⟩

/-! ## Program headers -/

/-- The members of an `Elf64_Phdr` that the loader reads. -/
structure Phdr where
  type : UInt32
  offset : UInt64
  paddr : UInt64
  filesz : UInt64
  memsz : UInt64
  deriving DecidableEq, Repr

/-- The program header at an offset of the file. -/
def phdrAt (f : Mem) (off : Nat) : Phdr where
  type := UInt32.ofNat (getField f off pType)
  offset := UInt64.ofNat (getField f off pOffset)
  paddr := UInt64.ofNat (getField f off pPaddr)
  filesz := UInt64.ofNat (getField f off pFilesz)
  memsz := UInt64.ofNat (getField f off pMemsz)

namespace Phdr

variable {p : Phdr} {sector : UInt32}

/-- What the loader takes for a segment to load. -/
def Odd (p : Phdr) : Prop := p.type &&& ptLoad ≠ 0

instance : DecidablePred Odd := fun p => inferInstanceAs (Decidable (p.type &&& ptLoad ≠ 0))

/-- A segment to load. -/
def IsLoad (p : Phdr) : Prop := p.type = ptLoad

instance : DecidablePred IsLoad := fun p => inferInstanceAs (Decidable (p.type = ptLoad))

/-- `PT_LOAD` is odd. -/
theorem IsLoad.odd (h : p.IsLoad) : p.Odd := by
  rw [Odd, show p.type = ptLoad from h]
  decide

/-- Where the zeros begin, and how many there are. -/
def zeroAddr (p : Phdr) : UInt32 := (p.paddr + p.filesz).toUInt32

/-- The bytes that are cleared behind the ones of the file. -/
def zeroSize (p : Phdr) : UInt32 := (p.memsz - p.filesz).toUInt32

/-- The addresses of its bytes of the file and of its zeros, in 32 bits. -/
def range (p : Phdr) : Set UInt32 :=
  {a | (a - p.zeroAddr).toNat < p.zeroSize.toNat ∨
    (a - p.paddr.toUInt32).toNat < p.filesz.toUInt32.toNat}

/-- What the loop does for an odd header. -/
def load (stack : Stack) (d : Disk) (sector : UInt32) (p : Phdr) (m : Mem) : Except Fault Mem :=
  kReadfile stack d m p.paddr.toUInt32 sector p.offset.toUInt32 p.filesz.toUInt32 >>= fun m =>
    kMemzero stack m p.zeroAddr p.zeroSize

/-- The byte that an odd header leaves at an address, if it stores one there: the zeros
    come last. -/
def stored (d : Disk) (sector : UInt32) (p : Phdr) (a : UInt32) : Option UInt8 :=
  if (a - p.zeroAddr).toNat < p.zeroSize.toNat then
    some 0
  else if (a - p.paddr.toUInt32).toNat < p.filesz.toUInt32.toNat then
    some (d.file sector
      (sourceOf p.paddr.toUInt32 p.offset.toUInt32 (a - p.paddr.toUInt32).toNat))
  else
    none

/-- Nothing is stored on the stack. -/
def OffStack (stack : Stack) (d : Disk) (sector : UInt32) (p : Phdr) : Prop :=
  ∀ a, p.stored d sector a ≠ none → stack.Off a.toNat 1

/-- Loading a header stores what `stored` says. -/
private theorem load_ok (h : p.load stack d sector m = .ok m') {a : UInt32}
    (ha : a.toNat ∉ scratch) :
    m' a.toNat = (p.stored d sector a).getD (m a.toNat) := by
  obtain ⟨m₁, h₁, h₂⟩ := Run.bind_eq_ok.mp h
  rw [kMemzero_ok h₂ a, kReadfile_ok h₁ ha, stored]
  split
  · rfl
  · split <;> rfl

/-- A range is off the stack when every address in it is. -/
private theorem rangeOff_iff {addr : UInt32} {n : Nat} (hn : n ≤ 2 ^ 32) :
    RangeOff stack addr n ↔ ∀ a : UInt32, (a - addr).toNat < n → stack.Off a.toNat 1 := by
  constructor
  · intro hoff a ha
    have haddr := (toNat_sub_eq_iff (a - addr).toNat_lt).mp (rfl : (a - addr).toNat = _)
    rw [haddr]
    exact hoff _ ha
  · intro hoff i hi
    refine hoff _ ?_
    rw [(toNat_sub_eq_iff (show i < 2 ^ 32 by omega)).mpr rfl]
    exact hi

/-- A byte is stored where the header has bytes of the file or zeros. -/
private theorem stored_ne_none_iff {a : UInt32} : p.stored d sector a ≠ none ↔ a ∈ p.range := by
  rw [stored, range, Set.mem_ofPred_eq]
  split
  · next hzero => exact iff_of_true (Option.some_ne_none _) (.inl hzero)
  · next hzero =>
    split
    · next hfile => exact iff_of_true (Option.some_ne_none _) (.inr hfile)
    · next hfile => exact iff_of_false (fun h => h rfl) (not_or.mpr ⟨hzero, hfile⟩)

/-- A header is loaded exactly when its stores are off the stack. -/
private theorem load_returns_iff :
    (∃ m', p.load stack d sector m = .ok m') ↔ p.OffStack stack d sector := by
  have hfile := @rangeOff_iff stack p.paddr.toUInt32 _ (Nat.le_of_lt p.filesz.toUInt32.toNat_lt)
  have hzero := @rangeOff_iff stack p.zeroAddr _ (Nat.le_of_lt p.zeroSize.toNat_lt)
  have hboth : (∃ m', p.load stack d sector m = .ok m') ↔
      RangeOff stack p.paddr.toUInt32 p.filesz.toUInt32.toNat ∧
        RangeOff stack p.zeroAddr p.zeroSize.toNat := by
    constructor
    · rintro ⟨m', h⟩
      obtain ⟨m₁, h₁, h₂⟩ := Run.bind_eq_ok.mp h
      exact ⟨kReadfile_returns_iff.mp ⟨m₁, h₁⟩, kMemzero_returns_iff.mp ⟨m', h₂⟩⟩
    · rintro ⟨hread, hclear⟩
      obtain ⟨m₁, h₁⟩ := kReadfile_returns_iff.mpr hread
      obtain ⟨m', h₂⟩ := kMemzero_returns_iff.mpr hclear
      exact ⟨m', Run.bind_eq_ok.mpr ⟨m₁, h₁, h₂⟩⟩
  -- an address that is stored to is in one of the two ranges
  rw [hboth, hfile, hzero]
  constructor
  · rintro ⟨hread, hclear⟩ a hstored
    exact (stored_ne_none_iff.mp hstored).elim (hclear a) (hread a)
  · intro hoff
    exact ⟨fun a ha => hoff a (stored_ne_none_iff.mpr (.inr ha)),
      fun a ha => hoff a (stored_ne_none_iff.mpr (.inl ha))⟩

end Phdr

/-- The bytes of a sector are those of the file. -/
theorem sector_slice {sector off : UInt32} {k n : Nat} (hfit : off.toNat % 512 + k + n ≤ 512) :
    ((d.sector (sector + off / 512)).drop (off.toNat % 512 + k)).take n =
      (d.file sector).read (off.toNat + k) n := by
  have hlen : (d.sector (sector + off / 512)).length = 512 := d.length_sector _
  refine List.ext_getElem ?_ fun i h₁ h₂ => ?_
  · rw [List.length_take, List.length_drop, Mem.length_read, hlen]
    omega
  · rw [Mem.length_read] at h₂
    have hbyte := file_chunk d sector off (show off.toNat % 512 + (k + i) < 512 by omega)
    rw [List.getElem_take, List.getElem_drop, Mem.getElem_read, Nat.add_assoc off.toNat, ← hbyte,
      List.getD_eq_getElem _ _ (by rw [hlen]; omega)]
    congr 1
    omega

/-- A member read from a sector that holds all of it. -/
private theorem dataField_eq {sector off : UInt32} {f : Field}
    (hfit : off.toNat % 512 + f.off + f.width.bytes ≤ 512) :
    dataField (d.sector (sector + off / 512)) (off % 512).toNat f =
      .ok (getField (d.file sector) off.toNat f) := by
  have hlen : (d.sector (sector + off / 512)).length = 512 := d.length_sector _
  have hmod : (off % 512).toNat = off.toNat % 512 := UInt32.toNat_mod _ _
  rw [dataField, hmod, if_pos (by rw [hlen]; exact hfit), sector_slice hfit]
  rfl

/-- One pass over a header that lies within a sector. -/
private theorem loadHeader_eq {sector phoff : UInt32} {i off : Nat}
    (hoff : (phoff + UInt32.ofNat i * phdrSize).toNat = off) (hfit : off % 512 + 56 ≤ 512) :
    loadHeader stack d sector phoff i m =
      if (phdrAt (d.file sector) off).Odd then (phdrAt (d.file sector) off).load stack d sector m
      else .ok m := by
  subst hoff
  have hfield : ∀ f : Field, f.off + f.width.bytes ≤ 56 →
      dataField (d.sector (sector + (phoff + UInt32.ofNat i * phdrSize) / 512))
        ((phoff + UInt32.ofNat i * phdrSize) % 512).toNat f =
          .ok (getField (d.file sector) (phoff + UInt32.ofNat i * phdrSize).toNat f) := fun f hf =>
    dataField_eq (by omega)
  rw [loadHeader]
  simp only [hfield pType (by decide), hfield pPaddr (by decide), hfield pOffset (by decide),
    hfield pFilesz (by decide), hfield pMemsz (by decide), Run.ok_bind]
  rfl

/-! ## The header table -/

section Table

variable (d : Disk) (sector : UInt32)

/-- The number of program headers of the file. -/
def phnum : Nat := getField (d.file sector) 0 ePhnum

/-- Where they begin. -/
def phoff : Nat := getField (d.file sector) 0 ePhoff

/-- Program header `i` of the file. -/
def header (i : Nat) : Phdr := phdrAt (d.file sector) (phoff d sector + 56 * i)

/-- The header table is below 4 GiB, and no header straddles a sector. -/
structure TableOk : Prop where
  below : ∀ i, i < phnum d sector → phoff d sector + 56 * i + 56 ≤ 2 ^ 32
  whole : ∀ i, i < phnum d sector → (phoff d sector + 56 * i) % 512 + 56 ≤ 512

/-- What the last of the first headers that are selected and store a byte at `a` leaves
    there. -/
def lastStored (sel : Phdr → Prop) [DecidablePred sel] (a : UInt32) : Nat → Option UInt8
  | 0 => none
  | i + 1 =>
    if sel (header d sector i) then
      ((header d sector i).stored d sector a).or (lastStored sel a i)
    else
      lastStored sel a i

end Table

variable {sector : UInt32}

/-- A pass of the loop loads its header when the type is odd. -/
private theorem loadHeader_header (htable : TableOk d sector) {i : Nat} (hi : i < phnum d sector) :
    loadHeader stack d sector (UInt64.ofNat (phoff d sector)).toUInt32 i m =
      if (header d sector i).Odd then (header d sector i).load stack d sector m else .ok m := by
  have hbelow := htable.below i hi
  refine loadHeader_eq ?_ (htable.whole i hi)
  rw [UInt32.toNat_add, UInt32.toNat_mul, UInt64.toNat_toUInt32, UInt64.toNat_ofNat',
    toNat_ofNat_lt (by omega), show phdrSize.toNat = 56 from rfl]
  omega

/-- The loop returns if no odd header stores on the stack. -/
private theorem headers_returns_iff (htable : TableOk d sector) :
    (∃ m', Loop.forLoop (loadHeader stack d sector (UInt64.ofNat (phoff d sector)).toUInt32)
      (phnum d sector) m = .ok m') ↔
      ∀ i, i < phnum d sector → (header d sector i).Odd → (header d sector i).OffStack stack d sector :=
  Loop.forLoop_returns_iff fun i m hi => by
    rw [loadHeader_header htable hi]
    by_cases hodd : (header d sector i).Odd
    · rw [if_pos hodd, Phdr.load_returns_iff]
      exact ⟨fun h _ => h, fun h => h hodd⟩
    · rw [if_neg hodd]
      exact iff_of_true ⟨m, rfl⟩ fun h => absurd h hodd

/-- Outside the scratch buffer memory holds what was stored last. -/
private theorem headers_ok (htable : TableOk d sector)
    (h : Loop.forLoop (loadHeader stack d sector (UInt64.ofNat (phoff d sector)).toUInt32)
      (phnum d sector) m = .ok m') {a : UInt32} (ha : a.toNat ∉ scratch) :
    m' a.toNat = (lastStored d sector Phdr.Odd a (phnum d sector)).getD (m a.toNat) := by
  -- the invariant: every address holds what was stored there last by the headers so far
  refine Loop.forLoop_keeps
    (fun i m' => m' a.toNat = (lastStored d sector Phdr.Odd a i).getD (m a.toNat))
    (fun i m₁ m₂ hi hm₁ hok => ?_) rfl h
  rw [loadHeader_header htable hi] at hok
  rw [lastStored]
  split at hok
  · -- an odd header stores over it, and any other one does nothing
    next hodd =>
    rw [if_pos hodd, Phdr.load_ok hok ha, hm₁]
    cases (header d sector i).stored d sector a <;> rfl
  · next hodd =>
    cases hok
    rw [if_neg hodd, hm₁]

/-- The entry of the kernel. -/
def entry (d : Disk) (sector : UInt32) : UInt32 :=
  (UInt64.ofNat (getField (d.file sector) 0 eEntry)).toUInt32

/-- `elf_main` is the loop over the headers, on the memory it was called with. -/
theorem elfMain_eq : elfMain stack d sector m =
    Loop.forLoop (loadHeader stack d sector (UInt64.ofNat (phoff d sector)).toUInt32)
      (phnum d sector) m >>= fun m => .ok (entry d sector, m) := by
  have hfield : ∀ f : Field, f.off + f.width.bytes ≤ 512 →
      dataField (d.sector sector) 0 f = .ok (getField (d.file sector) 0 f) := by
    intro f hf
    have h := @dataField_eq d sector 0 f (by
      rw [show (0 : UInt32).toNat % 512 = 0 from rfl]
      omega)
    rwa [show sector + 0 / 512 = sector from UInt32.add_zero sector] at h
  rw [elfMain]
  simp only [hfield eEntry (by decide), hfield ePhnum (by decide), hfield ePhoff (by decide),
    Run.ok_bind]
  rfl

/-! ## Segments -/

/-- The place of a segment in memory. -/
def Phdr.segment (p : Phdr) : Set Nat := Set.Ico p.paddr.toNat (p.paddr.toNat + p.memsz.toNat)

/-- A kernel as the loader expects it. -/
structure ValidImage (stack : Stack) (d : Disk) (sector : UInt32) : Prop where
  table : TableOk d sector
  size : ∀ i, i < phnum d sector → (header d sector i).IsLoad →
    (header d sector i).filesz.toNat ≤ (header d sector i).memsz.toNat
  file : ∀ i, i < phnum d sector → (header d sector i).IsLoad →
    (header d sector i).offset.toNat + (header d sector i).filesz.toNat ≤ 2 ^ 32
  place : ∀ i, i < phnum d sector → (header d sector i).IsLoad →
    (header d sector i).paddr.toNat + (header d sector i).memsz.toNat ≤ 2 ^ 32
  apart : ∀ i j, i < phnum d sector → j < phnum d sector → i ≠ j → (header d sector i).IsLoad →
    (header d sector j).IsLoad → Disjoint (header d sector i).segment (header d sector j).segment
  scratch : ∀ i, i < phnum d sector → (header d sector i).IsLoad →
    Disjoint (header d sector i).segment scratch
  stack : ∀ i, i < phnum d sector → (header d sector i).IsLoad →
    Disjoint (header d sector i).segment stack.area

/-- The segments are in memory, and nothing else has changed but the scratch buffer and
    the stack. -/
structure LoadsExactly (stack : Stack) (d : Disk) (sector : UInt32) (m m' : Mem) : Prop where
  file : ∀ i, i < phnum d sector → (header d sector i).IsLoad →
    ∀ k, k < (header d sector i).filesz.toNat →
      m' ((header d sector i).paddr.toNat + k) = d.file sector ((header d sector i).offset.toNat + k)
  zero : ∀ i, i < phnum d sector → (header d sector i).IsLoad →
    ∀ k, (header d sector i).filesz.toNat ≤ k → k < (header d sector i).memsz.toNat →
      m' ((header d sector i).paddr.toNat + k) = 0
  frame : ∀ a : UInt32, (∀ i, i < phnum d sector → (header d sector i).IsLoad →
    a.toNat ∉ (header d sector i).segment) → a.toNat ∉ Boot.scratch → a.toNat ∉ stack.area →
      m' a.toNat = m a.toNat

/-- No header with an odd type stores on the stack, and what such headers leave elsewhere is
    what the segments to load leave there. -/
structure Harmless (stack : Stack) (d : Disk) (sector : UInt32) : Prop where
  offStack : ∀ i, i < phnum d sector → (header d sector i).Odd →
    (header d sector i).OffStack stack d sector
  agree : ∀ a : UInt32, a.toNat ∉ scratch → a.toNat ∉ stack.area →
    lastStored d sector Phdr.Odd a (phnum d sector) =
      lastStored d sector Phdr.IsLoad a (phnum d sector)

/-- A segment that fits: its place in the arithmetic of the loader. -/
structure Phdr.Fits (p : Phdr) : Prop where
  size : p.filesz.toNat ≤ p.memsz.toNat
  file : p.offset.toNat + p.filesz.toNat ≤ 2 ^ 32
  place : p.paddr.toNat + p.memsz.toNat ≤ 2 ^ 32
  scratch : Disjoint p.segment Boot.scratch

/-- In a valid image the segments do not wrap. -/
private theorem ValidImage.fits (hv : ValidImage stack d sector) {i : Nat} (hi : i < phnum d sector)
    (hload : (header d sector i).IsLoad) : (header d sector i).Fits :=
  ⟨hv.size i hi hload, hv.file i hi hload, hv.place i hi hload, hv.scratch i hi hload⟩

namespace Phdr.Fits

variable {p : Phdr} {a : UInt32}

/-- A segment is not all of the memory. -/
private theorem memsz_lt (h : p.Fits) : p.memsz.toNat < 2 ^ 32 := by
  by_contra hall
  have hplace := h.place
  exact Set.disjoint_left.mp h.scratch (show 0x1000 ∈ p.segment from ⟨by omega, by omega⟩)
    ⟨Nat.le_refl _, by decide⟩

/-- The addresses that get bytes of the file. -/
private theorem inFile_iff (h : p.Fits) : (a - p.paddr.toUInt32).toNat < p.filesz.toUInt32.toNat ↔
    p.paddr.toNat ≤ a.toNat ∧ a.toNat < p.paddr.toNat + p.filesz.toNat := by
  have hsize := h.size
  have hplace := h.place
  have hlt := h.memsz_lt
  have ha := a.toNat_lt
  rw [UInt32.toNat_sub, UInt64.toNat_toUInt32, UInt64.toNat_toUInt32]
  omega

/-- The addresses that are cleared. -/
private theorem inZero_iff (h : p.Fits) : (a - p.zeroAddr).toNat < p.zeroSize.toNat ↔
    p.paddr.toNat + p.filesz.toNat ≤ a.toNat ∧ a.toNat < p.paddr.toNat + p.memsz.toNat := by
  have hsize := h.size
  have hplace := h.place
  have hlt := h.memsz_lt
  have ha := a.toNat_lt
  have hzero : p.zeroSize.toNat = p.memsz.toNat - p.filesz.toNat := by
    rw [zeroSize, UInt64.toNat_toUInt32,
      UInt64.toNat_sub_of_le _ _ (UInt64.le_iff_toNat_le.mpr hsize)]
    omega
  rw [hzero, zeroAddr, UInt32.toNat_sub, UInt64.toNat_toUInt32, UInt64.toNat_add]
  omega

/-- The copy of a segment does not run into the scratch buffer, so no byte is read
    again. -/
private theorem sourceOf_eq (h : p.Fits) {k : Nat} (hk : k < p.filesz.toNat) :
    sourceOf p.paddr.toUInt32 p.offset.toUInt32 k = p.offset.toNat + k := by
  have hsize := h.size
  have hfile := h.file
  have hplace := h.place
  have hoff : p.offset.toUInt32.toNat = p.offset.toNat := by
    rw [UInt64.toNat_toUInt32]
    omega
  have haddr : p.paddr.toUInt32.toNat = p.paddr.toNat := by
    rw [UInt64.toNat_toUInt32]
    omega
  rw [sourceOf]
  simp only [hoff]
  generalize hi : min k ((p.offset.toNat + k) % 512) = i
  -- the place of the first byte of this sector is not in the scratch buffer
  have hout : p.paddr.toNat + (k - i) ∉ Boot.scratch :=
    Set.disjoint_left.mp h.scratch ⟨by omega, by omega⟩
  have hout : ¬ (0x1000 ≤ p.paddr.toNat + (k - i) ∧ p.paddr.toNat + (k - i) < 0x1200) := hout
  have hgap : i < (p.paddr.toUInt32 + UInt32.ofNat (k - i) -
      (sectorDataStart + UInt32.ofNat ((p.offset.toNat + k) % 512 - i))).toNat ∨ i = 0 := by
    rw [UInt32.toNat_sub, UInt32.toNat_add, UInt32.toNat_add, haddr, toNat_ofNat_lt (by omega),
      toNat_ofNat_lt (by omega), show sectorDataStart.toNat = 0x1000 from rfl]
    omega
  rcases hgap with hgap | rfl
  · rw [Nat.mod_eq_of_lt hgap]
    omega
  · rw [Nat.zero_mod]
    omega

/-- What a segment leaves in its place. -/
private theorem stored_in (h : p.Fits) (ha : a.toNat ∈ p.segment) : p.stored d sector a =
    some (if a.toNat < p.paddr.toNat + p.filesz.toNat then
      d.file sector (p.offset.toNat + (a.toNat - p.paddr.toNat)) else 0) := by
  obtain ⟨hlo, hhi⟩ := ha
  rw [stored]
  by_cases hfile : a.toNat < p.paddr.toNat + p.filesz.toNat
  · have hdist : (a - p.paddr.toUInt32).toNat = a.toNat - p.paddr.toNat := by
      have := a.toNat_lt
      have := h.place
      rw [UInt32.toNat_sub, UInt64.toNat_toUInt32]
      omega
    rw [if_neg fun hin => by have := h.inZero_iff.mp hin; omega, if_pos (h.inFile_iff.mpr ⟨hlo, hfile⟩),
      if_pos hfile, hdist, h.sourceOf_eq (by omega)]
  · rw [if_pos (h.inZero_iff.mpr ⟨by omega, hhi⟩), if_neg hfile]

/-- It leaves nothing elsewhere. -/
private theorem stored_out (h : p.Fits) (ha : a.toNat ∉ p.segment) :
    p.stored d sector a = none := by
  have hsize := h.size
  have hout : ¬ (p.paddr.toNat ≤ a.toNat ∧ a.toNat < p.paddr.toNat + p.memsz.toNat) := ha
  rw [stored, if_neg fun hin => by have := h.inZero_iff.mp hin; omega,
    if_neg fun hin => by have := h.inFile_iff.mp hin; omega]

end Phdr.Fits

section Segments

variable {i : Nat} {a : UInt32}

/-- Nothing is left at an address where none of the selected headers stores a byte. -/
private theorem lastStored_eq_none_iff {sel : Phdr → Prop} [DecidablePred sel] {n : Nat} :
    lastStored d sector sel a n = none ↔
      ∀ k, k < n → sel (header d sector k) → (header d sector k).stored d sector a = none := by
  induction n with
  | zero => exact iff_of_true rfl fun k hk => absurd hk (Nat.not_lt_zero k)
  | succ n ih =>
    rw [lastStored, Nat.forall_lt_succ_right, ← ih]
    by_cases hsel : sel (header d sector n)
    · rw [if_pos hsel, Option.or_eq_none_iff, and_comm]
      exact and_congr_right fun _ => ⟨fun h _ => h, fun h => h hsel⟩
    · rw [if_neg hsel]
      exact ⟨fun h => ⟨h, fun hn => absurd hn hsel⟩, And.left⟩

/-- A byte that no later selected header stores over stays. -/
private theorem lastStored_eq_of_later {sel : Phdr → Prop} [DecidablePred sel] {n : Nat}
    (hi : i < n)
    (hsel : sel (header d sector i)) (hstored : (header d sector i).stored d sector a ≠ none)
    (hlater : ∀ k, i < k → k < n → sel (header d sector k) →
      (header d sector k).stored d sector a = none) :
    lastStored d sector sel a n = (header d sector i).stored d sector a := by
  -- induction on the number of headers
  induction n with
  | zero => exact absurd hi (Nat.not_lt_zero i)
  | succ n ih =>
    obtain ⟨b, hb⟩ := Option.ne_none_iff_exists'.mp hstored
    rw [lastStored]
    rcases Nat.lt_succ_iff_lt_or_eq.mp hi with hlt | rfl
    · -- the last header is behind `i`, and stores nothing here
      have ih := ih hlt fun k hik hk => hlater k hik (Nat.lt_succ_of_lt hk)
      split
      · next hn => rw [hlater n hlt (Nat.lt_succ_self n) hn, Option.none_or, ih]
      · exact ih
    · -- the last header is `i` itself
      rw [if_pos hsel, hb]
      rfl

/-- In the place of a segment the segment to load is the only one. -/
private theorem lastStored_in (hv : ValidImage stack d sector) (hi : i < phnum d sector)
    (hload : (header d sector i).IsLoad) (ha : a.toNat ∈ (header d sector i).segment) :
    lastStored d sector Phdr.IsLoad a (phnum d sector) = (header d sector i).stored d sector a := by
  have hne : (header d sector i).stored d sector a ≠ none := by
    rw [(hv.fits hi hload).stored_in ha]
    exact Option.some_ne_none _
  refine lastStored_eq_of_later hi hload hne fun k hik hk hother => ?_
  exact (hv.fits hk hother).stored_out
    (Set.disjoint_left.mp (hv.apart i k hi hk (Nat.ne_of_lt hik) hload hother) ha)

/-- Outside all of them nothing is stored. -/
private theorem lastStored_out (hv : ValidImage stack d sector)
    (ha : ∀ i, i < phnum d sector → (header d sector i).IsLoad →
    a.toNat ∉ (header d sector i).segment) :
    lastStored d sector Phdr.IsLoad a (phnum d sector) = none :=
  lastStored_eq_none_iff.mpr fun i hi hload => (hv.fits hi hload).stored_out (ha i hi hload)

/-- The segments are loaded exactly when memory holds what they store, and what it held
    elsewhere. -/
private theorem loadsExactly_iff (hv : ValidImage stack d sector) :
    LoadsExactly stack d sector m m' ↔
    ∀ a : UInt32, a.toNat ∉ scratch → a.toNat ∉ stack.area →
      m' a.toNat = (lastStored d sector Phdr.IsLoad a (phnum d sector)).getD (m a.toNat) := by
  constructor
  · -- an address is in one of the segments or in none
    intro h a hscratch hstack
    by_cases hin : ∃ i, i < phnum d sector ∧ (header d sector i).IsLoad ∧
        a.toNat ∈ (header d sector i).segment
    · obtain ⟨i, hi, hload, ha⟩ := hin
      rw [lastStored_in hv hi hload ha, (hv.fits hi hload).stored_in ha, Option.getD_some]
      obtain ⟨k, hk⟩ := Nat.exists_eq_add_of_le ha.1
      have hhi := ha.2
      rw [hk, Nat.add_sub_cancel_left]
      split
      · next hfile => exact h.file i hi hload k (by omega)
      · next hfile => exact h.zero i hi hload k (by omega) (by omega)
    · have hout : ∀ i, i < phnum d sector → (header d sector i).IsLoad →
          a.toNat ∉ (header d sector i).segment := fun i hi hload ha => hin ⟨i, hi, hload, ha⟩
      rw [lastStored_out hv hout, Option.getD_none]
      exact h.frame a hout hscratch hstack
  · intro h
    -- the address of a byte of a segment
    have hbyte : ∀ i, i < phnum d sector → (header d sector i).IsLoad →
        ∀ k, k < (header d sector i).memsz.toNat →
          m' ((header d sector i).paddr.toNat + k) =
            if k < (header d sector i).filesz.toNat then
              d.file sector ((header d sector i).offset.toNat + k) else 0 := by
      intro i hi hload k hk
      have hplace := hv.place i hi hload
      have ha := toNat_ofNat_lt (show (header d sector i).paddr.toNat + k < 2 ^ 32 by omega)
      have hin : (UInt32.ofNat ((header d sector i).paddr.toNat + k)).toNat ∈
          (header d sector i).segment := by
        rw [ha]
        exact ⟨by omega, by omega⟩
      have heq := h _ (Set.disjoint_left.mp (hv.scratch i hi hload) hin)
        (Set.disjoint_left.mp (hv.stack i hi hload) hin)
      rw [lastStored_in hv hi hload hin, (hv.fits hi hload).stored_in hin, ha, Option.getD_some,
        Nat.add_sub_cancel_left] at heq
      rw [heq]
      refine if_congr ?_ rfl rfl
      omega
    refine ⟨fun i hi hload k hk => ?_, fun i hi hload k hge hk => ?_, fun a hout hscratch hstack => ?_⟩
    · rw [hbyte i hi hload k (Nat.lt_of_lt_of_le hk (hv.size i hi hload)), if_pos hk]
    · rw [hbyte i hi hload k hk, if_neg (Nat.not_lt.mpr hge)]
    · rw [h a hscratch hstack, lastStored_out hv hout, Option.getD_none]

end Segments

/-! ## When the segments are loaded -/

/-- Options that are the same byte whatever stands for nothing. -/
private theorem option_eq_of_getD {o o' : Option UInt8} (h : ∀ b, o.getD b = o'.getD b) :
    o = o' := by
  cases o with
  | none =>
    cases o' with
    | none => rfl
    | some c => exact absurd (h (c + 1)) (byte_succ_ne c)
  | some b =>
    cases o' with
    | none => exact absurd (h (b + 1)).symm (byte_succ_ne b)
    | some c => exact congrArg some (h 0)

/-- A segment to load stores in its place only. -/
private theorem ValidImage.mem_segment (hv : ValidImage stack d sector) {i : Nat}
    (hi : i < phnum d sector)
    (hload : (header d sector i).IsLoad) {a : UInt32}
    (hstored : (header d sector i).stored d sector a ≠ none) :
    a.toNat ∈ (header d sector i).segment := by
  by_contra hout
  exact hstored ((hv.fits hi hload).stored_out hout)

/-- Segments to load are not stored on the stack. -/
private theorem ValidImage.offStack (hv : ValidImage stack d sector) {i : Nat}
    (hi : i < phnum d sector)
    (hload : (header d sector i).IsLoad) :
    (header d sector i).OffStack stack d sector := fun _ hstored =>
  Stack.off_iff.mpr (Set.disjoint_left.mp (hv.stack i hi hload) (hv.mem_segment hi hload hstored))

/-- Where header `i` has bytes or zeros is the scratch buffer or the place of a segment to
    load, one of the headers that `sel` selects. -/
def Hidden (d : Disk) (sector : UInt32) (i : Nat) (sel : Nat → Prop) : Prop :=
  ∀ a, a ∈ (header d sector i).range → a.toNat ∈ scratch ∨
    ∃ j, sel j ∧ j < phnum d sector ∧ (header d sector j).IsLoad ∧ a.toNat ∈ (header d sector j).segment

/-- An empty header has no bytes and no zeros. -/
private theorem hidden_of_empty {i : Nat} {sel : Nat → Prop}
    (hfile : (header d sector i).filesz.toUInt32 = 0)
    (hmem : (header d sector i).memsz.toUInt32 = 0) : Hidden d sector i sel := by
  have hzero : (header d sector i).zeroSize = 0 := by
    rw [Phdr.zeroSize, UInt64.toUInt32_sub, hfile, hmem]
    rfl
  intro a ha
  rw [Phdr.range, Set.mem_ofPred_eq, hzero, hfile] at ha
  exact ha.elim (absurd · (Nat.not_lt_zero _)) (absurd · (Nat.not_lt_zero _))

/-- Headers with odd types do no harm where those that are not to be loaded are hidden by
    the scratch buffer and by segments that are loaded later. -/
private theorem harmless_of_hidden (hv : ValidImage stack d sector)
    (hhidden : ∀ i, i < phnum d sector → (header d sector i).Odd → ¬ (header d sector i).IsLoad →
      Hidden d sector i (i < ·)) :
    Harmless stack d sector := by
  refine ⟨fun i hi hodd a hstored => ?_, fun a hscratch _ => ?_⟩
  · by_cases hload : (header d sector i).IsLoad
    · exact hv.offStack hi hload a hstored
    · rcases hhidden i hi hodd hload a (Phdr.stored_ne_none_iff.mp hstored) with hin |
        ⟨j, -, hj, hjload, hin⟩
      · exact Stack.off_iff.mpr fun harea => by
          have := hin.2
          have := harea.1
          have := stack.fits
          simp only [stackTop] at *
          omega
      · exact Stack.off_iff.mpr (Set.disjoint_left.mp (hv.stack j hj hjload) hin)
  · by_cases hin : ∃ j, j < phnum d sector ∧ (header d sector j).IsLoad ∧
        a.toNat ∈ (header d sector j).segment
    · -- the segment comes behind every header that it hides
      obtain ⟨j, hj, hload, ha⟩ := hin
      rw [lastStored_in hv hj hload ha]
      refine lastStored_eq_of_later hj hload.odd
        (by rw [(hv.fits hj hload).stored_in ha]; exact Option.some_ne_none _) fun k hjk hk hodd => ?_
      by_contra hstored
      by_cases hkload : (header d sector k).IsLoad
      · exact Set.disjoint_left.mp (hv.apart j k hj hk (Nat.ne_of_lt hjk) hload hkload) ha
          (hv.mem_segment hk hkload hstored)
      · rcases hhidden k hk hodd hkload a (Phdr.stored_ne_none_iff.mp hstored) with
          hin | ⟨l, hkl, hl, hlload, hin⟩
        · exact hscratch hin
        · exact Set.disjoint_left.mp (hv.apart j l hj hl (by omega) hload hlload) ha hin
    · -- nothing is loaded here, so no header is hidden here
      rw [lastStored_out hv fun j hj hload ha => hin ⟨j, hj, hload, ha⟩]
      refine lastStored_eq_none_iff.mpr fun k hk hodd => ?_
      by_contra hstored
      by_cases hkload : (header d sector k).IsLoad
      · exact hin ⟨k, hk, hkload, hv.mem_segment hk hkload hstored⟩
      · rcases hhidden k hk hodd hkload a (Phdr.stored_ne_none_iff.mp hstored) with
          hscr | ⟨l, -, hl, hlload, ha⟩
        · exact hscratch hscr
        · exact hin ⟨l, hl, hlload, ha⟩

/-- What harmless headers store is in the scratch buffer and in the places of segments. -/
private theorem Harmless.hidden (h : Harmless stack d sector) (hv : ValidImage stack d sector)
    {i : Nat}
    (hi : i < phnum d sector) (hodd : (header d sector i).Odd) :
    Hidden d sector i fun _ => True := by
  intro a ha
  have hstored : (header d sector i).stored d sector a ≠ none := Phdr.stored_ne_none_iff.mpr ha
  by_cases hscratch : a.toNat ∈ scratch
  · exact .inl hscratch
  · refine .inr ?_
    have hagree := h.agree a hscratch (Stack.off_iff.mp (h.offStack i hi hodd a hstored))
    by_contra hout
    -- no segment to load covers the address, so what is left there is nothing
    have hnone : lastStored d sector Phdr.IsLoad a (phnum d sector) = none :=
      lastStored_out hv fun j hj hload hin => hout ⟨j, trivial, hj, hload, hin⟩
    rw [hnone] at hagree
    exact hstored (lastStored_eq_none_iff.mp hagree i hi hodd)

/-- In a valid image that was loaded all stores were off the stack, and every address holds what
    was stored there last. -/
private theorem elfMain_ok (hv : ValidImage stack d sector) {e : UInt32}
    (h : elfMain stack d sector m = .ok (e, m')) :
    (∀ i, i < phnum d sector → (header d sector i).Odd → (header d sector i).OffStack stack d sector) ∧
      ∀ a : UInt32, a.toNat ∉ scratch →
        m' a.toNat = (lastStored d sector Phdr.Odd a (phnum d sector)).getD (m a.toNat) := by
  rw [elfMain_eq] at h
  obtain ⟨m₁, h₁, h⟩ := Run.bind_eq_ok.mp h
  obtain ⟨-, rfl⟩ := Prod.mk.inj (Except.ok.inj h)
  exact ⟨(headers_returns_iff hv.table).mp ⟨m₁, h₁⟩, fun a ha => headers_ok hv.table h₁ ha⟩

/-- A kernel is loaded exactly, whatever was in memory, if and only if the headers with odd
    types are harmless. -/
theorem loads_iff (hv : ValidImage stack d sector) :
    (∀ m, ∃ m', elfMain stack d sector m = .ok (entry d sector, m') ∧
      LoadsExactly stack d sector m m') ↔ Harmless stack d sector := by
  constructor
  · -- what the memory held before tells a stored byte from one that was left alone
    intro hall
    refine ⟨?_, fun a hscratch hstack => option_eq_of_getD fun b => ?_⟩
    · obtain ⟨m', hok, -⟩ := hall fun _ => 0
      exact (elfMain_ok hv hok).1
    · -- start with a memory full of `b`
      obtain ⟨m', hok, hloads⟩ := hall fun _ => b
      have hholds := (elfMain_ok hv hok).2 a hscratch
      rw [(loadsExactly_iff hv).mp hloads a hscratch hstack] at hholds
      exact hholds.symm
  · rintro ⟨hoff, hagree⟩ m
    obtain ⟨m', h⟩ := (headers_returns_iff hv.table).mpr hoff
    have hok : elfMain stack d sector m = .ok (entry d sector, m') := by
      rw [elfMain_eq]
      exact Run.bind_eq_ok.mpr ⟨m', h, rfl⟩
    refine ⟨m', hok, (loadsExactly_iff hv).mpr fun a hscratch hstack => ?_⟩
    rw [← hagree a hscratch hstack]
    exact headers_ok hv.table h hscratch

/-- The loader itself: up to three sectors from 0x1200 on. -/
def loaderArea : Set Nat := Set.Ico 0x1200 0x1800

/-- A kernel is loaded exactly, whatever was in memory, by a loader that stays what it is. -/
def Loads (stack : Stack) (d : Disk) (sector : UInt32) : Prop :=
  ∀ m, ∃ m', elfMain stack d sector m = .ok (entry d sector, m') ∧
    LoadsExactly stack d sector m m' ∧ ∀ a ∈ loaderArea, m' a = m a

/-- No segment to load covers the loader. -/
def OffLoader (d : Disk) (sector : UInt32) : Prop :=
  ∀ i, i < phnum d sector → (header d sector i).IsLoad → Disjoint (header d sector i).segment loaderArea

/-- What is loaded leaves the loader as it is, when no segment covers it. -/
theorem LoadsExactly.loader (h : LoadsExactly stack d sector m m') (hoff : OffLoader d sector) :
    ∀ a ∈ loaderArea, m' a = m a := by
  intro a ha
  obtain ⟨hlo, hhi⟩ := ha
  have hsame : (UInt32.ofNat a).toNat = a := toNat_ofNat_lt (by omega)
  rw [← hsame]
  refine h.frame _ (fun i hi hload hin => ?_) (fun hin => ?_) (fun hin => ?_) <;> rw [hsame] at hin
  · exact Set.disjoint_left.mp (hoff i hi hload) hin ⟨hlo, hhi⟩
  · exact absurd hin.2 (Nat.not_lt.mpr hlo)
  · have := hin.1
    have := stack.fits
    simp only [stackTop] at *
    omega

/-- A segment that is loaded and leaves the loader as it was does not cover it. -/
private theorem Loads.offLoader (h : Loads stack d sector) : OffLoader d sector := by
  refine fun i hi hload => Set.disjoint_left.mpr fun a hin ha => ?_
  obtain ⟨k, rfl⟩ := Nat.exists_eq_add_of_le hin.1
  have hk : k < (header d sector i).memsz.toNat := by
    have := hin.2
    omega
  -- the byte there is the same for every memory before
  have hbyte : ∃ b, ∀ m m', LoadsExactly stack d sector m m' →
      m' ((header d sector i).paddr.toNat + k) = b := by
    by_cases hfile : k < (header d sector i).filesz.toNat
    · exact ⟨_, fun m m' hexact => hexact.file i hi hload k hfile⟩
    · exact ⟨0, fun m m' hexact => hexact.zero i hi hload k (Nat.not_lt.mp hfile) hk⟩
  obtain ⟨b, hb⟩ := hbyte
  obtain ⟨m', -, hexact, hsame⟩ := h fun _ => b + 1
  have heq := hsame _ ha
  rw [hb _ m' hexact] at heq
  exact byte_succ_ne b heq.symm

/-- The loader loads a kernel if no segment covers the loader and the other headers with odd
    types are hidden by the scratch buffer and by segments loaded later. If it loads it, no
    segment covers the loader, and these headers are in the scratch buffer and in segments.
    What is between the two is a header that stores over a segment loaded before it. -/
theorem segments_load (hv : ValidImage stack d sector) :
    (OffLoader d sector ∧ (∀ i, i < phnum d sector → (header d sector i).Odd →
        ¬ (header d sector i).IsLoad → Hidden d sector i (i < ·)) → Loads stack d sector) ∧
      (Loads stack d sector → OffLoader d sector ∧ ∀ i, i < phnum d sector → (header d sector i).Odd →
        ¬ (header d sector i).IsLoad → Hidden d sector i fun _ => True) := by
  constructor
  · rintro ⟨hoff, hhidden⟩ m
    obtain ⟨m', hok, hexact⟩ := (loads_iff hv).mpr (harmless_of_hidden hv hhidden) m
    exact ⟨m', hok, hexact, hexact.loader hoff⟩
  · intro hloads
    refine ⟨hloads.offLoader, fun i hi hodd _ => Harmless.hidden ?_ hv hi hodd⟩
    refine (loads_iff hv).mp fun m => ?_
    obtain ⟨m', hok, hexact, -⟩ := hloads m
    exact ⟨m', hok, hexact⟩

/-- A kernel with a segment to load and a second header of some type. -/
def kernelImage (type size : Nat) : Mem :=
  [(ePhoff, 64), (ePhnum, 2), (eEntry, 0x100000)].foldl (fun m s => setField m 0 s.1 s.2) <|
  [(pType, 1), (pPaddr, 0x100000), (pFilesz, 0x100), (pMemsz, 0x1000)].foldl
    (fun m s => setField m 64 s.1 s.2) <|
  [(pType, type), (pPaddr, 0x200000), (pFilesz, size), (pMemsz, size)].foldl
    (fun m s => setField m 120 s.1 s.2) fun _ => 0

/-- The disk it is on. -/
def kernelDisk (type size : Nat) : Disk := Disk.ofFile 539 (kernelImage type size)

/-- A stack of one KiB. -/
def kernelStack : Stack := ⟨1024, by decide, by decide⟩

/-- The fields of the first two sectors of the file. -/
private theorem getField_kernelDisk (type size : Nat) {off : Nat} {f : Field}
    (hf : off + f.off + f.width.bytes ≤ 1024) :
    getField ((kernelDisk type size).file 539) off f = getField (kernelImage type size) off f :=
  Mem.load_congr fun i hi => file_ofFile (by omega)

/-- PT_TLS and PT_GNU_STACK. -/
def Sample (type size : Nat) : Prop := (type = 7 ∧ size = 4) ∨ (type = 0x6474e551 ∧ size = 0)

variable {type size : Nat}

/-- The two headers of the image. -/
theorem header_kernelDisk (h : Sample type size) : phnum (kernelDisk type size) 539 = 2 ∧
    phoff (kernelDisk type size) 539 = 64 ∧
    header (kernelDisk type size) 539 0 = ⟨1, 0, 0x100000, 0x100, 0x1000⟩ ∧
    header (kernelDisk type size) 539 1 =
      ⟨UInt32.ofNat type, 0, 0x200000, UInt64.ofNat size, UInt64.ofNat size⟩ := by
  -- both numbers are fields of the first sector
  have hphnum : phnum (kernelDisk type size) 539 = 2 := by
    rw [phnum, getField_kernelDisk _ _ (by decide)]
    rcases h with ⟨rfl, rfl⟩ | ⟨rfl, rfl⟩ <;> decide
  have hphoff : phoff (kernelDisk type size) 539 = 64 := by
    rw [phoff, getField_kernelDisk _ _ (by decide)]
    rcases h with ⟨rfl, rfl⟩ | ⟨rfl, rfl⟩ <;> decide
  -- the program headers are in it, too
  have hphdr : ∀ off, off ≤ 512 → phdrAt ((kernelDisk type size).file 539) off =
      phdrAt (kernelImage type size) off := by
    intro off hoff
    have hfield : ∀ f : Field, f.off + f.width.bytes ≤ 56 →
        getField ((kernelDisk type size).file 539) off f = getField (kernelImage type size) off f :=
      fun f hf => getField_kernelDisk type size (by omega)
    rw [phdrAt, phdrAt, hfield pType (by decide), hfield pOffset (by decide),
      hfield pPaddr (by decide), hfield pFilesz (by decide), hfield pMemsz (by decide)]
  refine ⟨hphnum, hphoff, ?_, ?_⟩
  · rw [header, hphoff, hphdr _ (by decide)]
    rcases h with ⟨rfl, rfl⟩ | ⟨rfl, rfl⟩ <;> decide
  · rw [header, hphoff, hphdr _ (by decide)]
    rcases h with ⟨rfl, rfl⟩ | ⟨rfl, rfl⟩ <;> decide

/-- The first header of a sample is the only one to load. -/
private theorem load_kernelDisk (h : Sample type size) {i : Nat}
    (hi : i < phnum (kernelDisk type size) 539)
    (hload : (header (kernelDisk type size) 539 i).IsLoad) : i = 0 := by
  obtain ⟨hphnum, -, -, hone⟩ := header_kernelDisk h
  rw [hphnum] at hi
  by_contra hne
  obtain rfl : i = 1 := by omega
  rw [hone] at hload
  rcases h with ⟨rfl, rfl⟩ | ⟨rfl, rfl⟩ <;> exact absurd hload (by decide)

/-- The image is valid. -/
private theorem validImage_kernelDisk (h : Sample type size) :
    ValidImage kernelStack (kernelDisk type size) 539 := by
  obtain ⟨hphnum, hphoff, hzero, -⟩ := header_kernelDisk h
  -- the one segment is a page at 1 MiB
  have hseg : (header (kernelDisk type size) 539 0).segment = Set.Ico 0x100000 0x101000 := by
    rw [hzero]
    rfl
  -- the headers are on the disk, the sizes and addresses fit, there are no two segments to
  -- overlap, and the segment is off the scratch buffer and the stack
  refine ⟨⟨fun i hi => ?_, fun i hi => ?_⟩, fun i hi hload => ?_, fun i hi hload => ?_,
    fun i hi hload => ?_, fun i j hi hj hne hload hload' => ?_, fun i hi hload => ?_,
    fun i hi hload => ?_⟩
  · rw [hphnum] at hi
    rw [hphoff]
    omega
  · rw [hphnum] at hi
    rw [hphoff]
    rcases (show i = 0 ∨ i = 1 by omega) with rfl | rfl <;> decide
  · rw [load_kernelDisk h hi hload, hzero]
    decide
  · rw [load_kernelDisk h hi hload, hzero]
    decide
  · rw [load_kernelDisk h hi hload, hzero]
    decide
  · rw [load_kernelDisk h hi hload, load_kernelDisk h hj hload'] at hne
    exact absurd rfl hne
  · rw [load_kernelDisk h hi hload, hseg, scratch]
    exact Set.disjoint_left.mpr fun a ha hin => by
      have := ha.1
      have := hin.2
      omega
  · rw [load_kernelDisk h hi hload, hseg]
    exact Set.disjoint_left.mpr fun a ha hin => by
      have := ha.1
      have : a < 0xa000 := hin.2
      omega

/-- A kernel with an empty PT_GNU_STACK is loaded. -/
theorem segments_load_gnuStack :
    ∃ m', elfMain kernelStack (kernelDisk 0x6474e551 0) 539 (fun _ => 0) =
    .ok (entry (kernelDisk 0x6474e551 0) 539, m') ∧
      LoadsExactly kernelStack (kernelDisk 0x6474e551 0) 539 (fun _ => 0) m' ∧
      ∀ a ∈ loaderArea, m' a = 0 := by
  -- the header of the stack is odd, and without bytes
  have h : Sample 0x6474e551 0 := .inr ⟨rfl, rfl⟩
  obtain ⟨hphnum, -, hzero, hone⟩ := header_kernelDisk h
  refine (segments_load (validImage_kernelDisk h)).1
    ⟨fun i hi hload => ?_, fun i hi hodd hload => ?_⟩ fun _ => 0
  · rw [load_kernelDisk h hi hload, hzero]
    exact Set.disjoint_left.mpr fun a ha hin => by
      have : 0x100000 ≤ a := ha.1
      have : a < 0x1800 := hin.2
      omega
  · -- the first header is the segment, and the second one is hidden since it is empty
    rw [hphnum] at hi
    by_cases hi0 : i = 0
    · rw [hi0, hzero] at hload
      exact absurd rfl hload
    · obtain rfl : i = 1 := by omega
      exact hidden_of_empty (by rw [hone]; decide) (by rw [hone]; decide)

/-- A PT_TLS of four bytes is stored too, outside of the segment to load. -/
theorem tls_stored : ValidImage kernelStack (kernelDisk 7 4) 539 ∧
    ∃ m', elfMain kernelStack (kernelDisk 7 4) 539 (fun _ => 0xff) =
      .ok (entry (kernelDisk 7 4) 539, m') ∧ m' 0x200000 = 0 ∧
        ¬ LoadsExactly kernelStack (kernelDisk 7 4) 539 (fun _ => 0xff) m' := by
  have h : Sample 7 4 := .inl ⟨rfl, rfl⟩
  obtain ⟨hphnum, -, hzero, hone⟩ := header_kernelDisk h
  have hv := validImage_kernelDisk h
  refine ⟨hv, ?_⟩
  have hoff : ∀ i, i < phnum (kernelDisk 7 4) 539 → (header (kernelDisk 7 4) 539 i).Odd →
      (header (kernelDisk 7 4) 539 i).OffStack kernelStack (kernelDisk 7 4) 539 := by
    intro i hi _
    rw [hphnum] at hi
    rcases (show i = 0 ∨ i = 1 by omega) with rfl | rfl
    · refine hv.offStack (by omega) ?_
      rw [hzero]
      rfl
    · intro a hstored
      rw [Phdr.stored_ne_none_iff, hone] at hstored
      have ha := a.toNat_lt
      rcases hstored with hin | hin
      · exact absurd hin (Nat.not_lt_zero _)
      · have hin : (a - 0x200000).toNat < 4 := hin
        rw [UInt32.toNat_sub, show (0x200000 : UInt32).toNat = 0x200000 from rfl] at hin
        exact .inr (show 0xa000 ≤ a.toNat by omega)
  obtain ⟨m', hloop⟩ := (headers_returns_iff hv.table).mpr hoff
  -- type 7 is odd, so the loader stores the first byte of the file, which is 0
  have hbyte : m' 0x200000 = 0 := by
    have hlast := @headers_ok _ _ _ _ _ hv.table hloop 0x200000
      (show ¬ ((0x1000 : Nat) ≤ 0x200000 ∧ (0x200000 : Nat) < 0x1200) by decide)
    have hstored : (header (kernelDisk 7 4) 539 1).stored (kernelDisk 7 4) 539 0x200000 = some 0 := by
      have hfile : (kernelDisk 7 4).file 539 0 = 0 := file_ofFile (by decide)
      rw [hone, ← hfile]
      rfl
    have hodd : (header (kernelDisk 7 4) 539 1).Odd := by
      rw [hone]
      decide
    rw [hphnum, lastStored, if_pos hodd, hstored] at hlast
    exact hlast
  refine ⟨m', by rw [elfMain_eq]; exact Run.bind_eq_ok.mpr ⟨m', hloop, rfl⟩, hbyte, fun hloads => ?_⟩
  have hkept := hloads.frame 0x200000 (fun i hi hload => by
      rw [load_kernelDisk h hi hload, hzero]
      show ¬ ((0x100000 : Nat) ≤ 0x200000 ∧ (0x200000 : Nat) < 0x100000 + 0x1000)
      decide)
    (show ¬ ((0x1000 : Nat) ≤ 0x200000 ∧ (0x200000 : Nat) < 0x1200) by decide)
    (fun hin => absurd hin.2 (show ¬ (0x200000 : Nat) < 0xa000 by decide))
  have hkept : m' 0x200000 = 0xff := hkept
  rw [hbyte] at hkept
  exact absurd hkept (by decide)

end Tlibc.Boot.Vmlinux
