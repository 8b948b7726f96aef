import Tlibc.Native.Gettext

/-!
# The code that `gettext` extracts

Both formats are read by the same loop, with their own layouts. A file with more than 65534
program headers has their number in its first section header and `PN_XNUM`, 65535, in
`e_phnum`, which the loop takes for the number.

* `main_copies`: the output is made of the executable segments to load of the first 65535
  program headers
* `xnum_lost`: these are not all of them in a file with 65536 program headers
-/

namespace Tlibc.Gettext

variable {src : File} {l : Layout} {bytes : List UInt8} {f : Field} {n k off : Nat}

/-! ## ELF files -/

/-- The classes of ELF files, of the two machines. -/
inductive Class where
  /-- 32 bits, for i386 -/
  | elf32
  /-- 64 bits, for x86-64 -/
  | elf64
  deriving DecidableEq, Repr

namespace Class

/-- The layout that `gettext` has for it. -/
def layout : Class → Layout
  | elf32 => Gettext.elf32
  | elf64 => Gettext.elf64

/-- `EI_CLASS`. -/
def eiClass : Class → UInt8
  | elf32 => 1
  | elf64 => 2

/-- `EM_386` or `EM_X86_64`. -/
def machine : Class → Nat
  | elf32 => 3
  | elf64 => 62

/-- `e_phentsize`. -/
def ePhentsize : Class → Field
  | elf32 => ⟨42, .two⟩
  | elf64 => ⟨54, .two⟩

/-- `e_shoff`. -/
def eShoff : Class → Field
  | elf32 => ⟨32, .four⟩
  | elf64 => ⟨40, .eight⟩

/-- `sh_info`. -/
def shInfo : Class → Field
  | elf32 => ⟨28, .four⟩
  | elf64 => ⟨44, .four⟩

/-- The size of a section header. -/
def shdrSize : Class → Nat
  | elf32 => 40
  | elf64 => 64

end Class

/-- `PN_XNUM`. -/
def pnXnum : Nat := 0xffff

/-- The member `f` of the struct at an offset of the file. -/
def field (bytes : List UInt8) (base : Nat) (f : Field) : Nat := member (bytes.drop base) f

/-- A program header. -/
structure Phdr where
  type : Nat
  flags : Nat
  offset : Nat
  filesz : Nat
  deriving DecidableEq, Repr

/-- The program header at an offset of the file. -/
def phdrAt (bytes : List UInt8) (l : Layout) (base : Nat) : Phdr where
  type := field bytes base l.pType
  flags := field bytes base l.pFlags
  offset := field bytes base l.pOffset
  filesz := field bytes base l.pFilesz

/-- An executable segment to load. -/
def Phdr.IsCode (p : Phdr) : Prop := p.type = ptLoad ∧ p.flags &&& pfX ≠ 0

instance : DecidablePred Phdr.IsCode := fun _ => inferInstanceAs (Decidable (_ ∧ _))

/-- The bytes of the file that are the segment's. -/
def Phdr.contents (p : Phdr) (bytes : List UInt8) : List UInt8 := slice bytes p.offset p.filesz

namespace File

/-- Program header `i`. -/
def phdr (src : File) (l : Layout) (i : Nat) : Phdr :=
  phdrAt src.bytes l (field src.bytes 0 l.ePhoff + l.phdrSize.toNat * i)

/-- The number of program headers. If it does not fit into `e_phnum`, it is in the first
    section header. -/
def phnum (src : File) (c : Class) : Nat :=
  if field src.bytes 0 c.layout.ePhnum = pnXnum then
    field src.bytes (field src.bytes 0 c.eShoff) c.shInfo
  else
    field src.bytes 0 c.layout.ePhnum

/-- The executable segments to load of the first `n` program headers, one after another. -/
def code (src : File) (l : Layout) (n : Nat) : List UInt8 :=
  (List.range n).flatMap fun i =>
    if (src.phdr l i).IsCode then (src.phdr l i).contents src.bytes else []

/-- A little-endian ELF file of a class, with all of its headers and segments to load. -/
structure WellFormed (src : File) (c : Class) : Prop where
  ident : src.bytes.take 6 = [0x7f, 0x45, 0x4c, 0x46, c.eiClass, 1]
  machine : field src.bytes 0 eMachine = c.machine
  ehdr : c.layout.ehdrSize.toNat ≤ src.bytes.length
  extended : field src.bytes 0 c.layout.ePhnum = pnXnum →
    field src.bytes 0 c.eShoff ≠ 0 ∧
      field src.bytes 0 c.eShoff + c.shdrSize ≤ src.bytes.length ∧ pnXnum ≤ src.phnum c
  phentsize : src.phnum c ≠ 0 → field src.bytes 0 c.ePhentsize = c.layout.phdrSize.toNat
  table : src.phnum c ≠ 0 → field src.bytes 0 c.layout.ePhoff +
    c.layout.phdrSize.toNat * src.phnum c ≤ src.bytes.length
  segments : ∀ i, i < src.phnum c → (src.phdr c.layout i).type = ptLoad →
    (src.phdr c.layout i).offset + (src.phdr c.layout i).filesz ≤ src.bytes.length

end File

/-! ## Slices -/

/-- A slice of a file has its length. -/
private theorem length_slice (h : off + n ≤ bytes.length) : (slice bytes off n).length = n := by
  rw [slice, List.length_take, List.length_drop]
  omega

/-- Two slices, one behind the other. -/
private theorem slice_add (bytes : List UInt8) (off n k : Nat) :
    slice bytes off (n + k) = slice bytes off n ++ slice bytes (off + n) k := by
  rw [slice, slice, slice, List.take_add, List.drop_drop]

/-- A member of a struct that was read is one of the file's. -/
private theorem member_slice (h : f.off + f.width.bytes ≤ n) :
    member (slice bytes off n) f = field bytes off f := by
  rw [field, member, member, slice, slice, slice, List.drop_take, List.take_take,
    Nat.min_eq_left (by omega)]

/-- A field is below the bound of its width. -/
private theorem field_lt (bytes : List UInt8) (base : Nat) (f : Field) :
    field bytes base f < 256 ^ f.width.bytes := by
  have hlt := Mem.leNat_lt (slice (bytes.drop base) f.off f.width.bytes)
  have hlen : (slice (bytes.drop base) f.off f.width.bytes).length ≤ f.width.bytes :=
    List.length_take_le _ _
  exact Nat.lt_of_lt_of_le hlt (Nat.pow_le_pow_right (by decide) hlen)

/-! ## Reads and copies -/

/-- `xreadat` inside the file delivers the bytes there. -/
private theorem xreadat_ok {pos : Nat} {offset count : UInt64}
    (h : offset.toNat + count.toNat ≤ src.bytes.length) : xreadat src pos offset count =
      .ok (slice src.bytes offset.toNat count.toNat, offset.toNat + count.toNat) := by
  have hlt := src.addressable
  have hlen := length_slice h
  -- an offset inside of the file is not negative
  have hpos : offset ≠ -1 := by
    rintro rfl
    rw [show (-1 : UInt64).toNat = 2 ^ 64 - 1 from rfl] at h
    omega
  rw [xreadat, if_neg (by omega)]
  simp only [if_neg hpos, hlen, ne_eq, not_true_eq_false, if_false]

/-- Chunk after chunk, a range of the file is copied. -/
private theorem xfcopy_ok (fds : Fds) (count offset : UInt64)
    (h : offset.toNat + count.toNat ≤ src.bytes.length) : ∃ pos, xfcopy src fds count offset =
      .ok ⟨fds.dst ++ slice src.bytes offset.toNat count.toNat, pos⟩ := by
  have hlt := src.addressable
  fun_induction xfcopy src fds count offset with
  | case1 fds offset =>
    have hnil : slice src.bytes offset.toNat (0 : UInt64).toNat = [] := List.take_zero
    rw [hnil, List.append_nil]
    exact ⟨fds.pos, rfl⟩
  | case2 fds count offset hend nr ih =>
    -- the range is the chunk and the rest, and inside of the file neither wraps
    have hnr : nr.toNat = min 512 count.toNat := toNat_chunk count
    have hsub : (count - nr).toNat = count.toNat - nr.toNat := toNat_sub_chunk count
    have hadd : (offset + nr).toNat = offset.toNat + nr.toNat := by
      rw [UInt64.toNat_add]
      omega
    have hsplit : count.toNat = nr.toNat + (count - nr).toNat := by omega
    obtain ⟨pos, hrest⟩ := ih (slice src.bytes offset.toNat nr.toNat) (offset.toNat + nr.toNat)
      (by omega)
    refine ⟨pos, ?_⟩
    rw [xreadat_ok (by omega), Run.ok_bind]
    dsimp only
    rw [hrest, hadd, hsplit, slice_add, List.append_assoc]

/-! ## The program headers -/

/-- The members that the loop reads are inside of a program header. -/
structure Layout.Fits (l : Layout) : Prop where
  type : l.pType.off + l.pType.width.bytes ≤ l.phdrSize.toNat
  flags : l.pFlags.off + l.pFlags.width.bytes ≤ l.phdrSize.toNat
  offset : l.pOffset.off + l.pOffset.width.bytes ≤ l.phdrSize.toNat
  filesz : l.pFilesz.off + l.pFilesz.width.bytes ≤ l.phdrSize.toNat

/-- Both layouts fit the buffers that are read with them. -/
private theorem Class.fits (c : Class) : c.layout.Fits := by
  cases c with
  | elf32 => exact ⟨by decide, by decide, by decide, by decide⟩
  | elf64 => exact ⟨by decide, by decide, by decide, by decide⟩

/-- One more program header adds its bytes, if it describes code. -/
private theorem code_succ (src : File) (l : Layout) (n : Nat) : src.code l (n + 1) = src.code l n ++
    if (src.phdr l n).IsCode then (src.phdr l n).contents src.bytes else [] := by
  rw [File.code, File.code, List.range_succ, List.flatMap_append, List.flatMap_singleton]

/-- One pass: the segment of the header is appended, if it is one to extract. -/
private theorem copyHeader_ok (hl : l.Fits) (fds : Fds) {phoff : UInt64} {i : Nat}
    (hphoff : phoff.toNat = field src.bytes 0 l.ePhoff) (hi : i < 2 ^ 64)
    (htable : phoff.toNat + l.phdrSize.toNat * i + l.phdrSize.toNat ≤ src.bytes.length)
    (hsegment : (src.phdr l i).type = ptLoad →
      (src.phdr l i).offset + (src.phdr l i).filesz ≤ src.bytes.length) :
    ∃ pos, copyHeader src l phoff i fds = .ok ⟨fds.dst ++
      if (src.phdr l i).IsCode then (src.phdr l i).contents src.bytes else [], pos⟩ := by
  have hlt := src.addressable
  have hoff : (phoff + l.phdrSize * UInt64.ofNat i).toNat = phoff.toNat + l.phdrSize.toNat * i := by
    rw [UInt64.toNat_add, UInt64.toNat_mul, UInt64.toNat_ofNat_of_lt' hi,
      Nat.mod_eq_of_lt (show l.phdrSize.toNat * i < 2 ^ 64 by omega), Nat.mod_eq_of_lt (by omega)]
  rw [copyHeader, xreadat_ok (by omega), Run.ok_bind]
  dsimp only
  rw [member_slice hl.flags, member_slice hl.type, member_slice hl.filesz, member_slice hl.offset,
    hoff, hphoff]
  show ∃ pos, (if (src.phdr l i).flags &&& pfX ≠ 0 ∧ (src.phdr l i).type = ptLoad then
    xfcopy src ⟨fds.dst, _⟩ (UInt64.ofNat (src.phdr l i).filesz) (UInt64.ofNat (src.phdr l i).offset)
    else .ok ⟨fds.dst, _⟩) = _
  by_cases hcode : (src.phdr l i).IsCode
  · -- its range is in the file, so that nothing wraps
    have hrange := hsegment hcode.1
    have hfilesz : (UInt64.ofNat (src.phdr l i).filesz).toNat = (src.phdr l i).filesz :=
      UInt64.toNat_ofNat_of_lt' (show _ < 2 ^ 64 by omega)
    have hoffset : (UInt64.ofNat (src.phdr l i).offset).toNat = (src.phdr l i).offset :=
      UInt64.toNat_ofNat_of_lt' (show _ < 2 ^ 64 by omega)
    obtain ⟨pos, hcopy⟩ := @xfcopy_ok src ⟨fds.dst, _⟩ (UInt64.ofNat (src.phdr l i).filesz)
      (UInt64.ofNat (src.phdr l i).offset) (by omega)
    rw [hfilesz, hoffset] at hcopy
    rw [if_pos ⟨hcode.2, hcode.1⟩, if_pos hcode]
    exact ⟨pos, hcopy⟩
  · rw [if_neg fun h => hcode ⟨h.2, h.1⟩, if_neg hcode, List.append_nil]
    exact ⟨_, rfl⟩

/-- The loop over the first `n` headers. -/
private theorem copyHeaders_ok (hl : l.Fits) {phoff : UInt64} (pos : Nat)
    (hphoff : phoff.toNat = field src.bytes 0 l.ePhoff) (hn : n < 2 ^ 64)
    (htable : n ≠ 0 → phoff.toNat + l.phdrSize.toNat * n ≤ src.bytes.length)
    (hsegments : ∀ i, i < n → (src.phdr l i).type = ptLoad →
      (src.phdr l i).offset + (src.phdr l i).filesz ≤ src.bytes.length) :
    ∃ fds, Loop.forLoop (copyHeader src l phoff) n ⟨[], pos⟩ = .ok fds ∧ fds.dst = src.code l n :=
  Loop.forLoop_rule (fun i (fds : Fds) => fds.dst = src.code l i)
    (fun i fds hi hdst => by
      -- header `i` ends where the next one begins, inside of the table
      have hrow : l.phdrSize.toNat * i + l.phdrSize.toNat ≤ l.phdrSize.toNat * n := by
        rw [← Nat.mul_succ]
        exact Nat.mul_le_mul_left _ hi
      have hfit := htable (by omega)
      obtain ⟨pos, hcopy⟩ := copyHeader_ok hl fds hphoff (by omega) (by omega) (hsegments i hi)
      refine ⟨_, hcopy, ?_⟩
      rw [hdst, code_succ])
    rfl

/-- `e_phnum` is the number of program headers up to `PN_XNUM`. -/
private theorem File.WellFormed.ePhnum_eq {c : Class} (h : src.WellFormed c) :
    field src.bytes 0 c.layout.ePhnum = min (src.phnum c) pnXnum := by
  by_cases hx : field src.bytes 0 c.layout.ePhnum = pnXnum
  · rw [hx, Nat.min_eq_right (h.extended hx).2.2]
  · -- it has two bytes, so that it is below
    have hlt : field src.bytes 0 c.layout.ePhnum < 65536 :=
      Nat.lt_of_lt_of_le (field_lt _ _ _) (by cases c <;> decide)
    rw [pnXnum] at hx
    rw [File.phnum, pnXnum, if_neg hx, Nat.min_eq_left (by omega)]

/-- The loop over a well-formed file, with the ELF header of its class. -/
private theorem File.WellFormed.copyHeaders {c : Class} (h : src.WellFormed c) {ehdr : List UInt8}
    {pos : Nat}
    (hphoff : member ehdr c.layout.ePhoff = field src.bytes 0 c.layout.ePhoff)
    (hphnum : member ehdr c.layout.ePhnum = field src.bytes 0 c.layout.ePhnum) :
    Gettext.copyHeaders src c.layout ehdr pos =
      .ok (src.code c.layout (min (src.phnum c) pnXnum)) := by
  have heq := h.ePhnum_eq
  -- `e_phnum` is the number of headers, or `PN_XNUM` where there are more
  have hle : field src.bytes 0 c.layout.ePhnum ≤ src.phnum c := by
    rw [heq]
    exact Nat.min_le_left _ _
  have hmul := Nat.mul_le_mul_left c.layout.phdrSize.toNat hle
  -- both fields fit 64 bits, so that nothing wraps
  have hlt : field src.bytes 0 c.layout.ePhnum < 2 ^ 64 :=
    Nat.lt_of_lt_of_le (field_lt _ _ _) (by cases c <;> decide)
  have hlt' : field src.bytes 0 c.layout.ePhoff < 2 ^ 64 :=
    Nat.lt_of_lt_of_le (field_lt _ _ _) (by cases c <;> decide)
  have hval : (UInt64.ofNat (field src.bytes 0 c.layout.ePhoff)).toNat =
      field src.bytes 0 c.layout.ePhoff := UInt64.toNat_ofNat_of_lt' hlt'
  -- the headers up to `e_phnum` are in the file
  have htable : field src.bytes 0 c.layout.ePhnum ≠ 0 →
      (UInt64.ofNat (field src.bytes 0 c.layout.ePhoff)).toNat +
        c.layout.phdrSize.toNat * field src.bytes 0 c.layout.ePhnum ≤ src.bytes.length := by
    intro hne
    have htable := h.table (by omega)
    rw [hval]
    omega
  obtain ⟨fds, hloop, hdst⟩ := copyHeaders_ok c.fits pos hval hlt htable
    fun i hi => h.segments i (by omega)
  rw [Gettext.copyHeaders, hphoff, hphnum, hloop, ← heq, ← hdst]
  rfl

/-- A well-formed file of class 32. -/
private theorem main_elf32 (h : src.WellFormed .elf32) :
    main src = .ok (src.code elf32 (min (src.phnum .elf32) pnXnum)) := by
  have hlong : 52 ≤ src.bytes.length := h.ehdr
  have hread := @xreadat_ok src 0 0 elf32.ehdrSize (show 0 + 52 ≤ _ by omega)
  have hmember : ∀ {f : Field}, f.off + f.width.bytes ≤ 52 →
      member (slice src.bytes 0 52) f = field src.bytes 0 f := fun hf => member_slice hf
  rw [main, hread, Run.ok_bind]
  show (if member (slice src.bytes 0 52) eMachine = emX86_64 then _ else
    Gettext.copyHeaders src elf32 (slice src.bytes 0 52) 52) = _
  rw [hmember (by decide), h.machine, if_neg (show ¬ Class.elf32.machine = emX86_64 by decide)]
  exact h.copyHeaders (hmember (by decide)) (hmember (by decide))

/-- A well-formed file of class 64. -/
private theorem main_elf64 (h : src.WellFormed .elf64) :
    main src = .ok (src.code elf64 (min (src.phnum .elf64) pnXnum)) := by
  have hlong : 64 ≤ src.bytes.length := h.ehdr
  have hread := @xreadat_ok src 0 0 elf32.ehdrSize (show 0 + 52 ≤ _ by omega)
  have hread' := @xreadat_ok src 52 0 elf64.ehdrSize (show 0 + 64 ≤ _ by omega)
  have hmember : ∀ {f : Field}, f.off + f.width.bytes ≤ 64 →
      member (slice src.bytes 0 64) f = field src.bytes 0 f := fun hf => member_slice hf
  rw [main, hread, Run.ok_bind]
  show (if member (slice src.bytes 0 52) eMachine = emX86_64 then
    xreadat src 52 0 elf64.ehdrSize >>= fun e64 => Gettext.copyHeaders src elf64 e64.1 e64.2
      else _) = _
  -- `e_machine` is at the same place in the header that was read as a 32-bit one
  rw [member_slice (by decide), h.machine, if_pos (show Class.elf64.machine = emX86_64 from rfl),
    hread', Run.ok_bind]
  exact h.copyHeaders (hmember (by decide)) (hmember (by decide))

/-- Of a well-formed file of either class, the executable segments to load of the first
    65535 program headers are written, and nothing else. -/
theorem main_copies (src : File) (c : Class) (h : src.WellFormed c) :
    main src = .ok (src.code c.layout (min (src.phnum c) pnXnum)) := by
  cases c with
  | elf32 => exact main_elf32 h
  | elf64 => exact main_elf64 h

/-! ## Files with few and with many headers -/

/-- A file of `n` bytes, zero but for the stores. -/
def imageFile (stores : List (Nat × List UInt8)) (n : Nat) (h : n < 2 ^ 63) : File where
  bytes := (Mem.writeAll (fun _ => 0) 0 stores).read 0 n
  addressable := by rwa [Mem.length_read]

/-- A slice of memory. -/
private theorem slice_read {m : Mem} (h : off + k ≤ n) :
    slice (m.read 0 n) off k = m.read off k := by
  obtain ⟨d, rfl⟩ := Nat.exists_eq_add_of_le (show off ≤ n by omega)
  rw [slice, Mem.read_add, List.drop_left' (Mem.length_read _ _ _), Nat.zero_add,
    Mem.take_read _ _ _ _ (by omega)]

/-- A field of a file that is an image of memory. -/
private theorem field_read {m : Mem} {base : Nat} (h : base + f.off + f.width.bytes ≤ n) :
    field (m.read 0 n) base f = m.load (base + f.off) f.width.bytes := by
  have hslice : slice ((m.read 0 n).drop base) f.off f.width.bytes =
      slice (m.read 0 n) (base + f.off) f.width.bytes := by
    rw [slice, slice, List.drop_drop]
  rw [field, member, hslice, slice_read h, Mem.load]

/-- An image has the size that was asked for. -/
private theorem length_imageFile (stores : List (Nat × List UInt8)) (h : n < 2 ^ 63) :
    (imageFile stores n h).bytes.length = n := Mem.length_read _ _ _

/-- A store of a field is what the field of the file is. -/
private theorem field_imageFile {stores : List (Nat × List UInt8)} {h : n < 2 ^ 63} {base v : Nat}
    (hapart : Mem.Apart stores) (hmem : (base + f.off, Mem.leBytes f.width.bytes v) ∈ stores)
    (hin : base + f.off + f.width.bytes ≤ n) :
    field (imageFile stores n h).bytes base f = v % 256 ^ f.width.bytes := by
  have hload := @Mem.load_writeAll (fun _ => 0) 0 _ _ _ _ hapart hmem
  rw [Nat.zero_add] at hload
  rw [imageFile, field_read hin, hload]

/-- 599 times `nop`, and `ret`. -/
def sled : List UInt8 := List.replicate 599 0x90 ++ [0xc3]

/-- The segment of code takes more than one block of 512 bytes. -/
private theorem length_sled : sled.length = 600 := by
  rw [sled, List.length_append, List.length_replicate, List.length_singleton]

/-- The stores of an x86-64 file with four program headers: a segment of data, which is the
    headers themselves, one of 600 bytes of code, a note that is marked as code, and one more
    byte of code. -/
def codeStores : List (Nat × List UInt8) :=
  [(0, [0x7f, 0x45, 0x4c, 0x46, 2, 1, 1]), (16, Mem.leBytes 2 2), (18, Mem.leBytes 2 62),
    (20, Mem.leBytes 4 1), (32, Mem.leBytes 8 64), (52, Mem.leBytes 2 64), (54, Mem.leBytes 2 56),
    (56, Mem.leBytes 2 4),
    (64, Mem.leBytes 4 1), (68, Mem.leBytes 4 4), (72, Mem.leBytes 8 0), (96, Mem.leBytes 8 288),
    (120, Mem.leBytes 4 1), (124, Mem.leBytes 4 5), (128, Mem.leBytes 8 288), (152, Mem.leBytes 8 600),
    (176, Mem.leBytes 4 4), (180, Mem.leBytes 4 5), (184, Mem.leBytes 8 64), (208, Mem.leBytes 8 56),
    (232, Mem.leBytes 4 1), (236, Mem.leBytes 4 5), (240, Mem.leBytes 8 888), (264, Mem.leBytes 8 1),
    (888, [0xf4]), (288, sled)]

/-- They do not overlap. -/
private theorem apart_codeStores : Mem.Apart codeStores := by
  rw [Mem.Apart]
  decide +kernel

/-- The file with these stores. -/
def codeFile : File := imageFile codeStores 889 (by decide)

/-- Its fields are what was stored. -/
private theorem field_codeFile {base v : Nat}
    (hmem : (base + f.off, Mem.leBytes f.width.bytes v) ∈ codeStores)
    (hin : base + f.off + f.width.bytes ≤ 889) :
    field codeFile.bytes base f = v % 256 ^ f.width.bytes :=
  field_imageFile apart_codeStores hmem hin

/-- Its size. -/
private theorem length_codeFile : codeFile.bytes.length = 889 := length_imageFile _ _

/-- The program headers are behind the file header. -/
private theorem ePhoff_codeFile : field codeFile.bytes 0 elf64.ePhoff = 64 :=
  field_codeFile (v := 64) (by decide) (by decide)

/-- There are four. -/
private theorem phnum_codeFile : codeFile.phnum .elf64 = 4 := by
  have hphnum : field codeFile.bytes 0 elf64.ePhnum = 4 :=
    field_codeFile (v := 4) (by decide) (by decide)
  rw [File.phnum, Class.layout, hphnum]
  rfl

/-- The four headers. -/
private theorem phdr_codeFile : codeFile.phdr elf64 0 = ⟨1, 4, 0, 288⟩ ∧
    codeFile.phdr elf64 1 = ⟨1, 5, 288, 600⟩ ∧ codeFile.phdr elf64 2 = ⟨4, 5, 64, 56⟩ ∧
    codeFile.phdr elf64 3 = ⟨1, 5, 888, 1⟩ := by
  -- each field is one of the stores
  simp only [File.phdr, ePhoff_codeFile, phdrAt, Phdr.mk.injEq]
  exact ⟨⟨field_codeFile (v := 1) (by decide) (by decide),
      field_codeFile (v := 4) (by decide) (by decide),
      field_codeFile (v := 0) (by decide) (by decide),
      field_codeFile (v := 288) (by decide) (by decide)⟩,
    ⟨field_codeFile (v := 1) (by decide) (by decide),
      field_codeFile (v := 5) (by decide) (by decide),
      field_codeFile (v := 288) (by decide) (by decide),
      field_codeFile (v := 600) (by decide) (by decide)⟩,
    ⟨field_codeFile (v := 4) (by decide) (by decide),
      field_codeFile (v := 5) (by decide) (by decide),
      field_codeFile (v := 64) (by decide) (by decide),
      field_codeFile (v := 56) (by decide) (by decide)⟩,
    ⟨field_codeFile (v := 1) (by decide) (by decide),
      field_codeFile (v := 5) (by decide) (by decide),
      field_codeFile (v := 888) (by decide) (by decide),
      field_codeFile (v := 1) (by decide) (by decide)⟩⟩

/-- What was stored is a slice of the file. -/
private theorem slice_codeFile {bytes : List UInt8} (hs : (off, bytes) ∈ codeStores)
    (hin : off + bytes.length ≤ 889) : slice codeFile.bytes off bytes.length = bytes := by
  have hread := @Mem.read_writeAll (fun _ => 0) 0 _ apart_codeStores _ hs
  rw [Nat.zero_add] at hread
  rw [codeFile, imageFile, slice_read hin, hread]

/-- The file is well formed. -/
private theorem wellFormed_codeFile : codeFile.WellFormed .elf64 where
  -- the first store is the identification
  ident := by
    have hread := @Mem.read_writeAll (fun _ => 0) 0 _ apart_codeStores
      (0, [0x7f, 0x45, 0x4c, 0x46, 2, 1, 1]) (by decide)
    rw [codeFile, imageFile, Mem.take_read _ _ _ _ (by decide),
      ← Mem.take_read _ _ 7 _ (by decide)]
    exact congrArg (List.take 6) hread
  machine := field_codeFile (v := 62) (by decide) (by decide)
  ehdr := by
    rw [length_codeFile]
    decide
  -- with four headers `e_phnum` is their number
  extended := fun hx => by
    have hphnum : field codeFile.bytes 0 elf64.ePhnum = 4 :=
      field_codeFile (v := 4) (by decide) (by decide)
    exact absurd (hphnum.symm.trans hx) (by decide)
  phentsize := fun _ => field_codeFile (v := 56) (by decide) (by decide)
  table := fun _ => by
    rw [phnum_codeFile, length_codeFile, Class.layout, ePhoff_codeFile]
    decide
  segments := fun i hi _ => by
    obtain ⟨hzero, hone, htwo, hthree⟩ := phdr_codeFile
    rw [phnum_codeFile] at hi
    rw [length_codeFile, Class.layout]
    -- all four segments are in the file
    obtain rfl | rfl | rfl | rfl : i = 0 ∨ i = 1 ∨ i = 2 ∨ i = 3 := by omega
    · rw [hzero]
      decide
    · rw [hone]
      decide
    · rw [htwo]
      decide
    · rw [hthree]
      decide

/-- The two segments of code are written. -/
theorem main_codeFile : main codeFile = .ok (sled ++ [0xf4]) := by
  obtain ⟨hzero, hone, htwo, hthree⟩ := phdr_codeFile
  have hsled : slice codeFile.bytes 288 sled.length = sled :=
    slice_codeFile (List.mem_of_getLast? rfl) (by rw [length_sled]; decide)
  have hhalt : slice codeFile.bytes 888 1 = [0xf4] :=
    @slice_codeFile 888 [0xf4] (by decide) (by decide)
  rw [length_sled] at hsled
  rw [main_copies codeFile .elf64 wellFormed_codeFile, phnum_codeFile]
  refine congrArg Except.ok ?_
  -- the first header is not executable and the third is not to be loaded
  rw [show min 4 pnXnum = 0 + 1 + 1 + 1 + 1 from rfl, Class.layout, code_succ, code_succ, code_succ,
    code_succ, hzero, hone, htwo, hthree, if_neg (by decide), if_pos (by decide), if_neg (by decide),
    if_pos (by decide), Phdr.contents, Phdr.contents, hsled, hhalt,
    show codeFile.code elf64 0 = [] from rfl]
  simp only [List.append_nil, List.nil_append]

/-- The stores of an i386 file with 65536 program headers, of which the last is one byte of
    code. Their number is in `sh_info` of the section header behind them. -/
def xnumStores : List (Nat × List UInt8) :=
  [(0, [0x7f, 0x45, 0x4c, 0x46, 1, 1, 1]), (16, Mem.leBytes 2 2), (18, Mem.leBytes 2 3),
    (20, Mem.leBytes 4 1), (28, Mem.leBytes 4 52), (32, Mem.leBytes 4 2097204),
    (40, Mem.leBytes 2 52), (42, Mem.leBytes 2 32), (44, Mem.leBytes 2 0xffff),
    (46, Mem.leBytes 2 40), (48, Mem.leBytes 2 1), (2097172, Mem.leBytes 4 1),
    (2097176, Mem.leBytes 4 0), (2097188, Mem.leBytes 4 1), (2097192, Mem.leBytes 4 1),
    (2097196, Mem.leBytes 4 1), (2097232, Mem.leBytes 4 65536)]

/-- They do not overlap. -/
private theorem apart_xnumStores : Mem.Apart xnumStores := by
  rw [Mem.Apart]
  decide

/-- All of the file. -/
def xnumFile : File := imageFile xnumStores 2097244 (by decide)

/-- Its fields are what was stored. -/
private theorem field_xnumFile {base v : Nat}
    (hmem : (base + f.off, Mem.leBytes f.width.bytes v) ∈ xnumStores)
    (hin : base + f.off + f.width.bytes ≤ 2097244) :
    field xnumFile.bytes base f = v % 256 ^ f.width.bytes :=
  field_imageFile apart_xnumStores hmem hin

/-- Its size. -/
private theorem length_xnumFile : xnumFile.bytes.length = 2097244 := length_imageFile _ _

/-- The program headers are behind the file header. -/
private theorem ePhoff_xnumFile : field xnumFile.bytes 0 elf32.ePhoff = 52 :=
  field_xnumFile (v := 52) (by decide) (by decide)

/-- `e_phnum` says that the number is elsewhere. -/
private theorem ePhnum_xnumFile : field xnumFile.bytes 0 elf32.ePhnum = pnXnum :=
  field_xnumFile (v := pnXnum) (by decide) (by decide)

/-- The section header is behind the program headers. -/
private theorem eShoff_xnumFile : field xnumFile.bytes 0 Class.elf32.eShoff = 2097204 :=
  field_xnumFile (v := 2097204) (by decide) (by decide)

/-- It says 65536. -/
private theorem phnum_xnumFile : xnumFile.phnum .elf32 = 65536 := by
  rw [File.phnum]
  show (if field xnumFile.bytes 0 elf32.ePhnum = pnXnum then
    field xnumFile.bytes (field xnumFile.bytes 0 Class.elf32.eShoff) Class.elf32.shInfo else _) = _
  rw [if_pos ePhnum_xnumFile, eShoff_xnumFile]
  exact field_xnumFile (v := 65536) (by decide) (by decide)

/-- All headers but the last are unused. -/
private theorem type_xnumFile {i : Nat} (hi : i < 65535) : (xnumFile.phdr elf32 i).type = 0 := by
  have hout : ∀ s ∈ xnumStores, s.1 + s.2.length ≤ 52 ∨ 2097172 ≤ s.1 := by decide
  have hsize : elf32.phdrSize.toNat = 32 := rfl
  have hoff : elf32.pType.off = 0 := rfl
  have hwidth : elf32.pType.width.bytes = 4 := rfl
  rw [File.phdr, phdrAt, ePhoff_xnumFile, hsize, xnumFile, imageFile, field_read (by omega)]
  apply Mem.load_eq_zero
  intro j hj
  apply Mem.writeAll_apply_out
  intro s hs
  have := hout s hs
  omega

/-- The last program header describes one byte of code. -/
private theorem phdr_xnumFile : xnumFile.phdr elf32 65535 = ⟨1, 1, 0, 1⟩ := by
  rw [File.phdr, ePhoff_xnumFile, phdrAt, Phdr.mk.injEq]
  exact ⟨field_xnumFile (v := 1) (by decide) (by decide),
    field_xnumFile (v := 1) (by decide) (by decide),
    field_xnumFile (v := 0) (by decide) (by decide),
    field_xnumFile (v := 1) (by decide) (by decide)⟩

/-- The file is well formed. -/
private theorem wellFormed_xnum : xnumFile.WellFormed .elf32 where
  ident := by
    have hread := @Mem.read_writeAll (fun _ => 0) 0 _ apart_xnumStores
      (0, [0x7f, 0x45, 0x4c, 0x46, 1, 1, 1]) (by decide)
    rw [xnumFile, imageFile, Mem.take_read _ _ _ _ (by decide),
      ← Mem.take_read _ _ 7 _ (by decide)]
    exact congrArg (List.take 6) hread
  machine := field_xnumFile (v := 3) (by decide) (by decide)
  ehdr := by
    rw [length_xnumFile]
    decide
  extended := fun _ => by
    rw [phnum_xnumFile, length_xnumFile, eShoff_xnumFile]
    decide
  phentsize := fun _ => field_xnumFile (v := 32) (by decide) (by decide)
  table := fun _ => by
    rw [phnum_xnumFile, length_xnumFile, Class.layout, ePhoff_xnumFile]
    decide
  segments := fun i hi htype => by
    rw [phnum_xnumFile] at hi
    rcases Nat.lt_succ_iff_lt_or_eq.mp hi with hlt | rfl
    · -- unused headers have no segment
      exact absurd ((type_xnumFile hlt).symm.trans htype) (by decide)
    · rw [length_xnumFile, Class.layout, phdr_xnumFile]
      decide

/-- The last segment of this file is lost. -/
theorem xnum_lost : ¬ ∀ (src : File) (c : Class), src.WellFormed c →
    main src = .ok (src.code c.layout (src.phnum c)) := by
  intro hall
  have hcopied := hall xnumFile .elf32 wellFormed_xnum
  rw [main_elf32 wellFormed_xnum, phnum_xnumFile] at hcopied
  have hcode : xnumFile.code elf32 65535 = xnumFile.code elf32 (65535 + 1) :=
    Except.ok.inj hcopied
  rw [code_succ _ _ 65535, phdr_xnumFile, if_pos (by decide)] at hcode
  -- the loop ends in front of the last header, whose byte would be there
  have hlost := List.self_eq_append_right.mp hcode
  have hone : (Phdr.contents ⟨1, 1, 0, 1⟩ xnumFile.bytes).length = 1 :=
    length_slice (by rw [length_xnumFile]; decide)
  rw [hlost] at hone
  exact absurd hone (by decide)

end Tlibc.Gettext
