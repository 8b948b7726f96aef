import Tlibc.Spec.BiosReadDisk
import Tlibc.Spec.Biosboot

/-!
# Booting by way of the BIOS

`biosmbr.S` asks the BIOS whether it can read sectors by their number, and has it read the
loader. The loader of `biosboot.S` then goes on as the one of `bzimage.S` does.

* `enter_ok`: the boot code gets to the loader in flat segments, or it is stopped
* `bios_boots`: a disk with a loader of three sectors and a kernel gets to the kernel's setup
  code
-/

namespace Tlibc.Boot.BiosMbr

open X86 BiosReadDisk

variable {d : Disk} {c : Cpu} {l : Linked} {reply : Reply}

/-! ## The question -/

/-- The BIOS has the functions with sector numbers, and knows the packet. -/
def Reply.Accepts (reply : Reply) : Prop :=
  reply.carry = false ∧ reply.bx = 0xaa55 ∧ reply.cx &&& 1 ≠ 0

/-- `bx` behind the interrupt. -/
private theorem store_bx (reply : Reply) (c : Cpu) :
    ((reply.store c).regs .ebx).toUInt16 = reply.bx := by
  have hreg : (reply.store c).regs .ebx = merge 16 (c.regs .ebx) reply.bx.toUInt32 := by
    simp [Reply.store, Cpu.setPart, Size.bytes]
  rw [hreg, toUInt16_merge, UInt16.toUInt16_toUInt32]

/-- `cx` behind it. -/
private theorem store_cx (reply : Reply) (c : Cpu) :
    ((reply.store c).regs .ecx).toUInt16 = reply.cx := by
  have hreg : (reply.store c).regs .ecx = merge 16 (c.regs .ecx) reply.cx.toUInt32 := by
    simp [Reply.store, Cpu.setPart, Size.bytes]
  rw [hreg, toUInt16_merge, UInt16.toUInt16_toUInt32]

/-- The registers that are not looked at are not changed. -/
private theorem check_accepts (h : reply.Accepts) (c : Cpu) :
    ∃ regs, check reply.carry (reply.store c) = some { c with regs } ∧ regs .esi = c.regs .esi ∧
      regs .edx = c.regs .edx := by
  obtain ⟨hcarry, hbx, hcx⟩ := h
  let c₁ := reply.store c
  let c₂ := c₁.setPart .word .ecx (c₁.regs .ecx &&& 1)
  have hone : (c₂.regs .ecx).toUInt16 = reply.cx &&& 1 := by
    have hset : (c₂.regs .ecx).toUInt16 = (c₁.regs .ecx &&& 1).toUInt16 := setPart_word c₁ .ecx _
    rw [hset, UInt32.toUInt16_and, store_cx]
    rfl
  refine ⟨c₂.regs, ?_, by simp [c₂, c₁, Reply.store, Cpu.setPart],
    by simp [c₂, c₁, Reply.store, Cpu.setPart]⟩
  have hne : (c₂.regs .ecx).toUInt16 ≠ 0 := by rwa [hone]
  unfold check
  rw [hcarry, if_neg Bool.false_ne_true, store_bx, if_neg (not_not_intro hbx)]
  exact if_neg hne

/-- A BIOS without the extensions is refused. -/
private theorem check_refuses (h : ¬ reply.Accepts) (c : Cpu) :
    check reply.carry (reply.store c) = none := by
  unfold check
  -- one case for each condition that fails, in the order of the tests
  by_cases hcarry : reply.carry = true
  · rw [hcarry, if_pos rfl]
  · have hcarry : reply.carry = false := Bool.eq_false_iff.mpr hcarry
    rw [hcarry, if_neg Bool.false_ne_true, store_bx]
    by_cases hbx : reply.bx = 0xaa55
    · have hzero : reply.cx &&& 1 = 0 := by
        by_contra hcx
        exact h ⟨hcarry, hbx, hcx⟩
      rw [if_neg (not_not_intro hbx)]
      have hset := setPart_word (reply.store c) .ecx ((reply.store c).regs .ecx &&& 1)
      rw [UInt32.toUInt16_and, store_cx, show (1 : UInt32).toUInt16 = 1 from rfl, hzero] at hset
      exact if_pos hset
    · exact if_pos hbx

/-- Before the question, `%si` and `%dl` are set for the read as well. -/
private theorem probe_ok {packet : Nat} (hbig : c.big = false) (hpacket : packet < 0x10000) :
    ∃ regs, run false (probe packet) c = some { c with regs, interrupts := false } ∧
      (regs .esi).toNat % 2 ^ 16 = packet ∧ (regs .edx).toNat % 256 = 0x80 := by
  -- the processor behind each of the instructions
  let c₁ := { c with interrupts := false }
  let high := UInt32.ofNat (256 * (0x41 : UInt8).toNat + (c₁.regs .eax).toNat % 256)
  let c₂ := c₁.setPart .word .eax high
  let c₃ := c₂.setPart .word .ebx 0x55aa
  let c₄ := c₃.setPart .word .edx 0x80
  let c₅ := c₄.setPart .byte .eax 0xff
  let c₆ := c₅.setPart .word .esi (UInt32.ofNat packet)
  refine ⟨c₆.regs, ?_, ?_, ?_⟩
  · rw [run_eq hbig, probe, @execAll_cons c c₁ .cli rfl, @execAll_cons c₁ c₂ (.immHigh 0x41 .eax) rfl,
      @execAll_cons c₂ c₃ (.imm .word 0x55aa .ebx) rfl, @execAll_cons c₃ c₄ (.imm .word 0x80 .edx) rfl,
      @execAll_cons c₄ c₅ (.imm .byte 0xff .eax) rfl, @execAll_cons c₅ c₆ _ rfl]
    rfl
  · -- `esi` is loaded with the packet, which is below 64 KiB
    have hreg : c₆.regs .esi = merge 16 (c₅.regs .esi) (UInt32.ofNat packet) := setReg_self ..
    rw [hreg, toNat_merge_mod (by decide), UInt32.toNat_ofNat_of_lt' (show packet < 2 ^ 32 by omega),
      Nat.mod_eq_of_lt (show packet < 2 ^ 16 from hpacket)]
  · have hreg : c₆.regs .edx = merge 16 (c₃.regs .edx) 0x80 := by
      simp [c₆, c₅, c₄, Cpu.setPart, Size.bytes]
    have hmod := toNat_merge_mod (show 16 ≤ 32 by decide) (c₃.regs .edx) 0x80
    rw [hreg]
    have hlow : (0x80 : UInt32).toNat % 2 ^ 16 = 0x80 := by decide
    omega

/-! ## The read -/

/-- The boot code is in memory at 0x7C00, with the number of the loader's first sector. -/
structure Loaded (l : Linked) (m : Mem) : Prop where
  gdt : m.read l.gdt Mbr.gdt.length = Mbr.gdt
  gdtdesc : m.read (l.gdt + 24) 6 = Mbr.gdtdesc l.gdt
  ksector : getField m l.packet Packet.ksector = 531
  ksectorHigh : getField m l.packet Packet.ksectorHigh = 0
  above : 0x7c00 ≤ l.gdt
  apart : l.gdt + 30 < l.packet
  low : l.packet + 22 ≤ 0x7e00
  start32 : l.start32 < 0x8000

/-- The variables of the boot code. -/
def Loaded.loader {m : Mem} (h : Loaded l m) : Loader where
  packet := l.packet
  stop := 0x7e00
  begins := by
    have habove := h.above
    have hapart := h.apart
    omega
  fits := h.low
  short := by decide

/-- The packet that the BIOS gets. -/
def asked (packet : Nat) (m : Mem) : Mem :=
  setField (filled packet m) packet Packet.bufSegment 0x120

/-- The packet is one of the variables of the loader. -/
private theorem asked_frame {m : Mem} (h : Loaded l m) :
    Mem.Frame h.loader.vars m (asked l.packet m) := by
  have habove := h.above
  have hapart := h.apart
  have hfield : ∀ (f : Field), f.off + f.width.bytes ≤ 18 → ∀ (m : Mem) (v : Nat),
      Mem.Frame h.loader.vars m (setField m l.packet f v) := fun f hf m v =>
    (frame_setField _ f v).mono (Set.Ico_subset_Ico (show l.packet - 1 ≤ _ by omega)
      (show _ ≤ l.packet + 18 by omega))
  have hmode : ∀ m : Mem, Mem.Frame h.loader.vars m (setField m (l.packet - 1) ⟨0, .one⟩ 1) :=
    fun m => (frame_setField _ ⟨0, .one⟩ 1).mono
      (Set.Ico_subset_Ico (Nat.le_refl _) (show l.packet - 1 + 0 + 1 ≤ l.packet + 18 by omega))
  exact (((((((hfield Packet.bufOffset (by decide) _ _).trans (hmode _)).trans
    (hfield Packet.blocks (by decide) _ _)).trans (hfield Packet.size (by decide) _ _)).trans
    (hfield Packet.lba (by decide) _ _)).trans (hfield Packet.lbaHigh (by decide) _ _)).trans
    (hfield Packet.bufSegment (by decide) _ _))

/-- It asks for sector 531, to be read to 0x1200. -/
private theorem asked_ok {m : Mem} (h : Loaded l m) :
    h.loader.call.ReadsOne (asked l.packet m) ∧ h.loader.call.buffer (asked l.packet m) = 0x1200 ∧
      h.loader.call.sector (asked l.packet m) = 531 := by
  have hpacket := h.loader.packet_call
  have hself := fun f m v => @Loader.getField_packet_self h.loader f m v
  have hne := fun f g hfg m v => @Loader.getField_packet_ne h.loader f g hfg m v
  have hmode := fun f m v => @Loader.getField_mode h.loader f m v
  have heq : h.loader.packet = l.packet := rfl
  rw [heq] at hself hne hmode hpacket
  -- every field is read back through the stores that follow its own
  refine ⟨⟨rfl, rfl, ?_, ?_, ?_⟩, ?_, ?_⟩
  · rw [hpacket, asked, filled]
    simp (disch := decide) only [hne, hself]
    rfl
  · rw [hpacket, asked, filled]
    simp (disch := decide) only [hne, hself]
    rfl
  · rw [hpacket, asked, filled]
    simp (disch := decide) only [hne, hself, hmode, h.ksectorHigh]
    rfl
  · rw [Call.buffer, hpacket, asked, filled]
    simp (disch := decide) only [hne, hself, hmode]
    rfl
  · rw [Call.sector, hpacket, asked, filled]
    simp (disch := decide) only [hne, hself, hmode, h.ksector]
    rfl

/-- Up to the second interrupt. -/
private theorem fill_ok {m : Mem} (h : Loaded l m) (hc : c.big = false) (hds : c.seg .ds = realData)
    (hmem : c.mem = m) (hsi : (c.regs .esi).toNat % 2 ^ 16 = l.packet) :
    ∃ regs, run false (fill l.packet) c = some { c with regs, mem := asked l.packet m } ∧
      regs .eax = merge 16 (c.regs .eax) 0x4201 ∧ regs .esi = c.regs .esi ∧
      regs .edx = c.regs .edx := by
  have habove := h.above
  have hapart := h.apart
  have hlow := h.low
  obtain ⟨regs, hfill, hax, hregs⟩ := @fillPacket_ok c l.packet ⟨hc, hds, hsi⟩ (by omega) (by omega)
  rw [hmem] at hfill
  let c₁ := { c with regs, mem := filled l.packet m }
  -- behind the common fields only the segment of the buffer is left to store
  have hfill : ∀ is, execAll (fillPacket l.packet ++ is) c = execAll is c₁ := hfill
  have hsi₁ : (c₁.regs .esi).toNat % 2 ^ 16 = l.packet := by
    show (regs .esi).toNat % 2 ^ 16 = l.packet
    rw [hregs .esi (by decide) (by decide), hsi]
  have h₁ : AtPacket c₁ l.packet := ⟨hc, hds, hsi₁⟩
  have hstore := @exec_storeImm c₁ .word 6 (some .esi) (l.packet + 6) 0x120
    (h₁.linear (Nat.mod_eq_of_lt (show l.packet + 6 < 2 ^ 16 by omega))
      (show l.packet + 6 + 2 ≤ 2 ^ 16 by omega))
  let c₂ := { c₁ with mem := asked l.packet m }
  have hstore : (Instr.storeImm .word 0x120 6 (some .esi)).exec c₁ = some c₂ := hstore
  have hread := @exec_read c₂ (c.regs .eax) hax
  refine ⟨(c₂.setReg .eax (merge 16 (c.regs .eax) 0x4201)).regs, ?_, setReg_self c₂ .eax _,
    hregs .esi (by decide) (by decide), hregs .edx (by decide) (by decide)⟩
  rw [run_eq hc, fill, hfill, execAll_cons hstore, execAll_cons hread]
  rfl

/-! ## The way to the loader -/

/-- `start32` jumps to the loader. -/
private theorem start32_ok (hpe : c.pe = true) (htable : c.Table Mbr.gdt)
    (hcode : (c.seg .cs).Flat) :
    ∃ c', run true start32 c = some c' ∧ Flat c' ∧ c'.ip = 0x1200 ∧ c'.regs .esp = 0xa000 ∧
      c'.interrupts = c.interrupts ∧ c'.mem = c.mem := by
  obtain ⟨c₁, hexec, hpe₁, hcs₁, hdata, hesp, hint, hmem⟩ := Mbr.dataSegs_ok hpe htable
  have hcode₁ : (c₁.seg .cs).Flat := by rwa [hcs₁]
  let c₂ := c₁.setReg .eax 0x1200
  have himm : (Instr.imm .long 0x1200 .eax).exec c₁ = some c₂ := by rw [Instr.exec, setPart_long]
  -- the loader starts at `0x1200`, which is inside the flat code segment
  have hoff : c₂.offset 0 (some .eax) = 0x1200 := by
    have hax : c₂.regs .eax = 0x1200 := setReg_self c₁ .eax _
    rw [offset_long (show c₂.big = true from hcode₁.big), hax]
    rfl
  have hjump : (Instr.jmp .eax).exec c₂ = some { c₂ with ip := 0x1200 } := by
    rw [Instr.exec, hoff]
    apply jump_eq
    show 0x1200 ≤ (c₁.seg .cs).last
    rw [hcode₁.last]
    decide
  refine ⟨{ c₂ with ip := 0x1200 }, ?_, ⟨hpe₁, hcode₁, hdata⟩, rfl, ?_, hint, hmem⟩
  · rw [run_eq hcode.big, start32, hexec, execAll_cons himm]
    exact execAll_cons hjump []
  · simp [c₂, hesp]

/-- The BIOS leaves the boot code alone. -/
def SparesCode (bios : Bios d) {m : Mem} (h : Loaded l m) : Prop :=
  ∀ a, 0x7c00 ≤ a → a < 0x7e00 →
    bios.int13 h.loader.call (asked l.packet m) a = asked l.packet m a

/-- With a BIOS that has the functions, the loader is entered in flat segments, with its first
    sector in memory. Otherwise the processor is stopped. -/
theorem enter_ok (bios : Bios d) (status : UInt8) (h : Real c) (hds : c.seg .ds = realData)
    (hl : Loaded l c.mem) (hspares : SparesCode bios hl) :
    (reply.Accepts → ∃ c', enter bios reply status l c = some (some c') ∧ Flat c' ∧ c'.ip = 0x1200 ∧
      c'.regs .esp = 0xa000 ∧ c'.interrupts = false ∧ c'.mem.read 0x1200 512 = d.sector 531) ∧
      (¬ reply.Accepts → enter bios reply status l c = some none) := by
  have habove := hl.above
  have hapart := hl.apart
  have hlow := hl.low
  obtain ⟨regs₁, hprobe, hsi₁, hdx₁⟩ := @probe_ok c l.packet h.code (by omega)
  let c₁ := { c with regs := regs₁, interrupts := false }
  have hpe₁ : c₁.pe = false := h.pe
  constructor
  · intro haccepts
    obtain ⟨regs₂, hcheck, hsi₂, hdx₂⟩ := check_accepts haccepts c₁
    let c₂ := { c₁ with regs := regs₂ }
    have hcheck : check reply.carry (reply.store c₁) = some c₂ := hcheck
    have hsi₂ : (c₂.regs .esi).toNat % 2 ^ 16 = l.packet := by
      show (regs₂ .esi).toNat % 2 ^ 16 = l.packet
      rw [hsi₂]
      exact hsi₁
    obtain ⟨regs₃, hfill, hax₃, hsi₃, hdx₃⟩ := @fill_ok c₂ l c.mem hl h.code hds rfl hsi₂
    let c₃ := { c₂ with regs := regs₃, mem := asked l.packet c.mem }
    have hint := @interrupt_ok d c₃ hl.loader bios status h.pe hds (c₂.regs .eax) hax₃
      ((congrArg (fun v => v.toNat % 256) (hdx₃.trans hdx₂)).trans hdx₁)
      ((congrArg (fun v => v.toNat % 2 ^ 16) hsi₃).trans hsi₂)
    let m := bios.int13 hl.loader.call (asked l.packet c.mem)
    let c₄ := { c₃.setReg .eax (merge 16 (c₂.regs .eax) (UInt32.ofNat (256 * status.toNat + 1))) with
      mem := m }
    -- the table is not touched
    have hframe := asked_frame hl
    have hkept : ∀ a, 0x7c00 ≤ a → a + 1 < l.packet → m a = c.mem a := by
      intro a hge hlt
      refine (hspares a hge (by omega)).trans (hframe.apply ?_)
      rintro ⟨hin, -⟩
      have hin : l.packet - 1 ≤ a := hin
      omega
    have hgdt : c₄.mem.read l.gdt Mbr.gdt.length = Mbr.gdt := by
      refine (Mem.read_congr fun i hi => hkept _ (by omega) ?_).trans hl.gdt
      have hi : i < 24 := hi
      omega
    have hgdtdesc : c₄.mem.read (l.gdt + 24) 6 = Mbr.gdtdesc l.gdt :=
      (Mem.read_congr fun i hi => hkept _ (by omega) (by omega)).trans hl.gdtdesc
    obtain ⟨c₅, hswitch, hpe₅, htable₅, hcs₅, hint₅, hmem₅⟩ :=
      @Mbr.switch_ok l.gdt l.start32 c₄ ⟨h.pe, h.code, h.data⟩ hgdt hgdtdesc (by omega) hl.start32
    obtain ⟨c₆, hstart, hflat, hip, hesp, hint₆, hmem₆⟩ := start32_ok hpe₅ htable₅ hcs₅
    refine ⟨c₆, ?_, hflat, hip, hesp, hint₆.trans hint₅, ?_⟩
    · have hfill : run false (fill l.packet) c₂ = some c₃ := hfill
      have hint : interrupt bios status c₃ = some c₄ := hint
      have hswitch : run false (Mbr.switch l.gdt l.start32) c₄ = some c₅ :=
        (run_eq (show c₄.big = false from h.code) _).trans hswitch
      unfold enter
      rw [hprobe, Option.bind_eq_bind, Option.bind_some, if_neg (Bool.eq_false_iff.mp hpe₁), hcheck]
      simp only [Option.mapM_some, Option.bind_eq_bind, hfill, Option.bind_some, hint, hswitch, hstart]
      rfl
    · -- the sector is where the packet asked for it
      have hlen : (d.sector 531).length = 512 := d.length_sector 531
      obtain ⟨hreads, hbuffer, hsector⟩ := asked_ok hl
      have hbytes := bios.reads _ _ hreads
      rw [hbuffer, hsector] at hbytes
      rw [hmem₆, hmem₅]
      refine List.ext_getElem (by rw [Mem.length_read, hlen]) fun i h₁ h₂ => ?_
      rw [Mem.getElem_read, ← List.getD_eq_getElem _ 0 h₂]
      exact hbytes i (by rwa [hlen] at h₂)
  · intro hrefuses
    have hcheck := check_refuses hrefuses c₁
    unfold enter
    rw [hprobe, Option.bind_eq_bind, Option.bind_some, if_neg (Bool.eq_false_iff.mp hpe₁), hcheck]
    rfl

/-- `biosmbr.S` as it is linked: code for 0x7C00. -/
structure File (l : Linked) (code : List UInt8) : Prop where
  gdt : PartAt code 0x7c00 l.gdt Mbr.gdt
  gdtdesc : PartAt code 0x7c00 (l.gdt + 24) (Mbr.gdtdesc l.gdt)
  ksector : PartAt code 0x7c00 (l.packet + 14) (Mem.leBytes 4 531 ++ Mem.leBytes 4 0)
  apart : l.gdt + 30 < l.packet
  start32 : l.start32 < 0x8000

/-- A boot sector that was read to `0x7c00` holds the code. -/
private theorem File.loaded {code : List UInt8} {m : Mem} (h : File l code)
    (hlen : code.length ≤ 512)
    (hcode : m.read 0x7c00 code.length = code) : Loaded l m := by
  have hbelow := h.ksector.below
  have hsectors : (Mem.leBytes 4 531 ++ Mem.leBytes 4 0).length = 8 := rfl
  have hread := h.ksector.read hcode
  rw [hsectors, Mem.read_add m (l.packet + 14) 4 4] at hread
  obtain ⟨hlo, hhi⟩ := List.append_inj hread (by rw [Mem.length_read, Mem.length_leBytes])
  exact ⟨h.gdt.read hcode, h.gdtdesc.read hcode, congrArg Mem.leNat hlo, congrArg Mem.leNat hhi,
    h.gdt.above, h.apart, by omega, h.start32⟩

/-- A disk boots by way of the BIOS. Its first sector begins with the boot code; the loader
    and the kernel are where they are looked for. From the first sector in memory the boot
    code gets to the loader, which loads the kernel, with every sector read by `bios_read_disk`
    and nothing of the loader changed but the variables of that routine; and from any stack
    with the arguments of `jump_to_setup` the kernel's setup code is entered. -/
theorem bios_boots {code loader kernel : List UInt8} (hl : File l code)
    (hcode : code <+: d.sector 0) (hlen : loader.length ≤ 1536)
    (hloader : ∀ j, j < loader.length → d.file 531 j = loader.getD j 0)
    (hkernelFile : ∀ j, j < kernel.length → d.file 539 j = kernel.getD j 0) {stack : Stack}
    (hkernel : BzImage.Bootable stack kernel) {packet : Nat} {a : BzSetup.Addresses}
    (hfile : Biosboot.File packet a loader) (bios : Bios d) (hquiet : bios.Quiet)
    (haccepts : reply.Accepts) (status : UInt8) (h : Real c) (hds : c.seg .ds = realData)
    (hsector : c.mem.read 0x7c00 512 = d.sector 0) :
    ∃ c₁, enter bios reply status l c = some (some c₁) ∧ Flat c₁ ∧ c₁.ip = 0x1200 ∧
      c₁.regs .esp = 0xa000 ∧ c₁.mem.read 0x1200 512 = d.sector 531 ∧
      ∃ m, Biosboot.start bios hfile.linked stack c₁.mem = .ok m ∧
        Biosboot.Held hfile.linked loader m ∧
        ∀ c₂ back, Flat c₂ → BzSetup.Called c₂ back 0x2000 0x10000 →
          (∀ a, a ∉ stack.area → c₂.mem a = m a) →
          ∃ c₃ c₄, BzSetup.enter a.table a.next c₂ = some c₃ ∧ c₃.steps 9 = some c₄ ∧
            Entered kernel c₄ := by
  have hcodeLen : code.length ≤ 512 := by
    have hle := hcode.length_le
    rwa [d.length_sector] at hle
  have hread : c.mem.read 0x7c00 code.length = code := by
    rw [← Mem.take_read _ _ 512 _ hcodeLen, hsector]
    exact (List.prefix_iff_eq_take.mp hcode).symm
  have hloaded := hl.loaded hcodeLen hread
  -- the sector is read to a place below the boot code
  have hspares : SparesCode bios hloaded := by
    intro b hge hlt
    have hframe := hquiet hloaded.loader.call (asked l.packet c.mem)
    rw [(asked_ok hloaded).2.1] at hframe
    apply hframe.apply
    rintro ⟨-, hin⟩
    omega
  obtain ⟨c₁, henter, hflat, hip, hesp, -, hfirst⟩ :=
    (enter_ok bios status h hds hloaded hspares).1 haccepts
  obtain ⟨m, hstart, hheld, hloadedKernel, htold, hcode16⟩ :=
    Biosboot.start_ok hfile hkernel hlen hloader hkernelFile hquiet hfirst
  exact ⟨c₁, henter, hflat, hip, hesp, hfirst, m, hstart, hheld, fun c₂ back hc₂ hcalled hsame =>
    setup_entered hkernel hfile.setup hlen (hfile.held hheld) hloadedKernel htold hcode16 hc₂
      hcalled hsame⟩

/-! A kernel of NOPs on a disk, with the least of boot code and loader. -/

/-- A sector of a file. -/
def block (bytes : List UInt8) (i : Nat) : List UInt8 :=
  Mem.read (fun a => bytes.getD a 0) (512 * i) sectSize

/-- The bytes of a sector that holds a block. -/
private theorem file_block {bytes : List UInt8} {start : UInt32} {j : Nat}
    (h : d.sector (start + UInt32.ofNat (j / sectSize)) = block bytes (j / sectSize)) :
    d.file start j = bytes.getD j 0 := by
  have hr : j % sectSize < sectSize := Nat.mod_lt _ (by decide)
  have hj : 512 * (j / sectSize) + j % sectSize = j := Nat.div_add_mod j 512
  rw [Disk.file, h, block, getD_read _ _ hr, hj]

/-- The table and the sector number of `biosmbr.S` alone. -/
def biosCode : List UInt8 :=
  Mbr.gdt ++ Mbr.gdtdesc 0x7c00 ++ List.replicate 15 0 ++ (Mem.leBytes 4 531 ++ Mem.leBytes 4 0)

/-- Where the boot sector of the example was linked to. -/
def biosLinked : Linked := ⟨0x7c00, 0x7c1f, 0x7c40⟩

/-- The variables of `bios.S`, all zero, and the tables of `bzsetup.S`. -/
def biosLoader : List UInt8 :=
  List.replicate 24 0 ++ BzSetup.descriptors ++ table BzSetup.descriptors 0x1218

/-- A disk that boots. -/
def biosDisk : Disk where
  sector s :=
    if s = 0 then block biosCode 0
    else if s < 539 then block biosLoader (s.toNat - 531)
    else block BzImage.nopKernel (s.toNat - 539)
  length_sector s := by
    split
    · exact Mem.length_read _ _ _
    · split
      · exact Mem.length_read _ _ _
      · exact Mem.length_read _ _ _

/-- The functions are there. -/
def modern : Reply := ⟨false, 0x3000, 0xaa55, 7⟩

/-- The code is in the boot sector. -/
private theorem biosLinked_file : File biosLinked biosCode where
  gdt := ⟨by decide, by decide, by decide⟩
  gdtdesc := ⟨by decide, by decide, by decide⟩
  ksector := ⟨by decide, by decide, by decide⟩
  apart := by decide
  start32 := by decide

/-- The loader holds what is called in it. -/
private theorem biosLoader_file : Biosboot.File 0x1201 ⟨0x1230, 0x1218, 0x1240⟩ biosLoader where
  begins := by decide
  first := by decide
  ksectorHigh := ⟨by decide, by decide, by decide⟩
  setup := ⟨⟨by decide, by decide, by decide⟩, ⟨by decide, by decide, by decide⟩, by decide⟩
  table := by decide
  descriptors := by decide

/-- A block starts with the bytes it was made of. -/
private theorem prefix_block {bytes : List UInt8} (h : bytes.length ≤ sectSize) :
    bytes <+: block bytes 0 := by
  apply List.prefix_iff_eq_take.mpr
  rw [block, Nat.mul_zero, Mem.take_read _ _ _ _ h]
  apply List.ext_getElem (Mem.length_read _ _ _).symm
  intro i h₁ h₂
  rw [Mem.getElem_read, Nat.zero_add, List.getD_eq_getElem _ _ h₁]

/-- The loader on the disk. -/
private theorem biosDisk_loader {j : Nat} (h : j < biosLoader.length) :
    biosDisk.file 531 j = biosLoader.getD j 0 := by
  have hlen : biosLoader.length = 54 := rfl
  have hzero : j / sectSize = 0 := by rw [sectSize]; omega
  have hnumber : (531 : UInt32) + UInt32.ofNat 0 = 531 := by decide
  apply file_block
  simp only [hzero, hnumber, biosDisk]
  rw [if_neg (by decide), if_pos (by decide), show (531 : UInt32).toNat - 531 = 0 from rfl]

/-- The boot sector. -/
private theorem biosDisk_first : biosDisk.sector 0 = block biosCode 0 := by
  simp only [biosDisk, if_true]

/-- The sectors of the kernel. -/
private theorem biosDisk_sector {k : Nat} (hk : k < 3) :
    biosDisk.sector (539 + UInt32.ofNat k) = block BzImage.nopKernel k := by
  -- the sectors of the kernel follow each other without wrapping
  have hnat : (539 + UInt32.ofNat k).toNat = 539 + k := by
    rw [UInt32.toNat_add, UInt32.toNat_ofNat_of_lt' (show k < 2 ^ 32 by omega)]
    exact Nat.mod_eq_of_lt (show 539 + k < 2 ^ 32 by omega)
  have hne : (539 : UInt32) + UInt32.ofNat k ≠ 0 := by
    intro hzero
    rw [hzero] at hnat
    have hnat : 0 = 539 + k := hnat
    omega
  have hge : ¬ (539 : UInt32) + UInt32.ofNat k < 539 := by
    intro hlt
    have hlt : (539 + UInt32.ofNat k).toNat < 539 := UInt32.lt_iff_toNat_lt.mp hlt
    omega
  simp only [biosDisk]
  rw [if_neg hne, if_neg hge, hnat, Nat.add_sub_cancel_left]

/-- The kernel on the disk. -/
private theorem biosDisk_kernel {j : Nat} (h : j < BzImage.nopKernel.length) :
    biosDisk.file 539 j = BzImage.nopKernel.getD j 0 := by
  rw [BzImage.nopKernel_length] at h
  exact file_block (biosDisk_sector (by rw [sectSize]; omega))

theorem bios_boots_nops :
    ∃ c₁ m c₃ c₄,
      enter (Bios.plain biosDisk) modern 0 biosLinked (firmware (biosDisk.sector 0)) = some (some c₁) ∧
      Biosboot.start (Bios.plain biosDisk) biosLoader_file.linked BzImage.smallStack c₁.mem = .ok m ∧
      Biosboot.Held biosLoader_file.linked biosLoader m ∧
      BzSetup.enter 0x1230 0x1240 (callsSetup m) = some c₃ ∧ c₃.steps 9 = some c₄ ∧
      Entered BzImage.nopKernel c₄ := by
  have hsector : (firmware (biosDisk.sector 0)).mem.read 0x7c00 512 = biosDisk.sector 0 :=
    read_sector biosDisk 0 _ _
  -- the boot sector begins with the code
  have hcode : biosCode <+: biosDisk.sector 0 := by
    rw [biosDisk_first]
    exact prefix_block (by decide)
  obtain ⟨c₁, henter, -, -, -, -, m, hstart, hheld, hsetup⟩ :=
    bios_boots biosLinked_file hcode (by decide) (fun _ h => biosDisk_loader h)
      (fun _ h => biosDisk_kernel h) BzImage.nopKernel_bootable biosLoader_file
      (Bios.plain biosDisk) (Bios.plain_quiet _)
      (show modern.Accepts from ⟨rfl, rfl, by decide⟩) 0 (firmware_real _) rfl hsector
  -- the call of the setup code has changed the stack only
  have hsame : ∀ a, a ∉ BzImage.smallStack.area → (callsSetup m).mem a = m a := fun a ha =>
    (Mem.frame_write m 0x9e00 _).apply fun hin => ha ⟨hin.1, Nat.lt_of_lt_of_le hin.2 (by decide)⟩
  obtain ⟨c₃, c₄, hreal, hsteps, hentered⟩ :=
    hsetup (callsSetup m) 0x1280 (callsSetup_flat m) (callsSetup_called m) hsame
  exact ⟨c₁, m, c₃, c₄, henter, hstart, hheld, hreal, hsteps, hentered⟩

end Tlibc.Boot.BiosMbr
