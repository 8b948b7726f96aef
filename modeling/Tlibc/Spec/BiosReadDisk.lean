import Tlibc.Spec.ReadDisk
import Tlibc.Spec.Startup

/-!
# `bios_read_disk`, instruction by instruction

The routine of `bios.S` leaves protected mode for the BIOS and comes back. For its caller it is
a function that reads a sector: `Bios.readSector`.

* `save_ok`, `request_ok`, `toStep2_ok`: what is done in protected mode
* `fill_ok`: in real mode the packet is filled in
* `restore_ok`: back in protected mode the registers are what they were
* `exec_ok`: a call returns to its caller, with the sector in its buffer
-/

namespace Tlibc.Boot.BiosReadDisk

open X86

variable {d : Disk} {c : Cpu} {l : Linked} {loader : Loader} {sector addr : UInt32} {back : Nat}

/-- `bios.S` in a loader: its variables, and behind them the descriptors and their table. -/
structure InLoader (l : Linked) (loader : Loader) (descAddr : Nat) (m : Mem) : Prop where
  packet : l.packet = loader.packet
  descriptorsHeld : m.read descAddr 40 = descriptors
  tableHeld : m.read l.table 6 = table descriptors descAddr
  descriptorsBehind : loader.packet + 22 ≤ descAddr
  descriptorsEnd : descAddr + 40 ≤ loader.stop
  tableBehind : loader.packet + 22 ≤ l.table
  tableEnd : l.table + 6 ≤ loader.stop
  step2 : l.step2 < 0x10000
  doReadDisk : l.doReadDisk < 0x10000
  restore : l.restore < 0x10000

/-- `bios_read_disk(sector, addr)` is called, with room for six registers above the loader. -/
structure Called (c : Cpu) (loader : Loader) (sector addr : UInt32) (back : Nat) : Prop where
  room : loader.stop + 24 ≤ (c.regs .esp).toNat
  fits : (c.regs .esp).toNat + 12 ≤ 2 ^ 32
  backHeld : c.mem.load (c.regs .esp).toNat 4 = back
  sectorHeld : c.mem.load ((c.regs .esp).toNat + 4) 4 = sector.toNat
  addrHeld : c.mem.load ((c.regs .esp).toNat + 8) 4 = addr.toNat

/-- The registers that are saved, in the order of the pushes. -/
def saves : List Reg := [.ebx, .ecx, .edx, .esi, .edi, .ebp]

/-- The memory behind the pushes. -/
def saved (c : Cpu) : Mem := pushAll c.mem (c.regs .esp).toNat (saves.map c.regs)

/-- Saving the registers changes 24 bytes of the stack. -/
private theorem saved_frame (h : 24 ≤ (c.regs .esp).toNat) :
    Mem.Frame (Set.Ico ((c.regs .esp).toNat - 24) (c.regs .esp).toNat) c.mem (saved c) :=
  @frame_pushAll c.mem (c.regs .esp).toNat (saves.map c.regs) h

/-! ## Before the switch to real mode -/

/-- A word of the stack is read. -/
private theorem exec_load_stack {disp : UInt32} {dst : Reg} {a : Nat} (hss : (c.seg .ss).Flat)
    (hbig : c.big = true) (ha : (c.regs .esp + disp).toNat = a) (hfit : a + 4 ≤ 2 ^ 32) :
    (Instr.load .long disp (some .esp) dst).exec c =
      some (c.setReg dst (UInt32.ofNat (c.mem.load a 4))) := by
  have hlinear : c.linear (Cpu.operandSeg (some .esp)) (c.offset disp (some .esp)) Size.long.bytes =
      some a := by
    rw [offset_long hbig, ha]
    exact linear_flat hss (by decide) hfit
  rw [exec_load hlinear, setPart_long]
  rfl

/-- `step 0` takes the arguments and saves the registers. -/
theorem save_ok (h : Flat c) (hc : Called c loader sector addr back) :
    ∃ regs, (∀ is, execAll (save ++ is) c = execAll is { c with regs, mem := saved c }) ∧
      regs .eax = sector ∧ regs .ebx = addr ∧ regs .esp = c.regs .esp - 24 := by
  obtain ⟨hroom, hfits, -, hsector, haddr⟩ := hc
  have hss : (c.seg .ss).Flat := h.data .ss (by decide)
  -- `sector` is above the return address
  have hfour : (c.regs .esp + 4).toNat = (c.regs .esp).toNat + 4 := by
    rw [UInt32.toNat_add, show (4 : UInt32).toNat = 4 from rfl, Nat.mod_eq_of_lt (by omega)]
  have hload₁ := @exec_load_stack c 4 .eax _ hss h.code.big hfour (by omega)
  rw [hsector, UInt32.ofNat_toNat] at hload₁
  let c₁ := c.setReg .eax sector
  have hesp₁ : c₁.regs .esp = c.regs .esp := by simp [c₁]
  -- `addr` is above it, and above the first register that is pushed
  have hpush := @exec_push c₁ .ebx hss (by rw [hesp₁]; omega)
  rw [hesp₁] at hpush
  let c₂ := { c₁.setReg .esp (c.regs .esp - 4) with
    mem := c.mem.write ((c.regs .esp).toNat - 4) (Mem.leBytes 4 (c.regs .ebx).toNat) }
  have hpush : (Instr.push .ebx).exec c₁ = some c₂ := hpush
  have hesp₂ : c₂.regs .esp = c.regs .esp - 4 := by simp [c₂]
  have height : (c₂.regs .esp + 12).toNat = (c.regs .esp).toNat + 8 := by
    have hadd : c₂.regs .esp + 12 = c.regs .esp + 8 := by
      rw [hesp₂, UInt32.sub_eq_add_neg, UInt32.add_assoc]
      rfl
    rw [hadd, UInt32.toNat_add, show (8 : UInt32).toNat = 8 from rfl, Nat.mod_eq_of_lt (by omega)]
  have hload₂ := @exec_load_stack c₂ 12 .ebx _ hss h.code.big height (by omega)
  have hkept : c₂.mem.load ((c.regs .esp).toNat + 8) 4 = addr.toNat := by
    rw [← haddr]
    apply Mem.load_write_ne
    rw [Mem.length_leBytes]
    omega
  rw [hkept, UInt32.ofNat_toNat] at hload₂
  let c₃ := c₂.setReg .ebx addr
  have hesp₃ : c₃.regs .esp = c.regs .esp - 4 := by simp [c₃, hesp₂]
  have hnat : (c.regs .esp - 4).toNat = (c.regs .esp).toNat - 4 :=
    UInt32.toNat_sub_of_le _ _ (UInt32.le_iff_toNat_le.mpr (show 4 ≤ (c.regs .esp).toNat by omega))
  -- the other five registers
  have hpushes := @execAll_push c₃ [.ecx, .edx, .esi, .edi, .ebp] (by decide) hss
    (by rw [hesp₃, hnat]; show 20 ≤ _; omega)
  rw [hesp₃, hnat] at hpushes
  have hvalues : [Reg.ecx, .edx, .esi, .edi, .ebp].map c₃.regs =
      [Reg.ecx, .edx, .esi, .edi, .ebp].map c.regs := by
    simp [c₃, c₂, c₁]
  have hconst : -4 + -UInt32.ofNat (4 * [Reg.ecx, .edx, .esi, .edi, .ebp].length) = -24 := by decide
  have hsub : c.regs .esp - 4 - UInt32.ofNat (4 * [Reg.ecx, .edx, .esi, .edi, .ebp].length) =
      c.regs .esp - 24 := by
    rw [UInt32.sub_eq_add_neg, UInt32.sub_eq_add_neg, UInt32.add_assoc, hconst,
      UInt32.sub_eq_add_neg]
  rw [hvalues, hsub] at hpushes
  refine ⟨(c₃.setReg .esp (c.regs .esp - 24)).regs, fun is => ?_, ?_, ?_, ?_⟩
  · have hprog : save ++ is = .load .long 4 (some .esp) .eax :: .push .ebx ::
        .load .long 12 (some .esp) .ebx :: ([Reg.ecx, .edx, .esi, .edi, .ebp].map .push ++ is) := rfl
    rw [hprog, execAll_cons hload₁, execAll_cons hpush, execAll_cons hload₂, execAll_append hpushes]
    rfl
  · simp [c₃, c₂, c₁]
  · simp [c₃]
  · simp

/-- `Loader.fill` before `step 1`. -/
def requested (packet : Nat) (sector addr : UInt32) (m : Mem) : Mem :=
  setField (setField m packet Packet.ksector sector.toNat) packet Packet.bufSegment
    (addr >>> 4).toNat

/-- The request is made of variables of the loader. -/
private theorem requested_frame (loader : Loader) (sector addr : UInt32) (m : Mem) :
    Mem.Frame loader.vars m (requested loader.packet sector addr m) := by
  have hbegins := loader.begins
  have hsector := (frame_setField (m := m) loader.packet Packet.ksector sector.toNat).mono
    (Set.Ico_subset_Ico (show loader.packet - 1 ≤ loader.packet + 14 by omega)
      (show loader.packet + 14 + 4 ≤ loader.packet + 18 by omega))
  have hsegment := (frame_setField
      (m := setField m loader.packet Packet.ksector sector.toNat) loader.packet Packet.bufSegment
      (addr >>> 4).toNat).mono
    (Set.Ico_subset_Ico (show loader.packet - 1 ≤ loader.packet + 6 by omega)
      (show loader.packet + 6 + 2 ≤ loader.packet + 18 by omega))
  exact hsector.trans hsegment

/-- The sector and the segment of the buffer are in their places. -/
theorem request_ok (h : Flat c) (hsector : c.regs .eax = sector) (haddr : c.regs .ebx = addr)
    {packet : Nat} (hpacket : packet + 22 ≤ 0x10000) :
    ∃ regs, (∀ is, execAll (request packet ++ is) c =
        execAll is { c with regs, mem := requested packet sector addr c.mem }) ∧
      regs .esp = c.regs .esp := by
  have hds : (c.seg .ds).Flat := h.data .ds (by decide)
  have hnat : ∀ k, packet + k < 2 ^ 32 → k < 2 ^ 32 →
      (UInt32.ofNat packet + UInt32.ofNat k).toNat = packet + k := by
    intro k hk hk'
    rw [← UInt32.ofNat_add, UInt32.toNat_ofNat_of_lt' hk]
  -- `ksector`
  let c₁ := c.setReg .ecx (UInt32.ofNat (packet + 14))
  have himm₁ : (Instr.imm .long (UInt32.ofNat (packet + 14)) .ecx).exec c = some c₁ := by
    rw [Instr.exec, setPart_long]
  have hlinear₁ : c₁.linear (Cpu.operandSeg (some .ecx)) (c₁.offset 0 (some .ecx)) Size.long.bytes =
      some (packet + 14) := by
    have hcx : c₁.regs .ecx = UInt32.ofNat (packet + 14) := setReg_self c .ecx _
    rw [offset_long (show c₁.big = true from h.code.big), hcx, UInt32.add_zero,
      UInt32.toNat_ofNat_of_lt' (show _ < 2 ^ 32 by omega)]
    exact linear_flat hds (by decide) (show packet + 14 + 4 ≤ 2 ^ 32 by omega)
  have hstore₁ := @exec_store c₁ .long 0 (some .ecx) _ .eax hlinear₁
  have hax : c₁.regs .eax = sector := hsector
  rw [hax] at hstore₁
  let c₂ := { c₁ with mem := setField c.mem packet Packet.ksector sector.toNat }
  -- the segment of the buffer
  let c₃ := c₂.setReg .ebx (addr >>> 4)
  have hshr : (Instr.shr .long 4 .ebx).exec c₂ = some c₃ := by
    have hbx : c₂.regs .ebx = addr := haddr
    have hshift : UInt32.ofNat (addr.toNat % 2 ^ (8 * Size.long.bytes) / 2 ^ 4) = addr >>> 4 := by
      rw [← UInt32.toNat_inj, toNat_shiftRight addr (by decide),
        Nat.mod_eq_of_lt (show _ < 2 ^ (8 * Size.long.bytes) from addr.toNat_lt)]
      have hlt := addr.toNat_lt
      exact UInt32.toNat_ofNat_of_lt' (show _ < 2 ^ 32 by omega)
    rw [Instr.exec, setPart_long, hbx, hshift]
  let c₄ := c₃.setReg .ecx (UInt32.ofNat packet)
  have himm₂ : (Instr.imm .long (UInt32.ofNat packet) .ecx).exec c₃ = some c₄ := by
    rw [Instr.exec, setPart_long]
  let c₅ := c₄.setReg .ecx (c₄.regs .ecx + 6)
  have hadd : (Instr.add .long 6 .ecx).exec c₄ = some c₅ := by
    rw [Instr.exec, setPart_long]
  have hlinear₂ : c₅.linear (Cpu.operandSeg (some .ecx)) (c₅.offset 0 (some .ecx)) Size.word.bytes =
      some (packet + 6) := by
    have hcx : c₅.regs .ecx = UInt32.ofNat packet + UInt32.ofNat 6 := by simp [c₅, c₄]
    rw [offset_long (show c₅.big = true from h.code.big), hcx, UInt32.add_zero,
      hnat 6 (by omega) (by decide)]
    exact linear_flat hds (by decide) (show packet + 6 + 2 ≤ 2 ^ 32 by omega)
  have hstore₂ := @exec_store c₅ .word 0 (some .ecx) _ .ebx hlinear₂
  have hbx : c₅.regs .ebx = addr >>> 4 := by simp [c₅, c₄, c₃]
  rw [hbx] at hstore₂
  refine ⟨c₅.regs, fun is => ?_, by simp [c₅, c₄, c₃, c₂, c₁]⟩
  have hprog : request packet ++ is = .imm .long (UInt32.ofNat (packet + 14)) .ecx ::
      .store .long .eax 0 (some .ecx) :: .shr .long 4 .ebx :: .imm .long (UInt32.ofNat packet) .ecx ::
      .add .long 6 .ecx :: .store .word .ebx 0 (some .ecx) :: is := rfl
  rw [hprog, execAll_cons himm₁, @execAll_cons c₁ c₂ _ hstore₁, execAll_cons hshr,
    execAll_cons himm₂, execAll_cons hadd, execAll_cons hstore₂]
  rfl

/-- The code segment of 16 bits is the second one of the table. -/
private theorem ofBytes_code16 :
    Descriptor.ofBytes ((descriptors.drop 8).take 8) = code16Desc := by decide

/-- The data segments of 16 bits are the third. -/
private theorem ofBytes_data16 :
    Descriptor.ofBytes ((descriptors.drop 16).take 8) = data16Desc := by decide

/-- The other two segments are those of the boot code. -/
private theorem ofBytes_code :
    Descriptor.ofBytes ((descriptors.drop 24).take 8) = Mbr.codeDesc := by decide

/-- The data segment is the fifth of the table. -/
private theorem ofBytes_data :
    Descriptor.ofBytes ((descriptors.drop 32).take 8) = Mbr.dataDesc := by decide

/-- `step 1` jumps to 16-bit code. -/
theorem toStep2_ok (h : Flat c) {tableAddr descAddr step2 : Nat}
    (htable : c.mem.read tableAddr 6 = table descriptors descAddr)
    (hdescriptors : c.mem.read descAddr 40 = descriptors) (hlow : tableAddr + 6 ≤ 0x10000)
    (hlow' : descAddr + 40 ≤ 0x10000) (hstep : step2 < 0x10000) :
    ∃ c', execAll (toStep2 tableAddr step2) c = some c' ∧ c'.pe = true ∧ c'.Table descriptors ∧
      c'.gdtBase = descAddr ∧ c'.seg .cs = ⟨8, 0, 0xffff, false⟩ ∧ c'.regs = c.regs ∧
      c'.interrupts = false ∧ c'.mem = c.mem := by
  -- interrupts are off
  let c₁ := { c with interrupts := false }
  have hds : (c₁.seg .ds).Flat := h.data .ds (by decide)
  -- the table is addressed in the flat data segment
  have hoff : c₁.offset (UInt32.ofNat tableAddr) none = tableAddr := by
    have hbig : c₁.big = true := h.code.big
    unfold Cpu.offset
    rw [hbig, if_pos rfl, Option.elim_none, UInt32.zero_add,
      UInt32.toNat_ofNat_of_lt' (show tableAddr < 2 ^ 32 by omega)]
  have hlinear : c₁.linear .ds (c₁.offset (UInt32.ofNat tableAddr) none) 6 = some tableAddr := by
    rw [hoff]
    exact linear_flat hds (by decide) (by omega)
  have hlgdt := exec_lgdt hlinear htable (by decide) (by omega)
  -- the table is loaded
  let c₂ := { c₁ with gdtLimit := descriptors.length - 1, gdtBase := descAddr }
  have htable₂ : c₂.Table descriptors := ⟨rfl, hdescriptors⟩
  -- and the jump takes the code segment of 16 bits from it
  have hjump := @exec_ljmp_protected c₂ (gdtEntry 1) _ _ step2 h.pe htable₂ (by decide)
    ofBytes_code16 (by decide) (by show step2 ≤ 65535; omega)
  let c₃ := { c₂.setSeg .cs ⟨gdtEntry 1, code16Desc.base, code16Desc.last, code16Desc.db⟩ with
    ip := step2 }
  refine ⟨c₃, ?_, h.pe, ⟨htable₂.limit, htable₂.held⟩, rfl, rfl, rfl, rfl, rfl⟩
  rw [toStep2, @execAll_cons c c₁ .cli rfl, execAll_cons hlgdt, execAll_cons hjump]
  rfl

/-! ## In real mode -/

/-- The segment registers of `step 4`. -/
def realData : Segment := ⟨0, 0, 0xffff, false⟩

/-- From `step 2` to the data segments of real mode. -/
private theorem step2_ok {doReadDisk : Nat} (hpe : c.pe = true) (htable : c.Table descriptors)
    (hcs : c.seg .cs = ⟨8, 0, 0xffff, false⟩) (hlow : doReadDisk < 0x10000) :
    ∃ c' c'', run false (step2 doReadDisk) c = some c' ∧ c'.big = false ∧
      (∀ is, execAll (dataSegments ++ is) c' = execAll is c'') ∧ c''.pe = false ∧
      c''.seg .cs = realData ∧ c''.seg .ds = realData ∧ c''.regs .eax = 0 ∧
      c''.regs .esp = c.regs .esp ∧ (c''.gdtLimit = c.gdtLimit ∧ c''.gdtBase = c.gdtBase) ∧
      c''.mem = c.mem := by
  have hbig : c.big = false := congrArg Segment.big hcs
  obtain ⟨c₁, hreal, hpe₁, hdata, hcs₁, hregs, hgdt, -, hmem⟩ :=
    toReal_ok hpe htable (by decide) ofBytes_data16
  rw [hcs] at hcs₁
  have hjump := @exec_ljmp_real c₁ 0 doReadDisk hpe₁ (by rw [hcs₁]; show doReadDisk ≤ 65535; omega)
  rw [hcs₁] at hjump
  let c₂ := { c₁.setSeg .cs ⟨0, 0, 0xffff, false⟩ with ip := doReadDisk }
  -- the data segments keep their limits
  let c₃ := c₂.setReg .eax 0
  have hclear : (Instr.clear .long .eax).exec c₂ = some c₃ := by rw [Instr.exec, setPart_long]
  have hsegs := @execAll_movSeg_real c₃ 0 .eax dataRegs hpe₁ (by simp [c₃])
  let c₄ := c₃.setSegs dataRegs fun r => { c₃.seg r with selector := 0, base := 16 * 0 }
  refine ⟨c₂, c₄, ?_, rfl, fun is => ?_, hpe₁, rfl, ?_, setReg_self c₂ .eax 0, ?_, hgdt, hmem⟩
  · rw [run_eq hbig, step2, hreal, execAll_cons hjump]
    rfl
  · have hprog : dataSegments ++ is =
        .clear .long .eax :: (dataRegs.map (fun r => Instr.movSeg .eax r) ++ is) := rfl
    rw [hprog, execAll_cons hclear, execAll_append hsegs]
    rfl
  · show { c₁.seg .ds with selector := 0, base := 16 * 0 } = realData
    rw [hdata .ds (by decide)]
    rfl
  · exact hregs .esp (by decide)

/-- 16-bit code has the packet at `%si`. -/
structure AtPacket (c : Cpu) (packet : Nat) : Prop where
  big : c.big = false
  ds : c.seg .ds = realData
  si : (c.regs .esi).toNat % 2 ^ 16 = packet

/-- An operand in the packet, or in front of it. -/
theorem AtPacket.linear {packet a n : Nat} {disp : UInt32} (h : AtPacket c packet)
    (ha : (packet + disp.toNat) % 2 ^ 16 = a) (hn : a + n ≤ 2 ^ 16) :
    c.linear (Cpu.operandSeg (some .esi)) (c.offset disp (some .esi)) n = some a := by
  have hoff : c.offset disp (some .esi) = a := by
    have hsi := h.si
    unfold Cpu.offset
    rw [h.big, if_neg Bool.false_ne_true, Option.elim_some, UInt32.toNat_add]
    omega
  have hseg : c.seg (Cpu.operandSeg (some .esi)) = realData := h.ds
  unfold Cpu.linear
  rw [hoff, hseg, if_pos (show a + n ≤ realData.last + 1 from hn),
    show realData.base = 0 from rfl, Nat.zero_add, Nat.mod_eq_of_lt (by omega)]

/-- An operand without a register. -/
private theorem AtPacket.linear_abs {packet a n : Nat} (h : AtPacket c packet) (hpos : 0 < n)
    (hn : a + n ≤ 2 ^ 16) :
    c.linear (Cpu.operandSeg none) (c.offset (UInt32.ofNat a) none) n = some a := by
  have hoff : c.offset (UInt32.ofNat a) none = a := by
    unfold Cpu.offset
    rw [h.big, if_neg Bool.false_ne_true, Option.elim_none, UInt32.zero_add,
      UInt32.toNat_ofNat_of_lt' (show a < 2 ^ 32 by omega), Nat.mod_eq_of_lt (by omega)]
  have hseg : c.seg (Cpu.operandSeg none) = realData := h.ds
  unfold Cpu.linear
  rw [hoff, hseg, if_pos (show a + n ≤ realData.last + 1 from hn),
    show realData.base = 0 from rfl, Nat.zero_add, Nat.mod_eq_of_lt (by omega)]

/-- `Loader.fill` from `step 4` on. -/
def filled (packet : Nat) (m : Mem) : Mem :=
  let m := setField m packet Packet.bufOffset 0
  let m := setField m (packet - 1) ⟨0, .one⟩ 1
  let m := setField m packet Packet.blocks 1
  let m := setField m packet Packet.size 0x10
  let m := setField m packet Packet.lba (getField m packet Packet.ksector)
  setField m packet Packet.lbaHigh (getField m packet Packet.ksectorHigh)

/-- The packet is filled in. -/
theorem fillPacket_ok {packet : Nat} (h : AtPacket c packet) (hpos : 0 < packet)
    (hpacket : packet + 22 ≤ 0x10000) :
    ∃ regs, (∀ is, execAll (fillPacket packet ++ is) c =
        execAll is { c with regs, mem := filled packet c.mem }) ∧
      regs .eax = merge 16 (c.regs .eax) 1 ∧ ∀ r, r ≠ .eax → r ≠ .ebx → regs r = c.regs r := by
  obtain ⟨hbig, hds, hsi⟩ := h
  let c₂ := c.setPart .word .eax 0
  have hax₂ : c₂.regs .eax = merge 16 (c.regs .eax) 0 := setReg_self ..
  have h₂ : AtPacket c₂ packet := ⟨hbig, hds, hsi⟩
  have hstore₁ := @exec_store c₂ .word 4 (some .esi) (packet + 4) .eax
    (h₂.linear (Nat.mod_eq_of_lt (show packet + 4 < 2 ^ 16 by omega))
      (show packet + 4 + 2 ≤ 2 ^ 16 by omega))
  have hzero : Mem.leBytes Size.word.bytes (c₂.regs .eax).toNat = Mem.leBytes 2 0 := by
    rw [hax₂]
    exact leBytes_merge (by decide) (by decide) _ _
  rw [hzero] at hstore₁
  let c₃ := { c₂ with mem := setField c.mem packet Packet.bufOffset 0 }
  have hstore₁ : (Instr.store .word .eax 4 (some .esi)).exec c₂ = some c₃ := hstore₁
  -- `%ax` is 1 from here on
  let c₄ := c₃.setPart .word .eax (c₃.regs .eax + 1)
  have hax₄ : c₄.regs .eax = merge 16 (c.regs .eax) 1 := by
    have hreg : c₄.regs .eax = merge 16 (c₃.regs .eax) (c₃.regs .eax + 1) := setReg_self ..
    have hax₃ : c₃.regs .eax = merge 16 (c.regs .eax) 0 := hax₂
    have hlow : (merge 16 (c.regs .eax) 0 + 1).toNat % 2 ^ 16 = 1 := by
      have hzero := toNat_merge_mod (show 16 ≤ 32 by decide) (c.regs .eax) 0
      rw [UInt32.toNat_zero, Nat.zero_mod] at hzero
      rw [UInt32.toNat_add, show (1 : UInt32).toNat = 1 from rfl]
      omega
    rw [hreg, hax₃, merge_merge (by decide), ← UInt32.toNat_inj, toNat_merge (by decide),
      toNat_merge (by decide), hlow]
    rfl
  -- `mode` is in front of the packet
  have h₄ : AtPacket c₄ packet := ⟨hbig, hds, hsi⟩
  have hstore₂ := @exec_store c₄ .byte (-1) (some .esi) (packet - 1) .eax
    (h₄.linear (by show (packet + 4294967295) % 2 ^ 16 = packet - 1; omega)
      (show packet - 1 + 1 ≤ 2 ^ 16 by omega))
  have hone : Mem.leBytes Size.byte.bytes (c₄.regs .eax).toNat = Mem.leBytes 1 1 := by
    rw [hax₄]
    exact leBytes_merge (by decide) (by decide) _ _
  rw [hone] at hstore₂
  let c₅ := { c₄ with mem := setField c₃.mem (packet - 1) ⟨0, .one⟩ 1 }
  have hstore₂ : (Instr.store .byte .eax (-1) (some .esi)).exec c₄ = some c₅ := hstore₂
  have h₅ : AtPacket c₅ packet := ⟨hbig, hds, hsi⟩
  have hstore₃ := @exec_store c₅ .word 2 (some .esi) (packet + 2) .eax
    (h₅.linear (Nat.mod_eq_of_lt (show packet + 2 < 2 ^ 16 by omega))
      (show packet + 2 + 2 ≤ 2 ^ 16 by omega))
  have hone₂ : Mem.leBytes Size.word.bytes (c₅.regs .eax).toNat = Mem.leBytes 2 1 := by
    show Mem.leBytes 2 (c₄.regs .eax).toNat = _
    rw [hax₄]
    exact leBytes_merge (by decide) (by decide) _ _
  rw [hone₂] at hstore₃
  let c₆ := { c₅ with mem := setField c₅.mem packet Packet.blocks 1 }
  have hstore₃ : (Instr.store .word .eax 2 (some .esi)).exec c₅ = some c₆ := hstore₃
  have h₆ : AtPacket c₆ packet := ⟨hbig, hds, hsi⟩
  have hstore₄ := @exec_storeImm c₆ .word 0 (some .esi) (packet + 0) 0x0010
    (h₆.linear (Nat.mod_eq_of_lt (show packet + 0 < 2 ^ 16 by omega))
      (show packet + 0 + 2 ≤ 2 ^ 16 by omega))
  let c₇ := { c₆ with mem := setField c₆.mem packet Packet.size 0x10 }
  have hstore₄ : (Instr.storeImm .word 0x0010 0 (some .esi)).exec c₆ = some c₇ := hstore₄
  -- the sector number goes through `%ebx`
  have h₇ : AtPacket c₇ packet := ⟨hbig, hds, hsi⟩
  have hload₁ := @exec_load c₇ .long _ none (packet + 14) .ebx
    (h₇.linear_abs (by decide) (show packet + 14 + 4 ≤ 2 ^ 16 by omega))
  rw [setPart_long] at hload₁
  let c₈ := c₇.setReg .ebx (UInt32.ofNat (getField c₇.mem packet Packet.ksector))
  have hload₁ : (Instr.load .long (UInt32.ofNat (packet + 14)) none .ebx).exec c₇ = some c₈ := hload₁
  have hbx₈ : (c₈.regs .ebx).toNat = getField c₇.mem packet Packet.ksector := by
    have hreg : c₈.regs .ebx = _ := setReg_self c₇ .ebx _
    rw [hreg]
    exact UInt32.toNat_ofNat_of_lt' (Mem.load_lt _ _ 4)
  have h₈ : AtPacket c₈ packet := ⟨hbig, hds, hsi⟩
  have hstore₅ := @exec_store c₈ .long 8 (some .esi) (packet + 8) .ebx
    (h₈.linear (Nat.mod_eq_of_lt (show packet + 8 < 2 ^ 16 by omega))
      (show packet + 8 + 4 ≤ 2 ^ 16 by omega))
  rw [hbx₈] at hstore₅
  let c₉ := { c₈ with
    mem := setField c₇.mem packet Packet.lba (getField c₇.mem packet Packet.ksector) }
  have hstore₅ : (Instr.store .long .ebx 8 (some .esi)).exec c₈ = some c₉ := hstore₅
  have h₉ : AtPacket c₉ packet := ⟨hbig, hds, hsi⟩
  have hload₂ := @exec_load c₉ .long _ none (packet + 18) .ebx
    (h₉.linear_abs (by decide) (show packet + 18 + 4 ≤ 2 ^ 16 by omega))
  rw [setPart_long] at hload₂
  let c₁₀ := c₉.setReg .ebx (UInt32.ofNat (getField c₉.mem packet Packet.ksectorHigh))
  have hload₂ : (Instr.load .long (UInt32.ofNat (packet + 18)) none .ebx).exec c₉ = some c₁₀ := hload₂
  have hbx₁₀ : (c₁₀.regs .ebx).toNat = getField c₉.mem packet Packet.ksectorHigh := by
    have hreg : c₁₀.regs .ebx = _ := setReg_self c₉ .ebx _
    rw [hreg]
    exact UInt32.toNat_ofNat_of_lt' (Mem.load_lt _ _ 4)
  have h₁₀ : AtPacket c₁₀ packet := ⟨hbig, hds, hsi⟩
  have hstore₆ := @exec_store c₁₀ .long 12 (some .esi) (packet + 12) .ebx
    (h₁₀.linear (Nat.mod_eq_of_lt (show packet + 12 < 2 ^ 16 by omega))
      (show packet + 12 + 4 ≤ 2 ^ 16 by omega))
  rw [hbx₁₀] at hstore₆
  let c₁₁ := { c₁₀ with mem := filled packet c.mem }
  have hstore₆ : (Instr.store .long .ebx 12 (some .esi)).exec c₁₀ = some c₁₁ := hstore₆
  refine ⟨c₁₁.regs, fun is => ?_, hax₄, fun r hax hbx => ?_⟩
  · have hprog : fillPacket packet ++ is = .clear .word .eax :: .store .word .eax 4 (some .esi) ::
        .add .word 1 .eax :: .store .byte .eax (-1) (some .esi) :: .store .word .eax 2 (some .esi) ::
        .storeImm .word 0x0010 0 (some .esi) :: .load .long (UInt32.ofNat (packet + 14)) none .ebx ::
        .store .long .ebx 8 (some .esi) :: .load .long (UInt32.ofNat (packet + 18)) none .ebx ::
        .store .long .ebx 12 (some .esi) :: is := rfl
    rw [hprog, @execAll_cons c c₂ (.clear .word .eax) rfl, execAll_cons hstore₁,
      @execAll_cons c₃ c₄ (.add .word 1 .eax) rfl, execAll_cons hstore₂, execAll_cons hstore₃,
      execAll_cons hstore₄, execAll_cons hload₁, execAll_cons hstore₅, execAll_cons hload₂,
      execAll_cons hstore₆]
    rfl
  · simp [c₁₁, c₁₀, c₉, c₈, c₇, c₆, c₅, c₄, c₃, c₂, Cpu.setPart, Function.update_of_ne hax,
      Function.update_of_ne hbx]

/-- The function that reads sectors goes to `%ah`. -/
theorem exec_read {old : UInt32} (hax : c.regs .eax = merge 16 old 1) :
    (Instr.immHigh 0x42 .eax).exec c = some (c.setReg .eax (merge 16 old 0x4201)) := by
  have hdvd : 256 ∣ 2 ^ 16 := by decide
  have hlow : (merge 16 old 1).toNat % 256 = 1 := by
    have hmod := toNat_merge_mod (show 16 ≤ 32 by decide) old 1
    rw [← Nat.mod_mod_of_dvd _ hdvd, hmod]
    rfl
  have hvalue : UInt32.ofNat (256 * (0x42 : UInt8).toNat + 1) = 0x4201 := by decide
  rw [Instr.exec, Cpu.setPart, hax, hlow, hvalue]
  exact congrArg (fun v => some (c.setReg .eax v)) (merge_merge (by decide) old 1 0x4201)

/-- The packet is filled in, and the registers are set for the interrupt. -/
theorem fill_ok {packet : Nat} (hbig : c.big = false) (hds : c.seg .ds = realData)
    (hax : c.regs .eax = 0) (hpos : 0 < packet) (hpacket : packet + 22 ≤ 0x10000) :
    ∃ regs, execAll (fill packet) c = some { c with regs, mem := filled packet c.mem } ∧
      regs .eax = 0x4201 ∧ (regs .edx).toNat % 256 = 0x80 ∧
      (regs .esi).toNat % 2 ^ 16 = packet ∧ regs .esp = c.regs .esp := by
  let c₁ := c.setPart .word .esi (UInt32.ofNat packet)
  have hsi : (c₁.regs .esi).toNat % 2 ^ 16 = packet := by
    have hreg : c₁.regs .esi = merge 16 (c.regs .esi) (UInt32.ofNat packet) := setReg_self ..
    rw [hreg, toNat_merge_mod (by decide), UInt32.toNat_ofNat_of_lt' (show packet < 2 ^ 32 by omega),
      Nat.mod_eq_of_lt (by omega)]
  obtain ⟨regs, hfill, hax₂, hregs⟩ := @fillPacket_ok c₁ packet ⟨hbig, hds, hsi⟩ hpos hpacket
  have hax₁ : c₁.regs .eax = 0 := hax
  rw [hax₁] at hax₂
  let c₂ := { c₁ with regs, mem := filled packet c.mem }
  have hfill : ∀ is, execAll (fillPacket packet ++ is) c₁ = execAll is c₂ := hfill
  have hread := @exec_read c₂ 0 hax₂
  have hvalue : merge 16 0 0x4201 = 0x4201 := by decide
  rw [hvalue] at hread
  let c₃ := c₂.setReg .eax 0x4201
  -- the drive
  let c₄ := c₃.setPart .byte .edx 0x80
  refine ⟨c₄.regs, ?_, setReg_self c₂ .eax _, ?_, ?_, ?_⟩
  · have hprog : fill packet = .imm .word (UInt32.ofNat packet) .esi ::
        (fillPacket packet ++ [.immHigh 0x42 .eax, .imm .byte 0x80 .edx]) := rfl
    rw [hprog, @execAll_cons c c₁ _ rfl, hfill, @execAll_cons c₂ c₃ _ hread]
    rfl
  · have hreg : c₄.regs .edx = merge 8 (c₃.regs .edx) 0x80 := setReg_self ..
    rw [hreg]
    exact toNat_merge_mod (by decide) _ _
  · have hreg : c₄.regs .esi = regs .esi := rfl
    rw [hreg, hregs .esi (by decide) (by decide), hsi]
  · exact hregs .esp (by decide) (by decide)

/-- The interrupt that `Loader.call` describes. -/
theorem interrupt_ok (bios : Bios d) (status : UInt8) (hpe : c.pe = false)
    (hds : c.seg .ds = realData) {old : UInt32} (hax : c.regs .eax = merge 16 old 0x4201)
    (hdx : (c.regs .edx).toNat % 256 = 0x80)
    (hsi : (c.regs .esi).toNat % 2 ^ 16 = loader.packet) :
    interrupt bios status c =
      some { c.setReg .eax (merge 16 old (UInt32.ofNat (256 * status.toNat + 1))) with
        mem := bios.int13 loader.call c.mem } := by
  -- the packet is in `ds:si`, and `ax` says what to do with it
  have hmod := toNat_merge_mod (show 16 ≤ 32 by decide) old 0x4201
  have hlow : (0x4201 : UInt32).toNat % 2 ^ 16 = 0x4201 := by decide
  rw [hlow] at hmod
  have hah : UInt8.ofNat ((merge 16 old 0x4201).toNat / 256) = 0x42 := by
    rw [← UInt8.toNat_inj, UInt8.toNat_ofNat']
    show (merge 16 old 0x4201).toNat / 256 % 256 = 0x42
    omega
  -- the drive is the first hard disk
  have hdl : UInt8.ofNat (c.regs .edx).toNat = 0x80 := by
    rw [← UInt8.toNat_inj, UInt8.toNat_ofNat']
    exact hdx
  have hsi' : UInt16.ofNat (c.regs .esi).toNat = UInt16.ofNat loader.packet := by
    have hlt := loader.short
    have hfits := loader.fits
    rw [← UInt16.toNat_inj, UInt16.toNat_ofNat', hsi,
      UInt16.toNat_ofNat_of_lt' (show loader.packet < 2 ^ 16 by omega)]
  -- so the BIOS is called as the loader wants it to be
  have hcall : callOf c = loader.call := by
    rw [callOf, hax, hah, hdl, hds, hsi']
    rfl
  -- the status comes back in `ah`
  have hal : (merge 16 old 0x4201).toNat % 256 = 1 := by omega
  unfold interrupt
  rw [hpe, if_neg Bool.false_ne_true, hcall, Instr.exec, Cpu.setPart]
  show some ((Cpu.setReg _ .eax (merge 16 (c.regs .eax) (UInt32.ofNat (256 * status.toNat +
    (c.regs .eax).toNat % 256))))) = _
  rw [hax, hal, merge_merge (by decide)]
  rfl

/-! ## Back in protected mode -/

/-- The status is moved into place, and the mode is changed. -/
private theorem toProtected_ok {status : UInt8} {restore : Nat} (hbig : c.big = false)
    (hax : c.regs .eax = UInt32.ofNat (256 * status.toNat + 1)) (htable : c.Table descriptors)
    (hlow : restore < 0x10000) :
    ∃ c', run false (toProtected restore) c = some c' ∧ c'.pe = true ∧ c'.Table descriptors ∧
      (c'.seg .cs).Flat ∧ c'.regs .eax = status.toUInt32 ∧ c'.regs .esp = c.regs .esp ∧
      c'.mem = c.mem := by
  have hstatus := status.toNat_lt
  -- the status is moved from `ah` to `al`
  let c₁ := c.setReg .eax status.toUInt32
  have hshr : (Instr.shr .word 8 .eax).exec c = some c₁ := by
    have hnat : (UInt32.ofNat (256 * status.toNat + 1)).toNat = 256 * status.toNat + 1 :=
      UInt32.toNat_ofNat_of_lt' (show _ < 2 ^ 32 by omega)
    have hbits : 2 ^ (8 * Size.word.bytes) = 65536 := by decide
    have hshift : (256 * status.toNat + 1) % 65536 / 2 ^ 8 = status.toNat := by omega
    have hsmall : (UInt32.ofNat status.toNat).toNat = status.toNat :=
      UInt32.toNat_ofNat_of_lt' (show _ < 2 ^ 32 by omega)
    have hvalue : merge (8 * Size.word.bytes) (UInt32.ofNat (256 * status.toNat + 1))
        (UInt32.ofNat status.toNat) = status.toUInt32 := by
      rw [← UInt32.toNat_inj, toNat_merge (by decide), hnat, hsmall, hbits, UInt8.toNat_toUInt32]
      omega
    rw [Instr.exec, Cpu.setPart, hax, hnat, hbits, hshift, hvalue]
  -- protected mode is turned on
  let c₂ := { c₁.setReg .ebx (c.cr0 ||| 1) with cr0 := c.cr0 ||| 1 }
  have hpe : c₂.pe = true := pe_or c.cr0
  have htable₂ : c₂.Table descriptors := ⟨htable.limit, htable.held⟩
  -- and the jump takes the flat code segment from the table
  have hjump := @exec_ljmp_protected c₂ (gdtEntry 3) _ _ restore hpe htable₂ (by decide)
    ofBytes_code (by decide) (by show restore ≤ 4294967295; omega)
  let c₃ := { c₂.setSeg .cs ⟨gdtEntry 3, Mbr.codeDesc.base, Mbr.codeDesc.last, Mbr.codeDesc.db⟩ with
    ip := restore }
  refine ⟨c₃, ?_, hpe, ⟨htable.limit, htable.held⟩, ⟨rfl, rfl, rfl⟩, ?_, ?_, rfl⟩
  · have hprog : toProtected restore = .shr .word 8 .eax :: .fromCr0 .ebx :: .or 1 .ebx ::
        .toCr0 .ebx :: [.ljmp (gdtEntry 3) restore] := rfl
    rw [run_eq hbig, hprog, execAll_cons hshr, execAll_orCr0]
    exact execAll_cons hjump []
  · simp [c₃, c₂, c₁]
  · simp [c₃, c₂, c₁]

/-- The registers are restored, and the routine returns. -/
theorem restore_ok (hpe : c.pe = true) (htable : c.Table descriptors) (hcode : (c.seg .cs).Flat)
    (hesp : (c.regs .esp).toNat + 28 < 2 ^ 32) :
    ∃ c', run true restore c = some c' ∧ Flat c' ∧ c'.ip = c.mem.load ((c.regs .esp).toNat + 24) 4 ∧
      c'.regs .esp = c.regs .esp + 28 ∧ c'.regs .eax = c.regs .eax ∧
      (∀ i r, saves.reverse[i]? = some r →
        c'.regs r = UInt32.ofNat (c.mem.load ((c.regs .esp).toNat + 4 * i) 4)) ∧
      c'.interrupts = false ∧ c'.mem = c.mem := by
  let c₁ := { c with interrupts := false }.setReg .ebx (gdtEntry 4).toUInt32
  have himm : (Instr.imm .long (gdtEntry 4).toUInt32 .ebx).exec { c with interrupts := false } =
      some c₁ := by
    rw [Instr.exec, setPart_long]
  have hbx : (c₁.regs .ebx).toUInt16 = gdtEntry 4 :=
    congrArg UInt32.toUInt16 (setReg_self { c with interrupts := false } .ebx _)
  have hsegs := @execAll_movSeg_protected c₁ (gdtEntry 4) Mbr.dataDesc .ebx descriptors dataRegs hpe
    ⟨htable.limit, htable.held⟩ ⟨hbx, by decide⟩ ofBytes_data (by decide)
  let c₂ := c₁.setSegs dataRegs fun _ =>
    ⟨gdtEntry 4, Mbr.dataDesc.base, Mbr.dataDesc.last, Mbr.dataDesc.db⟩
  have hflat : ∀ r ∈ dataRegs, (c₂.seg r).Flat := by
    intro r hr
    have hseg : c₂.seg r = ⟨gdtEntry 4, Mbr.dataDesc.base, Mbr.dataDesc.last, Mbr.dataDesc.db⟩ :=
      if_pos hr
    rw [hseg]
    exact ⟨rfl, rfl, rfl⟩
  have hss : (c₂.seg .ss).Flat := hflat .ss (by decide)
  have hesp₂ : c₂.regs .esp = c.regs .esp := by simp [c₂, c₁]
  -- the words on the stack
  obtain ⟨regs, hpops, hend, hloads, hkept⟩ := @execAll_pop c₂ saves.reverse (by decide) (by decide)
    hss (by rw [hesp₂]; show (c.regs .esp).toNat + 24 < 2 ^ 32; omega)
  rw [hesp₂] at hend hloads
  let c₃ := { c₂ with regs }
  have hnat : (regs .esp).toNat = (c.regs .esp).toNat + 24 := by
    rw [hend, UInt32.toNat_add]
    show ((c.regs .esp).toNat + 24) % 2 ^ 32 = _
    exact Nat.mod_eq_of_lt (by omega)
  have hpop := @pop_flat c₃ hss (show (regs .esp).toNat + 4 ≤ 2 ^ 32 by omega)
  let c₄ := { c₃.setReg .esp (regs .esp + 4) with ip := c.mem.load ((c.regs .esp).toNat + 24) 4 }
  have hret : Instr.ret.exec c₃ = some c₄ := by
    have hlast : (c.seg .cs).last = 2 ^ 32 - 1 := hcode.last
    have hlt : c.mem.load ((c.regs .esp).toNat + 24) 4 < 256 ^ 4 := Mem.load_lt _ _ _
    have hmem : c₃.mem.load (c₃.regs .esp).toNat 4 = c.mem.load ((c.regs .esp).toNat + 24) 4 :=
      congrArg (fun a => c.mem.load a 4) hnat
    rw [Instr.exec, hpop, hmem, Option.bind_eq_bind, Option.bind_some]
    exact jump_eq (show _ ≤ (c.seg .cs).last by omega)
  refine ⟨c₄, ?_, ⟨hpe, hcode, fun r hr => hflat r ?_⟩, rfl, ?_, ?_, fun i r h => ?_, rfl, rfl⟩
  · have hprog : restore = .cli :: .imm .long (gdtEntry 4).toUInt32 .ebx ::
        (dataRegs.map (fun r => Instr.movSeg .ebx r) ++ (saves.reverse.map .pop ++ [.ret])) := rfl
    rw [run_eq hcode.big, hprog, @execAll_cons c { c with interrupts := false } .cli rfl,
      execAll_cons himm, execAll_append hsegs, execAll_append hpops, execAll_cons hret]
    rfl
  · revert r
    decide
  · have hconst : UInt32.ofNat (4 * saves.reverse.length) + 4 = 28 := by decide
    have hreg : c₄.regs .esp = regs .esp + 4 := setReg_self c₃ .esp _
    rw [hreg, hend, UInt32.add_assoc, hconst]
  · have hax : regs .eax = c₂.regs .eax := hkept .eax (by decide) (by decide)
    simpa [c₄, c₃, c₂, c₁] using hax
  · have hne : r ≠ .esp := by
      rintro rfl
      exact absurd (List.mem_of_getElem? h) (by decide)
    have hreg : c₄.regs r = regs r := Function.update_of_ne hne _ _
    rw [hreg, hloads i r h]
    rfl

/-! ## The call -/

/-- The BIOS leaves alone what is behind the packet in the loader, and a part of the stack. -/
def Spares (bios : Bios d) (loader : Loader) (m : Mem) (lo hi : Nat) : Prop :=
  ∀ a, (loader.packet + 18 ≤ a ∧ a < loader.stop) ∨ (lo ≤ a ∧ a < hi) →
    bios.int13 loader.call m a = m a

/-- A BIOS that stores nothing but the sector spares them if the buffer is somewhere else. -/
private theorem Spares.of_quiet {bios : Bios d} {m : Mem} {lo hi : Nat} (hquiet : bios.Quiet)
    (haddr : addr.toNat < 0x100000)
    (hoffLoader : 16 * (addr.toNat / 16) + 512 ≤ loader.packet + 18 ∨
      loader.stop ≤ 16 * (addr.toNat / 16))
    (hoffStack : 16 * (addr.toNat / 16) + 512 ≤ lo ∨ hi ≤ 16 * (addr.toNat / 16)) :
    Spares bios loader (loader.fill sector addr m) lo hi := by
  intro a ha
  have hframe := hquiet loader.call (loader.fill sector addr m)
  rw [loader.fill_buffer sector haddr] at hframe
  apply hframe.apply
  rintro ⟨hge, hlt⟩
  rcases ha with ⟨hlo, hhi⟩ | ⟨hlo, hhi⟩ <;> omega

section Call

variable {descAddr : Nat}

/-- Up to the interrupt. -/
private theorem interrupted_ok (bios : Bios d) (status : UInt8) (h : Flat c)
    (hl : InLoader l loader descAddr c.mem) (hc : Called c loader sector addr back) :
    ∃ c', exec bios status l c = run false (toProtected l.restore) c' >>= run true restore ∧
      c'.big = false ∧ c'.regs .eax = UInt32.ofNat (256 * status.toNat + 1) ∧
      c'.regs .esp = c.regs .esp - 24 ∧ c'.gdtLimit + 1 = descriptors.length ∧
      c'.gdtBase = descAddr ∧ c'.mem = bios.readSector loader sector addr (saved c) := by
  have hroom := hc.room
  have hpacket := loader.fits
  have hshort := loader.short
  have hbegins := loader.begins
  have hbehind := hl.descriptorsBehind
  have hend := hl.descriptorsEnd
  have hbehind' := hl.tableBehind
  have hend' := hl.tableEnd
  obtain ⟨regs₁, hsave, hax₁, hbx₁, hesp₁⟩ := save_ok h hc
  have hsaved := saved_frame (show 24 ≤ (c.regs .esp).toNat by omega)
  let c₁ := { c with regs := regs₁, mem := saved c }
  have h₁ : Flat c₁ := ⟨h.pe, h.code, h.data⟩
  obtain ⟨regs₂, hrequest, hesp₂⟩ := @request_ok c₁ sector addr h₁ hax₁ hbx₁ loader.packet (by omega)
  let c₂ := { c₁ with regs := regs₂, mem := requested loader.packet sector addr (saved c) }
  have hrequest : ∀ is, execAll (request loader.packet ++ is) c₁ = execAll is c₂ := hrequest
  have hrequested := requested_frame loader sector addr (saved c)
  have h₂ : Flat c₂ := ⟨h.pe, h.code, h.data⟩
  -- the table is below the stack and behind the packet
  have hkept : ∀ a, loader.packet + 18 ≤ a → a < loader.stop → c₂.mem a = c.mem a := by
    intro a hlo hhi
    rw [← hsaved.apply (show a ∉ Set.Ico _ _ from fun hin => by have := hin.1; omega)]
    apply hrequested.apply
    rintro ⟨-, hlt⟩
    omega
  have htable : c₂.mem.read l.table 6 = table descriptors descAddr := by
    rw [← hl.tableHeld]
    exact Mem.read_congr fun i hi => hkept _ (by omega) (by omega)
  have hdescriptors : c₂.mem.read descAddr 40 = descriptors := by
    rw [← hl.descriptorsHeld]
    exact Mem.read_congr fun i hi => hkept _ (by omega) (by omega)
  obtain ⟨c₃, hstep, hpe₃, htable₃, hbase₃, hcs₃, hregs₃, -, hmem₃⟩ := toStep2_ok h₂ htable
    hdescriptors (by omega) (by omega) hl.step2
  obtain ⟨c₄, c₅, hreal, hbig₄, hdata, hpe₅, hcs₅, hds₅, hax₅, hesp₅, ⟨hlimit₅, hbase₅⟩, hmem₅⟩ :=
    step2_ok hpe₃ htable₃ hcs₃ hl.doReadDisk
  have hbig₅ : c₅.big = false := congrArg Segment.big hcs₅
  obtain ⟨regs₆, hfill, hax₆, hdx₆, hsi₆, hesp₆⟩ := fill_ok hbig₅ hds₅ hax₅
    (show 0 < loader.packet by omega) (by omega)
  -- the packet is complete
  have hfilled : filled loader.packet c₅.mem = loader.fill sector addr (saved c) := by
    rw [hmem₅, hmem₃]
    rfl
  rw [hfilled] at hfill
  let c₆ := { c₅ with regs := regs₆, mem := loader.fill sector addr (saved c) }
  have hint := @interrupt_ok d c₆ loader bios status hpe₅ hds₅ 0 hax₆ hdx₆ hsi₆
  have hstatus : merge 16 0 (UInt32.ofNat (256 * status.toNat + 1)) =
      UInt32.ofNat (256 * status.toNat + 1) := by
    have hlt := status.toNat_lt
    refine merge_small (by decide) (by decide) ?_
    rw [UInt32.toNat_ofNat_of_lt' (show _ < 2 ^ 32 by omega)]
    omega
  rw [hstatus] at hint
  let c₇ := { c₆.setReg .eax (UInt32.ofNat (256 * status.toNat + 1)) with
    mem := bios.readSector loader sector addr (saved c) }
  have hint : interrupt bios status c₆ = some c₇ := hint
  have hesp₇ : c₇.regs .esp = c.regs .esp - 24 := by
    show regs₆ .esp = _
    rw [hesp₆, hesp₅, hregs₃]
    exact hesp₂.trans hesp₁
  refine ⟨c₇, ?_, hbig₅, setReg_self c₆ .eax _, hesp₇,
    (congrArg (· + 1) hlimit₅).trans htable₃.limit, hbase₅.trans hbase₃, rfl⟩
  have hprog : save ++ request l.packet ++ toStep2 l.table l.step2 =
      save ++ (request loader.packet ++ toStep2 l.table l.step2) := by
    rw [hl.packet, List.append_assoc]
  unfold exec
  rw [hprog, run_eq h.code.big, hsave, hrequest, hstep]
  simp only [Option.bind_eq_bind, Option.bind_some, hreal, run_eq hbig₄, hdata, hl.packet]
  have hfill : execAll (fill loader.packet) c₅ = some c₆ := hfill
  rw [hfill, Option.bind_some, hint, Option.bind_some]

/-- `bios_read_disk` returns to its caller with the registers that it was called with. It has
    read the sector as `Bios.readSector` does. -/
theorem exec_ok (bios : Bios d) (status : UInt8) (h : Flat c)
    (hl : InLoader l loader descAddr c.mem) (hc : Called c loader sector addr back)
    (hspares : Spares bios loader (loader.fill sector addr (saved c)) ((c.regs .esp).toNat - 24)
      ((c.regs .esp).toNat + 4)) :
    ∃ c', exec bios status l c = some c' ∧ Flat c' ∧ c'.ip = back ∧
      c'.regs .esp = c.regs .esp + 4 ∧ c'.regs .eax = status.toUInt32 ∧
      (∀ r, r ≠ .esp → r ≠ .eax → c'.regs r = c.regs r) ∧ c'.interrupts = false ∧
      c'.mem = bios.readSector loader sector addr (saved c) := by
  have hroom := hc.room
  have hfits := hc.fits
  have hpacket := loader.fits
  have hbehind := hl.descriptorsBehind
  have hend := hl.descriptorsEnd
  obtain ⟨c₁, hexec, hbig, hax, hesp, hlimit, hbase, hmem⟩ := interrupted_ok bios status h hl hc
  have hsaved := saved_frame (show 24 ≤ (c.regs .esp).toNat by omega)
  have hvars := loader.fill_frame sector addr (saved c)
  -- the descriptors are there for the way back
  have htable : c₁.Table descriptors := by
    refine ⟨hlimit, ?_⟩
    rw [hbase, hmem]
    refine Eq.trans (Mem.read_congr fun i hi => ?_) hl.descriptorsHeld
    have hlt : i < 40 := hi
    rw [← hsaved.apply (show descAddr + i ∉ Set.Ico _ _ from fun hin => by have := hin.1; omega)]
    exact (hspares _ (.inl ⟨by omega, by omega⟩)).trans (hvars.apply fun hin => by
      have := hin.2
      omega)
  -- and so is the stack
  have hnat : (c.regs .esp - 24).toNat = (c.regs .esp).toNat - 24 :=
    UInt32.toNat_sub_of_le _ _ (UInt32.le_iff_toNat_le.mpr (show 24 ≤ (c.regs .esp).toNat by omega))
  have hstack : ∀ a, (c.regs .esp).toNat - 24 ≤ a → a ≤ (c.regs .esp).toNat →
      c₁.mem.load a 4 = (saved c).load a 4 := by
    intro a hlo hhi
    rw [hmem]
    apply Mem.load_congr
    intro i hi
    exact (hspares (a + i) (.inr ⟨by omega, by omega⟩)).trans (hvars.apply fun hin => by
      have := hin.2
      omega)
  obtain ⟨c₂, hprotected, hpe₂, htable₂, hcs₂, hax₂, hesp₂, hmem₂⟩ :=
    toProtected_ok hbig hax htable hl.restore
  rw [hesp] at hesp₂
  obtain ⟨c₃, hrestore, hflat, hip, hesp₃, hax₃, hpopped, hoff, hmem₃⟩ :=
    restore_ok hpe₂ htable₂ hcs₂ (by rw [hesp₂, hnat]; omega)
  rw [hesp₂, hnat, hmem₂] at hip hpopped
  refine ⟨c₃, ?_, hflat, ?_, ?_, hax₃.trans hax₂, fun r hne hne' => ?_, hoff,
    (hmem₃.trans hmem₂).trans hmem⟩
  · rw [hexec, hprotected, Option.bind_eq_bind, Option.bind_some, hrestore]
  · -- the return address is above the registers
    have hback : (c.regs .esp).toNat - 24 + 24 = (c.regs .esp).toNat := by omega
    rw [hip, hback, hstack _ (by omega) (by omega), ← hc.backHeld]
    apply hsaved.load
    rintro i - ⟨-, hlt⟩
    omega
  · rw [hesp₃, hesp₂, UInt32.sub_eq_add_neg, UInt32.add_assoc]
    exact congrArg (c.regs .esp + ·) (by decide)
  · -- a register is popped from where it was pushed
    have hmem : r ∈ saves.reverse := by
      cases r <;> first | contradiction | decide
    obtain ⟨i, hi⟩ := List.mem_iff_getElem?.mp hmem
    have hlt : i < 6 := (List.getElem?_eq_some_iff.mp hi).1
    have hpushed : (saves.map c.regs)[5 - i]? = some (c.regs r) := by
      rw [List.getElem?_reverse hlt] at hi
      rw [List.getElem?_map]
      exact congrArg (Option.map c.regs) hi
    have hload := @load_pushAll c.mem (c.regs .esp).toNat (saves.map c.regs)
      (show 4 * 6 ≤ _ by omega) _ _ hpushed
    have haddr : (c.regs .esp).toNat - 4 * (5 - i + 1) = (c.regs .esp).toNat - 24 + 4 * i := by omega
    rw [haddr] at hload
    rw [hpopped i r hi, hstack _ (by omega) (by omega)]
    exact (congrArg UInt32.ofNat hload).trans UInt32.ofNat_toNat

/-- The caller finds the sector in its buffer, at the beginning of a segment. -/
theorem exec_sector (bios : Bios d) (status : UInt8) (h : Flat c)
    (hl : InLoader l loader descAddr c.mem) (hc : Called c loader sector addr back)
    (haddr : addr.toNat < 0x100000) (hhigh : getField c.mem loader.packet Packet.ksectorHigh = 0)
    (hspares : Spares bios loader (loader.fill sector addr (saved c)) ((c.regs .esp).toNat - 24)
      ((c.regs .esp).toNat + 4)) :
    ∃ c', exec bios status l c = some c' ∧ Flat c' ∧ c'.ip = back ∧
      c'.regs .esp = c.regs .esp + 4 ∧ c'.regs .eax = status.toUInt32 ∧
      (∀ r, r ≠ .esp → r ≠ .eax → c'.regs r = c.regs r) ∧ c'.interrupts = false ∧
      c'.mem = bios.readSector loader sector addr (saved c) ∧
      c'.mem.read (16 * (addr.toNat / 16)) 512 = d.sector sector := by
  obtain ⟨c', hexec, hflat, hip, hesp, hax, hregs, hoff, hmem⟩ := exec_ok bios status h hl hc hspares
  refine ⟨c', hexec, hflat, hip, hesp, hax, hregs, hoff, hmem, ?_⟩
  have hroom := hc.room
  -- the registers that were saved are not above the packet, so its high half is what it was
  have hpacket := loader.fits
  have hsaved := saved_frame (show 24 ≤ (c.regs .esp).toNat by omega)
  have hhigh' : getField (saved c) loader.packet Packet.ksectorHigh = 0 := by
    rw [← hhigh]
    apply hsaved.load
    rintro i hi ⟨hge, -⟩
    have hi : i < 4 := hi
    have hge : (c.regs .esp).toNat - 24 ≤ loader.packet + 18 + i := hge
    omega
  rw [hmem]
  exact Bios.readSector_ok haddr hhigh'

end Call

/-- Where the parts are in the smallest loader, and a call with its stack at 0x9000. -/
def smallLinked : Linked := ⟨0x1500, 0x1550, 0x1210, 0x1220, 0x1230⟩

/-- A loader with its table and its packet. -/
def smallMem : Mem :=
  Mem.write (Mem.write (Mem.write (fun _ => 0) 0x1520 descriptors) 0x1550 (table descriptors 0x1520))
    0x9000 (Mem.leBytes 4 0x1208 ++ (Mem.leBytes 4 533 ++ Mem.leBytes 4 0x1600))

/-- A processor that calls it. -/
def smallCall : Cpu where
  regs r := if r = .esp then 0x9000 else 7
  seg _ := ⟨8, 0, 2 ^ 32 - 1, true⟩
  ip := 0x1200
  cr0 := 1
  gdtBase := 0
  gdtLimit := 0
  interrupts := false
  mem := smallMem

/-- The loader is in memory. -/
private theorem smallCall_inLoader : InLoader smallLinked twoSectors 0x1520 smallCall.mem where
  packet := rfl
  descriptorsHeld := by decide
  tableHeld := by decide
  descriptorsBehind := by decide
  descriptorsEnd := by decide
  tableBehind := by decide
  tableEnd := by decide
  step2 := by decide
  doReadDisk := by decide
  restore := by decide

/-- The call has its arguments on the stack. -/
private theorem smallCall_called : Called smallCall twoSectors 533 0x1600 0x1208 where
  room := by decide
  fits := by decide
  backHeld := by decide
  sectorHeld := by decide
  addrHeld := by decide

theorem exec_sector_small :
    ∃ c', exec (Bios.plain blank) 0 smallLinked smallCall = some c' ∧ Flat c' ∧ c'.ip = 0x1208 ∧
      c'.regs .esp = smallCall.regs .esp + 4 ∧ c'.regs .eax = (0 : UInt8).toUInt32 ∧
      (∀ r, r ≠ .esp → r ≠ .eax → c'.regs r = smallCall.regs r) ∧ c'.interrupts = false ∧
      c'.mem = (Bios.plain blank).readSector twoSectors 533 0x1600 (saved smallCall) ∧
      c'.mem.read (16 * ((0x1600 : UInt32).toNat / 16)) 512 = blank.sector 533 :=
  exec_sector (Bios.plain blank) 0 ⟨by decide, ⟨rfl, rfl, rfl⟩, fun _ _ => ⟨rfl, rfl, rfl⟩⟩
    smallCall_inLoader smallCall_called (by decide) (by decide)
    (Spares.of_quiet (Bios.plain_quiet blank) (by decide) (.inr (by decide)) (.inl (by decide)))

end Tlibc.Boot.BiosReadDisk
