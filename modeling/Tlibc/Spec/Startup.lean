import Tlibc.Native.Startup
import Tlibc.Spec.BzImage

/-!
# The mode switches of the boot code

The processor gets from real mode to protected mode in `mbr.S`, and back in `bzsetup.S`.

* `ofBytes_segAsm`: the descriptors of `SEG_ASM` mean what they were made from
* `Mbr.enter_flat`: the boot code gets to `__elf_start` in flat segments
* `BzSetup.enter_real`: `jump_to_setup` gets to the start of the heap in real mode
* `code16_ok`: the code there gets to the kernel's setup code, with its segments
-/

namespace Tlibc.Boot

open X86

/-! ## `SEG_ASM` -/

private theorem access_bits : ∀ t < 16,
    let access := (0x90 ||| t) % 2 ^ 8
    access % 16 = t ∧ access.testBit 4 = true ∧ access / 32 % 4 = 0 ∧ access.testBit 7 = true := by
  decide

private theorem flag_bits : ∀ x < 16,
    let flags := (0xC0 ||| x) % 2 ^ 8
    flags % 16 = x ∧ flags.testBit 4 = false ∧ flags.testBit 5 = false ∧ flags.testBit 6 = true ∧
      flags.testBit 7 = true := by
  decide

/-- A descriptor of `SEG_ASM` has the base that was asked for, and the limit in pages. -/
theorem ofBytes_segAsm {type base lim : Nat} (htype : type < 16) (hbase : base < 2 ^ 32)
    (hlim : lim < 2 ^ 32) :
    Descriptor.ofBytes (segAsm type base lim) =
      { base, limit := lim / 4096, type, s := true, dpl := 0, p := true, avl := false, l := false,
        db := true, g := true } := by
  -- masks are remainders by powers of two
  have hword : ∀ n, n &&& 0xffff = n % 2 ^ 16 := fun n => Nat.and_two_pow_sub_one_eq_mod n 16
  have hbyte : ∀ n, n &&& 0xff = n % 2 ^ 8 := fun n => Nat.and_two_pow_sub_one_eq_mod n 8
  have hfour : ∀ n, n &&& 0xf = n % 2 ^ 4 := fun n => Nat.and_two_pow_sub_one_eq_mod n 4
  have hhigh : lim / 2 ^ 28 % 2 ^ 4 < 16 := Nat.mod_lt _ (by decide)
  obtain ⟨htype', hs, hdpl, hp⟩ := access_bits type htype
  obtain ⟨hlimit, havl, hl, hdb, hg⟩ := flag_bits _ hhigh
  -- the eight bytes of the descriptor, put together as the processor does
  unfold Descriptor.ofBytes segAsm
  simp only [Nat.shiftRight_eq_div_pow, hword, hbyte, hfour, Mem.leBytes, Mem.leNat,
    List.cons_append, List.nil_append, List.getD_cons_succ, List.getD_cons_zero,
    List.drop_succ_cons, List.drop_zero, List.take_succ_cons, List.take_zero, UInt8.toNat_ofNat',
    htype', hs, hdpl, hp, hlimit, havl, hl, hdb, hg, Descriptor.mk.injEq, and_true]
  -- what is left are the base and the limit, as sums of their parts
  constructor
  · omega
  · omega

/-! ## The boot code -/

/-- 32-bit code runs in flat segments. -/
structure Flat (c : Cpu) : Prop where
  pe : c.pe = true
  code : (c.seg .cs).Flat
  data : ∀ r ∈ [SReg.ds, .es, .ss], (c.seg r).Flat

/-- 16-bit code runs in real mode, with data segments of at least 64 KiB. -/
structure Real (c : Cpu) : Prop where
  pe : c.pe = false
  code : c.big = false
  data : 0xffff ≤ (c.seg .ds).last

/-- `orl` turns protected mode on. -/
theorem pe_or (a : UInt32) : (a ||| 1).toNat.testBit 0 = true := by
  rw [UInt32.toNat_or, Nat.testBit_or]
  exact Bool.or_true _

namespace Mbr

/-- The boot code is in memory, below 0x8000. -/
structure Loaded (l : Linked) (m : Mem) : Prop where
  gdt : m.read l.gdt gdt.length = gdt
  gdtdesc : m.read (l.gdt + 24) 6 = gdtdesc l.gdt
  low : l.gdt + 30 ≤ 0x8000
  start32 : l.start32 < 0x8000
  elfStart : l.elfStart < 0x8000

/-- The code segment and the data segment of `gdt`. -/
def codeDesc : Descriptor :=
  { base := 0, limit := 0xfffff, type := 0xA, s := true, dpl := 0, p := true, avl := false,
    l := false, db := true, g := true }

/-- The descriptor of the data segments. -/
def dataDesc : Descriptor := { codeDesc with type := 0x2 }

/-- The descriptor of the code segment is the second one of the table. -/
private theorem ofBytes_code : Descriptor.ofBytes ((gdt.drop 8).take 8) = codeDesc :=
  ofBytes_segAsm (by decide) (by decide) (by decide)

/-- The one of the data segments is the third. -/
private theorem ofBytes_data : Descriptor.ofBytes ((gdt.drop 16).take 8) = dataDesc :=
  ofBytes_segAsm (by decide) (by decide) (by decide)

/-- 16-bit code gets to `start32` in protected mode, with a flat code segment. -/
theorem switch_ok {gdtAddr start32 : Nat} {c : Cpu} (h : Real c)
    (hgdt : c.mem.read gdtAddr gdt.length = gdt) (hdesc : c.mem.read (gdtAddr + 24) 6 = gdtdesc gdtAddr)
    (hlow : gdtAddr + 30 ≤ 0x8000) (hstart : start32 < 0x8000) :
    ∃ c', execAll (switch gdtAddr start32) c = some c' ∧ c'.pe = true ∧ c'.Table gdt ∧
      (c'.seg .cs).Flat ∧ c'.interrupts = c.interrupts ∧ c'.mem = c.mem := by
  -- the data segments begin at 0
  let c₁ := c.setPart .word .eax 0
  have hax : (c₁.regs .eax).toUInt16 = 0 := setPart_word c .eax 0
  have hsegs := @execAll_movSeg_real c₁ 0 .eax [.ds, .es, .ss] h.pe hax
  let c₂ := c₁.setSegs [.ds, .es, .ss] fun r => { c₁.seg r with selector := 0, base := 16 * 0 }
  have hsegs : execAll ([SReg.ds, .es, .ss].map fun r => .movSeg .eax r) c₁ = some c₂ := hsegs
  -- the table
  have hoff : c₂.offset (UInt32.ofNat (gdtAddr + 24)) none = gdtAddr + 24 := by
    have hbig : c₂.big = false := h.code
    unfold Cpu.offset
    rw [hbig, if_neg Bool.false_ne_true, Option.elim_none, UInt32.zero_add,
      UInt32.toNat_ofNat_of_lt' (show gdtAddr + 24 < 2 ^ 32 by omega), Nat.mod_eq_of_lt (by omega)]
  have hlinear :
      c₂.linear .ds (c₂.offset (UInt32.ofNat (gdtAddr + 24)) none) 6 = some (gdtAddr + 24) := by
    have hlast : 0xffff ≤ (c₂.seg .ds).last := h.data
    unfold Cpu.linear
    rw [hoff, if_pos (by omega), show (c₂.seg .ds).base = 0 from rfl, Nat.zero_add,
      Nat.mod_eq_of_lt (by omega)]
  have hlgdt := exec_lgdt hlinear hdesc (by decide) (by omega)
  let c₃ := { c₂ with gdtLimit := gdt.length - 1, gdtBase := gdtAddr }
  -- protected mode, and the jump into the code segment
  let c₄ := { c₃.setReg .eax (c.cr0 ||| cr0Pe) with cr0 := c.cr0 ||| cr0Pe }
  have hpe : c₄.pe = true := pe_or c.cr0
  have htable : c₄.Table gdt := ⟨rfl, hgdt⟩
  have hjump := @exec_ljmp_protected c₄ (gdtEntry 1) _ _ start32 hpe htable (by decide)
    ofBytes_code (by decide) (by show start32 ≤ 4294967295; omega)
  let c₅ := { c₄.setSeg .cs ⟨gdtEntry 1, codeDesc.base, codeDesc.last, codeDesc.db⟩ with
    ip := start32 }
  refine ⟨c₅, ?_, hpe, ⟨htable.limit, htable.held⟩, ⟨rfl, rfl, rfl⟩, rfl, rfl⟩
  have hprog : switch gdtAddr start32 = .clear .word .eax ::
      ([SReg.ds, .es, .ss].map (fun r => Instr.movSeg .eax r) ++ .lgdt (UInt32.ofNat (gdtAddr + 24)) ::
        .fromCr0 .eax :: .or cr0Pe .eax :: .toCr0 .eax :: [.ljmp (gdtEntry 1) start32]) := rfl
  rw [hprog, @execAll_cons c c₁ (.clear .word .eax) rfl, execAll_append hsegs, execAll_cons hlgdt,
    execAll_orCr0]
  exact execAll_cons hjump []

/-- `_start` disables interrupts before. -/
private theorem start_ok {l : Linked} {c : Cpu} (h : Real c) (hl : Loaded l c.mem) :
    ∃ c', run false (start l.gdt l.start32) c = some c' ∧ c'.pe = true ∧ c'.Table gdt ∧
      (c'.seg .cs).Flat ∧ c'.interrupts = false ∧ c'.mem = c.mem := by
  obtain ⟨c', hexec, hrest⟩ := @switch_ok l.gdt l.start32 { c with interrupts := false }
    ⟨h.pe, h.code, h.data⟩ hl.gdt hl.gdtdesc hl.low hl.start32
  refine ⟨c', ?_, hrest⟩
  rw [run_eq h.code, start, @execAll_cons c _ .cli rfl, hexec]

/-- The data segments and the stack of 32-bit code. -/
theorem dataSegs_ok {c : Cpu} (hpe : c.pe = true) (htable : c.Table gdt) :
    ∃ c', (∀ is, execAll (.imm .word (gdtEntry 2).toUInt32 .eax :: .movSeg .eax .ds ::
        .movSeg .eax .es :: .movSeg .eax .ss :: .imm .long 0xa000 .esp :: is) c = execAll is c') ∧
      c'.pe = true ∧ c'.seg .cs = c.seg .cs ∧ (∀ r ∈ [SReg.ds, .es, .ss], (c'.seg r).Flat) ∧
      c'.regs .esp = 0xa000 ∧ c'.interrupts = c.interrupts ∧ c'.mem = c.mem := by
  -- the selector of the data segment is loaded to `ds`, `es` and `ss`
  let c₁ := c.setPart .word .eax (gdtEntry 2).toUInt32
  have hax : (c₁.regs .eax).toUInt16 = gdtEntry 2 := setPart_word c .eax _
  have hsegs := @execAll_movSeg_protected c₁ (gdtEntry 2) dataDesc .eax gdt [.ds, .es, .ss] hpe
    ⟨htable.limit, htable.held⟩ ⟨hax, by decide⟩ ofBytes_data (by decide)
  let c₂ := c₁.setSegs [.ds, .es, .ss] fun _ => ⟨gdtEntry 2, dataDesc.base, dataDesc.last, dataDesc.db⟩
  -- and the stack pointer is set
  let c₃ := c₂.setReg .esp 0xa000
  have himm : (Instr.imm .long 0xa000 .esp).exec c₂ = some c₃ := by rw [Instr.exec, setPart_long]
  refine ⟨c₃, fun is => ?_, hpe, rfl, fun r hr => ?_, setReg_self c₂ .esp 0xa000, rfl, rfl⟩
  · have hprog : (.imm .word (gdtEntry 2).toUInt32 .eax :: .movSeg .eax .ds :: .movSeg .eax .es ::
        .movSeg .eax .ss :: .imm .long 0xa000 .esp :: is) =
          Instr.imm .word (gdtEntry 2).toUInt32 .eax ::
            ([SReg.ds, .es, .ss].map (fun r => Instr.movSeg .eax r) ++ .imm .long 0xa000 .esp :: is) :=
      rfl
    rw [hprog, @execAll_cons c c₁ _ rfl, execAll_append hsegs, execAll_cons himm]
  · have hseg : c₃.seg r = ⟨gdtEntry 2, dataDesc.base, dataDesc.last, dataDesc.db⟩ := if_pos hr
    rw [hseg]
    exact ⟨rfl, rfl, rfl⟩

/-- `start32` calls `__elf_start` on the new stack. -/
private theorem start32_ok {l : Linked} {c : Cpu} (hpe : c.pe = true) (htable : c.Table gdt)
    (hcode : (c.seg .cs).Flat) (hstart : l.elfStart < 0x8000) :
    ∃ c', run true (start32 l.elfStart l.back) c = some c' ∧ Flat c' ∧ c'.regs .esp = 0x9ffc ∧
      c'.ip = l.elfStart ∧ c'.interrupts = c.interrupts ∧
      c'.mem = c.mem.write 0x9ffc (Mem.leBytes 4 l.back) := by
  -- behind the segments and the stack there is the call
  obtain ⟨c₁, hexec, hpe₁, hcs₁, hdata, hesp, hint, hmem⟩ := dataSegs_ok hpe htable
  have hcode₁ : (c₁.seg .cs).Flat := by rwa [hcs₁]
  have hcall := @exec_call c₁ l.elfStart l.back (hdata .ss (by decide)) hcode₁ (by rw [hesp]; decide)
    (by omega)
  -- the return address is stored at the top of the stack
  have hsub : (0xa000 : UInt32) - 4 = 0x9ffc := by decide
  have hnat : (0xa000 : UInt32).toNat - 4 = 0x9ffc := by decide
  rw [hesp, hsub, hnat, hmem] at hcall
  let c₂ := { c₁.setReg .esp 0x9ffc with
    mem := c.mem.write 0x9ffc (Mem.leBytes 4 l.back), ip := l.elfStart }
  refine ⟨c₂, ?_, ⟨hpe₁, hcode₁, hdata⟩, setReg_self c₁ .esp 0x9ffc, rfl, hint, rfl⟩
  rw [run_eq hcode.big, start32, hexec]
  exact execAll_cons hcall []

/-- The boot code enters `__elf_start` in flat segments, on a stack below 0xA000. -/
theorem enter_flat {l : Linked} {c : Cpu} (h : Real c) (hl : Loaded l c.mem) :
    ∃ c', enter l c = some c' ∧ Flat c' ∧ c'.interrupts = false ∧ c'.regs .esp = 0x9ffc ∧
      c'.ip = l.elfStart ∧ c'.mem = c.mem.write 0x9ffc (Mem.leBytes 4 l.back) := by
  obtain ⟨c₁, hstart, hpe, htable, hcode, hint, hmem⟩ := start_ok h hl
  obtain ⟨c₂, hstart32, hflat, hesp, hip, hint₂, hmem₂⟩ := start32_ok hpe htable hcode hl.elfStart
  refine ⟨c₂, ?_, hflat, hint₂.trans hint, hesp, hip, by rw [hmem₂, hmem]⟩
  rw [enter, hstart, Option.bind_eq_bind, Option.bind_some, hstart32]

end Mbr

/-! ## Back to real mode -/

/-- The segment of 16-bit code in `.descriptors`, and that of its data. -/
def code16Desc : Descriptor :=
  { base := 0, limit := 0xffff, type := 0xA, s := true, dpl := 0, p := true, avl := false,
    l := false, db := false, g := false }

/-- The descriptor of the data segments of 16 bits. -/
def data16Desc : Descriptor := { code16Desc with type := 0x2 }

/-- `andl` turns it off. -/
private theorem pe_and (a : UInt32) : (a &&& ~~~1).toNat.testBit 0 = false := by
  rw [UInt32.toNat_and, Nat.testBit_and]
  exact Bool.and_false _

/-- The data segments of 16-bit code. -/
def dataRegs : List SReg := [.ds, .es, .fs, .gs, .ss]

/-- The data segments have 64 KiB, and `PE` is clear. -/
theorem toReal_ok {c : Cpu} {bs : List UInt8} (hpe : c.pe = true) (htable : c.Table bs)
    (hlen : 24 ≤ bs.length) (hdata : Descriptor.ofBytes ((bs.drop 16).take 8) = data16Desc) :
    ∃ c', (∀ is, execAll (toReal ++ is) c = execAll is c') ∧ c'.pe = false ∧
      (∀ r ∈ dataRegs, c'.seg r = ⟨16, 0, 0xffff, false⟩) ∧ c'.seg .cs = c.seg .cs ∧
      (∀ r ≠ .eax, c'.regs r = c.regs r) ∧ (c'.gdtLimit = c.gdtLimit ∧ c'.gdtBase = c.gdtBase) ∧
      c'.interrupts = c.interrupts ∧ c'.mem = c.mem := by
  -- the selector of the 16 bit data segment
  let c₁ := c.setReg .eax (gdtEntry 2).toUInt32
  have himm : (Instr.imm .long (gdtEntry 2).toUInt32 .eax).exec c = some c₁ := by
    rw [Instr.exec, setPart_long]
  have hax : (c₁.regs .eax).toUInt16 = gdtEntry 2 := congrArg UInt32.toUInt16 (setReg_self c .eax _)
  have hentry : (gdtEntry 2).toNat = 16 := by decide
  have hsegs := @execAll_movSeg_protected c₁ (gdtEntry 2) data16Desc .eax bs dataRegs hpe
    ⟨htable.limit, htable.held⟩ ⟨hax, by decide, by decide, by rw [hentry]; exact hlen⟩ hdata
    (by decide)
  let c₂ := c₁.setSegs dataRegs fun _ =>
    ⟨gdtEntry 2, data16Desc.base, data16Desc.last, data16Desc.db⟩
  let c₃ := { c₂.setReg .eax (c.cr0 &&& ~~~1) with cr0 := c.cr0 &&& ~~~1 }
  refine ⟨c₃, fun is => ?_, pe_and c.cr0, fun r hr => ?_, rfl, fun r hr => ?_, ⟨rfl, rfl⟩, rfl, rfl⟩
  · have hprog : toReal ++ is = .imm .long (gdtEntry 2).toUInt32 .eax ::
        (dataRegs.map (fun r => Instr.movSeg .eax r) ++
          .fromCr0 .eax :: .and (~~~1) .eax :: .toCr0 .eax :: is) := rfl
    rw [hprog, execAll_cons himm, execAll_append hsegs, execAll_andCr0]
    rfl
  · exact if_pos hr
  · show Function.update (Function.update c.regs .eax _) .eax _ r = c.regs r
    rw [Function.update_of_ne hr, Function.update_of_ne hr]

namespace BzSetup

/-- What `jump_to_setup` needs of the loader: its table, with the descriptors at `addr`, is
    below the heap. -/
structure Linked (m : Mem) (table addr next heapEnd : Nat) : Prop where
  tableHeld : m.read table 6 = Boot.table descriptors addr
  descriptorsHeld : m.read addr 24 = descriptors
  belowAddr : addr + 24 + 4 ≤ heapEnd
  belowTable : table + 6 + 4 ≤ heapEnd
  next : next < 0x10000
  heap : heapEnd ≤ 2 ^ 24

/-- `jump_to_setup(base_ptr, heap_end)` is called. -/
structure Called (c : Cpu) (back basePtr heapEnd : Nat) : Prop where
  fits : (c.regs .esp).toNat + 12 ≤ 2 ^ 32
  back : c.mem.load (c.regs .esp).toNat 4 = back
  basePtr : c.mem.load ((c.regs .esp).toNat + 4) 4 = basePtr
  heapEnd : c.mem.load ((c.regs .esp).toNat + 8) 4 = heapEnd

/-- The code segment of 16 bits is the second one of its table. -/
private theorem ofBytes_code16 :
    Descriptor.ofBytes ((descriptors.drop 8).take 8) = code16Desc := by decide

/-- The data segments of 16 bits are the third. -/
private theorem ofBytes_data16 :
    Descriptor.ofBytes ((descriptors.drop 16).take 8) = data16Desc := by decide

/-- The arguments are taken from the stack, which moves to the end of the heap. -/
private theorem jumpToSetup_ok {c : Cpu} {back basePtr heapEnd table addr next : Nat} (h : Flat c)
    (hcalled : Called c back basePtr heapEnd) (hl : Linked c.mem table addr next heapEnd) :
    ∃ c', run true (jumpToSetup table next) c = some c' ∧ c'.pe = true ∧ c'.Table descriptors ∧
      c'.seg .cs = ⟨8, 0, 0xffff, false⟩ ∧ c'.ip = next ∧ (c'.regs .esp).toNat = heapEnd - 4 ∧
      c'.interrupts = false ∧ c'.mem = c.mem.write (heapEnd - 4) (Mem.leBytes 4 back) := by
  obtain ⟨hfits, hback, -, hheap⟩ := hcalled
  have hss : (c.seg .ss).Flat := h.data .ss (by decide)
  have hle := hl.belowAddr
  have hle' := hl.belowTable
  have hmax := hl.heap
  -- the three pops
  have hfour : (c.regs .esp + 4).toNat = (c.regs .esp).toNat + 4 := by
    rw [UInt32.toNat_add, show (4 : UInt32).toNat = 4 from rfl, Nat.mod_eq_of_lt (by omega)]
  have height : (c.regs .esp + 4 + 4).toNat = (c.regs .esp).toNat + 8 := by
    rw [UInt32.toNat_add, hfour, show (4 : UInt32).toNat = 4 from rfl, Nat.mod_eq_of_lt (by omega)]
  have hpop₁ := @exec_pop c .eax hss (by omega)
  rw [hback] at hpop₁
  let c₁ := (c.setReg .esp (c.regs .esp + 4)).setReg .eax (UInt32.ofNat back)
  have hesp₁ : c₁.regs .esp = c.regs .esp + 4 := by simp [c₁]
  have hpop₂ := @exec_pop c₁ .edi hss (by rw [hesp₁]; omega)
  rw [hesp₁] at hpop₂
  let c₂ := (c₁.setReg .esp (c.regs .esp + 4 + 4)).setReg .edi
    (UInt32.ofNat (c₁.mem.load (c.regs .esp + 4).toNat 4))
  have hesp₂ : c₂.regs .esp = c.regs .esp + 4 + 4 := by simp [c₂]
  have hpop₃ := @exec_pop c₂ .edx hss (by rw [hesp₂]; omega)
  have hload : c₂.mem.load (c.regs .esp + 4 + 4).toNat 4 = heapEnd := by
    rw [height]
    exact hheap
  rw [hesp₂, hload] at hpop₃
  let c₃ := (c₂.setReg .esp (c.regs .esp + 4 + 4 + 4)).setReg .edx (UInt32.ofNat heapEnd)
  -- the new stack
  let c₄ := c₃.setReg .esp (c₃.regs .edx)
  have hesp₄ : c₄.regs .esp = UInt32.ofNat heapEnd := by simp [c₄, c₃]
  have hnat : (UInt32.ofNat heapEnd).toNat = heapEnd :=
    UInt32.toNat_ofNat_of_lt' (show heapEnd < 2 ^ 32 by omega)
  have heax : (c₄.regs .eax).toNat = back := by
    have hlt : back < 2 ^ 32 := hback ▸ Mem.load_lt c.mem _ 4
    have heq : c₄.regs .eax = UInt32.ofNat back := by simp [c₄, c₃, c₂, c₁]
    rw [heq, UInt32.toNat_ofNat_of_lt' hlt]
  have hpush := @exec_push c₄ .eax hss (by rw [hesp₄, hnat]; omega)
  rw [hesp₄, hnat, heax] at hpush
  let c₅ := { c₄.setReg .esp (UInt32.ofNat heapEnd - 4) with
    mem := c.mem.write (heapEnd - 4) (Mem.leBytes 4 back) }
  have hpush : Instr.exec c₄ (.push .eax) = some c₅ := hpush
  let c₆ := { c₅ with interrupts := false }
  -- the table is still there
  have hframe := Mem.frame_write c.mem (heapEnd - 4) (Mem.leBytes 4 back)
  have htable : c₆.mem.read table 6 = Boot.table descriptors addr := by
    rw [← hl.tableHeld]
    apply hframe.read
    rintro i hi ⟨hge, -⟩
    omega
  have hdescriptors : c₆.mem.read addr 24 = descriptors := by
    rw [← hl.descriptorsHeld]
    apply hframe.read
    rintro i hi ⟨hge, -⟩
    omega
  have hds : (c₆.seg .ds).Flat := h.data .ds (by decide)
  have hoff : c₆.offset (UInt32.ofNat table) none = table := by
    have hbig : c₆.big = true := h.code.big
    unfold Cpu.offset
    rw [hbig, if_pos rfl, Option.elim_none, UInt32.zero_add,
      UInt32.toNat_ofNat_of_lt' (show table < 2 ^ 32 by omega)]
  have hlinear : c₆.linear .ds (c₆.offset (UInt32.ofNat table) none) 6 = some table := by
    rw [hoff]
    exact linear_flat hds (by decide) (by omega)
  let c₇ := { c₆ with gdtLimit := descriptors.length - 1, gdtBase := addr }
  have hlgdt : Instr.exec c₆ (.lgdt (UInt32.ofNat table)) = some c₇ :=
    exec_lgdt hlinear htable (by decide) (show addr < 2 ^ 24 by omega)
  have htable₇ : c₇.Table descriptors := ⟨rfl, hdescriptors⟩
  have hnext := hl.next
  have hjump := @exec_ljmp_protected c₇ (gdtEntry 1) _ _ next h.pe htable₇ (by decide)
    ofBytes_code16 (by decide) (by show next ≤ 65535; omega)
  let c₈ := { c₇.setSeg .cs ⟨gdtEntry 1, code16Desc.base, code16Desc.last, code16Desc.db⟩ with
    ip := next }
  have hesp : (UInt32.ofNat heapEnd - 4).toNat = heapEnd - 4 := by
    have hfour : (4 : UInt32) ≤ UInt32.ofNat heapEnd :=
      UInt32.le_iff_toNat_le.mpr (by rw [hnat]; show 4 ≤ heapEnd; omega)
    rw [UInt32.toNat_sub_of_le _ _ hfour, hnat]
    rfl
  refine ⟨c₈, ?_, h.pe, ⟨htable₇.limit, htable₇.held⟩, rfl, rfl, ?_, rfl, rfl⟩
  · rw [run_eq h.code.big, jumpToSetup, execAll_cons hpop₁, execAll_cons hpop₂, execAll_cons hpop₃,
      @execAll_cons c₃ c₄ (.mov .edx .esp) rfl, execAll_cons hpush,
      @execAll_cons c₅ c₆ .cli rfl, execAll_cons hlgdt, execAll_cons hjump]
    rfl
  · show (Function.update c₄.regs .esp (UInt32.ofNat heapEnd - 4) .esp).toNat = heapEnd - 4
    rw [Function.update_self, hesp]

/-- Linear address 0xA000. -/
theorem enter_real {c : Cpu} {back basePtr heapEnd table addr next : Nat} (h : Flat c)
    (hcalled : Called c back basePtr heapEnd) (hl : Linked c.mem table addr next heapEnd) :
    ∃ c', enter table next c = some c' ∧ c'.pe = false ∧
      c'.seg .cs = ⟨0x220, 0x2200, 0xffff, false⟩ ∧ c'.ip = 0x7e00 ∧
      (∀ r ∈ dataRegs, c'.seg r = ⟨16, 0, 0xffff, false⟩) ∧
      (c'.regs .esp).toNat = heapEnd - 4 ∧ c'.interrupts = false ∧
      c'.mem = c.mem.write (heapEnd - 4) (Mem.leBytes 4 back) := by
  obtain ⟨c₁, hrun, hpe, htable, hcs, hip, hesp, hint, hmem⟩ := jumpToSetup_ok h hcalled hl
  obtain ⟨c₂, hreal, hpe₂, hdata, hcs₂, hregs, -, hint₂, hmem₂⟩ :=
    toReal_ok hpe htable (by decide) ofBytes_data16
  rw [hcs] at hcs₂
  -- in real mode the jump sets the base of `cs` to 16 times its selector
  have hjump := @exec_ljmp_real c₂ 0x220 (0xa000 - 0x2200) hpe₂ (by rw [hcs₂]; decide)
  rw [hcs₂] at hjump
  let c₃ := { c₂.setSeg .cs ⟨0x220, 0x2200, 0xffff, false⟩ with ip := 0x7e00 }
  refine ⟨c₃, ?_, hpe₂, rfl, rfl, fun r hr => ?_, ?_, hint₂.trans hint, hmem₂.trans hmem⟩
  · have hbig : c₁.big = false := congrArg Segment.big hcs
    rw [enter, hrun, Option.bind_eq_bind, Option.bind_some, run_eq hbig, BzSetup.next, hreal,
      execAll_cons hjump]
    rfl
  · -- the other segments keep the limits of protected mode
    have hne : r ≠ .cs := by
      rintro rfl
      exact absurd hr (by decide)
    show Function.update c₂.seg .cs _ r = _
    rw [Function.update_of_ne hne, hdata r hr]
  · show (c₂.regs .esp).toNat = heapEnd - 4
    rw [hregs .esp (by decide), hesp]

end BzSetup

/-! ## The 16-bit code -/

/-- The code ends with its jump. -/
private theorem code16_eq : BzImage.code16 = BzImage.code16.take 17 ++ [0xff, 0xe0] := rfl

/-- The instructions in front of it. -/
private theorem assembleAll_code16 :
    assembleAll code16Segments = some (BzImage.code16.take 17) := by decide

/-- The code in `code16`, up to the jump. -/
private theorem code16Segments_ok {c : Cpu} (hpe : c.pe = false) :
    ∃ c', execAll code16Segments c = some c' ∧ c'.pe = false ∧ c'.seg .cs = c.seg .cs ∧
      (c'.regs .eax).toUInt16 = 0 ∧ (∀ r ≠ .eax, c'.regs r = c.regs r) ∧
      (∀ r ∈ dataRegs, c'.seg r = { c.seg r with selector := 0x200, base := 0x2000 }) ∧
      c'.interrupts = c.interrupts ∧ c'.mem = c.mem := by
  let c₁ := c.setPart .word .eax 0
  let c₂ := c₁.setPart .word .eax (c₁.regs .eax + 0x200)
  -- `0x200` is the segment of the setup code
  have hax : (c₂.regs .eax).toUInt16 = 0x200 := by
    have hzero : (c₁.regs .eax).toUInt16 = 0 := setPart_word c .eax 0
    have hadd : (c₂.regs .eax).toUInt16 = (c₁.regs .eax + 0x200).toUInt16 := setPart_word c₁ .eax _
    rw [hadd, UInt32.toUInt16_add, hzero]
    rfl
  -- it is loaded to the five data segments
  have hsegs := @execAll_movSeg_real c₂ 0x200 .eax [.ds, .ss, .es, .fs, .gs] hpe hax
  let c₃ := c₂.setSegs [.ds, .ss, .es, .fs, .gs] fun r =>
    { c₂.seg r with selector := 0x200, base := 0x2000 }
  have hsegs : execAll ([SReg.ds, .ss, .es, .fs, .gs].map fun r => .movSeg .eax r) c₂ = some c₃ := hsegs
  -- and `ax` is cleared
  let c₄ := c₃.setPart .word .eax 0
  refine ⟨c₄, ?_, hpe, rfl, setPart_word c₃ .eax 0, fun r hr => ?_, fun r hr => ?_, rfl, rfl⟩
  · have hprog : code16Segments = .clear .word .eax :: .add .word 0x200 .eax ::
        ([SReg.ds, .ss, .es, .fs, .gs].map (fun r => Instr.movSeg .eax r) ++
          [.clear .word .eax]) := rfl
    rw [hprog, @execAll_cons c c₁ (.clear .word .eax) rfl,
      @execAll_cons c₁ c₂ (.add .word 0x200 .eax) rfl, execAll_append hsegs,
      @execAll_cons c₃ c₄ (.clear .word .eax) rfl]
    rfl
  · simp [c₄, c₃, c₂, c₁, Cpu.setPart, Function.update_of_ne hr]
  · have hmem : r ∈ [SReg.ds, .ss, .es, .fs, .gs] := by
      revert r
      decide
    exact if_pos hmem

/-- The bytes of `code16` set the segments to 0x200 and jump to the beginning of the code
    segment. -/
theorem code16_ok {c : Cpu} (hpe : c.pe = false) (hcs : c.seg .cs = ⟨0x220, 0x2200, 0xffff, false⟩)
    (hip : c.ip = 0x7e00) (hcode : c.mem.read 0xa000 19 = BzImage.code16) :
    ∃ c', c.steps 9 = some c' ∧ c'.pe = false ∧ c'.seg .cs = c.seg .cs ∧ c'.ip = 0 ∧
      (∀ r ∈ dataRegs, c'.seg r = { c.seg r with selector := 0x200, base := 0x2000 }) ∧
      c'.regs .esp = c.regs .esp ∧ c'.interrupts = c.interrupts ∧ c'.mem = c.mem := by
  obtain ⟨c₁, hexec, hpe₁, hcs₁, hax, hregs, hdata, hint, hmem⟩ := code16Segments_ok hpe
  have hbig : c.big = false := congrArg Segment.big hcs
  have hbase : (c.seg .cs).base + c.ip = 0xa000 := by rw [hcs, hip]
  have hlast : (c.seg .cs).last = 0xffff := by rw [hcs]
  -- up to the jump
  have hlen : (BzImage.code16.take 17).length = 17 := rfl
  have hread : c.mem.read ((c.seg .cs).base + c.ip) (BzImage.code16.take 17).length =
      BzImage.code16.take 17 := by
    rw [hbase, hlen, ← Mem.take_read c.mem 0xa000 19 17 (by decide), hcode]
  have hsteps := steps_of_assemble assembleAll_code16 (by decide) hbig
    (by rw [hbase, hlen]; decide) hread (by rw [hip, hlen, hlast]; decide) hexec
  rw [hip, hlen] at hsteps
  let c₂ := { c₁ with ip := 0x7e00 + 17 }
  have hsteps : c.steps 8 = some c₂ := hsteps
  -- the jump
  have hcs₂ : c₂.seg .cs = ⟨0x220, 0x2200, 0xffff, false⟩ := hcs₁.trans hcs
  have hbehind : c₂.mem.read (0xa000 + 17) 2 = [0xff, 0xe0] := by
    have hsplit := Mem.read_add c.mem 0xa000 17 2
    rw [hcode, code16_eq] at hsplit
    show c₁.mem.read (0xa000 + 17) 2 = _
    rw [hmem]
    exact (List.append_inj hsplit (by rw [hlen, Mem.length_read])).2.symm
  have haddr : ((c₂.seg .cs).base + c₂.ip) % 2 ^ 32 = 0xa000 + 17 := by
    rw [hcs₂]
    rfl
  have hstep := @step_of_assemble c₂ (.jmp .eax) [0xff, 0xe0] rfl (congrArg Segment.big hcs₂)
    (by rw [haddr]; exact hbehind)
    (by rw [hcs₂]; show 0x7e00 + 17 + 2 ≤ 0xffff + 1; decide)
  let c₃ := { c₂ with ip := 0x7e00 + 17 + 2 }
  have hzero : c₃.offset 0 (some .eax) = 0 := by
    have hax : (c₁.regs .eax).toNat % 2 ^ 16 = 0 := congrArg UInt16.toNat hax
    have hbig : c₃.big = false := congrArg Segment.big hcs₂
    unfold Cpu.offset
    rw [hbig, if_neg Bool.false_ne_true, Option.elim_some, UInt32.add_zero]
    exact hax
  have hjump : c₂.step = some { c₃ with ip := 0 } := by
    rw [hstep]
    show c₃.jump (c₃.offset 0 (some .eax)) = _
    rw [hzero]
    exact jump_eq (Nat.zero_le _)
  refine ⟨{ c₃ with ip := 0 }, ?_, hpe₁, hcs₁, rfl, hdata, hregs .esp (by decide), hint, hmem⟩
  rw [steps_add 8 1, hsteps, Option.bind_eq_bind, Option.bind_some, Cpu.steps, hjump]
  rfl

end Tlibc.Boot
