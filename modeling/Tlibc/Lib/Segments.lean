import Tlibc.Lib.Mem
import Mathlib.Logic.Function.Basic

/-!
# Segments and modes of an x86 processor

How a 32-bit processor gets from an offset in a segment to an address: in real mode the
selector says where the segment begins, in protected mode a descriptor in a table in memory
does. A segment register keeps what it was loaded with when the mode changes. The
instructions are those of code that changes the mode, and run at privilege level 0.

* `steps_of_assemble`: code in memory runs as the instructions that it was assembled from
* `exec_ljmp_protected`, `execAll_movSeg_protected`: a segment register is loaded with a
  descriptor that passes the checks
-/

namespace X86

/-! ## Descriptors -/

/-- A segment descriptor. The limit is counted in bytes or, with `g`, in pages. -/
structure Descriptor where
  base : Nat
  limit : Nat
  type : Nat
  s : Bool
  dpl : Nat
  p : Bool
  avl : Bool
  l : Bool
  db : Bool
  g : Bool
  deriving DecidableEq, Repr

/-- The fields in the eight bytes of a descriptor. -/
def Descriptor.ofBytes (bs : List UInt8) : Descriptor :=
  let access := (bs.getD 5 0).toNat
  let flags := (bs.getD 6 0).toNat
  { base := Mem.leNat ((bs.drop 2).take 3) + 2 ^ 24 * (bs.getD 7 0).toNat
    limit := Mem.leNat (bs.take 2) + 2 ^ 16 * (flags % 16)
    type := access % 16
    s := access.testBit 4
    dpl := access / 32 % 4
    p := access.testBit 7
    avl := flags.testBit 4
    l := flags.testBit 5
    db := flags.testBit 6
    g := flags.testBit 7 }

/-- The last offset in the segment. -/
def Descriptor.last (d : Descriptor) : Nat := if d.g then 4096 * d.limit + 4095 else d.limit

/-! ## The processor -/

inductive SReg where
  | es
  | cs
  | ss
  | ds
  | fs
  | gs
  deriving DecidableEq, Repr

/-- A segment register, with what the processor keeps about its segment. -/
structure Segment where
  selector : UInt16
  base : Nat
  last : Nat
  big : Bool
  deriving DecidableEq, Repr

inductive Reg where
  | eax
  | ecx
  | edx
  | ebx
  | esp
  | ebp
  | esi
  | edi
  deriving DecidableEq, Repr

/-- The processor and its memory. The instruction pointer is followed only where a jump
    sets it, and where code is fetched from memory. -/
structure Cpu where
  regs : Reg → UInt32
  seg : SReg → Segment
  ip : Nat
  cr0 : UInt32
  gdtBase : Nat
  gdtLimit : Nat
  interrupts : Bool
  mem : Mem

namespace Cpu

/-- `CR0.PE`. -/
def pe (c : Cpu) : Bool := c.cr0.toNat.testBit 0

/-- The descriptor may be loaded into the register: code into `cs`, data that can be written
    into `ss`, and what can be read into the others. -/
def Fits (r : SReg) (d : Descriptor) : Prop :=
  d.p ∧ d.s ∧
    match r with
    | .cs => d.type.testBit 3
    | .ss => d.type.testBit 3 = false ∧ d.type.testBit 1
    | _ => d.type.testBit 3 = false ∨ d.type.testBit 1

instance (r : SReg) (d : Descriptor) : Decidable (Fits r d) := by
  unfold Fits
  cases r <;> infer_instance

/-- The descriptor of a selector. -/
def descriptor (c : Cpu) (sel : UInt16) : Descriptor :=
  Descriptor.ofBytes (c.mem.read (c.gdtBase + sel.toNat) 8)

/-- Sets a segment register. -/
def setSeg (c : Cpu) (r : SReg) (seg : Segment) : Cpu :=
  { c with seg := Function.update c.seg r seg }

/-- Sets a register. -/
def setReg (c : Cpu) (r : Reg) (v : UInt32) : Cpu :=
  { c with regs := Function.update c.regs r v }

/-- Load a segment register, in protected mode by a selector of the global table that asks
    for privilege level 0. -/
def loadSeg (c : Cpu) (r : SReg) (sel : UInt16) : Option Cpu :=
  if c.pe then
    let d := c.descriptor sel
    if sel ≠ 0 ∧ sel.toNat % 8 = 0 ∧ sel.toNat + 7 ≤ c.gdtLimit ∧ Fits r d then
      some (c.setSeg r ⟨sel, d.base, d.last, d.db⟩)
    else
      none
  else
    some (c.setSeg r { c.seg r with selector := sel, base := 16 * sel.toNat })

/-- The address of `n` bytes of a segment. -/
def linear (c : Cpu) (r : SReg) (off n : Nat) : Option Nat :=
  if off + n ≤ (c.seg r).last + 1 then some (((c.seg r).base + off) % 2 ^ 32) else none

/-- The operands of an instruction are those of 32-bit code. -/
def big (c : Cpu) : Bool := (c.seg .cs).big

end Cpu

/-! ## Instructions -/

inductive Size where
  | byte
  | word
  | long
  deriving DecidableEq, Repr

def Size.bytes : Size → Nat
  | .byte => 1
  | .word => 2
  | .long => 4

/-- The instructions, with their operands in the order of the AT&T syntax. The size of a
    register operand says which of `%al`, `%ax` and `%eax` it is. -/
inductive Instr where
  | cli
  /-- `mov $v, %dst` -/
  | imm (size : Size) (v : UInt32) (dst : Reg)
  /-- `movb $v, %ah`, and so on -/
  | immHigh (v : UInt8) (dst : Reg)
  /-- `xor %dst, %dst` -/
  | clear (size : Size) (dst : Reg)
  /-- `add $v, %dst` -/
  | add (size : Size) (v : UInt32) (dst : Reg)
  /-- `or $v, %dst` -/
  | or (v : UInt32) (dst : Reg)
  /-- `and $v, %dst` -/
  | and (v : UInt32) (dst : Reg)
  /-- `shr $v, %dst` -/
  | shr (size : Size) (v : Nat) (dst : Reg)
  /-- `mov %src, %dst` -/
  | mov (src dst : Reg)
  /-- `mov disp(%base), %dst`, or `mov disp, %dst` -/
  | load (size : Size) (disp : UInt32) (base : Option Reg) (dst : Reg)
  /-- `mov %src, disp(%base)`, or `mov %src, disp` -/
  | store (size : Size) (src : Reg) (disp : UInt32) (base : Option Reg)
  /-- `mov $v, disp(%base)` -/
  | storeImm (size : Size) (v : UInt32) (disp : UInt32) (base : Option Reg)
  /-- `movw %src, %dst`, for a segment register -/
  | movSeg (src : Reg) (dst : SReg)
  /-- `mov %cr0, %dst` -/
  | fromCr0 (dst : Reg)
  /-- `mov %src, %cr0` -/
  | toCr0 (src : Reg)
  /-- `lgdt disp` -/
  | lgdt (disp : UInt32)
  /-- `ljmp $sel, $off` -/
  | ljmp (sel : UInt16) (off : Nat)
  /-- `jmp *%src` -/
  | jmp (src : Reg)
  /-- `call target`, which returns to `back` -/
  | call (target back : Nat)
  | push (src : Reg)
  | pop (dst : Reg)
  | ret
  deriving DecidableEq, Repr

/-- The low `k` bits are replaced. -/
def merge (k : Nat) (old v : UInt32) : UInt32 :=
  UInt32.ofNat (old.toNat / 2 ^ k * 2 ^ k + v.toNat % 2 ^ k)

namespace Cpu

/-- Store into a part of a register. -/
def setPart (c : Cpu) (size : Size) (r : Reg) (v : UInt32) : Cpu :=
  c.setReg r (merge (8 * size.bytes) (c.regs r) v)

/-- The offset of a memory operand. -/
def offset (c : Cpu) (disp : UInt32) (base : Option Reg) : Nat :=
  let a := (base.elim 0 c.regs + disp).toNat
  if c.big then a else a % 2 ^ 16

/-- The segment that a memory operand is in. -/
def operandSeg (base : Option Reg) :
    SReg := if base = some .esp ∨ base = some .ebp then .ss else .ds

/-- Push a double word on a stack with 32-bit offsets. -/
def push (c : Cpu) (v : Nat) : Option Cpu :=
  if (c.seg .ss).big then do
    let esp := c.regs .esp - 4
    let a ← c.linear .ss esp.toNat 4
    return { c.setReg .esp esp with mem := c.mem.write a (Mem.leBytes 4 v) }
  else
    none

/-- Takes a long off the stack. -/
def pop (c : Cpu) : Option (Nat × Cpu) :=
  if (c.seg .ss).big then do
    let esp := c.regs .esp
    let a ← c.linear .ss esp.toNat 4
    return (c.mem.load a 4, c.setReg .esp (esp + 4))
  else
    none

/-- A jump inside of the code segment. -/
def jump (c : Cpu) (off : Nat) : Option Cpu :=
  if off ≤ (c.seg .cs).last then some { c with ip := off } else none

end Cpu

/-- What an instruction does, none where it faults. -/
def Instr.exec (c : Cpu) : Instr → Option Cpu
  | cli => some { c with interrupts := false }
  | imm size v dst => some (c.setPart size dst v)
  | immHigh v dst =>
    let low := UInt32.ofNat (256 * v.toNat + (c.regs dst).toNat % 256)
    some (c.setPart .word dst low)
  | clear size dst => some (c.setPart size dst 0)
  | add size v dst => some (c.setPart size dst (c.regs dst + v))
  | or v dst => some (c.setReg dst (c.regs dst ||| v))
  | and v dst => some (c.setReg dst (c.regs dst &&& v))
  | shr size v dst =>
    some (c.setPart size dst (UInt32.ofNat ((c.regs dst).toNat % 2 ^ (8 * size.bytes) / 2 ^ v)))
  | mov src dst => some (c.setReg dst (c.regs src))
  | load size disp base dst => do
    let a ← c.linear (Cpu.operandSeg base) (c.offset disp base) size.bytes
    return c.setPart size dst (UInt32.ofNat (c.mem.load a size.bytes))
  | store size src disp base => do
    let a ← c.linear (Cpu.operandSeg base) (c.offset disp base) size.bytes
    return { c with mem := c.mem.write a (Mem.leBytes size.bytes (c.regs src).toNat) }
  | storeImm size v disp base => do
    let a ← c.linear (Cpu.operandSeg base) (c.offset disp base) size.bytes
    return { c with mem := c.mem.write a (Mem.leBytes size.bytes v.toNat) }
  | movSeg src dst => c.loadSeg dst (c.regs src).toUInt16
  | fromCr0 dst => some (c.setReg dst c.cr0)
  | toCr0 src => some { c with cr0 := c.regs src }
  | lgdt disp => do
    let a ← c.linear .ds (c.offset disp none) 6
    -- 16-bit code loads 24 bits of the address
    return { c with gdtLimit := c.mem.load a 2, gdtBase := c.mem.load (a + 2) (if c.big then 4 else 3) }
  | ljmp sel off => do
    let c ← c.loadSeg .cs sel
    c.jump off
  | jmp src => c.jump (c.offset 0 (some src))
  | call target back => do
    let c ← c.push back
    c.jump target
  | push src => c.push (c.regs src).toNat
  | pop dst => do
    let (v, c) ← c.pop
    return c.setReg dst (UInt32.ofNat v)
  | ret => do
    let (v, c) ← c.pop
    c.jump v

/-- One instruction after another. -/
def execAll (code : List Instr) (c : Cpu) : Option Cpu := code.foldlM Instr.exec c

/-- Code of the size it was assembled for. -/
def run (big : Bool) (code : List Instr) (c : Cpu) : Option Cpu :=
  if c.big = big then execAll code c else none

/-- A list of instructions runs its first one, and then the others. -/
theorem execAll_cons {c c' : Cpu} {i : Instr} (h : i.exec c = some c') (is : List Instr) :
    execAll (i :: is) c = execAll is c' := by
  rw [execAll, List.foldlM_cons, h]
  rfl

/-- Two lists run one after the other. -/
theorem execAll_append {c c' : Cpu} {is : List Instr} (h : execAll is c = some c')
    (js : List Instr) : execAll (is ++ js) c = execAll js c' := by
  rw [execAll, List.foldlM_append, ← execAll, h]
  rfl

/-- Code that is assembled for the mode of the processor runs as its instructions. -/
theorem run_eq {c : Cpu} {big : Bool} (h : c.big = big) (code : List Instr) :
    run big code c = execAll code c := if_pos h

/-! ## 16-bit code in memory -/

/-- The number of a segment register in an instruction. -/
def SReg.code : SReg → Nat
  | .es => 0
  | .cs => 1
  | .ss => 2
  | .ds => 3
  | .fs => 4
  | .gs => 5

/-- The segment registers that `mov` can load. -/
def SReg.ofCode : Nat → Option SReg
  | 0 => some .es
  | 2 => some .ss
  | 3 => some .ds
  | 4 => some .fs
  | 5 => some .gs
  | _ => none

/-- The bytes of an instruction on `%ax`. -/
def assemble : Instr → Option (List UInt8)
  | .clear size dst => if size = .word ∧ dst = .eax then some [0x31, 0xc0] else none
  | .add size v dst =>
    if size = .word ∧ dst = .eax ∧ v < 0x10000 then some (0x05 :: Mem.leBytes 2 v.toNat) else none
  | .movSeg src r =>
    if src = .eax ∧ r ≠ .cs then some [0x8e, UInt8.ofNat (0xc0 + 8 * r.code)] else none
  | .jmp src => if src = .eax then some [0xff, 0xe0] else none
  | _ => none

/-- An instruction on `%ax`, and how many bytes it has. -/
def decode : List UInt8 → Option (Instr × Nat)
  | op :: arg :: rest =>
    if op = 0x31 ∧ arg = 0xc0 then
      some (.clear .word .eax, 2)
    else if op = 0x05 then
      some (.add .word (UInt32.ofNat (Mem.leNat (arg :: rest.take 1))) .eax, 3)
    else if op = 0x8e ∧ 0xc0 ≤ arg ∧ arg.toNat % 8 = 0 then
      (SReg.ofCode (arg.toNat / 8 % 8)).map fun r => (.movSeg .eax r, 2)
    else if op = 0xff ∧ arg = 0xe0 then
      some (.jmp .eax, 2)
    else
      none
  | _ => none

/-- Fetch an instruction of 16-bit code and execute it. -/
def Cpu.step (c : Cpu) : Option Cpu :=
  if c.big then
    none
  else do
    let (i, n) ← decode (c.mem.read (((c.seg .cs).base + c.ip) % 2 ^ 32) 3)
    let _ ← c.linear .cs c.ip n
    i.exec { c with ip := c.ip + n }

/-- The bytes of code. -/
def assembleAll : List Instr → Option (List UInt8)
  | [] => some []
  | i :: is => do return (← assemble i) ++ (← assembleAll is)

/-- `n` instructions. -/
def Cpu.steps : Nat → Cpu → Option Cpu
  | 0, c => some c
  | n + 1, c => c.step >>= Cpu.steps n

/-! ## Parts of registers -/

/-- The low bits come from the value, the others from the old register. -/
theorem toNat_merge {k : Nat} (hk : k ≤ 32) (old v : UInt32) :
    (merge k old v).toNat = old.toNat / 2 ^ k * 2 ^ k + v.toNat % 2 ^ k := by
  have hold := old.toNat_lt
  have hmod : v.toNat % 2 ^ k < 2 ^ k := Nat.mod_lt _ (Nat.two_pow_pos k)
  obtain ⟨n, hn⟩ := Nat.pow_dvd_pow 2 hk
  -- the high part is a multiple of `2 ^ k` below `2 ^ 32`
  have hdiv : old.toNat / 2 ^ k < n := Nat.div_lt_of_lt_mul (hn ▸ hold)
  have hle : (old.toNat / 2 ^ k + 1) * 2 ^ k ≤ n * 2 ^ k := Nat.mul_le_mul_right _ hdiv
  rw [Nat.succ_mul, Nat.mul_comm n] at hle
  rw [merge, UInt32.toNat_ofNat_of_lt' (show _ < 2 ^ 32 by omega)]

/-- The part that was stored. -/
theorem toNat_merge_mod {k : Nat} (hk : k ≤ 32) (old v : UInt32) :
    (merge k old v).toNat % 2 ^ k = v.toNat % 2 ^ k := by
  rw [toNat_merge hk, Nat.mul_comm, Nat.mul_add_mod, Nat.mod_mod]

/-- A second store into the same part. -/
theorem merge_merge {k : Nat} (hk : k ≤ 32) (old u v : UInt32) :
    merge k (merge k old u) v = merge k old v := by
  have hdiv : (old.toNat / 2 ^ k * 2 ^ k + u.toNat % 2 ^ k) / 2 ^ k = old.toNat / 2 ^ k := by
    rw [Nat.mul_comm, Nat.mul_add_div (Nat.two_pow_pos k),
      Nat.div_eq_of_lt (Nat.mod_lt _ (Nat.two_pow_pos k)), Nat.add_zero]
  rw [← UInt32.toNat_inj, toNat_merge hk, toNat_merge hk, toNat_merge hk, hdiv]

/-- A register that is no larger than the part. -/
theorem merge_small {k : Nat} (hk : k ≤ 32) {old v : UInt32} (hold : old.toNat < 2 ^ k)
    (hv : v.toNat < 2 ^ k) : merge k old v = v := by
  rw [← UInt32.toNat_inj, toNat_merge hk, Nat.div_eq_of_lt hold, Nat.mod_eq_of_lt hv, Nat.zero_mul,
    Nat.zero_add]

/-- A store of the part, or of less, does not see the rest of the register. -/
theorem leBytes_merge {k n : Nat} (hk : k ≤ 32) (hn : 8 * n ≤ k) (old v : UInt32) :
    Mem.leBytes n (merge k old v).toNat = Mem.leBytes n v.toNat := by
  have hpow : 256 ^ n = 2 ^ (8 * n) := by rw [Nat.pow_mul]
  have hdvd : 256 ^ n ∣ 2 ^ k := hpow ▸ Nat.pow_dvd_pow 2 hn
  have hmod : ∀ a, Mem.leBytes n (a % 256 ^ n) = Mem.leBytes n a := by
    intro a
    rw [← Mem.leNat_leBytes, Mem.leBytes_leNat (Mem.length_leBytes n a)]
  have hmerge : (merge k old v).toNat % 256 ^ n = v.toNat % 256 ^ n := by
    rw [← Nat.mod_mod_of_dvd _ hdvd, toNat_merge_mod hk, Nat.mod_mod_of_dvd _ hdvd]
  rw [← hmod, hmerge, hmod]

/-- A long replaces the whole register. -/
theorem merge_long (old v : UInt32) : merge 32 old v = v := by
  have hold : old.toNat / 2 ^ 32 = 0 := Nat.div_eq_of_lt old.toNat_lt
  have hv : v.toNat % 2 ^ 32 = v.toNat := Nat.mod_eq_of_lt v.toNat_lt
  rw [← UInt32.toNat_inj, toNat_merge (Nat.le_refl 32), hold, hv, Nat.zero_mul, Nat.zero_add]

/-- The register `%ax` after a store into it. -/
theorem toUInt16_merge (old v : UInt32) : (merge 16 old v).toUInt16 = v.toUInt16 := by
  rw [← UInt16.toNat_inj, UInt32.toNat_toUInt16, UInt32.toNat_toUInt16, toNat_merge_mod (by decide)]

/-- A long sets the whole register. -/
@[simp] theorem setPart_long (c : Cpu) (r : Reg) (v : UInt32) :
    c.setPart .long r v = c.setReg r v := congrArg (c.setReg r) (merge_long _ v)

/-- The word that was set is read back. -/
theorem setPart_word (c : Cpu) (r : Reg) (v : UInt32) :
    ((c.setPart .word r v).regs r).toUInt16 = v.toUInt16 := by
  have hreg : (c.setPart .word r v).regs r = merge 16 (c.regs r) v := Function.update_self ..
  rw [hreg, toUInt16_merge]

/-! ## Decoding -/

/-- The instructions that are assembled. -/
theorem assemble_cases {i : Instr} {bs : List UInt8} (h : assemble i = some bs) :
    (i = .clear .word .eax ∧ bs = [0x31, 0xc0]) ∨
      (∃ v < 0x10000, i = .add .word v .eax ∧ bs = 0x05 :: Mem.leBytes 2 v.toNat) ∨
      (∃ r ≠ .cs, i = .movSeg .eax r ∧ bs = [0x8e, UInt8.ofNat (0xc0 + 8 * r.code)]) ∨
      (i = .jmp .eax ∧ bs = [0xff, 0xe0]) := by
  unfold assemble at h
  -- only four kinds of instructions have their bytes here
  split at h
  · obtain ⟨⟨rfl, rfl⟩, hbs⟩ := Option.ite_none_right_eq_some.mp h
    exact .inl ⟨rfl, (Option.some.inj hbs).symm⟩
  · obtain ⟨⟨rfl, rfl, hv⟩, hbs⟩ := Option.ite_none_right_eq_some.mp h
    exact .inr (.inl ⟨_, hv, rfl, (Option.some.inj hbs).symm⟩)
  · obtain ⟨⟨rfl, hr⟩, hbs⟩ := Option.ite_none_right_eq_some.mp h
    exact .inr (.inr (.inl ⟨_, hr, rfl, (Option.some.inj hbs).symm⟩))
  · obtain ⟨rfl, hbs⟩ := Option.ite_none_right_eq_some.mp h
    exact .inr (.inr (.inr ⟨rfl, (Option.some.inj hbs).symm⟩))
  · cases h

/-- An instruction is decoded from its bytes, whatever is behind them. -/
theorem decode_assemble {i : Instr} {bs : List UInt8} (h : assemble i = some bs)
    (rest : List UInt8) : decode (bs ++ rest) = some (i, bs.length) := by
  rcases assemble_cases h with ⟨rfl, rfl⟩ | ⟨v, hv, rfl, rfl⟩ | ⟨r, hr, rfl, rfl⟩ | ⟨rfl, rfl⟩
  · rfl
  · have hv : v.toNat < 256 ^ 2 := UInt32.lt_iff_toNat_lt.mp hv
    have hword := Mem.leNat_leBytes 2 v.toNat
    rw [Nat.mod_eq_of_lt hv] at hword
    -- the word is read back from its two bytes
    obtain ⟨lo, hi, hbytes⟩ : ∃ lo hi, Mem.leBytes 2 v.toNat = [lo, hi] := ⟨_, _, rfl⟩
    rw [hbytes] at hword ⊢
    simp [decode, hword]
  · -- the register that is named in the second byte is the one that was
    cases r
    case cs => exact absurd rfl hr
    all_goals rfl
  · rfl

/-- An instruction takes one to three bytes. -/
theorem assemble_length {i : Instr} {bs : List UInt8} (h : assemble i = some bs) :
    0 < bs.length ∧ bs.length ≤ 3 := by
  rcases assemble_cases h with ⟨-, rfl⟩ | ⟨v, -, -, rfl⟩ | ⟨r, -, -, rfl⟩ | ⟨-, rfl⟩ <;> simp

/-! ## Reading a state -/

section Fields

variable (c : Cpu)

/-- The registers behind `setReg`. -/
@[simp] theorem setReg_regs (r : Reg) (v : UInt32) :
    (c.setReg r v).regs = Function.update c.regs r v := rfl

/-- The register that was set is read back. -/
theorem setReg_self (r : Reg) (v : UInt32) : (c.setReg r v).regs r = v := Function.update_self ..

/-- The segment registers are left. -/
@[simp] theorem setReg_seg (r : Reg) (v : UInt32) : (c.setReg r v).seg = c.seg := rfl

/-- Memory is left. -/
@[simp] theorem setReg_mem (r : Reg) (v : UInt32) : (c.setReg r v).mem = c.mem := rfl

/-- So is `cr0`. -/
@[simp] theorem setReg_cr0 (r : Reg) (v : UInt32) : (c.setReg r v).cr0 = c.cr0 := rfl

/-- The segment registers behind `setSeg`. -/
@[simp] theorem setSeg_seg (r : SReg) (seg : Segment) :
    (c.setSeg r seg).seg = Function.update c.seg r seg := rfl

/-- The other registers are left. -/
@[simp] theorem setSeg_regs (r : SReg) (seg : Segment) : (c.setSeg r seg).regs = c.regs := rfl

/-- Memory is left. -/
@[simp] theorem setSeg_mem (r : SReg) (seg : Segment) : (c.setSeg r seg).mem = c.mem := rfl

end Fields

/-! ## Loading segment registers -/

section Loading

variable {c : Cpu} {sel : UInt16} {d : Descriptor} {seg : Segment}

/-- The table that the processor knows holds the given bytes. -/
structure Cpu.Table (c : Cpu) (bs : List UInt8) : Prop where
  limit : c.gdtLimit + 1 = bs.length
  held : c.mem.read c.gdtBase bs.length = bs

/-- A selector inside the table leads to the descriptor there. -/
theorem Cpu.Table.descriptor {bs : List UInt8} (h : c.Table bs) (hfit : sel.toNat + 8 ≤ bs.length) :
    c.descriptor sel = Descriptor.ofBytes ((bs.drop sel.toNat).take 8) := by
  have hread : c.mem.read (c.gdtBase + sel.toNat) 8 = (bs.drop sel.toNat).take 8 := by
    conv_rhs => rw [← h.held]
    exact (Mem.take_drop_read c.mem c.gdtBase bs.length sel.toNat 8 hfit).symm
  rw [Cpu.descriptor, hread]

/-- A segment register is loaded with a descriptor of the table. -/
theorem loadSeg_protected {bs : List UInt8} {r : SReg} (hpe : c.pe = true) (h : c.Table bs)
    (hsel : sel ≠ 0 ∧ sel.toNat % 8 = 0 ∧ sel.toNat + 8 ≤ bs.length)
    (hd : Descriptor.ofBytes ((bs.drop sel.toNat).take 8) = d) (hfits : Cpu.Fits r d) :
    c.loadSeg r sel = some (c.setSeg r ⟨sel, d.base, d.last, d.db⟩) := by
  obtain ⟨hne, hmod, hfit⟩ := hsel
  have hlimit := h.limit
  have hdesc := (h.descriptor hfit).trans hd
  unfold Cpu.loadSeg
  rw [hpe, if_pos rfl, hdesc]
  exact if_pos ⟨hne, hmod, by omega, hfits⟩

/-- In real mode a segment register takes 16 times the selector as its base. -/
theorem loadSeg_real {r : SReg} (hpe : c.pe = false) :
    c.loadSeg r sel = some (c.setSeg r { c.seg r with selector := sel, base := 16 * sel.toNat }) := by
  unfold Cpu.loadSeg
  rw [hpe]
  exact if_neg Bool.false_ne_true

/-- A jump inside the code segment. -/
theorem jump_eq {off : Nat} (h : off ≤ (c.seg .cs).last) :
    c.jump off = some { c with ip := off } := if_pos h

/-- A long jump in protected mode loads `cs` from the table. -/
theorem exec_ljmp_protected {bs : List UInt8} {off : Nat} (hpe : c.pe = true) (h : c.Table bs)
    (hsel : sel ≠ 0 ∧ sel.toNat % 8 = 0 ∧ sel.toNat + 8 ≤ bs.length)
    (hd : Descriptor.ofBytes ((bs.drop sel.toNat).take 8) = d) (hfits : Cpu.Fits .cs d)
    (hoff : off ≤ d.last) :
    (Instr.ljmp sel off).exec c =
      some { c.setSeg .cs ⟨sel, d.base, d.last, d.db⟩ with ip := off } := by
  rw [Instr.exec, loadSeg_protected hpe h hsel hd hfits, Option.bind_eq_bind, Option.bind_some]
  apply jump_eq
  rw [setSeg_seg, Function.update_self]
  exact hoff

/-- A long jump in real mode sets the base of `cs` only. -/
theorem exec_ljmp_real {off : Nat} (hpe : c.pe = false) (hoff : off ≤ (c.seg .cs).last) :
    (Instr.ljmp sel off).exec c =
      some { c.setSeg .cs { c.seg .cs with selector := sel, base := 16 * sel.toNat } with
        ip := off } := by
  rw [Instr.exec, loadSeg_real hpe, Option.bind_eq_bind, Option.bind_some]
  apply jump_eq
  rw [setSeg_seg, Function.update_self]
  exact hoff

/-! ## Memory operands -/

section Operands

variable {size : Size} {disp : UInt32} {base : Option Reg} {a : Nat}

/-- A load, where the segment covers its operand. -/
theorem exec_load {dst : Reg}
    (h : c.linear (Cpu.operandSeg base) (c.offset disp base) size.bytes = some a) :
    (Instr.load size disp base dst).exec c =
      some (c.setPart size dst (UInt32.ofNat (c.mem.load a size.bytes))) := by
  rw [Instr.exec, h]
  rfl

/-- A store, where the segment covers its operand. -/
theorem exec_store {src : Reg}
    (h : c.linear (Cpu.operandSeg base) (c.offset disp base) size.bytes = some a) :
    (Instr.store size src disp base).exec c =
      some { c with mem := c.mem.write a (Mem.leBytes size.bytes (c.regs src).toNat) } := by
  rw [Instr.exec, h]
  rfl

/-- A store of a constant. -/
theorem exec_storeImm {v : UInt32}
    (h : c.linear (Cpu.operandSeg base) (c.offset disp base) size.bytes = some a) :
    (Instr.storeImm size v disp base).exec c =
      some { c with mem := c.mem.write a (Mem.leBytes size.bytes v.toNat) } := by
  rw [Instr.exec, h]
  rfl

/-- The offset of an operand in 32-bit code. -/
theorem offset_long {r : Reg} (hbig : c.big = true) :
    c.offset disp (some r) = (c.regs r + disp).toNat := by
  unfold Cpu.offset
  rw [hbig, if_pos rfl, Option.elim_some]

end Operands

/-- `lgdt` of a pseudo-descriptor for the table `bs` at `addr`, which both sizes of code can
    reach. -/
theorem exec_lgdt {disp : UInt32} {bs : List UInt8} {a addr : Nat}
    (hlinear : c.linear .ds (c.offset disp none) 6 = some a)
    (hdesc : c.mem.read a 6 = Mem.leBytes 2 (bs.length - 1) ++ Mem.leBytes 4 addr)
    (hlen : bs.length ≤ 2 ^ 16) (haddr : addr < 2 ^ 24) :
    (Instr.lgdt disp).exec c = some { c with gdtLimit := bs.length - 1, gdtBase := addr } := by
  rw [Mem.read_add c.mem a 2 4] at hdesc
  obtain ⟨hlimit, hbase⟩ := List.append_inj hdesc (by rw [Mem.length_read, Mem.length_leBytes])
  have hlimit : c.mem.load a 2 = bs.length - 1 := by
    rw [Mem.load, hlimit, Mem.leNat_leBytes, Nat.mod_eq_of_lt (by omega)]
  have hbase4 : c.mem.load (a + 2) 4 = addr := by
    rw [Mem.load, hbase, Mem.leNat_leBytes, Nat.mod_eq_of_lt (by omega)]
  -- the fourth byte of the address is zero
  have hbase3 : c.mem.load (a + 2) 3 = addr := by
    have htake : Mem.leBytes 3 addr = (Mem.leBytes 4 addr).take 3 := rfl
    rw [Mem.load, ← Mem.take_read c.mem (a + 2) 4 3 (by decide), hbase, ← htake, Mem.leNat_leBytes,
      Nat.mod_eq_of_lt (show addr < 256 ^ 3 from haddr)]
  have hbase : c.mem.load (a + 2) (if c.big then 4 else 3) = addr := by
    split
    · exact hbase4
    · exact hbase3
  unfold Instr.exec
  simp only [hlinear, hlimit, hbase, Option.bind_eq_bind, Option.bind_some]
  rfl

/-- `CR0` is changed by way of a register. -/
theorem execAll_orCr0 (c : Cpu) (v : UInt32) (r : Reg) (is : List Instr) :
    execAll (.fromCr0 r :: .or v r :: .toCr0 r :: is) c =
      execAll is { c.setReg r (c.cr0 ||| v) with cr0 := c.cr0 ||| v } := by
  have hregs : Function.update (Function.update c.regs r c.cr0) r
      (Function.update c.regs r c.cr0 r ||| v) = Function.update c.regs r (c.cr0 ||| v) := by
    rw [Function.update_idem, Function.update_self]
  have hcr0 : Function.update c.regs r (c.cr0 ||| v) r = c.cr0 ||| v := Function.update_self ..
  rw [@execAll_cons _ _ (.fromCr0 r) rfl, @execAll_cons _ _ (.or v r) rfl,
    @execAll_cons _ _ (.toCr0 r) rfl]
  simp only [Cpu.setReg, hregs, hcr0]

/-- The bits of `cr0` outside `v` are cleared. -/
theorem execAll_andCr0 (c : Cpu) (v : UInt32) (r : Reg) (is : List Instr) :
    execAll (.fromCr0 r :: .and v r :: .toCr0 r :: is) c =
      execAll is { c.setReg r (c.cr0 &&& v) with cr0 := c.cr0 &&& v } := by
  have hregs : Function.update (Function.update c.regs r c.cr0) r
      (Function.update c.regs r c.cr0 r &&& v) = Function.update c.regs r (c.cr0 &&& v) := by
    rw [Function.update_idem, Function.update_self]
  have hcr0 : Function.update c.regs r (c.cr0 &&& v) r = c.cr0 &&& v := Function.update_self ..
  rw [@execAll_cons _ _ (.fromCr0 r) rfl, @execAll_cons _ _ (.and v r) rfl,
    @execAll_cons _ _ (.toCr0 r) rfl]
  simp only [Cpu.setReg, hregs, hcr0]

/-- Several segment registers get the same segment. -/
def Cpu.setSegs (c : Cpu) (rs : List SReg) (f : SReg → Segment) : Cpu :=
  { c with seg := fun r => if r ∈ rs then f r else c.seg r }

/-- The segment registers behind `setSegs`. -/
@[simp] theorem setSegs_seg (c : Cpu) (rs : List SReg) (f : SReg → Segment) (r : SReg) :
    (c.setSegs rs f).seg r = if r ∈ rs then f r else c.seg r := rfl

/-- The other registers are left. -/
@[simp] theorem setSegs_regs (c : Cpu) (rs : List SReg) (f : SReg → Segment) :
    (c.setSegs rs f).regs = c.regs := rfl

/-- One segment register more. -/
theorem setSegs_cons (c : Cpu) (r : SReg) (rs : List SReg) (f : SReg → Segment) :
    (c.setSeg r (f r)).setSegs rs f = c.setSegs (r :: rs) f := by
  have hseg : ∀ r', (if r' ∈ rs then f r' else Function.update c.seg r (f r) r') =
      if r' ∈ r :: rs then f r' else c.seg r' := by
    intro r'
    by_cases hr : r' = r
    · simp [hr]
    · simp [hr]
  unfold Cpu.setSegs
  rw [setSeg_seg, funext hseg]
  rfl

/-- The data segment registers are loaded one after another in protected mode. -/
theorem execAll_movSeg_protected {src : Reg} {bs : List UInt8} {rs : List SReg} (hpe : c.pe = true)
    (h : c.Table bs)
    (hsel : (c.regs src).toUInt16 = sel ∧ sel ≠ 0 ∧ sel.toNat % 8 = 0 ∧ sel.toNat + 8 ≤ bs.length)
    (hd : Descriptor.ofBytes ((bs.drop sel.toNat).take 8) = d) (hfits : ∀ r ∈ rs, Cpu.Fits r d) :
    execAll (rs.map fun r => .movSeg src r) c =
      some (c.setSegs rs fun _ => ⟨sel, d.base, d.last, d.db⟩) := by
  -- induction on the segment registers, all of which get the same descriptor
  induction rs generalizing c with
  | nil => exact congrArg some rfl
  | cons r rs ih =>
    have hload := loadSeg_protected hpe h hsel.2 hd (hfits r List.mem_cons_self)
    have hexec : (Instr.movSeg src r).exec c = some (c.setSeg r ⟨sel, d.base, d.last, d.db⟩) := by
      rw [← hload, ← hsel.1]
      rfl
    rw [List.map_cons, execAll_cons hexec, @ih (c.setSeg r ⟨sel, d.base, d.last, d.db⟩) hpe
      ⟨h.limit, h.held⟩ hsel fun r hr => hfits r (List.mem_cons_of_mem _ hr)]
    exact congrArg some (setSegs_cons c r rs fun _ => ⟨sel, d.base, d.last, d.db⟩)

/-- In real mode they keep what they had, but for the base. -/
theorem execAll_movSeg_real {src : Reg} {rs : List SReg} (hpe : c.pe = false)
    (hsel : (c.regs src).toUInt16 = sel) :
    execAll (rs.map fun r => .movSeg src r) c =
      some (c.setSegs rs fun r => { c.seg r with selector := sel, base := 16 * sel.toNat }) := by
  induction rs generalizing c with
  | nil => exact congrArg some rfl
  | cons r rs ih =>
    let seg := fun r => { c.seg r with selector := sel, base := 16 * sel.toNat }
    have hload : c.loadSeg r (c.regs src).toUInt16 = some (c.setSeg r (seg r)) := by
      rw [loadSeg_real hpe, hsel]
    -- setting a register twice is setting it once
    have hseg : (fun r' =>
        { (c.setSeg r (seg r)).seg r' with selector := sel, base := 16 * sel.toNat }) =
        seg := by
      funext r'
      by_cases hr : r' = r
      · subst hr
        rw [setSeg_seg, Function.update_self]
      · rw [setSeg_seg, Function.update_of_ne hr]
    rw [List.map_cons, @execAll_cons c _ (.movSeg src r) hload,
      @ih (c.setSeg r (seg r)) hpe hsel, hseg, setSegs_cons]

end Loading

/-! ## Flat segments -/

/-- A segment of 32-bit code or data that is all of the address space. -/
structure Segment.Flat (seg : Segment) : Prop where
  base : seg.base = 0
  last : seg.last = 2 ^ 32 - 1
  big : seg.big = true

section Flat

variable {c : Cpu} {r : SReg} {off n v : Nat}

/-- In a flat segment the offset is the address. -/
theorem linear_flat (h : (c.seg r).Flat) (hn : 0 < n) (hfit : off + n ≤ 2 ^ 32) :
    c.linear r off n = some off := by
  unfold Cpu.linear
  rw [h.last, h.base, if_pos (by omega), Nat.zero_add, Nat.mod_eq_of_lt (by omega)]

/-- A push on a flat stack. -/
theorem push_flat (h : (c.seg .ss).Flat) (hesp : 4 ≤ (c.regs .esp).toNat) :
    c.push v = some { c.setReg .esp (c.regs .esp - 4) with
      mem := c.mem.write ((c.regs .esp).toNat - 4) (Mem.leBytes 4 v) } := by
  -- there are four bytes below the stack pointer
  have hlt := (c.regs .esp).toNat_lt
  have hsub : (c.regs .esp - 4).toNat = (c.regs .esp).toNat - 4 :=
    UInt32.toNat_sub_of_le _ _ (UInt32.le_iff_toNat_le.mpr hesp)
  have hlinear : c.linear .ss (c.regs .esp - 4).toNat 4 = some ((c.regs .esp).toNat - 4) := by
    rw [hsub]
    exact linear_flat h (by decide) (by omega)
  unfold Cpu.push
  simp only [h.big, if_true, hlinear, Option.bind_eq_bind, Option.bind_some]
  rfl

/-- A pop off a flat stack. -/
theorem pop_flat (h : (c.seg .ss).Flat) (hesp : (c.regs .esp).toNat + 4 ≤ 2 ^ 32) :
    c.pop = some (c.mem.load (c.regs .esp).toNat 4, c.setReg .esp (c.regs .esp + 4)) := by
  have hlinear : c.linear .ss (c.regs .esp).toNat 4 = some (c.regs .esp).toNat :=
    linear_flat h (by decide) hesp
  unfold Cpu.pop
  simp only [h.big, if_true, hlinear, Option.bind_eq_bind, Option.bind_some]
  rfl

/-- `push` of a register on a flat stack. -/
theorem exec_push {src : Reg} (h : (c.seg .ss).Flat) (hesp : 4 ≤ (c.regs .esp).toNat) :
    (Instr.push src).exec c = some { c.setReg .esp (c.regs .esp - 4) with
      mem := c.mem.write ((c.regs .esp).toNat - 4) (Mem.leBytes 4 (c.regs src).toNat) } :=
  push_flat h hesp

/-- `pop` to a register off a flat stack. -/
theorem exec_pop {dst : Reg} (h : (c.seg .ss).Flat) (hesp : (c.regs .esp).toNat + 4 ≤ 2 ^ 32) :
    (Instr.pop dst).exec c = some ((c.setReg .esp (c.regs .esp + 4)).setReg dst
      (UInt32.ofNat (c.mem.load (c.regs .esp).toNat 4))) := by
  rw [Instr.exec, pop_flat h hesp]
  rfl

/-- A call in flat segments. -/
theorem exec_call {target back : Nat} (hss : (c.seg .ss).Flat) (hcs : (c.seg .cs).Flat)
    (hesp : 4 ≤ (c.regs .esp).toNat) (htarget : target < 2 ^ 32) :
    (Instr.call target back).exec c = some { c.setReg .esp (c.regs .esp - 4) with
      mem := c.mem.write ((c.regs .esp).toNat - 4) (Mem.leBytes 4 back), ip := target } := by
  rw [Instr.exec, push_flat hss hesp, Option.bind_eq_bind, Option.bind_some]
  apply jump_eq
  show target ≤ (c.seg .cs).last
  rw [hcs.last]
  omega

end Flat

/-! ## Saving registers on the stack -/

section Saving

variable {c : Cpu} {m : Mem} {a : Nat} {vs : List UInt32} {rs : List Reg}

/-- Words pushed on a stack that begins at `a`. -/
def pushAll (m : Mem) (a : Nat) : List UInt32 → Mem
  | [] => m
  | v :: vs => pushAll (m.write (a - 4) (Mem.leBytes 4 v.toNat)) (a - 4) vs

/-- Pushes change the memory below the stack pointer only, 4 bytes each. -/
theorem frame_pushAll (h : 4 * vs.length ≤ a) :
    Mem.Frame (Set.Ico (a - 4 * vs.length) a) m (pushAll m a vs) := by
  induction vs generalizing m a with
  | nil => exact Mem.Frame.refl _ _
  | cons v vs ih =>
    rw [List.length_cons] at h ⊢
    have hrest := @ih (m.write (a - 4) (Mem.leBytes 4 v.toNat)) (a - 4) (by omega)
    have hfirst := Mem.frame_write m (a - 4) (Mem.leBytes 4 v.toNat)
    rw [Mem.length_leBytes] at hfirst
    exact (hfirst.mono (Set.Ico_subset_Ico (by omega) (by omega))).trans
      (hrest.mono (Set.Ico_subset_Ico (by omega) (by omega)))

/-- Each word is in its place. -/
theorem load_pushAll (h : 4 * vs.length ≤ a) {i : Nat} {v : UInt32} (hv : vs[i]? = some v) :
    (pushAll m a vs).load (a - 4 * (i + 1)) 4 = v.toNat := by
  induction vs generalizing m a i with
  | nil => cases hv
  | cons w vs ih =>
    rw [List.length_cons] at h
    cases i with
    | zero =>
      obtain rfl := Option.some.inj hv
      have hframe := @frame_pushAll (m.write (a - 4) (Mem.leBytes 4 w.toNat)) (a - 4) vs (by omega)
      -- the words behind it are below
      have hload : (pushAll m a (w :: vs)).load (a - 4) 4 =
          (m.write (a - 4) (Mem.leBytes 4 w.toNat)).load (a - 4) 4 := by
        apply hframe.load
        rintro k - ⟨-, hlt⟩
        omega
      rw [Nat.zero_add, Nat.mul_one, hload,
        Mem.load_write_of_lt (show w.toNat < 256 ^ 4 from w.toNat_lt)]
    | succ i =>
      have hlen := (List.getElem?_eq_some_iff.mp hv).1
      have hrest := @ih (m.write (a - 4) (Mem.leBytes 4 w.toNat)) (a - 4) (by omega) i hv
      rw [← hrest, pushAll]
      congr 1
      omega

/-- Registers are pushed one after another. -/
theorem execAll_push (hesp : .esp ∉ rs) (hss : (c.seg .ss).Flat)
    (hfit : 4 * rs.length ≤ (c.regs .esp).toNat) :
    execAll (rs.map .push) c = some { c.setReg .esp (c.regs .esp - UInt32.ofNat (4 * rs.length)) with
      mem := pushAll c.mem (c.regs .esp).toNat (rs.map c.regs) } := by
  -- induction on the registers; each one is stored below those before it
  induction rs generalizing c with
  | nil =>
    have hsame : c.setReg .esp (c.regs .esp - 0) = c := by
      rw [UInt32.sub_zero, Cpu.setReg, Function.update_eq_self]
    show some c = some { c.setReg .esp (c.regs .esp - 0) with mem := c.mem }
    rw [hsame]
  | cons r rs ih =>
    rw [List.length_cons] at hfit
    have hne : ∀ r' ∈ r :: rs, r' ≠ .esp := fun r' hr' h => hesp (h ▸ hr')
    let c₁ := { c.setReg .esp (c.regs .esp - 4) with
      mem := c.mem.write ((c.regs .esp).toNat - 4) (Mem.leBytes 4 (c.regs r).toNat) }
    have hpush : (Instr.push r).exec c = some c₁ := exec_push hss (by omega)
    have hesp₁ : c₁.regs .esp = c.regs .esp - 4 := setReg_self c .esp _
    have hnat : (c.regs .esp - 4).toNat = (c.regs .esp).toNat - 4 :=
      UInt32.toNat_sub_of_le _ _ (UInt32.le_iff_toNat_le.mpr (show 4 ≤ (c.regs .esp).toNat by omega))
    -- the stack pointer is none of them, so their values do not change
    have hvalues : rs.map c₁.regs = rs.map c.regs := by
      apply List.map_congr_left
      intro r' hr'
      exact Function.update_of_ne (hne r' (List.mem_cons_of_mem _ hr')) _ _
    -- the steps of four add up
    have hsub : c.regs .esp - 4 - UInt32.ofNat (4 * rs.length) =
        c.regs .esp - UInt32.ofNat (4 * (rs.length + 1)) := by
      have hadd : UInt32.ofNat (4 * (rs.length + 1)) = 4 + UInt32.ofNat (4 * rs.length) := by
        rw [Nat.mul_succ, Nat.add_comm, UInt32.ofNat_add]
        rfl
      rw [hadd, UInt32.sub_eq_add_neg, UInt32.sub_eq_add_neg, UInt32.sub_eq_add_neg, UInt32.neg_add,
        UInt32.add_assoc, UInt32.sub_eq_add_neg]
    have hrest := @ih c₁ (fun h => hesp (List.mem_cons_of_mem _ h)) hss (by rw [hesp₁, hnat]; omega)
    rw [hesp₁, hnat, hvalues, hsub] at hrest
    rw [List.map_cons, execAll_cons hpush, hrest]
    simp only [c₁, Cpu.setReg, Function.update_idem, List.length_cons]
    rfl

/-- Registers are popped one after another. -/
theorem execAll_pop (hnodup : rs.Nodup) (hesp : .esp ∉ rs) (hss : (c.seg .ss).Flat)
    (hfit : (c.regs .esp).toNat + 4 * rs.length < 2 ^ 32) :
    ∃ regs, execAll (rs.map .pop) c = some { c with regs } ∧
      regs .esp = c.regs .esp + UInt32.ofNat (4 * rs.length) ∧
      (∀ i r, rs[i]? = some r → regs r = UInt32.ofNat (c.mem.load ((c.regs .esp).toNat + 4 * i) 4)) ∧
      ∀ r, r ∉ rs → r ≠ .esp → regs r = c.regs r := by
  -- induction on the registers; each one is loaded from above those before it
  induction rs generalizing c with
  | nil =>
    refine ⟨c.regs, rfl, ?_, fun i r h => ?_, fun _ _ _ => rfl⟩
    · exact (UInt32.add_zero _).symm
    · cases h
  | cons r rs ih =>
    rw [List.length_cons] at hfit
    obtain ⟨hr, hnodup⟩ := List.nodup_cons.mp hnodup
    -- the stack pointer is none of them
    have hne : r ≠ .esp := fun h => hesp (h ▸ List.mem_cons_self)
    have hesp' : .esp ∉ rs := fun h => hesp (List.mem_cons_of_mem _ h)
    let c₁ := (c.setReg .esp (c.regs .esp + 4)).setReg r
      (UInt32.ofNat (c.mem.load (c.regs .esp).toNat 4))
    have hpop : (Instr.pop r).exec c = some c₁ := exec_pop hss (by omega)
    have hesp₁ : c₁.regs .esp = c.regs .esp + 4 := by
      show Function.update (c.setReg .esp (c.regs .esp + 4)).regs r _ .esp = _
      rw [Function.update_of_ne hne.symm, setReg_self]
    have hnat : (c.regs .esp + 4).toNat = (c.regs .esp).toNat + 4 := by
      rw [UInt32.toNat_add, show (4 : UInt32).toNat = 4 from rfl, Nat.mod_eq_of_lt (by omega)]
    obtain ⟨regs, hexec, hend, hloads, hkept⟩ := @ih c₁ hnodup hesp' hss (by rw [hesp₁, hnat]; omega)
    refine ⟨regs, ?_, ?_, fun i r' h => ?_, fun r' hr' hne' => ?_⟩
    · rw [List.map_cons, execAll_cons hpop, hexec]
      rfl
    · rw [hend, hesp₁, List.length_cons, Nat.mul_succ, Nat.add_comm (4 * rs.length),
        UInt32.ofNat_add, UInt32.add_assoc]
      rfl
    · -- the first register is not loaded again, since all are different
      cases i with
      | zero =>
        obtain rfl := Option.some.inj h
        rw [hkept r hr hne]
        exact Function.update_self ..
      | succ i =>
        have hload := hloads i r' h
        rw [hesp₁, hnat] at hload
        rw [hload, Nat.mul_succ, Nat.add_comm (4 * i), ← Nat.add_assoc]
        rfl
    · -- a register that is none of them keeps its value
      have hr'' : r' ≠ r := fun h => hr' (h ▸ List.mem_cons_self)
      rw [hkept r' (fun h => hr' (List.mem_cons_of_mem _ h)) hne']
      show Function.update (Function.update c.regs .esp _) r _ r' = _
      rw [Function.update_of_ne hr'', Function.update_of_ne hne']

end Saving

/-! ## Stepping through code -/

section Steps

variable {c c' : Cpu} {i : Instr} {is : List Instr} {bs : List UInt8}

/-- Behind an instruction that is not a jump the code goes on as it is. -/
theorem exec_code (h : assemble i = some bs) (hjmp : i ≠ .jmp .eax) (hexec : i.exec c = some c') :
    c'.mem = c.mem ∧ c'.seg .cs = c.seg .cs ∧
      ∀ n, i.exec { c with ip := n } = some { c' with ip := n } := by
  rcases assemble_cases h with ⟨rfl, -⟩ | ⟨v, -, rfl, -⟩ | ⟨r, hr, rfl, -⟩ | ⟨rfl, -⟩
  · cases hexec
    exact ⟨rfl, rfl, fun _ => rfl⟩
  · cases hexec
    exact ⟨rfl, rfl, fun _ => rfl⟩
  · -- only the move to a segment register looks at the mode, which does not depend on `ip`
    unfold Instr.exec Cpu.loadSeg at hexec
    simp only at hexec
    split at hexec
    · next hpe =>
      split at hexec
      · next hok =>
        cases hexec
        refine ⟨rfl, Function.update_of_ne hr.symm _ _, fun n => ?_⟩
        have hpe' : ({ c with ip := n } : Cpu).pe = true := hpe
        unfold Instr.exec Cpu.loadSeg
        simp only [hpe', if_true]
        exact if_pos hok
      · cases hexec
    · next hpe =>
      cases hexec
      refine ⟨rfl, Function.update_of_ne hr.symm _ _, fun n => ?_⟩
      have hpe' : ({ c with ip := n } : Cpu).pe = false := Bool.eq_false_iff.mpr hpe
      unfold Instr.exec Cpu.loadSeg
      simp only [hpe', Bool.false_eq_true, if_false]
      rfl
  · exact absurd rfl hjmp

/-- An instruction is fetched and executed. -/
theorem step_of_assemble (h : assemble i = some bs) (hbig : c.big = false)
    (hcode : c.mem.read (((c.seg .cs).base + c.ip) % 2 ^ 32) bs.length = bs)
    (hfit : c.ip + bs.length ≤ (c.seg .cs).last + 1) :
    c.step = i.exec { c with ip := c.ip + bs.length } := by
  -- the bytes of the instruction are the first ones that the step reads
  obtain ⟨k, hk⟩ := Nat.exists_eq_add_of_le (assemble_length h).2
  have hread := Mem.read_add c.mem (((c.seg .cs).base + c.ip) % 2 ^ 32) bs.length k
  rw [← hk, hcode] at hread
  have hlinear : c.linear .cs c.ip bs.length = some (((c.seg .cs).base + c.ip) % 2 ^ 32) :=
    if_pos hfit
  unfold Cpu.step
  simp only [hbig, Bool.false_eq_true, if_false, hread, decode_assemble h, Option.bind_eq_bind,
    Option.bind_some, hlinear]

/-- The bytes of a list are those of its first instruction, and those of the others. -/
theorem assembleAll_cons {bs : List UInt8} (h : assembleAll (i :: is) = some bs) :
    ∃ first rest, assemble i = some first ∧ assembleAll is = some rest ∧ bs = first ++ rest := by
  unfold assembleAll at h
  obtain ⟨first, hfirst, h⟩ := Option.bind_eq_some_iff.mp h
  obtain ⟨rest, hrest, h⟩ := Option.bind_eq_some_iff.mp h
  exact ⟨first, rest, hfirst, hrest, (Option.some.inj h).symm⟩

/-- Code without a jump runs anywhere. -/
theorem run_ip (hbs : assembleAll is = some bs) (hjmp : .jmp .eax ∉ is)
    (hrun : execAll is c = some c') (n : Nat) :
    execAll is { c with ip := n } = some { c' with ip := n } := by
  -- induction on the instructions, none of which looks at where it is
  induction is generalizing c bs with
  | nil =>
    cases hrun
    rfl
  | cons i is ih =>
    obtain ⟨first, rest, hfirst, hrest, -⟩ := assembleAll_cons hbs
    obtain ⟨c₁, hexec, hrun⟩ := Option.bind_eq_some_iff.mp hrun
    have hi : i ≠ .jmp .eax := fun h => hjmp (h ▸ List.mem_cons_self)
    apply Option.bind_eq_some_iff.mpr
    exact ⟨{ c₁ with ip := n }, (exec_code hfirst hi hexec).2.2 n,
      ih hrest (fun h => hjmp (List.mem_cons_of_mem _ h)) hrun⟩

/-- Code in memory, without a jump, runs as the instructions it was assembled from. -/
theorem steps_of_assemble (hbs : assembleAll is = some bs) (hjmp : .jmp .eax ∉ is)
    (hbig : c.big = false) (hlow : (c.seg .cs).base + c.ip + bs.length ≤ 2 ^ 32)
    (hcode : c.mem.read ((c.seg .cs).base + c.ip) bs.length = bs)
    (hfit : c.ip + bs.length ≤ (c.seg .cs).last + 1) (hrun : execAll is c = some c') :
    c.steps is.length = some { c' with ip := c.ip + bs.length } := by
  induction is generalizing c c' bs with
  | nil =>
    cases hbs
    cases hrun
    rfl
  | cons i is ih =>
    obtain ⟨first, rest, hfirst, hrest, rfl⟩ := assembleAll_cons hbs
    obtain ⟨c₁, hexec, hrun⟩ := Option.bind_eq_some_iff.mp hrun
    rw [List.length_append] at hlow hcode hfit
    obtain ⟨hi, his⟩ : .jmp .eax ≠ i ∧ .jmp .eax ∉ is :=
      ⟨fun h => hjmp (h ▸ List.mem_cons_self), fun h => hjmp (List.mem_cons_of_mem _ h)⟩
    obtain ⟨hmem, hcs, hip⟩ := exec_code hfirst hi.symm hexec
    -- the bytes of the instruction, and those behind it
    rw [Mem.read_add] at hcode
    obtain ⟨hcode, hbehind⟩ := List.append_inj hcode (Mem.length_read _ _ _)
    have hpos := (assemble_length hfirst).1
    have hmod : ((c.seg .cs).base + c.ip) % 2 ^ 32 = (c.seg .cs).base + c.ip :=
      Nat.mod_eq_of_lt (by omega)
    have hstep : c.step = some { c₁ with ip := c.ip + first.length } := by
      rw [step_of_assemble hfirst hbig (by rw [hmod]; exact hcode) (by omega), hip]
    have hsteps := @ih { c₁ with ip := c.ip + first.length } { c' with ip := c.ip + first.length }
      rest hrest his
      ((congrArg Segment.big hcs).trans hbig)
      (by show (c₁.seg .cs).base + (c.ip + first.length) + rest.length ≤ 2 ^ 32; rw [hcs]; omega)
      (by
        show c₁.mem.read ((c₁.seg .cs).base + (c.ip + first.length)) rest.length = rest
        rw [hmem, hcs, ← Nat.add_assoc]
        exact hbehind)
      (by show c.ip + first.length + rest.length ≤ (c₁.seg .cs).last + 1; rw [hcs]; omega)
      (run_ip hrest his hrun _)
    rw [List.length_cons, Cpu.steps, hstep, Option.bind_eq_bind, Option.bind_some, hsteps,
      List.length_append, ← Nat.add_assoc]

/-- Steps that follow steps. -/
theorem steps_add (n k : Nat) (c : Cpu) : c.steps (n + k) = c.steps n >>= Cpu.steps k := by
  induction n generalizing c with
  | zero => rw [Nat.zero_add, Cpu.steps, Option.bind_eq_bind, Option.bind_some]
  | succ n ih =>
    rw [Nat.succ_add, Cpu.steps, Cpu.steps, Option.bind_eq_bind, Option.bind_assoc]
    exact congrArg (Option.bind c.step) (funext ih)

end Steps

end X86
