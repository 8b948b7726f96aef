import Tlibc.Lib.Mem
import Mathlib.Logic.Function.Basic

/-!
# Straight-line machine code

The moves of 64-bit words between the registers and the memory of an x86-64 processor,
and `ret`. The instruction pointer is followed only where `ret` sets it.

* `run_stores`: a sequence of stores to one struct leaves each register in its place
* `loadWord_congr`: a word is loaded from memory that holds the same bytes
-/

namespace Machine

/-- The general registers. -/
inductive Reg where
  | rax
  | rbx
  | rcx
  | rdx
  | rsi
  | rdi
  | rbp
  | rsp
  | r8
  | r9
  | r10
  | r11
  | r12
  | r13
  | r14
  | r15
  deriving DecidableEq, Repr

structure State where
  regs : Reg → UInt64
  rip : UInt64
  mem : Mem

/-- The word at an address. -/
def loadWord (m : Mem) (a : UInt64) : UInt64 := UInt64.ofNat (m.load a.toNat 8)

/-- Stores 8 bytes. -/
def storeWord (m : Mem) (a v : UInt64) : Mem := m.write a.toNat (Mem.leBytes 8 v.toNat)

/-- The instructions, with their operands in the order of the AT&T syntax. -/
inductive Instr where
  /-- `movq %src, off(%base)` -/
  | store (src : Reg) (off : UInt64) (base : Reg)
  /-- `movq off(%base), %dst` -/
  | load (off : UInt64) (base dst : Reg)
  /-- `movq $v, %dst` -/
  | imm (v : UInt64) (dst : Reg)
  /-- `movq %src, %dst` -/
  | mov (src dst : Reg)
  | ret
  deriving DecidableEq, Repr

/-- Sets a register. -/
def State.setReg (s : State) (r : Reg) (v : UInt64) : State :=
  { s with regs := Function.update s.regs r v }

/-- What an instruction does. -/
def Instr.exec (s : State) : Instr → State
  | store src off base => { s with mem := storeWord s.mem (s.regs base + off) (s.regs src) }
  | load off base dst => s.setReg dst (loadWord s.mem (s.regs base + off))
  | imm v dst => s.setReg dst v
  | mov src dst => s.setReg dst (s.regs src)
  | ret => { s.setReg .rsp (s.regs .rsp + 8) with rip := loadWord s.mem (s.regs .rsp) }

/-- One instruction after another. -/
def run (code : List Instr) (s : State) : State := code.foldl Instr.exec s

/-- Two pieces of code run one after the other. -/
theorem run_append (code code' : List Instr) (s : State) :
    run (code ++ code') s = run code' (run code s) := List.foldl_append

/-! ## Words in memory -/

variable {m m' : Mem} {a v : UInt64}

/-- A word that was stored is read back. -/
@[simp] theorem loadWord_storeWord (m : Mem) (a v : UInt64) : loadWord (storeWord m a v) a = v := by
  rw [loadWord, storeWord, Mem.load_write_of_lt (show v.toNat < 256 ^ 8 from v.toNat_lt),
    UInt64.ofNat_toNat]

/-- A word is not changed by what is stored beside it. -/
theorem loadWord_storeWord_ne {b : UInt64}
    (h : b.toNat + 8 ≤ a.toNat ∨ a.toNat + 8 ≤ b.toNat) :
    loadWord (storeWord m a v) b = loadWord m b := by
  rw [loadWord, storeWord, Mem.load_write_ne (by rw [Mem.length_leBytes]; exact h), loadWord]

/-- A word depends on its 8 bytes only. -/
theorem loadWord_congr (h : ∀ i, i < 8 → m' (a.toNat + i) = m (a.toNat + i)) :
    loadWord m' a = loadWord m a := by
  rw [loadWord, Mem.load_congr h, loadWord]

/-! ## A struct of registers -/

/-- A register at each of several offsets. -/
def saves (s : State) (slots : List (Reg × UInt64)) : List (Nat × List UInt8) :=
  slots.map fun slot => (slot.2.toNat, Mem.leBytes 8 (s.regs slot.1).toNat)

/-- Storing registers behind a base that is not changed. -/
theorem run_stores {s : State} {base : Reg} {slots : List (Reg × UInt64)}
    (h : ∀ slot ∈ slots, (s.regs base).toNat + slot.2.toNat < 2 ^ 64) :
    run (slots.map fun slot => .store slot.1 slot.2 base) s =
      { s with mem := s.mem.writeAll (s.regs base).toNat (saves s slots) } := by
  -- induction on the registers to store; the base is not changed by a store
  induction slots generalizing s with
  | nil => rfl
  | cons slot slots ih =>
    obtain ⟨hslot, hslots⟩ := List.forall_mem_cons.mp h
    have haddr : (s.regs base + slot.2).toNat = (s.regs base).toNat + slot.2.toNat := by
      rw [UInt64.toNat_add, Nat.mod_eq_of_lt hslot]
    have hrest := ih (s := { s with mem := storeWord s.mem (s.regs base + slot.2) (s.regs slot.1) })
      hslots
    rw [storeWord, haddr] at hrest
    show run _ { s with mem := storeWord s.mem (s.regs base + slot.2) (s.regs slot.1) } = _
    rw [storeWord, haddr]
    exact hrest

end Machine
