import Tlibc.Native.Jump

/-!
# `longjmp` behind `setjmp`

`setjmp` saves every register. `longjmp` loads `r14` twice, the second time from the place
of `r15`, and goes on with the stack pointer it was called with.

* `longjmp_resumes_iff`: the caller of `setjmp` is resumed with its registers exactly when
  it had the same in `r14` and `r15`, and `r15` and the stack pointer have not changed since
-/

namespace Tlibc.Jump

open Machine

variable {s s₀ s₁ : State} {jb val : UInt64}

/-- The word that `ret` takes from the stack. -/
def returnAddress (s : State) : UInt64 := loadWord s.mem (s.regs .rsp)

/-- `setjmp(jb)` is called: `jb` is a `jmp_buf`, which is apart from the return address. -/
structure CallsSetjmp (s : State) (jb : UInt64) : Prop where
  arg : s.regs .rdi = jb
  inMemory : jb.toNat + jumpbufSize ≤ 2 ^ 64
  apart : jb.toNat + jumpbufSize ≤ (s.regs .rsp).toNat ∨ (s.regs .rsp).toNat + 8 ≤ jb.toNat

/-- `longjmp(jb, val)` is called in `s₁`, where the buffer is still as `setjmp(jb)`, called
    in `s₀`, left it. -/
structure CallsLongjmp (s₀ s₁ : State) (jb val : UInt64) : Prop where
  arg : s₁.regs .rdi = jb
  value : s₁.regs .rsi = val
  held : ∀ i, i < jumpbufSize → s₁.mem (jb.toNat + i) = (run setjmp s₀).mem (jb.toNat + i)

/-- The registers that a function leaves as they are. -/
def preserved : List Reg := [.rbx, .rbp, .r12, .r13, .r14, .r15]

/-- `t` goes on behind the call of `setjmp` in `s₀`, which returns `val` this time. -/
structure Resumes (s₀ t : State) (val : UInt64) : Prop where
  rip : t.rip = returnAddress s₀
  rax : t.regs .rax = val
  regs : ∀ r ∈ preserved, t.regs r = s₀.regs r
  rsp : t.regs .rsp = (run setjmp s₀).regs .rsp

/-! ## What `setjmp` saves -/

/-- The stores at the beginning, in order. -/
def slots : List (Reg × UInt64) :=
  [(.rax, 0x8), (.rbx, 0x10), (.rcx, 0x18), (.rdx, 0x20), (.rsi, 0x28), (.rdi, 0x30), (.rbp, 0x38),
    (.rsp, 0x40), (.r8, 0x48), (.r9, 0x50), (.r10, 0x58), (.r11, 0x60), (.r12, 0x68), (.r13, 0x70),
    (.r14, 0x78), (.r15, 0x80)]

/-- The slots of the buffer do not overlap. -/
private theorem slots_ascending (s : State) : Mem.Ascending jumpbufSize 8 (saves s slots) := by
  simp [saves, slots, Mem.Ascending, jumpbufSize]

/-- The memory behind the stores. -/
def saved (s : State) (jb : UInt64) : Mem := s.mem.writeAll jb.toNat (saves s slots)

/-- The stores leave each register in its slot. -/
private theorem CallsSetjmp.slots (h : CallsSetjmp s jb) :
    run (slots.map fun slot => .store slot.1 slot.2 .rdi) s = { s with mem := saved s jb } := by
  have hfit : ∀ slot ∈ Jump.slots, slot.2.toNat < jumpbufSize := by decide
  rw [run_stores, h.arg, saved]
  intro slot hslot
  have := hfit slot hslot
  have := h.inMemory
  rw [h.arg]
  omega

/-- The stores leave the return address alone. -/
private theorem CallsSetjmp.returnAddress_saved (h : CallsSetjmp s jb) :
    loadWord (saved s jb) (s.regs .rsp) = returnAddress s := by
  apply loadWord_congr
  intro i hi
  apply Mem.writeAll_apply_out
  intro slot hslot
  obtain ⟨hlow, hhigh⟩ := (slots_ascending s).bounds hslot
  have := h.apart
  omega

/-- `setjmp` saves the return address in front of the registers, and returns. -/
private theorem CallsSetjmp.run_eq (h : CallsSetjmp s jb) : run setjmp s =
    { regs := Function.update (Function.update s.regs .rax 0) .rsp (s.regs .rsp + 8)
      rip := returnAddress s
      mem := storeWord (saved s jb) jb (returnAddress s) } := by
  have hcode : setjmp = (Jump.slots.map fun slot => .store slot.1 slot.2 .rdi) ++
      [.load 0x0 .rsp .rax, .store .rax 0x0 .rdi, .imm 0 .rax, .ret] := rfl
  have hret : loadWord (storeWord (saved s jb) jb (returnAddress s)) (s.regs .rsp) =
      returnAddress s := by
    have hsize : jumpbufSize = 136 := rfl
    have := h.apart
    rw [loadWord_storeWord_ne (by omega), h.returnAddress_saved]
  -- `rax` is in its slot when the return address is loaded over it
  rw [hcode, run_append, h.slots]
  simp [run, Instr.exec, State.setReg, h.arg, h.returnAddress_saved, hret, Function.update_of_ne]

/-- Each register is in its slot. -/
private theorem CallsSetjmp.slot (h : CallsSetjmp s jb) {r : Reg} {off : UInt64}
    (hslot : (r, off) ∈ Jump.slots) :
    loadWord (run setjmp s).mem (jb + off) = s.regs r := by
  have hbounds : ∀ slot ∈ Jump.slots, 8 ≤ slot.2.toNat ∧ slot.2.toNat < jumpbufSize := by decide
  have hlow : 8 ≤ off.toNat := (hbounds _ hslot).1
  have hhigh : off.toNat < jumpbufSize := (hbounds _ hslot).2
  have haddr : (jb + off).toNat = jb.toNat + off.toNat := by
    have := h.inMemory
    rw [UInt64.toNat_add]
    omega
  have hmem : (off.toNat, Mem.leBytes 8 (s.regs r).toNat) ∈ saves s Jump.slots :=
    List.mem_map.mpr ⟨_, hslot, rfl⟩
  rw [h.run_eq]
  -- the return address is in front of all slots
  show loadWord (storeWord (saved s jb) jb (returnAddress s)) (jb + off) = _
  rw [loadWord_storeWord_ne (by omega), loadWord, haddr, saved,
    Mem.load_writeAll (slots_ascending s).apart hmem,
    Nat.mod_eq_of_lt (show (s.regs r).toNat < 256 ^ 8 from (s.regs r).toNat_lt), UInt64.ofNat_toNat]

/-- The return address is in the first slot. -/
private theorem CallsSetjmp.slot_rip (h : CallsSetjmp s jb) :
    loadWord (run setjmp s).mem (jb + 0x0) = returnAddress s := by
  rw [h.run_eq, UInt64.add_zero]
  exact loadWord_storeWord _ _ _

/-! ## What `longjmp` loads -/

/-- A word of the buffer, which `longjmp` finds as `setjmp` left it. -/
private theorem CallsLongjmp.loadWord_eq (h : CallsLongjmp s₀ s₁ jb val)
    (hbuf : jb.toNat + jumpbufSize ≤ 2 ^ 64) {off : UInt64} (hoff : off.toNat + 8 ≤ jumpbufSize) :
    loadWord s₁.mem (jb + off) = loadWord (run setjmp s₀).mem (jb + off) := by
  apply loadWord_congr
  intro i hi
  have haddr : (jb + off).toNat = jb.toNat + off.toNat := by
    rw [UInt64.toNat_add]
    omega
  rw [haddr, Nat.add_assoc]
  exact h.held _ (by omega)

/-- The registers behind `longjmp`. -/
private theorem CallsLongjmp.run_longjmp (h₀ : CallsSetjmp s₀ jb) (h₁ : CallsLongjmp s₀ s₁ jb val) :
    (run longjmp s₁).rip = returnAddress s₀ ∧ (run longjmp s₁).regs .rax = val ∧
      (∀ r ∈ [.rbx, .rbp, .r12, .r13], (run longjmp s₁).regs r = s₀.regs r) ∧
      (run longjmp s₁).regs .r14 = s₀.regs .r15 ∧ (run longjmp s₁).regs .r15 = s₁.regs .r15 ∧
      (run longjmp s₁).regs .rsp = s₁.regs .rsp + 8 := by
  have hload : ∀ slot ∈ Jump.slots, loadWord s₁.mem (jb + slot.2) = s₀.regs slot.1 := by
    have hfit : ∀ slot ∈ Jump.slots, slot.2.toNat + 8 ≤ jumpbufSize := by decide
    intro slot hslot
    rw [h₁.loadWord_eq h₀.inMemory (hfit slot hslot), h₀.slot hslot]
  have hrip : loadWord s₁.mem (jb + 0) = returnAddress s₀ := by
    rw [h₁.loadWord_eq h₀.inMemory (by decide), h₀.slot_rip]
  rw [UInt64.add_zero] at hrip
  simp only [Jump.slots, List.forall_mem_cons] at hload
  -- `r14` is loaded from its slot, and then from that of `r15`
  simp [run, longjmp, Instr.exec, State.setReg, h₁.arg, h₁.value, hload, hrip]

/-! ## Resuming -/

/-- The return address and the value always arrive. The registers do exactly when `r14` and
    `r15` of the caller were the same, and `r15` and the stack pointer are still those. -/
theorem longjmp_resumes_iff (h₀ : CallsSetjmp s₀ jb) (h₁ : CallsLongjmp s₀ s₁ jb val) :
    Resumes s₀ (run longjmp s₁) val ↔ s₀.regs .r14 = s₀.regs .r15 ∧
      s₁.regs .r15 = s₀.regs .r15 ∧ s₁.regs .rsp = s₀.regs .rsp := by
  obtain ⟨hrip, hrax, hregs, hr14, hr15, hrsp⟩ := h₁.run_longjmp h₀
  have hreturned : (run setjmp s₀).regs .rsp = s₀.regs .rsp + 8 := by
    simp [h₀.run_eq]
  constructor
  · -- what `longjmp` loads is what the registers held, so that these have to agree
    intro h
    have h14 := h.regs .r14 (by decide)
    have h15 := h.regs .r15 (by decide)
    have hsp := h.rsp
    rw [hr14] at h14
    rw [hr15] at h15
    rw [hrsp, hreturned, UInt64.add_left_inj] at hsp
    exact ⟨h14.symm, h15, hsp⟩
  · -- the four other registers were saved to their own slots, and loaded from there
    intro ⟨h14, h15, hsp⟩
    refine ⟨hrip, hrax, fun r hr => ?_, by rw [hrsp, hreturned, hsp]⟩
    simp only [preserved, List.mem_cons, List.not_mem_nil, or_false] at hr
    rcases hr with rfl | rfl | rfl | rfl | rfl | rfl
    · exact hregs _ (by decide)
    · exact hregs _ (by decide)
    · exact hregs _ (by decide)
    · exact hregs _ (by decide)
    · rw [hr14, h14]
    · rw [hr15, h15]

/-- A program that calls `setjmp` with its buffer in `rdi` and the stack above it. Its registers
    are all different but perhaps `r14` and `r15`. -/
def caller (r14 : UInt64) : State where
  regs
    | .rax => 0xa1
    | .rbx => 0xb2
    | .rcx => 0xc3
    | .rdx => 0xd4
    | .rsi => 0xe5
    | .rdi => 0x1000
    | .rbp => 0x8100
    | .rsp => 0x8000
    | .r8 => 0x08
    | .r9 => 0x09
    | .r10 => 0x10
    | .r11 => 0x11
    | .r12 => 0x12
    | .r13 => 0x13
    | .r14 => r14
    | .r15 => 0x15
  rip := 0x400000
  mem := Mem.write (fun _ => 0) 0x8000 (Mem.leBytes 8 0x401000)

/-- The caller has room for its return address and the buffer. -/
private theorem callsSetjmp_caller (r14 : UInt64) : CallsSetjmp (caller r14) 0x1000 :=
  have hrsp : (caller r14).regs .rsp = 0x8000 := rfl
  ⟨rfl, by decide, .inl (by rw [hrsp]; decide)⟩

/-- It has used all registers but `r15`, and the place of the return address, when it calls
    `longjmp(jb, 7)`. -/
def jumper (r14 : UInt64) : State where
  regs
    | .rdi => 0x1000
    | .rsi => 7
    | .rsp => 0x8000
    | .r15 => 0x15
    | _ => 0xff
  rip := 0x402000
  mem := (run setjmp (caller r14)).mem.write 0x8000 (Mem.leBytes 8 0x403000)

/-- The stack and the buffer are as `setjmp` left them. -/
private theorem callsLongjmp_jumper (r14 : UInt64) :
    CallsLongjmp (caller r14) (jumper r14) 0x1000 7 where
  arg := rfl
  value := rfl
  held i hi := Mem.write_apply_out (.inl (by
    show 0x1000 + i < 0x8000
    rw [jumpbufSize] at hi
    omega))

/-- A caller with different values in all registers is resumed where `r14` and `r15` are equal. -/
theorem longjmp_resumes_caller : Resumes (caller 0x15) (run longjmp (jumper 0x15)) 7 :=
  (longjmp_resumes_iff (callsSetjmp_caller 0x15) (callsLongjmp_jumper 0x15)).mpr ⟨rfl, rfl, rfl⟩

/-- A caller that has something else in `r14` gets what is in `r15`. -/
theorem longjmp_loses_r14 : ¬ ∀ s₀ s₁ jb val, CallsSetjmp s₀ jb → CallsLongjmp s₀ s₁ jb val →
    Resumes s₀ (run longjmp s₁) val := by
  intro h
  have hresumes := h _ _ _ _ (callsSetjmp_caller 0x14) (callsLongjmp_jumper 0x14)
  obtain ⟨-, -, -, hr14, -, -⟩ := (callsLongjmp_jumper 0x14).run_longjmp (callsSetjmp_caller 0x14)
  have hkept := hresumes.regs .r14 (by decide)
  rw [hr14] at hkept
  exact absurd hkept (by decide)

end Tlibc.Jump
