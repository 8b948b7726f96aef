import Tlibc.Lib.Machine

/-!
# `tlibc/jump.S`

The offsets are those of the members of `struct jumpbuf` in `tlibc/jump.h`.
-/

namespace Tlibc.Jump

open Machine

/-- `setjmp`. -/
def setjmp : List Instr :=
  [.store .rax 0x8 .rdi,
    .store .rbx 0x10 .rdi,
    .store .rcx 0x18 .rdi,
    .store .rdx 0x20 .rdi,
    .store .rsi 0x28 .rdi,
    .store .rdi 0x30 .rdi,
    .store .rbp 0x38 .rdi,
    .store .rsp 0x40 .rdi,
    .store .r8 0x48 .rdi,
    .store .r9 0x50 .rdi,
    .store .r10 0x58 .rdi,
    .store .r11 0x60 .rdi,
    .store .r12 0x68 .rdi,
    .store .r13 0x70 .rdi,
    .store .r14 0x78 .rdi,
    .store .r15 0x80 .rdi,
    .load 0x0 .rsp .rax,
    .store .rax 0x0 .rdi,
    .imm 0 .rax,
    .ret]

/-- `longjmp`. -/
def longjmp : List Instr :=
  [.load 0x10 .rdi .rbx,
    .load 0x18 .rdi .rcx,
    .load 0x20 .rdi .rdx,
    .load 0x38 .rdi .rbp,
    .load 0x48 .rdi .r8,
    .load 0x50 .rdi .r9,
    .load 0x58 .rdi .r10,
    .load 0x60 .rdi .r11,
    .load 0x68 .rdi .r12,
    .load 0x70 .rdi .r13,
    .load 0x78 .rdi .r14,
    .load 0x80 .rdi .r14,
    .load 0x0 .rdi .rax,
    .store .rax 0x0 .rsp,
    .mov .rsi .rax,
    .ret]

/-- `sizeof(jmp_buf)`. -/
def jumpbufSize : Nat := 136

end Tlibc.Jump
