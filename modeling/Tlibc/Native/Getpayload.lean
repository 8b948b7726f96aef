import Tlibc.Native.Boot

/-!
# `bootloader/getpayload.c`

The tool is compiled for x86, so the members of `struct KernelHeader` are little-endian as
they are for the loader. The messages it prints are left out.
-/

namespace Tlibc.Getpayload

open Boot Boot.BzImage

/-! More members of `struct KernelHeader`. -/

def payloadOffset : Field := ⟨0x248, .four⟩
def payloadLength : Field := ⟨0x24c, .four⟩

/-- The mapping of a file, from its first byte on. Its last page is filled up with zeros. -/
def mapped (file : List UInt8) : Mem := fun a => file.getD a 0

/-- `BiCheck`. -/
def biCheck (khdr : Mem) : Nat :=
  if getField khdr 0 bootFlag ≠ 0xaa55 then 1
  else if getField khdr 0 header ≠ 0x53726448 then 1
  else 0

/-- `skip_sects`, in eight bits. -/
def skipSects (setupSects : UInt8) : UInt8 := (if setupSects = 0 then 4 else setupSects) + 1

/-- What `BiGetPayload` returns: where its result points to, from the start of the mapping,
    and `*size`. -/
structure Payload where
  offset : UInt64
  size : UInt64
  deriving DecidableEq, Repr

/-- `BiGetPayload`. -/
def biGetPayload (filedata : Mem) : Option Payload :=
  if biCheck filedata ≠ 0 then
    none
  else
    let skip := skipSects (UInt8.ofNat (getField filedata 0 setupSects))
    let payloadLen := UInt64.ofNat (getField filedata 0 payloadLength)
    let offset := UInt64.ofNat (getField filedata 0 payloadOffset)
    let offset := offset + (512 * skip.toUInt32).toUInt64
    some { offset := offset, size := payloadLen }

end Tlibc.Getpayload
