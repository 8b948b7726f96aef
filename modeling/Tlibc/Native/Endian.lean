import Tlibc.Native.Basic

/-!
# `gpt/endian.h`

Little-endian loads and stores, written for a host of either byte order: on a
little-endian host they are plain accesses, on a big-endian one they go through
`__swap_16`, `__swap_32` and `__swap_64`.

`genericLoadLe_eq` and `genericStoreLe_eq` are the specification of the header:
on every host the bytes in memory are the little-endian ones.
-/

namespace Tlibc

/-- The sizes `_generic_store_le` and `_generic_load_le` dispatch on; any other
    `sizeof` is an `assert(0)` that no use of the macros reaches. -/
inductive Width where
  | one
  | two
  | four
  | eight
  deriving DecidableEq, Repr

namespace Width

/-- `sizeof` of the attribute. -/
@[simp] def bytes : Width → Nat
  | one => 1
  | two => 2
  | four => 4
  | eight => 8

end Width

/-- A member of a packed struct: its offset and its size. -/
structure Field where
  off : Nat
  width : Width
  deriving DecidableEq, Repr

namespace Host

/-- `__little_endian()`. -/
def littleEndian : Host → Bool
  | little => true
  | big => false

/-- The integer whose bytes are the first `n` of `src` in reverse. -/
def swap (h : Host) (n : Nat) (src : List UInt8) : Nat := h.valueOf (src.take n).reverse

/-- `__swap_16`. -/
def swap16 (h : Host) (src : List UInt8) : Nat := h.swap 2 src

/-- `__swap_32`. -/
def swap32 (h : Host) (src : List UInt8) : Nat := h.swap 4 src

/-- `__swap_64`. -/
def swap64 (h : Host) (src : List UInt8) : Nat := h.swap 8 src

/-- `__load_le16` of the object with bytes `src`. -/
def loadLe16 (h : Host) (src : List UInt8) : Nat :=
  if h.littleEndian then h.valueOf src else h.swap16 src

/-- `__load_le32`. -/
def loadLe32 (h : Host) (src : List UInt8) : Nat :=
  if h.littleEndian then h.valueOf src else h.swap32 src

/-- `__load_le64`. -/
def loadLe64 (h : Host) (src : List UInt8) : Nat :=
  if h.littleEndian then h.valueOf src else h.swap64 src

/-- `__store_le16`. -/
def storeLe16 (h : Host) (m : Mem) (dst val : Nat) : Mem :=
  if h.littleEndian then h.put m dst 2 val else h.put m dst 2 (h.swap16 (h.bytesOf 2 val))

/-- `__store_le32`. -/
def storeLe32 (h : Host) (m : Mem) (dst val : Nat) : Mem :=
  if h.littleEndian then h.put m dst 4 val else h.put m dst 4 (h.swap32 (h.bytesOf 4 val))

/-- `__store_le64`. -/
def storeLe64 (h : Host) (m : Mem) (dst val : Nat) : Mem :=
  if h.littleEndian then h.put m dst 8 val else h.put m dst 8 (h.swap64 (h.bytesOf 8 val))

/-- `_generic_store_le(attr, val)` for an attribute of size `w` at `dst`. -/
def genericStoreLe (h : Host) (m : Mem) (dst : Nat) (w : Width) (val : Nat) : Mem :=
  match w with
  | .one => h.put m dst 1 val
  | .two => h.storeLe16 m dst val
  | .four => h.storeLe32 m dst val
  | .eight => h.storeLe64 m dst val

/-- The value `_generic_load_le(var, attr)` assigns, for an attribute of size `w`
    with object representation `attr`. -/
def genericLoadLe (h : Host) (w : Width) (attr : List UInt8) : Nat :=
  match w with
  | .one => h.valueOf attr
  | .two => h.loadLe16 attr
  | .four => h.loadLe32 attr
  | .eight => h.loadLe64 attr

/-- `_generic_store_le` to the member `f` of the struct at `base`. -/
def storeLe (h : Host) (m : Mem) (base : Nat) (f : Field) (val : Nat) : Mem :=
  h.genericStoreLe m (base + f.off) f.width val

/-- `_generic_load_le` from the member `f` of the struct at `base`. -/
def loadLe (h : Host) (m : Mem) (base : Nat) (f : Field) : Nat :=
  h.genericLoadLe f.width (m.read (base + f.off) f.width.bytes)

/-! ## The header is right on both hosts -/

/-- Reversing the bytes of an object reverses the number they spell. -/
private theorem valueOf_swap (h : Host) (n : Nat) (bs : List UInt8) (hn : bs.length = n)
    (hbig : h.littleEndian = false) : h.swap n bs = Mem.leNat bs := by
  cases h with
  | little => exact absurd hbig (by decide)
  | big => simp only [swap, valueOf, ← hn, List.take_length, List.reverse_reverse]

/-- Bytes put after a swap are the little-endian ones. -/
private theorem put_swap (h : Host) (m : Mem) (dst n val : Nat) (hbig : h.littleEndian = false) :
    h.put m dst n (h.swap n (h.bytesOf n val)) = m.write dst (Mem.leBytes n val) := by
  rw [valueOf_swap h n _ (length_bytesOf h n val) hbig]
  cases h with
  | little => exact absurd hbig (by decide)
  | big =>
    have hlen : (Mem.leBytes n val).reverse.length = n := by simp
    simp only [put, bytesOf, Mem.leBytes_leNat hlen, List.reverse_reverse]

private theorem put_little (h : Host) (m : Mem) (dst n val : Nat)
    (hlittle : h.littleEndian = true) : h.put m dst n val = m.write dst (Mem.leBytes n val) := by
  cases h with
  | little => rfl
  | big => exact absurd hlittle (by decide)

private theorem valueOf_little_of (h : Host) (bs : List UInt8) (hlittle : h.littleEndian = true) :
    h.valueOf bs = Mem.leNat bs := by
  cases h with
  | little => rfl
  | big => exact absurd hlittle (by decide)

/-- On every host `_generic_load_le` reads a little-endian number. -/
theorem genericLoadLe_eq (h : Host) (w : Width) (attr : List UInt8)
    (hlen : attr.length = w.bytes) : h.genericLoadLe w attr = Mem.leNat attr := by
  cases hle : h.littleEndian with
  | true =>
    have hv := valueOf_little_of h attr hle
    cases w <;> simp only [genericLoadLe, loadLe16, loadLe32, loadLe64, hle, if_true, hv]
  | false =>
    have hs : ∀ n, attr.length = n → h.swap n attr = Mem.leNat attr :=
      fun n hn => valueOf_swap h n attr hn hle
    -- a single byte is the same in either order, the others are swapped
    cases w with
    | one =>
      obtain ⟨b, rfl⟩ := List.length_eq_one_iff.mp hlen
      cases h <;> rfl
    | two =>
      simp only [genericLoadLe, loadLe16, swap16, hle, Bool.false_eq_true, if_false, hs 2 hlen]
    | four =>
      simp only [genericLoadLe, loadLe32, swap32, hle, Bool.false_eq_true, if_false, hs 4 hlen]
    | eight =>
      simp only [genericLoadLe, loadLe64, swap64, hle, Bool.false_eq_true, if_false, hs 8 hlen]

/-- On every host `_generic_store_le` stores the little-endian bytes. -/
theorem genericStoreLe_eq (h : Host) (m : Mem) (dst : Nat) (w : Width) (val : Nat) :
    h.genericStoreLe m dst w val = m.write dst (Mem.leBytes w.bytes val) := by
  cases hle : h.littleEndian with
  | true =>
    have hp : ∀ n, h.put m dst n val = m.write dst (Mem.leBytes n val) :=
      fun n => put_little h m dst n val hle
    cases w <;>
      simp only [genericStoreLe, storeLe16, storeLe32, storeLe64, hle, if_true, hp, Width.bytes]
  | false =>
    have hs : ∀ n, h.put m dst n (h.swap n (h.bytesOf n val)) = m.write dst (Mem.leBytes n val) :=
      fun n => put_swap h m dst n val hle
    cases w with
    | one => cases h <;> rfl
    | two =>
      simp only [genericStoreLe, storeLe16, swap16, hle, Bool.false_eq_true, if_false, hs,
        Width.bytes]
    | four =>
      simp only [genericStoreLe, storeLe32, swap32, hle, Bool.false_eq_true, if_false, hs,
        Width.bytes]
    | eight =>
      simp only [genericStoreLe, storeLe64, swap64, hle, Bool.false_eq_true, if_false, hs,
        Width.bytes]

@[simp] theorem storeLe_eq (h : Host) (m : Mem) (base : Nat) (f : Field) (val : Nat) :
    h.storeLe m base f val = m.write (base + f.off) (Mem.leBytes f.width.bytes val) :=
  genericStoreLe_eq h m _ _ _

@[simp] theorem loadLe_eq (h : Host) (m : Mem) (base : Nat) (f : Field) :
    h.loadLe m base f = m.load (base + f.off) f.width.bytes :=
  genericLoadLe_eq h _ _ (Mem.length_read _ _ _)

end Host

end Tlibc
