import Tlibc.Lib.Crc
import Tlibc.Native.Gpt

/-!
# The table-driven CRC of `gpt.c`

`crc32_tab` holds, at every index, eight steps of the CRC-32 register, so the
loop of `__efi_crc32` computes the CRC of `Crc.crc32`.

* `crc32_bitwise`: `crc32` is CRC-32 fed one bit at a time, and `__efi_crc32` can
  be continued
* `crc32_ne_of_window`: strings that differ within four bytes have different CRCs
-/

namespace Tlibc.Gpt

/-- The CRC-32 polynomial, bits reflected. -/
private abbrev poly : BitVec 32 := 0xEDB88320#32

/-- Every entry of `crc32_tab` is eight steps of its index. -/
private theorem crc32Tab_eq : ∀ i, i < 256 →
    (crc32Tab.getD i 0).toBitVec = (Crc.step poly)^[8] (BitVec.ofNat 32 i) := by
  decide +kernel

/-- One iteration of `__efi_crc32` feeds one byte to the register. -/
private theorem efiCrc32_step (c : UInt32) (s : UInt8) :
    (crc32Tab.getD ((c ^^^ s.toUInt32) &&& 0xff).toNat 0 ^^^ (c >>> 8)).toBitVec =
      Crc.byte poly c.toBitVec s.toBitVec := by
  have hidx : ((c ^^^ s.toUInt32) &&& 0xff).toNat < 256 := by
    rw [UInt32.toNat_and]
    exact Nat.lt_of_le_of_lt Nat.and_le_right (by decide)
  have hbits : BitVec.ofNat 32 ((c ^^^ s.toUInt32) &&& 0xff).toNat =
      (c.toBitVec ^^^ s.toBitVec.setWidth 32) &&& 255#32 := by
    rw [← UInt32.toNat_toBitVec, BitVec.ofNat_toNat, BitVec.setWidth_eq]
    rfl
  rw [Crc.byte_eq_table, UInt32.toBitVec_xor, crc32Tab_eq _ hidx, hbits]
  rfl

private theorem efiCrc32_eq (bs : List UInt8) (seed : UInt32) :
    (efiCrc32 bs seed).toBitVec = Crc.run poly seed.toBitVec (bs.map UInt8.toBitVec) := by
  induction bs generalizing seed with
  | nil => rfl
  | cons b bs ih =>
    rw [List.map_cons]
    show (efiCrc32 bs _).toBitVec = Crc.run poly (Crc.byte poly _ _) _
    rw [ih, efiCrc32_step]

/-- `crc32` is CRC-32. -/
theorem crc32_eq (bs : List UInt8) : crc32 bs = Crc.crc32 bs := by
  have hones : (0xFFFFFFFF : UInt32).toBitVec = BitVec.allOnes 32 := by decide
  apply UInt32.toBitVec_inj.mp
  rw [crc32, UInt32.toBitVec_xor, efiCrc32_eq, hones, BitVec.xor_allOnes]
  rfl

/-- The table gives the checksum of the shift register, and a string can be fed to it in
    parts. -/
theorem crc32_bitwise :
    (∀ bs : List UInt8, crc32 bs = Crc.crc32Bits bs) ∧
      ∀ (a b : List UInt8) (seed : UInt32),
        efiCrc32 (a ++ b) seed = efiCrc32 b (efiCrc32 a seed) := by
  constructor
  · intro bs
    rw [crc32_eq, Crc.crc32_eq_bits]
  · intro a b seed
    rw [efiCrc32, List.foldl_append]
    rfl

/-! ## Error detection -/

/-- Two strings of one length, cut around the places where they differ. -/
private theorem split_window {α : Type} {u v : List α} (hlen : u.length = v.length) {i k : Nat}
    (hwin : ∀ j, u[j]? ≠ v[j]? → i ≤ j ∧ j < i + k) :
    ∃ pre as bs post, u = pre ++ as ++ post ∧ v = pre ++ bs ++ post ∧
      as.length = bs.length ∧ as.length ≤ k := by
  -- in front of the window both lists are the same
  have hpre : v.take i = u.take i := by
    apply List.ext_getElem?
    intro j
    rw [List.getElem?_take, List.getElem?_take]
    split
    case isFalse => rfl
    case isTrue hj =>
      by_contra hne
      have := hwin j (Ne.symm hne)
      omega
  -- and behind it
  have hpost : v.drop (i + k) = u.drop (i + k) := by
    apply List.ext_getElem?
    intro j
    rw [List.getElem?_drop, List.getElem?_drop]
    by_contra hne
    have := hwin _ (Ne.symm hne)
    omega
  -- a list is what is in front of the window, in it, and behind it
  have hcut : ∀ l : List α, l = l.take i ++ (l.drop i).take k ++ l.drop (i + k) := by
    intro l
    rw [List.append_assoc, ← List.drop_drop, List.take_append_drop, List.take_append_drop]
  refine ⟨u.take i, (u.drop i).take k, (v.drop i).take k, u.drop (i + k), hcut u, ?_, ?_, ?_⟩
  · rw [← hpre, ← hpost]
    exact hcut v
  · simp only [List.length_take, List.length_drop, hlen]
  · rw [List.length_take]
    exact Nat.min_le_left k _

/-- Strings that differ, and only within four consecutive bytes, have different CRCs. -/
theorem crc32_ne_of_window {u v : List UInt8} (hlen : u.length = v.length) (hne : u ≠ v) {i : Nat}
    (hwin : ∀ j, u[j]? ≠ v[j]? → i ≤ j ∧ j < i + 4) : crc32 u ≠ crc32 v := by
  obtain ⟨pre, as, bs, post, rfl, rfl, hab, hle⟩ := split_window hlen hwin
  have habne : as ≠ bs := fun h => hne (by rw [h])
  have hmap : as.map UInt8.toBitVec ≠ bs.map UInt8.toBitVec := fun h =>
    habne ((List.map_inj_right fun _ _ => UInt8.toBitVec_inj.mp).mp h)
  intro h
  rw [crc32_eq, crc32_eq, Crc.crc32, Crc.crc32] at h
  have hrun := BitVec.not_inj.mp (UInt32.toBitVec_inj.mpr h)
  simp only [List.map_append] at hrun
  exact Crc.run_ne_of_window poly (by decide) _ (by simpa using hab) (by simp; omega) hmap hrun

end Tlibc.Gpt
