import Tlibc.Native.Getpayload
import Mathlib.Data.List.GetD

/-!
# The payload that `getpayload` finds

The number of sectors to skip is kept in eight bits, and the range that the header
describes is not compared with the length of the file.

* `biGetPayload_inside_iff`: the range is the header's and inside the file exactly when
  the number does not wrap and the header describes such a range
-/

namespace Tlibc.Getpayload

open Boot Boot.BzImage

variable {file : List UInt8} {p : Payload}

/-- The number of setup sectors: 4 if the header says 0. -/
def setupCount (file : List UInt8) : Nat :=
  if getField (mapped file) 0 setupSects = 0 then 4 else getField (mapped file) 0 setupSects

/-- Where the header says that the payload begins. -/
def payloadStart (file : List UInt8) : Nat :=
  512 * (setupCount file + 1) + getField (mapped file) 0 payloadOffset

/-- The range that the header describes lies in the file. -/
structure InFile (file : List UInt8) (p : Payload) : Prop where
  start : p.offset.toNat = payloadStart file
  size : p.size.toNat = getField (mapped file) 0 payloadLength
  inside : p.offset.toNat + p.size.toNat ≤ file.length

/-- What is returned, if anything is. -/
def Correct (file : List UInt8) : Prop :=
  ∀ p, biGetPayload (mapped file) = some p → InFile file p

/-! ## The fields -/

private theorem getField_lt (m : Mem) (f : Field) : getField m 0 f < 256 ^ f.width.bytes :=
  Mem.load_lt _ _ _

/-- 255 and one are 0. -/
private theorem toNat_skipSects {n : Nat} (hn : n < 256) :
    (skipSects (UInt8.ofNat n)).toNat = ((if n = 0 then 4 else n) + 1) % 256 := by
  have hval : (UInt8.ofNat n).toNat = n := UInt8.toNat_ofNat_of_lt' hn
  by_cases hzero : n = 0
  · rw [hzero]
    rfl
  · have hne : UInt8.ofNat n ≠ 0 := by
      intro h
      rw [h] at hval
      exact hzero hval.symm
    rw [skipSects, if_neg hne, if_neg hzero, UInt8.toNat_add, hval]
    rfl

/-- The size of the payload is the header's, and its start that of the header up to the
    number of sectors modulo 256. -/
private theorem biGetPayload_some (h : biCheck (mapped file) = 0) : ∃ p,
    biGetPayload (mapped file) = some p ∧
      p.size.toNat = getField (mapped file) 0 payloadLength ∧
      p.offset.toNat =
        512 * ((setupCount file + 1) % 256) + getField (mapped file) 0 payloadOffset := by
  have hsects : getField (mapped file) 0 setupSects < 256 := getField_lt _ setupSects
  have hoffset : getField (mapped file) 0 payloadOffset < 256 ^ 4 := getField_lt _ payloadOffset
  have hlength : getField (mapped file) 0 payloadLength < 256 ^ 4 := getField_lt _ payloadLength
  have hskip := toNat_skipSects hsects
  -- the length fits 64 bits, and so does the offset behind the skipped sectors
  refine ⟨_, by rw [biGetPayload, if_neg (by rw [h]; decide)], ?_, ?_⟩
  · exact UInt64.toNat_ofNat_of_lt' (Nat.lt_trans hlength (by decide))
  · show (UInt64.ofNat (getField (mapped file) 0 payloadOffset) +
      (512 * (skipSects (UInt8.ofNat (getField (mapped file) 0 setupSects))).toUInt32).toUInt64).toNat
        = _
    -- the sectors that are skipped are counted in a byte
    have hsect : (skipSects (UInt8.ofNat (getField (mapped file) 0 setupSects))).toNat =
        (setupCount file + 1) % 256 := hskip
    have hlt : (setupCount file + 1) % 256 < 256 := Nat.mod_lt _ (by decide)
    have hmul : (512 * (skipSects (UInt8.ofNat (getField (mapped file) 0 setupSects))).toUInt32).toNat
        = 512 * ((setupCount file + 1) % 256) := by
      rw [UInt32.toNat_mul, UInt8.toNat_toUInt32, hsect, show (512 : UInt32).toNat = 512 from rfl]
      omega
    have hoff : (UInt64.ofNat (getField (mapped file) 0 payloadOffset)).toNat =
        getField (mapped file) 0 payloadOffset :=
      UInt64.toNat_ofNat_of_lt' (Nat.lt_trans hoffset (by decide))
    rw [UInt64.toNat_add, UInt32.toNat_toUInt64, hmul, hoff]
    omega

/-! ## The range -/

/-- The range of a correct payload is inside. -/
theorem Correct.inside (h : biCheck (mapped file) = 0) (hcorrect : Correct file) :
    payloadStart file + getField (mapped file) 0 payloadLength ≤ file.length := by
  obtain ⟨p, hp, -⟩ := biGetPayload_some h
  obtain ⟨hstart, hsize, hinside⟩ := hcorrect p hp
  rwa [hstart, hsize] at hinside

/-- With 255 setup sectors, none is skipped. -/
private theorem Correct.ne_255 (h : biCheck (mapped file) = 0) (hcorrect : Correct file) :
    getField (mapped file) 0 setupSects ≠ 255 := by
  intro hwrap
  obtain ⟨p, hp, -, hoffset⟩ := biGetPayload_some h
  obtain ⟨hstart, -⟩ := hcorrect p hp
  have hcount : setupCount file = 255 := by
    rw [setupCount, hwrap]
    rfl
  rw [hoffset, payloadStart, hcount] at hstart
  omega

/-- Of a header that is accepted, exactly when the sectors to skip can be counted in eight
    bits and the range that it describes is in the file. -/
theorem biGetPayload_inside_iff (h : biCheck (mapped file) = 0) : Correct file ↔
    getField (mapped file) 0 setupSects ≠ 255 ∧
      payloadStart file + getField (mapped file) 0 payloadLength ≤ file.length := by
  constructor
  · intro hcorrect
    exact ⟨hcorrect.ne_255 h, hcorrect.inside h⟩
  · -- with fewer than 255 setup sectors, one more fits into eight bits
    intro ⟨hwrap, hinside⟩ p' hp'
    obtain ⟨p, hp, hsize, hoffset⟩ := biGetPayload_some h
    obtain rfl := Option.some.inj (hp.symm.trans hp')
    have hsects : getField (mapped file) 0 setupSects < 256 := getField_lt _ setupSects
    have hmod : (setupCount file + 1) % 256 = setupCount file + 1 := by
      rw [setupCount]
      split <;> omega
    rw [hmod, ← payloadStart] at hoffset
    exact ⟨hoffset, hsize, by rw [hoffset, hsize]; exact hinside⟩

/-- A header with a payload of one byte behind the setup sectors. -/
def image (sects : Nat) : Mem :=
  [(setupSects, sects), (bootFlag, 0xaa55), (header, 0x53726448), (payloadLength, 1)].foldl
    (fun m s => setField m 0 s.1 s.2) fun _ => 0

/-- The file, of `n` bytes. -/
def imageFile (sects n : Nat) : List UInt8 := (image sects).read 0 n

private theorem getField_imageFile {sects n : Nat} {f : Field} (hf : f.off + f.width.bytes ≤ n) :
    getField (mapped (imageFile sects n)) 0 f = getField (image sects) 0 f := by
  refine Mem.load_congr fun i hi => ?_
  have hlt : 0 + f.off + i < (imageFile sects n).length := by
    rw [imageFile, Mem.length_read]
    omega
  rw [mapped, List.getD_eq_getElem _ _ hlt]
  simp only [imageFile, Mem.getElem_read, Nat.zero_add]

private theorem biCheck_imageFile {sects n : Nat} (hsects : sects = 1 ∨ sects = 255)
    (hn : 0x250 ≤ n) :
    biCheck (mapped (imageFile sects n)) = 0 := by
  have hle : ∀ {k}, k ≤ 0x250 → k ≤ n := fun h => Nat.le_trans h hn
  rw [biCheck, getField_imageFile (hle (by decide)), getField_imageFile (hle (by decide))]
  rcases hsects with rfl | rfl
  · decide
  · decide

/-- With all of its payload. -/
theorem biGetPayload_imageFile : Correct (imageFile 1 1025) := by
  refine (biGetPayload_inside_iff (biCheck_imageFile (.inl rfl) (by decide))).mpr ?_
  rw [payloadStart, setupCount, getField_imageFile (by decide), getField_imageFile (by decide),
    getField_imageFile (by decide), imageFile, Mem.length_read]
  decide

/-- With 255 setup sectors, and cut off in front of the payload. -/
theorem payload_outside :
    (biCheck (mapped (imageFile 255 131073)) = 0 ∧ ¬ Correct (imageFile 255 131073)) ∧
      biCheck (mapped (imageFile 1 1024)) = 0 ∧ ¬ Correct (imageFile 1 1024) := by
  have hwrap := biCheck_imageFile (n := 131073) (.inr rfl) (by decide)
  have hcut := biCheck_imageFile (n := 1024) (.inl rfl) (by decide)
  refine ⟨⟨hwrap, fun h => ?_⟩, hcut, fun h => ?_⟩
  · refine h.ne_255 hwrap ?_
    rw [getField_imageFile (by decide)]
    decide
  · have hinside := h.inside hcut
    rw [payloadStart, setupCount, getField_imageFile (by decide), getField_imageFile (by decide),
      getField_imageFile (by decide), imageFile, Mem.length_read] at hinside
    exact absurd hinside (by decide)

end Tlibc.Getpayload
