import Mathlib.Logic.Function.Iterate

/-!
# Reflected cyclic redundancy checks

A reflected CRC of any width as a shift register: each input byte is xored into
the low end of the register, which is then stepped eight times. The register's
step is linear in exclusive or, and that is all the table-driven form rests on:
eight steps of a register are eight steps of its low byte (the table entry)
xored with the rest moved down eight places (`byte_eq_table`).

* `run_eq_bits`: a byte at a time is a bit at a time, lowest bit first
* `run_ne_of_window`: strings that differ only within a window no wider than the
  register leave it in different states
-/

namespace Crc

variable {w : Nat} (poly : BitVec w)

/-- One step of the register: shift right, and xor the polynomial in when the bit
    shifted out was set. -/
def step (c : BitVec w) : BitVec w :=
  if c.getLsbD 0 then (c >>> 1) ^^^ poly else c >>> 1

/-- Feed one byte to the register. -/
def byte (c : BitVec w) (b : BitVec 8) : BitVec w :=
  (step poly)^[8] (c ^^^ b.setWidth w)

/-- Feed a byte string to the register. -/
def run (c : BitVec w) (bs : List (BitVec 8)) : BitVec w :=
  bs.foldl (byte poly) c

/-- CRC-32: polynomial `0xEDB88320`, initial value `0xFFFFFFFF`, final complement. -/
def crc32 (bs : List UInt8) : UInt32 :=
  ⟨~~~ run 0xEDB88320#32 0xFFFFFFFF#32 (bs.map UInt8.toBitVec)⟩

/-- A step is linear. -/
theorem step_xor (x y : BitVec w) : step poly (x ^^^ y) = step poly x ^^^ step poly y := by
  simp only [step, BitVec.getLsbD_xor, BitVec.ushiftRight_xor_distrib]
  cases x.getLsbD 0 <;> cases y.getLsbD 0 <;>
    simp only [Bool.xor_false, Bool.xor_true, Bool.not_false, Bool.not_true,
      Bool.false_eq_true, if_true, if_false]
  · rw [BitVec.xor_assoc]
  · rw [BitVec.xor_assoc, BitVec.xor_assoc, BitVec.xor_comm poly]
  · -- both bits set: the polynomial cancels
    rw [BitVec.xor_assoc, BitVec.xor_comm poly, BitVec.xor_assoc (y >>> 1), BitVec.xor_self,
      BitVec.xor_zero]

/-- So are several steps. -/
theorem steps_xor (n : Nat) (x y : BitVec w) :
    (step poly)^[n] (x ^^^ y) = (step poly)^[n] x ^^^ (step poly)^[n] y := by
  induction n generalizing x y with
  | zero => rfl
  | succ n ih => rw [Function.iterate_succ_apply, step_xor, ih]; rfl

/-- A register whose low `n` bits are clear only moves down in `n` steps. -/
theorem steps_of_low_clear (n : Nat) (x : BitVec w) (hx : ∀ i, i < n → x.getLsbD i = false) :
    (step poly)^[n] x = x >>> n := by
  induction n generalizing x with
  | zero => simp only [Function.iterate_zero, id_eq, BitVec.ushiftRight_zero]
  | succ n ih =>
    -- a clear low bit: this step is a shift, and the bits above move down
    have h0 : step poly x = x >>> 1 := by
      rw [step, hx 0 (Nat.succ_pos n), if_neg Bool.false_ne_true]
    have hlow : ∀ i, i < n → (x >>> 1).getLsbD i = false := by
      intro i hi
      rw [BitVec.getLsbD_ushiftRight]
      exact hx (1 + i) (by omega)
    rw [Function.iterate_succ_apply, h0, ih _ hlow, ← BitVec.shiftRight_add, Nat.add_comm 1 n]

/-- A register splits into its low byte and the rest. -/
theorem xor_low_high (x : BitVec w) : (x &&& 255#w) ^^^ (x &&& ~~~255#w) = x := by
  ext i
  simp only [BitVec.getElem_xor, BitVec.getElem_and, BitVec.getElem_not]
  cases x[i] <;> cases (255#w)[i] <;> rfl

/-- The bits of a byte. -/
private theorem getLsbD_255 (i : Nat) : (255#w).getLsbD i = (decide (i < w) && decide (i < 8)) := by
  rw [BitVec.getLsbD_ofNat, show (255 : Nat) = 2 ^ 8 - 1 from rfl, Nat.testBit_two_pow_sub_one]

/-- The bits above a byte have none of it. -/
private theorem high_low_clear (x : BitVec w) (i : Nat) (hi : i < 8) :
    (x &&& ~~~255#w).getLsbD i = false := by
  simp only [BitVec.getLsbD_and, BitVec.getLsbD_not, getLsbD_255, hi, decide_true, Bool.and_true]
  by_cases hw : i < w
  · simp only [hw, decide_true, Bool.not_true, Bool.and_false]
  · simp only [hw, decide_false, Bool.false_and, Bool.and_false]

/-- A shift by a byte drops the low bits only. -/
private theorem high_shift (x : BitVec w) : (x &&& ~~~255#w) >>> 8 = x >>> 8 := by
  -- the masked bits are the ones the shift drops
  have hmask : ∀ k, 8 ≤ k → k < w → (~~~255#w).getLsbD k = true := fun k hk hw => by
    rw [BitVec.getLsbD_not, getLsbD_255, decide_eq_true hw, decide_eq_false (by omega : ¬ k < 8)]
    rfl
  refine BitVec.eq_of_getLsbD_eq fun i _ => ?_
  rw [BitVec.getLsbD_ushiftRight, BitVec.getLsbD_ushiftRight, BitVec.getLsbD_and]
  rcases Nat.lt_or_ge (8 + i) w with hw | hw
  · rw [hmask _ (Nat.le_add_right 8 i) hw, Bool.and_true]
  · rw [BitVec.getLsbD_of_ge x _ hw, Bool.false_and]

/-- Eight steps of a register: its low byte's table entry, and the rest moved
    down eight places. -/
theorem steps_eight (x : BitVec w) :
    (step poly)^[8] x = (step poly)^[8] (x &&& 255#w) ^^^ (x >>> 8) := by
  have h := steps_xor poly 8 (x &&& 255#w) (x &&& ~~~255#w)
  rwa [xor_low_high, steps_of_low_clear poly 8 _ (high_low_clear x), high_shift] at h

/-- A byte at a time from a table of eight-step values. -/
theorem byte_eq_table (c : BitVec w) (b : BitVec 8) :
    byte poly c b
      = (step poly)^[8] ((c ^^^ b.setWidth w) &&& 255#w) ^^^ (c >>> 8) := by
  -- the byte fills the low eight bits only
  have hb : b.setWidth w >>> 8 = 0#w := by
    apply BitVec.eq_of_getLsbD_eq
    intro i _
    simp only [BitVec.getLsbD_ushiftRight, BitVec.getLsbD_setWidth,
      BitVec.getLsbD_of_ge b (8 + i) (by omega), Bool.and_false, BitVec.getLsbD_zero]
  rw [byte, steps_eight, BitVec.ushiftRight_xor_distrib, hb, BitVec.xor_zero]

/-! ## A bit at a time -/

/-- Feed one bit to the register. -/
def bit (c : BitVec w) (b : Bool) : BitVec w :=
  if (c.getLsbD 0 ^^ b) then (c >>> 1) ^^^ poly else c >>> 1

/-- The bits of a byte string, each byte's lowest bit first. -/
def bits (bs : List (BitVec 8)) : List Bool :=
  bs.flatMap fun b => (List.range 8).map b.getLsbD

/-- CRC-32 one bit at a time. -/
def crc32Bits (bs : List UInt8) : UInt32 :=
  ⟨~~~ (bits (bs.map UInt8.toBitVec)).foldl (bit 0xEDB88320#32) 0xFFFFFFFF#32⟩

/-- The lowest bit alone: a step leaves the polynomial or nothing. -/
private theorem step_ofBool (hw : 0 < w) (b : Bool) :
    step poly ((BitVec.ofBool b).setWidth w) = if b then poly else 0#w := by
  have hshift : (BitVec.ofBool b).setWidth w >>> 1 = 0#w := by
    apply BitVec.eq_of_getLsbD_eq
    intro i _
    simp
  rw [step, hshift, BitVec.zero_xor]
  cases b <;> simp [hw]

/-- Feeding a bit is a step of the register with the bit xored in. -/
theorem bit_eq_step (hw : 0 < w) (c : BitVec w) (b : Bool) :
    bit poly c b = step poly (c ^^^ (BitVec.ofBool b).setWidth w) := by
  have hself : c >>> 1 ^^^ poly ^^^ poly = c >>> 1 := by
    rw [BitVec.xor_assoc, BitVec.xor_self, BitVec.xor_zero]
  rw [step_xor, step_ofBool poly hw, bit, step]
  cases c.getLsbD 0 <;> cases b <;> simp [hself]

/-- A step takes the lowest bit out and moves the bits above it down. -/
private theorem step_eq_low_high (hw : 0 < w) (x : BitVec w) :
    step poly x = step poly ((BitVec.ofBool (x.getLsbD 0)).setWidth w) ^^^ (x >>> 1) := by
  rw [step_ofBool poly hw, step]
  cases x.getLsbD 0 <;> simp [BitVec.xor_comm]

/-- A register fed the low `n` bits of `x` one by one has made `n` steps with `x`
    xored in at once, but for the bits of `x` that are left. -/
theorem foldl_bit (hw : 0 < w) (n : Nat) (c x : BitVec w) :
    ((List.range n).map x.getLsbD).foldl (bit poly) c ^^^ (x >>> n) =
      (step poly)^[n] (c ^^^ x) := by
  induction n with
  | zero => simp
  | succ n ih =>
    have hbit : x.getLsbD n = (x >>> n).getLsbD 0 := by simp
    rw [List.range_succ, List.map_append, List.foldl_append, Function.iterate_succ_apply', ← ih,
      step_xor, step_eq_low_high poly hw (x >>> n), ← BitVec.shiftRight_add, ← BitVec.xor_assoc,
      ← step_xor, ← hbit, ← bit_eq_step poly hw]
    rfl

/-- Eight bits, lowest first, are a byte. -/
theorem byte_eq_bits (hw : 8 ≤ w) (c : BitVec w) (b : BitVec 8) :
    byte poly c b = ((List.range 8).map b.getLsbD).foldl (bit poly) c := by
  have hrest : b.setWidth w >>> 8 = 0#w := by
    apply BitVec.eq_of_getLsbD_eq
    intro i _
    simp
  have hbits : (List.range 8).map (b.setWidth w).getLsbD = (List.range 8).map b.getLsbD := by
    apply List.map_congr_left
    intro i hi
    have hi8 : i < 8 := List.mem_range.mp hi
    simp [show i < w by omega]
  rw [byte, ← foldl_bit poly (by omega), hrest, hbits, BitVec.xor_zero]

/-- The table does what the bits do, one byte after another. -/
theorem run_eq_bits (hw : 8 ≤ w) (c : BitVec w) (bs : List (BitVec 8)) :
    run poly c bs = (bits bs).foldl (bit poly) c := by
  induction bs generalizing c with
  | nil => rfl
  | cons b bs ih =>
    rw [bits, List.flatMap_cons, List.foldl_append, ← byte_eq_bits poly hw]
    exact ih (byte poly c b)

/-- So does the CRC-32. -/
theorem crc32_eq_bits (bs : List UInt8) : crc32 bs = crc32Bits bs := by
  rw [crc32, crc32Bits, run_eq_bits _ (by decide)]

/-! ## Windows -/

/-- The polynomial's top bit is set, so the register's step loses nothing: the bit
    it shifts out shows at the top. -/
theorem step_injective (hpoly : poly.msb = true) : Function.Injective (step poly) := by
  intro x y h
  -- by linearity, the difference steps to zero
  have hzero : step poly (x ^^^ y) = 0#w := by rw [step_xor, h, BitVec.xor_self]
  suffices hxy : x ^^^ y = 0#w from BitVec.xor_eq_zero_iff.mp hxy
  rw [step] at hzero
  split at hzero
  case isTrue hlow =>
    -- the polynomial would be a shifted register, whose top bit is clear
    rw [BitVec.xor_eq_zero_iff] at hzero
    rw [← hzero] at hpoly
    simp at hpoly
  case isFalse hlow =>
    apply BitVec.eq_of_getLsbD_eq
    intro i _
    cases i with
    | zero => simpa using hlow
    | succ i =>
      have hi := congrArg (fun c => c.getLsbD i) hzero
      simpa [Nat.add_comm] using hi

/-- Different start values lead to different results. -/
theorem run_injective (hpoly : poly.msb = true) (bs : List (BitVec 8)) :
    Function.Injective fun c => run poly c bs := by
  induction bs with
  | nil => exact fun _ _ h => h
  | cons b bs ih =>
    intro x y h
    have hbyte : byte poly x b = byte poly y b := ih h
    exact (BitVec.xor_left_inj _).mp ((step_injective poly hpoly).iterate 8 hbyte)

/-- A string is run in two parts. -/
theorem run_append (c : BitVec w) (as bs : List (BitVec 8)) :
    run poly c (as ++ bs) = run poly (run poly c as) bs :=
  List.foldl_append

/-- The bytes side by side in a register, the first one lowest. -/
def pack : List (BitVec 8) → BitVec w
  | [] => 0#w
  | b :: bs => b.setWidth w ^^^ (pack bs <<< 8)

/-- Bytes that are packed leave the bits above them clear. -/
theorem pack_high (bs : List (BitVec 8)) (i : Nat) (hi : 8 * bs.length ≤ i) :
    (pack bs : BitVec w).getLsbD i = false := by
  induction bs generalizing i with
  | nil => simp [pack]
  | cons b bs ih =>
    rw [List.length_cons] at hi
    have hrest := ih (i - 8) (by omega)
    simp [pack, hrest, BitVec.getLsbD_of_ge b i (by omega)]

/-- The bytes behind the first one, while all of them fit. -/
private theorem pack_shift (bs : List (BitVec 8)) (hw : 8 * (bs.length + 1) ≤ w) :
    (pack bs : BitVec w) <<< 8 >>> 8 = pack bs := by
  apply BitVec.eq_of_getLsbD_eq
  intro i _
  rw [BitVec.getLsbD_ushiftRight, BitVec.getLsbD_shiftLeft, Nat.add_sub_cancel_left]
  rcases Nat.lt_or_ge i (8 * bs.length) with hi | hi
  · simp [show 8 + i < w by omega]
  · simp [pack_high bs i hi]

/-- Different bytes are packed differently. -/
theorem pack_injective {as bs : List (BitVec 8)} (hlen : as.length = bs.length)
    (hw : 8 * as.length ≤ w) (h : (pack as : BitVec w) = pack bs) : as = bs := by
  induction as generalizing bs with
  | nil => exact (List.length_eq_zero_iff.mp hlen.symm).symm
  | cons a as ih =>
    obtain ⟨b, bs, rfl⟩ := List.exists_cons_of_length_eq_add_one hlen.symm
    simp only [List.length_cons] at hw hlen
    -- the low eight bits are the first byte
    have hhead : a = b := by
      apply BitVec.eq_of_getLsbD_eq
      intro i hi
      have hbit := congrArg (fun c => c.getLsbD i) h
      simpa [pack, hi, show i < w by omega] using hbit
    have htail : (pack as : BitVec w) <<< 8 = pack bs <<< 8 := by
      rw [pack, pack, hhead] at h
      exact (BitVec.xor_right_inj _).mp h
    have hpack : (pack as : BitVec w) = pack bs := by
      rw [← pack_shift as hw, htail, pack_shift bs (by omega)]
    rw [hhead, ih (Nat.succ.inj hlen) (by omega) hpack]

/-- As many bytes as fill the register go in at once. -/
theorem run_eq_pack (c : BitVec w) (bs : List (BitVec 8)) (hw : 8 * bs.length ≤ w) :
    run poly c bs = (step poly)^[8 * bs.length] (c ^^^ pack bs) := by
  induction bs generalizing c with
  | nil => simp [run, pack]
  | cons b bs ih =>
    rw [List.length_cons] at hw
    -- the bytes behind `b` wait eight steps higher up
    have hlow : ∀ i, i < 8 → ((pack bs : BitVec w) <<< 8).getLsbD i = false := by
      intro i hi
      simp [hi]
    have hrest : (step poly)^[8] ((pack bs : BitVec w) <<< 8) = pack bs := by
      rw [steps_of_low_clear poly 8 _ hlow, pack_shift bs hw]
    calc run poly c (b :: bs)
        = run poly (byte poly c b) bs := rfl
      _ = (step poly)^[8 * bs.length]
            ((step poly)^[8] (c ^^^ b.setWidth w) ^^^ (step poly)^[8] (pack bs <<< 8)) := by
          rw [ih _ (by omega), hrest, byte]
      _ = (step poly)^[8 * (bs.length + 1)] (c ^^^ pack (b :: bs)) := by
          rw [← steps_xor, ← Function.iterate_add_apply, pack, BitVec.xor_assoc, Nat.mul_succ]

/-- Strings that differ only within a window no wider than the register leave it
    in different states. -/
theorem run_ne_of_window (hpoly : poly.msb = true) (c : BitVec w)
    {pre as bs post : List (BitVec 8)} (hlen : as.length = bs.length) (hw : 8 * as.length ≤ w)
    (hne : as ≠ bs) : run poly c (pre ++ as ++ post) ≠ run poly c (pre ++ bs ++ post) := by
  intro h
  simp only [run_append] at h
  -- what follows the window, then the window itself, loses nothing
  have hwindow := run_injective poly hpoly post h
  rw [run_eq_pack poly _ as hw, run_eq_pack poly _ bs (hlen ▸ hw), ← hlen] at hwindow
  have hpack := (BitVec.xor_right_inj _).mp ((step_injective poly hpoly).iterate _ hwindow)
  exact hne (pack_injective hlen hw hpack)

end Crc
