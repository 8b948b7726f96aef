import Tlibc.Native.Device
import Mathlib.Algebra.GroupWithZero.Nat
import Mathlib.Algebra.Ring.Int.Defs

/-!
# What a read of `zero` leaves

The loop hands out 512 zeros at a time, and may leave from the middle when
`copy_to_user` faults.

* `deviceFileRead_result`: when every call of `copy_to_user` returns 0 all bytes are 0 and
  the position has moved by their number; when one does not, the result is `-EFAULT` and
  the position has not moved
-/

namespace Tlibc.Device.Zero

variable {api : CopyToUser} {m m₁ m' : UserMem} {userBuffer count tread t : UInt64}
  {position : Int64} {n : Nat}

/-- Only the `n` bytes from `userBuffer` on are written. -/
def Within (userBuffer : UInt64) (n : Nat) (m m' : UserMem) : Prop :=
  ∀ a, (∀ i, i < n → a ≠ userBuffer + UInt64.ofNat i) → m' a = m a

/-- The `n` bytes from `userBuffer` on are 0, and no others were written. -/
structure Zeroed (userBuffer : UInt64) (n : Nat) (m m' : UserMem) : Prop where
  zero : ∀ i, i < n → m' (userBuffer + UInt64.ofNat i) = 0
  within : Within userBuffer n m m'

/-! ## Ranges in two parts -/

/-- An address behind a chunk, from the beginning of the buffer. -/
private theorem add_ofNat (userBuffer bread : UInt64) (i : Nat) :
    userBuffer + bread + UInt64.ofNat i = userBuffer + UInt64.ofNat (bread.toNat + i) := by
  rw [UInt64.ofNat_add, UInt64.ofNat_toNat, UInt64.add_assoc]

/-- Different bytes of a buffer are at different addresses. -/
private theorem add_ofNat_ne {i j : Nat} (hi : i < 2 ^ 64) (hj : j < 2 ^ 64) (hne : i ≠ j) :
    userBuffer + UInt64.ofNat i ≠ userBuffer + UInt64.ofNat j := by
  intro h
  rw [UInt64.add_right_inj] at h
  have hval := congrArg UInt64.toNat h
  rw [UInt64.toNat_ofNat_of_lt' hi, UInt64.toNat_ofNat_of_lt' hj] at hval
  exact hne hval

/-- A longer range has room for what a shorter one has. -/
private theorem Within.mono {k : Nat} (h : Within userBuffer n m m') (hle : n ≤ k) :
    Within userBuffer k m m' := by
  intro a ha
  exact h a fun i hi => ha i (Nat.lt_of_lt_of_le hi hle)

/-- A chunk, and what is behind it. -/
private theorem Within.append {bread : UInt64} (h : Within userBuffer bread.toNat m m₁)
    (h' : Within (userBuffer + bread) n m₁ m') : Within userBuffer (bread.toNat + n) m m' := by
  intro a ha
  have hrest : ∀ i, i < n → a ≠ userBuffer + bread + UInt64.ofNat i := by
    intro i hi
    rw [add_ofNat]
    exact ha (bread.toNat + i) (by omega)
  rw [h' a hrest]
  exact h a fun i hi => ha i (by omega)

/-- Two ranges of zeros, one behind the other. -/
private theorem Zeroed.append {bread : UInt64} (h : Zeroed userBuffer bread.toNat m m₁)
    (h' : Zeroed (userBuffer + bread) n m₁ m') (hfit : bread.toNat + n < 2 ^ 64) :
    Zeroed userBuffer (bread.toNat + n) m m' where
  zero := by
    intro i hi
    by_cases hfirst : i < bread.toNat
    · -- a zero of the chunk is not touched behind it
      have hkept : ∀ j, j < n →
          userBuffer + UInt64.ofNat i ≠ userBuffer + bread + UInt64.ofNat j := by
        intro j hj
        rw [add_ofNat]
        exact add_ofNat_ne (by omega) (by omega) (by omega)
      rw [h'.within _ hkept]
      exact h.zero i hfirst
    · obtain ⟨j, rfl⟩ := Nat.exists_eq_add_of_le (Nat.not_lt.mp hfirst)
      rw [← add_ofNat]
      exact h'.zero j (by omega)
  within := h.within.append h'.within

/-! ## The loop -/

/-- A chunk is not longer than the static buffer. -/
private theorem length_take_buf (count : UInt64) :
    (buf.take (breadOf count).toNat).length = (breadOf count).toNat := by
  have hbuf : buf.length = 512 := List.length_replicate
  rw [List.length_take, hbuf, toNat_breadOf]
  omega

/-- What `copy_to_user` stores is in the chunk, also when it faults. -/
private theorem copy_within (api : CopyToUser) (m : UserMem) (userBuffer count : UInt64) :
    Within userBuffer (breadOf count).toNat m
      (api.copy m userBuffer (buf.take (breadOf count).toNat)).2 := by
  intro a ha
  apply api.copy_frame
  intro i hi
  rw [length_take_buf] at hi
  exact ha i hi

/-- A chunk that was copied. -/
private theorem copy_zeroed (h : (api.copy m userBuffer (buf.take (breadOf count).toNat)).1 = 0) :
    Zeroed userBuffer (breadOf count).toNat m
      (api.copy m userBuffer (buf.take (breadOf count).toNat)).2 where
  zero := by
    intro i hi
    have hlt : i < (buf.take (breadOf count).toNat).length := by
      rw [length_take_buf]
      exact hi
    rw [api.copy_all m userBuffer _ h i hlt, List.getElem_take]
    exact List.getElem_replicate _
  within := copy_within api m userBuffer count

/-! ## The calls of `copy_to_user` -/

/-- The call for chunk `k` of `count` bytes, when memory holds `m`. -/
def copyChunk (api : CopyToUser) (m : UserMem) (userBuffer : UInt64) (count k : Nat) :
    UInt64 × UserMem :=
  api.copy m (userBuffer + 512 * UInt64.ofNat k) (List.replicate (min 512 (count - 512 * k)) 0)

/-- The memory behind the first `k` calls. -/
def memAfter (api : CopyToUser) (m : UserMem) (userBuffer : UInt64) (count : Nat) : Nat → UserMem
  | 0 => m
  | k + 1 => (copyChunk api (memAfter api m userBuffer count k) userBuffer count k).2

/-- Every call returns 0. -/
def Copies (api : CopyToUser) (m : UserMem) (userBuffer : UInt64) (count : Nat) : Prop :=
  ∀ k, 512 * k < count → (copyChunk api (memAfter api m userBuffer count k) userBuffer count k).1 = 0

/-- The calls behind the first are those for the rest of the buffer. -/
private theorem copyChunk_succ {count k : Nat} : copyChunk api m userBuffer count (k + 1) =
    copyChunk api m (userBuffer + 512) (count - 512) k := by
  have haddr : userBuffer + 512 * UInt64.ofNat (k + 1) = userBuffer + 512 + 512 * UInt64.ofNat k := by
    rw [UInt64.ofNat_add, UInt64.mul_add, UInt64.add_comm (512 * UInt64.ofNat k), ← UInt64.add_assoc]
    rfl
  have hrest : count - 512 * (k + 1) = count - 512 - 512 * k := by omega
  rw [copyChunk, copyChunk, haddr, hrest]

/-- The memory behind the first call is what the others begin with. -/
private theorem memAfter_succ {count : Nat} (k : Nat) : memAfter api m userBuffer count (k + 1) =
    memAfter api (copyChunk api m userBuffer count 0).2 (userBuffer + 512) (count - 512) k := by
  induction k with
  | zero => rfl
  | succ k ih =>
    rw [memAfter, ih, copyChunk_succ]
    rfl

/-- The first call returns 0, and so do the others. -/
private theorem copies_iff {count : Nat} (hpos : 0 < count) : Copies api m userBuffer count ↔
    (copyChunk api m userBuffer count 0).1 = 0 ∧
      Copies api (copyChunk api m userBuffer count 0).2 (userBuffer + 512) (count - 512) := by
  constructor
  · intro h
    refine ⟨h 0 hpos, fun k hk => ?_⟩
    have hnext := h (k + 1) (by omega)
    rwa [memAfter_succ, copyChunk_succ] at hnext
  · rintro ⟨hfirst, hrest⟩ k hk
    cases k with
    | zero => exact hfirst
    | succ k =>
      rw [memAfter_succ, copyChunk_succ]
      exact hrest k (by omega)

/-- A pass of the loop makes the first call. -/
private theorem copy_eq_copyChunk (api : CopyToUser) (m : UserMem) (userBuffer count : UInt64) :
    api.copy m userBuffer (buf.take (breadOf count).toNat) =
      copyChunk api m userBuffer count.toNat 0 := by
  have hmin : min (min 512 count.toNat) 512 = min 512 count.toNat := by omega
  rw [copyChunk, buf, List.take_replicate, toNat_breadOf, hmin]
  simp

/-- What is left behind the first call, and where it goes. -/
private theorem copies_rest {count : UInt64} (hpos : count ≠ 0) :
    Copies api m userBuffer count.toNat ↔ (copyChunk api m userBuffer count.toNat 0).1 = 0 ∧
      Copies api (copyChunk api m userBuffer count.toNat 0).2 (userBuffer + breadOf count)
        (count - breadOf count).toNat := by
  have hcount : 0 < count.toNat := Nat.pos_of_ne_zero fun h0 => hpos (UInt64.toNat_inj.mp h0)
  have hrest : (count - breadOf count).toNat = count.toNat - 512 := by
    rw [toNat_sub_breadOf, toNat_breadOf]
    omega
  rw [copies_iff hcount, hrest]
  refine and_congr_right fun _ => ?_
  by_cases hlast : count.toNat ≤ 512
  · -- no call is left, so it does not matter where the rest would go
    rw [Nat.sub_eq_zero_of_le hlast]
    exact iff_of_true (fun k hk => absurd hk (Nat.not_lt_zero _))
      fun k hk => absurd hk (Nat.not_lt_zero _)
  · have hbread : breadOf count = 512 := UInt64.toNat_inj.mp (by
      rw [toNat_breadOf]
      exact Nat.min_eq_left (by omega))
    rw [hbread]

/-- Chunk after chunk, `count` zeros are written when every call returns 0, and at most
    their places when one does not. -/
private theorem readLoop_spec (api : CopyToUser) (m : UserMem) (userBuffer count tread : UInt64) :
    (Copies api m userBuffer count.toNat ∧
      (readLoop api m userBuffer count tread).1 = some (tread + count) ∧
      Zeroed userBuffer count.toNat m (readLoop api m userBuffer count tread).2) ∨
    (¬ Copies api m userBuffer count.toNat ∧
      (readLoop api m userBuffer count tread).1 = none ∧
      Within userBuffer count.toNat m (readLoop api m userBuffer count tread).2) := by
  fun_induction readLoop api m userBuffer count tread with
  | case1 m userBuffer tread =>
    refine .inl ⟨fun k hk => absurd hk (Nat.not_lt_zero _), by rw [UInt64.add_zero], ?_, fun a _ => rfl⟩
    intro i hi
    exact absurd hi (Nat.not_lt_zero i)
  | case2 m userBuffer count tread hend bread left m₁ hcopy hleft =>
    -- a fault: what was copied of this chunk is still in the range
    have hcopy : api.copy m userBuffer (buf.take (breadOf count).toNat) = (left, m₁) := hcopy
    have hwithin := copy_within api m userBuffer count
    rw [hcopy] at hwithin
    rw [copy_eq_copyChunk] at hcopy
    refine .inr ⟨fun hall => ?_, rfl, hwithin.mono ?_⟩
    · have hfirst := ((copies_rest hend).mp hall).1
      rw [hcopy] at hfirst
      exact hleft hfirst
    · rw [toNat_breadOf]
      exact Nat.min_le_right _ _
  | case3 m userBuffer count tread hend bread left m₁ hcopy hleft ih =>
    have hcopy : api.copy m userBuffer (buf.take (breadOf count).toNat) = (left, m₁) := hcopy
    have hzero : left = 0 := Decidable.not_not.mp hleft
    have hchunk := @copy_zeroed api m userBuffer count (by rw [hcopy]; exact hzero)
    rw [hcopy] at hchunk
    -- the chunk and the rest are the bytes that were asked for
    have hle : (breadOf count).toNat ≤ count.toNat := by
      rw [toNat_breadOf]
      exact Nat.min_le_right _ _
    have hsum : (breadOf count).toNat + (count - breadOf count).toNat = count.toNat := by
      rw [toNat_sub_breadOf]
      omega
    have hlt := count.toNat_lt
    rw [copy_eq_copyChunk] at hcopy
    rw [copies_rest hend, hcopy]
    rcases ih with ⟨hall, hret, hrest⟩ | ⟨hfault, hret, hrest⟩
    · refine .inl ⟨⟨hzero, hall⟩, ?_, ?_⟩
      · rw [hret, UInt64.add_assoc, UInt64.add_comm (breadOf count), UInt64.sub_add_cancel]
      · have hzeroed := hchunk.append hrest (by rw [hsum]; exact hlt)
        rwa [hsum] at hzeroed
    · refine .inr ⟨fun hall => hfault hall.2, hret, ?_⟩
      have hwithin := hchunk.within.append hrest
      rwa [hsum] at hwithin

/-! ## A read -/

/-- All of it was read. -/
structure Complete (userBuffer count : UInt64) (position : Int64) (m : UserMem)
    (r : ReadResult) : Prop where
  ret : r.ret.toInt = count.toNat
  zeroed : Zeroed userBuffer count.toNat m r.mem
  position : r.position.toInt = position.toInt + count.toNat

/-- A fault. -/
structure Failed (userBuffer count : UInt64) (position : Int64) (m : UserMem)
    (r : ReadResult) : Prop where
  ret : r.ret = -efault
  within : Within userBuffer count.toNat m r.mem
  position : r.position = position

/-- A read of less than 2 ^ 63 bytes, whatever `copy_to_user` does: it is complete when every
    call returns 0, and fails when one does not. -/
theorem deviceFileRead_result (api : CopyToUser) (m : UserMem) (userBuffer count : UInt64)
    (position : Int64) (hcount : count.toNat < 2 ^ 63)
    (hposition : position.toInt + count.toNat < 2 ^ 63) :
    (Copies api m userBuffer count.toNat ∧
      Complete userBuffer count position m (deviceFileRead api m userBuffer count position)) ∨
    (¬ Copies api m userBuffer count.toNat ∧
      Failed userBuffer count position m (deviceFileRead api m userBuffer count position)) := by
  have hloop := readLoop_spec api m userBuffer count 0
  rw [UInt64.zero_add] at hloop
  rw [deviceFileRead]
  rcases hloop with ⟨hall, hret, hzeroed⟩ | ⟨hfault, hret, hwithin⟩
  · refine .inl ⟨hall, ?_⟩
    split
    · next m' heq =>
      rw [heq] at hret
      cases hret
    · next tread m' heq =>
      rw [heq] at hret hzeroed
      obtain rfl : tread = count := Option.some.inj hret
      -- the count and the new position are numbers that fit
      have hval : tread.toInt64.toInt = tread.toNat := by
        show tread.toBitVec.toInt = _
        rw [BitVec.toInt_eq_toNat_of_lt (by
          show 2 * tread.toNat < 2 ^ 64
          omega)]
        rfl
      have hlow := position.le_toInt
      refine ⟨hval, hzeroed, ?_⟩
      rw [Int64.toInt_add, hval]
      exact Int.bmod_eq_of_le (by omega) (by omega)
  · refine .inr ⟨hfault, ?_⟩
    split
    · next m' heq =>
      rw [heq] at hwithin
      exact ⟨rfl, hwithin, rfl⟩
    · next tread m' heq =>
      rw [heq] at hret
      cases hret

/-- A copy to memory that can all be written. -/
def plainCopy (m : UserMem) (dst : UInt64) (bytes : List UInt8) : UserMem :=
  fun a => if h : (a - dst).toNat < bytes.length then bytes[(a - dst).toNat] else m a

/-- No process has room for 2 ^ 64 bytes. -/
def plain : CopyToUser where
  copy m dst bytes := if bytes.length < 2 ^ 64 then (0, plainCopy m dst bytes) else (1, m)
  copy_all := by
    intro m dst bytes hleft i hi
    split at hleft
    · next hlen =>
      have hsub : (dst + UInt64.ofNat i - dst).toNat = i := by
        rw [UInt64.add_comm, UInt64.add_sub_cancel,
          UInt64.toNat_ofNat_of_lt' (Nat.lt_trans hi hlen)]
      rw [if_pos hlen]
      show plainCopy m dst bytes (dst + UInt64.ofNat i) = bytes[i]
      simp only [plainCopy, hsub, dif_pos hi]
    · cases hleft
  copy_frame := by
    intro m dst bytes a ha
    split
    · refine dif_neg fun hlt => ha _ hlt ?_
      rw [UInt64.ofNat_toNat, UInt64.add_comm, UInt64.sub_add_cancel]
    · rfl

/-- Memory that can be written takes every chunk. -/
private theorem copies_plain {count : Nat} : Copies plain m userBuffer count := by
  intro k _
  have hlen : (List.replicate (min 512 (count - 512 * k)) (0 : UInt8)).length < 2 ^ 64 := by
    rw [List.length_replicate]
    omega
  show (if _ then _ else _ : UInt64 × UserMem).1 = 0
  rw [if_pos hlen]

/-- 600 bytes, in two chunks. -/
theorem deviceFileRead_plain :
    Complete 0x1000 600 0 (fun _ => 0xff) (deviceFileRead plain (fun _ => 0xff) 0x1000 600 0) :=
  ((deviceFileRead_result plain (fun _ => 0xff) 0x1000 600 0 (by decide) (by decide)).resolve_right
    fun h => h.1 copies_plain).2

end Tlibc.Device.Zero
