import Tlibc.Native.Basic

/-!
# `tlibc/string.c`

A string that is read is a value: `dst` does not reach into it. The test of `Strcpy` for a
null `dst` is left out.
-/

namespace Tlibc.Strings

/-- `Strlen`, of what memory holds from `s` on: the loop from `i` on, with at most `fuel`
    passes. -/
def strlenFrom (m : Mem) (s : Nat) : Nat → Nat → Option Nat
  | 0, _ => none
  | fuel + 1, i => if m (s + i) ≠ 0 then strlenFrom m s fuel (i + 1) else some i

/-- `Memset`: the loop from `i` on, with `n` passes to go. -/
def memsetFrom (addr : Nat) (val : Int32) : Nat → Nat → Mem → Mem
  | 0, _, m => m
  | n + 1, i, m => memsetFrom addr val n (i + 1) (m.write (addr + i) [(val &&& 0xff).toUInt32.toUInt8])

/-- `Memset`. -/
def memset (m : Mem) (addr : Nat) (val : Int32) (len : Nat) : Mem := memsetFrom addr val len 0 m

/-- `Strcpy`: the memory, and the pointer it returns. -/
def strcpy (m : Mem) (dst : Nat) : List UInt8 → Mem × Nat
  | [] => (m.write dst [0], dst)
  | c :: src => strcpy (m.write dst [c]) (dst + 1) src

/-- The string that begins at `off`, when it ends within `n` bytes. -/
def stringAt (m : Mem) (off n : Nat) : List UInt8 := (m.read off n).takeWhile (· ≠ 0)

theorem stringAt_nul_free (m : Mem) (off n : Nat) : (0 : UInt8) ∉ stringAt m off n := by
  have hall := @List.all_takeWhile UInt8 (· ≠ 0) (m.read off n)
  intro h
  simpa using List.all_eq_true.mp hall 0 h

/-- A string that was stored with its NUL. -/
theorem stringAt_write {m : Mem} {s : List UInt8} {off n : Nat} (hs : ∀ c ∈ s, c ≠ 0)
    (hn : s.length < n) : stringAt (m.write off (s ++ [0])) off n = s := by
  have hlength : (s ++ [0]).length = s.length + 1 := by simp
  obtain ⟨k, rfl⟩ : ∃ k, n = s.length + 1 + k := ⟨n - (s.length + 1), by omega⟩
  rw [stringAt, Mem.read_add, ← hlength, Mem.read_write_self, List.append_assoc,
    List.takeWhile_append_of_pos (by simpa using hs)]
  simp

/-- `Strcpy` stores the string with its NUL, and returns where the NUL is. -/
theorem strcpy_eq (m : Mem) (dst : Nat) (src : List UInt8) :
    strcpy m dst src = (m.write dst (src ++ [0]), dst + src.length) := by
  induction src generalizing m dst with
  | nil => rfl
  | cons c src ih =>
    have hwrite : (m.write dst [c]).write (dst + 1) (src ++ [0]) = m.write dst (c :: src ++ [0]) :=
      Mem.write_append m dst [c] (src ++ [0])
    rw [strcpy, ih, hwrite, List.length_cons, Nat.add_right_comm, Nat.add_assoc]

/-- A string behind another, as one string. -/
theorem strcpy_append (m : Mem) (dst : Nat) (s t : List UInt8) :
    (strcpy (strcpy m dst s).1 (strcpy m dst s).2 t).1 = m.write dst (s ++ t ++ [0]) := by
  rw [strcpy_eq, strcpy_eq]
  calc (m.write dst (s ++ [0])).write (dst + s.length) (t ++ [0])
      = ((m.write dst s).write (dst + s.length) [0]).write (dst + s.length) (t ++ [0]) := by
        rw [Mem.write_append]
    _ = (m.write dst s).write (dst + s.length) (t ++ [0]) := by
        rw [Mem.write_write_of_le _ _ (by simp)]
    _ = m.write dst (s ++ t ++ [0]) := by rw [Mem.write_append, List.append_assoc]

end Tlibc.Strings
