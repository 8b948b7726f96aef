import Mathlib.Data.Set.Function
import Mathlib.Order.Interval.Set.Basic
import Mathlib.Tactic.Ring

/-!
# Byte memories

A memory is a total function from addresses to bytes. This file has the four
operations a C program performs on one (`memset`, `memcpy`, storing a list of
bytes, reading a range), little-endian numbers of any width, and the notion of a
*frame*: the set of addresses outside which two memories agree.

Every write gets the same three facts: what it leaves inside its range, what it
leaves outside, and its frame.
-/

/-- A byte-addressed memory. -/
abbrev Mem := Nat → UInt8

namespace Mem

/-- `memset(off, v, n)`. -/
def fill (m : Mem) (off n : Nat) (v : UInt8) : Mem :=
  fun a => if off ≤ a ∧ a < off + n then v else m a

/-- `memcpy(dst, src, n)`. -/
def copy (m : Mem) (dst src n : Nat) : Mem :=
  fun a => if dst ≤ a ∧ a < dst + n then m (src + (a - dst)) else m a

/-- Store the bytes `bs` from `off` on. -/
def write (m : Mem) (off : Nat) (bs : List UInt8) : Mem :=
  fun a => if off ≤ a ∧ a < off + bs.length then bs.getD (a - off) 0 else m a

/-- The `n` bytes from `off` on. -/
def read (m : Mem) (off n : Nat) : List UInt8 :=
  (List.range n).map fun i => m (off + i)

/-! ## Little-endian numbers -/

/-- The low `n` bytes of `v`, least significant byte first. -/
def leBytes : Nat → Nat → List UInt8
  | 0, _ => []
  | n + 1, v => UInt8.ofNat v :: leBytes n (v / 256)

/-- The number whose little-endian bytes are given. -/
def leNat : List UInt8 → Nat
  | [] => 0
  | b :: bs => b.toNat + 256 * leNat bs

/-- Load an `n`-byte little-endian number. -/
def load (m : Mem) (off n : Nat) : Nat := leNat (m.read off n)

/-- A number is stored as `n` bytes. -/
@[simp] theorem length_leBytes (n v : Nat) : (leBytes n v).length = n := by
  induction n generalizing v with
  | zero => rfl
  | succ n ih => simp only [leBytes, List.length_cons, ih]

/-- They are read back as the number, modulo `256 ^ n`. -/
theorem leNat_leBytes (n v : Nat) : leNat (leBytes n v) = v % 256 ^ n := by
  induction n generalizing v with
  | zero => simp only [leBytes, leNat, Nat.pow_zero, Nat.mod_one]
  | succ n ih =>
    have h256 : 2 ^ 8 = 256 := rfl
    rw [leBytes, leNat, ih, UInt8.toNat_ofNat', h256, Nat.pow_succ', Nat.mod_mul]

/-- A number of `n` bytes is below `256 ^ n`. -/
theorem leNat_lt (bs : List UInt8) : leNat bs < 256 ^ bs.length := by
  induction bs with
  | nil => simp only [leNat, List.length_nil, Nat.pow_zero, Nat.lt_one_iff]
  | cons b bs ih =>
    have hb : b.toNat < 256 := b.toNat_lt
    rw [leNat, List.length_cons, Nat.pow_succ]
    omega

/-- Bytes are determined by the number they spell. -/
theorem leBytes_leNat {bs : List UInt8} {n : Nat} (hn : bs.length = n) :
    leBytes n (leNat bs) = bs := by
  subst hn
  -- induction on the bytes, from the low end
  induction bs with
  | nil => rfl
  | cons b bs ih =>
    have hb : b.toNat < 256 := b.toNat_lt
    have hdiv : (b.toNat + 256 * leNat bs) / 256 = leNat bs := by omega
    have hmod : (b.toNat + 256 * leNat bs) % 2 ^ 8 = b.toNat := by omega
    rw [List.length_cons, leNat, leBytes, hdiv, ih]
    congr 1
    rw [← UInt8.toNat_inj, UInt8.toNat_ofNat', hmod]

/-! ## Reading -/

/-- As many bytes are read as asked for. -/
@[simp] theorem length_read (m : Mem) (off n : Nat) : (m.read off n).length = n := by
  simp only [read, List.length_map, List.length_range]

/-- The bytes that are read, one by one. -/
@[simp] theorem getElem_read (m : Mem) (off n i : Nat) (h : i < (m.read off n).length) :
    (m.read off n)[i] = m (off + i) := by
  simp only [read, List.getElem_map, List.getElem_range]

/-- What is read depends on the bytes in the range only. -/
theorem read_congr {m m' : Mem} {off off' n : Nat}
    (h : ∀ i, i < n → m' (off' + i) = m (off + i)) : m'.read off' n = m.read off n :=
  List.map_congr_left fun i hi => h i (List.mem_range.mp hi)

/-- A range is read in two parts. -/
theorem read_add (m : Mem) (off n k : Nat) :
    m.read off (n + k) = m.read off n ++ m.read (off + n) k := by
  simp only [read, List.range_add, List.map_append, List.map_map, Function.comp_def, Nat.add_assoc]

/-- The first part of what is read. -/
theorem take_read (m : Mem) (off n k : Nat) (h : k ≤ n) :
    (m.read off n).take k = m.read off k := by
  obtain ⟨d, rfl⟩ := Nat.exists_eq_add_of_le h
  rw [read_add, List.take_append_of_le_length (by simp), List.take_of_length_le (by simp)]

/-- A part of what is read, from the middle. -/
theorem take_drop_read (m : Mem) (off n k l : Nat) (h : k + l ≤ n) :
    ((m.read off n).drop k).take l = m.read (off + k) l := by
  obtain ⟨d, rfl⟩ := Nat.exists_eq_add_of_le h
  rw [Nat.add_assoc, read_add, List.drop_left' (by simp), take_read _ _ _ _ (Nat.le_add_right l d)]

/-- A number depends on its bytes only. -/
theorem load_congr {m m' : Mem} {off off' n : Nat}
    (h : ∀ i, i < n → m' (off' + i) = m (off + i)) : m'.load off' n = m.load off n := by
  rw [load, load, read_congr h]

/-- A number of `n` bytes is below `256 ^ n`. -/
theorem load_lt (m : Mem) (off n : Nat) : m.load off n < 256 ^ n := by
  have h := leNat_lt (m.read off n)
  rwa [length_read] at h

/-- Reads agree byte for byte exactly when they agree as numbers. -/
theorem read_eq_of_load_eq {m m' : Mem} {off off' n : Nat} (h : m'.load off' n = m.load off n) :
    m'.read off' n = m.read off n := by
  rw [← leBytes_leNat (m'.length_read off' n), ← leBytes_leNat (m.length_read off n)]
  exact congrArg (leBytes n) h

/-- A range whose bytes are all zero loads as zero. -/
theorem load_eq_zero {m : Mem} {off n : Nat} (h : ∀ i, i < n → m (off + i) = 0) :
    m.load off n = 0 := by
  -- induction on the number of bytes, the first of which is 0
  induction n generalizing off with
  | zero => rfl
  | succ n ih =>
    have h0 := h 0 (Nat.succ_pos n)
    have ht : m.load (off + 1) n = 0 := ih fun i hi => by
      rw [Nat.add_assoc, Nat.add_comm 1 i]
      exact h (i + 1) (by omega)
    rw [load, Nat.add_comm n 1, read_add]
    simp only [load] at ht
    simp only [read, List.range_one, List.map_cons, List.map_nil, List.cons_append,
      List.nil_append, leNat] at ht ⊢
    rw [h0, ht]
    rfl

/-! ## Writing -/

/-- Inside the range there is the value. -/
theorem fill_apply_in {m : Mem} {off n a : Nat} {v : UInt8} (h : off ≤ a) (h' : a < off + n) :
    m.fill off n v a = v := if_pos ⟨h, h'⟩

/-- Outside it the memory is as before. -/
theorem fill_apply_out {m : Mem} {off n a : Nat} {v : UInt8} (h : a < off ∨ off + n ≤ a) :
    m.fill off n v a = m a := if_neg (by omega)

/-- Inside the destination there is the source. -/
theorem copy_apply_in {m : Mem} {dst src n a : Nat} (h : dst ≤ a) (h' : a < dst + n) :
    m.copy dst src n a = m (src + (a - dst)) := if_pos ⟨h, h'⟩

/-- Outside it the memory is as before. -/
theorem copy_apply_out {m : Mem} {dst src n a : Nat} (h : a < dst ∨ dst + n ≤ a) :
    m.copy dst src n a = m a := if_neg (by omega)

/-- The bytes that were written are there. -/
theorem write_apply_in {m : Mem} {off i : Nat} {bs : List UInt8} (h : i < bs.length) :
    m.write off bs (off + i) = bs[i] := by
  simp only [write, Nat.le_add_right, Nat.add_lt_add_left h, and_self, if_true,
    Nat.add_sub_cancel_left, List.getD_eq_getElem?_getD, List.getElem?_eq_getElem h,
    Option.getD_some]

/-- Elsewhere the memory is as before. -/
theorem write_apply_out {m : Mem} {off a : Nat} {bs : List UInt8}
    (h : a < off ∨ off + bs.length ≤ a) : m.write off bs a = m a := if_neg (by omega)

/-- Writing nothing changes nothing. -/
@[simp] theorem write_nil (m : Mem) (off : Nat) : m.write off [] = m := by
  funext a
  exact write_apply_out (by simp only [List.length_nil]; omega)

/-- Two stores, the second right behind the first. -/
theorem write_append (m : Mem) (off : Nat) (xs ys : List UInt8) :
    (m.write off xs).write (off + xs.length) ys = m.write off (xs ++ ys) := by
  funext a
  -- the byte is in one of the two parts, or in none
  by_cases hin : off ≤ a ∧ a < off + (xs ++ ys).length
  · obtain ⟨i, rfl⟩ := Nat.exists_eq_add_of_le hin.1
    have hi : i < (xs ++ ys).length := by omega
    rw [write_apply_in hi]
    by_cases hx : i < xs.length
    · rw [write_apply_out (by omega), write_apply_in hx, List.getElem_append_left hx]
    · obtain ⟨j, rfl⟩ := Nat.exists_eq_add_of_le (Nat.not_lt.mp hx)
      rw [List.length_append] at hi
      rw [← Nat.add_assoc, write_apply_in (by omega), List.getElem_append_right (by omega)]
      simp only [Nat.add_sub_cancel_left]
  · rw [List.length_append] at hin
    rw [write_apply_out (by omega), write_apply_out (by omega),
      write_apply_out (by rw [List.length_append]; omega)]

/-- A store over a shorter one. -/
theorem write_write_of_le (m : Mem) (off : Nat) {xs ys : List UInt8} (h : xs.length ≤ ys.length) :
    (m.write off xs).write off ys = m.write off ys := by
  funext a
  by_cases hin : off ≤ a ∧ a < off + ys.length
  · obtain ⟨i, rfl⟩ := Nat.exists_eq_add_of_le hin.1
    have hi : i < ys.length := by omega
    rw [write_apply_in hi, write_apply_in hi]
  · rw [write_apply_out (by omega), write_apply_out (by omega), write_apply_out (by omega)]

/-- What was written is read back. -/
theorem read_write_self (m : Mem) (off : Nat) (bs : List UInt8) :
    (m.write off bs).read off bs.length = bs := by
  refine List.ext_getElem (length_read _ _ _) fun i h₁ h₂ => ?_
  rw [getElem_read, write_apply_in h₂]

/-- The first part of what was written is read back. -/
theorem read_write_left (m : Mem) (off : Nat) (xs ys : List UInt8) :
    (m.write off (xs ++ ys)).read off xs.length = xs := by
  have hlen : xs.length ≤ (xs ++ ys).length := by simp
  rw [← take_read _ _ _ _ hlen, read_write_self, List.take_left]

/-- A number that was stored is read back, modulo `256 ^ n`. -/
theorem load_write_self (m : Mem) (off n v : Nat) :
    (m.write off (leBytes n v)).load off n = v % 256 ^ n := by
  have h := read_write_self m off (leBytes n v)
  rw [length_leBytes] at h
  rw [load, h, leNat_leBytes]

/-- As it is, when it fits the bytes. -/
theorem load_write_of_lt {m : Mem} {off n v : Nat} (h : v < 256 ^ n) :
    (m.write off (leBytes n v)).load off n = v := by
  rw [load_write_self, Nat.mod_eq_of_lt h]

/-- A number is not changed by what is written beside it. -/
theorem load_write_ne {m : Mem} {off n off' : Nat} {bs : List UInt8}
    (h : off + n ≤ off' ∨ off' + bs.length ≤ off) : (m.write off' bs).load off n = m.load off n :=
  load_congr fun _ _ => write_apply_out (by omega)

/-- Nor by what is filled beside it. -/
theorem load_fill_ne {m : Mem} {off n off' k : Nat} {v : UInt8}
    (h : off + n ≤ off' ∨ off' + k ≤ off) : (m.fill off' k v).load off n = m.load off n :=
  load_congr fun _ _ => fill_apply_out (by omega)

/-- In a range of zeros every number is 0. -/
theorem load_fill_zero {m : Mem} {off n off' k : Nat} (h : off' ≤ off) (h' : off + n ≤ off' + k) :
    (m.fill off' k 0).load off n = 0 :=
  load_eq_zero fun _ _ => fill_apply_in (by omega) (by omega)

/-- In the destination of a copy there are the numbers of the source. -/
theorem load_copy_in {m : Mem} {dst src k i n : Nat} (h : i + n ≤ k) :
    (m.copy dst src k).load (dst + i) n = m.load (src + i) n :=
  load_congr fun j hj => by
    rw [Nat.add_assoc, copy_apply_in (Nat.le_add_right _ _) (by omega), Nat.add_sub_cancel_left,
      Nat.add_assoc]

/-- A number is not changed by what is copied beside it. -/
theorem load_copy_ne {m : Mem} {off n dst src k : Nat}
    (h : off + n ≤ dst ∨ dst + k ≤ off) : (m.copy dst src k).load off n = m.load off n :=
  load_congr fun _ _ => copy_apply_out (by omega)

/-! ## Structs

A struct is filled in by a list of stores at fixed offsets from its base. When
the offsets ascend without overlap every store is read back, whatever the others
wrote. -/

/-- Perform the stores `ss`, each a byte string at an offset from `base`. -/
def writeAll (m : Mem) (base : Nat) : List (Nat × List UInt8) → Mem
  | [] => m
  | s :: ss => writeAll (m.write (base + s.1) s.2) base ss

/-- The stores lie one after another, from offset `lo` on and below `hi`. -/
def Ascending (hi : Nat) : Nat → List (Nat × List UInt8) → Prop
  | lo, [] => lo ≤ hi
  | lo, s :: ss => lo ≤ s.1 ∧ Ascending hi (s.1 + s.2.length) ss

/-- The bounds are in order. -/
theorem Ascending.le {hi lo : Nat} {ss : List (Nat × List UInt8)} (h : Ascending hi lo ss) :
    lo ≤ hi := by
  induction ss generalizing lo with
  | nil => exact h
  | cons s ss ih => exact Nat.le_trans h.1 (Nat.le_trans (Nat.le_add_right _ _) (ih h.2))

/-- Ascending stores lie between their bounds. -/
theorem Ascending.bounds {hi lo : Nat} {ss : List (Nat × List UInt8)} (h : Ascending hi lo ss)
    {s : Nat × List UInt8} (hs : s ∈ ss) : lo ≤ s.1 ∧ s.1 + s.2.length ≤ hi := by
  induction ss generalizing lo with
  | nil => exact absurd hs List.not_mem_nil
  | cons t ss ih =>
    rcases List.mem_cons.mp hs with rfl | hs
    · exact ⟨h.1, h.2.le⟩
    · exact ⟨Nat.le_trans h.1 (Nat.le_trans (Nat.le_add_right _ _) (ih h.2 hs).1), (ih h.2 hs).2⟩

/-- Beside all stores the memory is as before. -/
theorem writeAll_apply_out {m : Mem} {base a : Nat} {ss : List (Nat × List UInt8)}
    (h : ∀ s ∈ ss, a < base + s.1 ∨ base + s.1 + s.2.length ≤ a) : m.writeAll base ss a = m a := by
  induction ss generalizing m with
  | nil => rfl
  | cons s ss ih =>
    rw [writeAll, ih fun t ht => h t (List.mem_cons_of_mem _ ht),
      write_apply_out (h s List.mem_cons_self)]

/-- No two of the stores overlap. -/
def Apart (ss : List (Nat × List UInt8)) : Prop :=
  ss.Pairwise fun s t => s.1 + s.2.length ≤ t.1 ∨ t.1 + t.2.length ≤ s.1

/-- Ascending stores do not overlap. -/
theorem Ascending.apart {hi lo : Nat} {ss : List (Nat × List UInt8)} (h : Ascending hi lo ss) :
    Apart ss := by
  induction ss generalizing lo with
  | nil => exact List.Pairwise.nil
  | cons s ss ih => exact List.Pairwise.cons (fun t ht => Or.inl (h.2.bounds ht).1) (ih h.2)

/-- Each of a struct's stores is read back. -/
theorem read_writeAll {m : Mem} {base : Nat} {ss : List (Nat × List UInt8)} (h : Apart ss)
    {s : Nat × List UInt8} (hs : s ∈ ss) : (m.writeAll base ss).read (base + s.1) s.2.length = s.2 := by
  induction ss generalizing m with
  | nil => exact absurd hs List.not_mem_nil
  | cons t ss ih =>
    have h := List.pairwise_cons.mp h
    rcases List.mem_cons.mp hs with rfl | hs
    · -- the later stores leave this one alone
      rw [writeAll]
      conv => rhs; rw [← read_write_self m (base + s.1) s.2]
      refine read_congr fun i hi => writeAll_apply_out fun t ht => ?_
      have := h.1 t ht
      omega
    · exact ih h.2 hs

/-- A number that was stored is read back, when no two stores overlap. -/
theorem load_writeAll {m : Mem} {base off n v : Nat} {ss : List (Nat × List UInt8)}
    (h : Apart ss) (hs : (off, leBytes n v) ∈ ss) :
    (m.writeAll base ss).load (base + off) n = v % 256 ^ n := by
  have hr := @read_writeAll m base _ h _ hs
  rw [length_leBytes] at hr
  rw [load, hr, leNat_leBytes]

/-- A struct's bytes depend only on what was there and on the stores. -/
theorem writeAll_congr {m m' : Mem} {base base' i : Nat} {ss : List (Nat × List UInt8)}
    (h : m' (base' + i) = m (base + i)) :
    m'.writeAll base' ss (base' + i) = m.writeAll base ss (base + i) := by
  -- induction on the stores, each of which keeps the byte the same in both memories
  induction ss generalizing m m' with
  | nil => exact h
  | cons s ss ih =>
    refine ih ?_
    by_cases hi : s.1 ≤ i ∧ i < s.1 + s.2.length
    · obtain ⟨j, rfl⟩ := Nat.exists_eq_add_of_le hi.1
      have hj : j < s.2.length := by omega
      rw [← Nat.add_assoc, ← Nat.add_assoc, write_apply_in hj, write_apply_in hj]
    · rw [write_apply_out (by omega), write_apply_out (by omega), h]

/-! ## Frames -/

/-- Only bytes of `S` differ between `m` and `m'`. -/
def Frame (S : Set Nat) (m m' : Mem) : Prop := Set.EqOn m' m Sᶜ

namespace Frame

variable {S T : Set Nat} {m m₁ m₂ m₃ : Mem}

/-- Nothing changes. -/
theorem refl (S : Set Nat) (m : Mem) : Frame S m m := Set.eqOn_refl _ _

/-- A byte outside the set is as before. -/
theorem apply (h : Frame S m₁ m₂) {a : Nat} (ha : a ∉ S) : m₂ a = m₁ a := h ha

/-- A larger set may have changed. -/
theorem mono (h : Frame S m₁ m₂) (hST : S ⊆ T) : Frame T m₁ m₂ :=
  Set.EqOn.mono (Set.compl_subset_compl.mpr hST) h

/-- One change after another. -/
theorem trans (h : Frame S m₁ m₂) (h' : Frame S m₂ m₃) : Frame S m₁ m₃ :=
  Set.EqOn.trans h' h

/-- The same store into both memories. -/
theorem write (h : Frame S m₁ m₂) (off : Nat) (bs : List UInt8) :
    Frame S (m₁.write off bs) (m₂.write off bs) :=
  fun _ ha => if_congr Iff.rfl rfl (h ha)

/-- Bytes outside the set are read as before. -/
theorem read (h : Frame S m₁ m₂) {off n : Nat} (hd : ∀ i, i < n → off + i ∉ S) :
    m₂.read off n = m₁.read off n :=
  read_congr fun i hi => h (hd i hi)

/-- So are numbers. -/
theorem load (h : Frame S m₁ m₂) {off n : Nat} (hd : ∀ i, i < n → off + i ∉ S) :
    m₂.load off n = m₁.load off n :=
  load_congr fun i hi => h (hd i hi)

end Frame

/-- `fill` changes its range only. -/
theorem frame_fill (m : Mem) (off n : Nat) (v : UInt8) :
    Frame (Set.Ico off (off + n)) m (m.fill off n v) :=
  fun _ ha => if_neg ha

/-- Stores between `lo` and `hi` change nothing else. -/
theorem frame_writeAll {m : Mem} {base hi lo : Nat} {ss : List (Nat × List UInt8)}
    (h : ∀ s ∈ ss, lo ≤ s.1 ∧ s.1 + s.2.length ≤ hi) :
    Frame (Set.Ico (base + lo) (base + hi)) m (m.writeAll base ss) := by
  intro a ha
  refine writeAll_apply_out fun s hs => ?_
  have hb := h s hs
  have ha : ¬ (base + lo ≤ a ∧ a < base + hi) := ha
  omega

/-- `write` changes its range only. -/
theorem frame_write (m : Mem) (off : Nat) (bs : List UInt8) :
    Frame (Set.Ico off (off + bs.length)) m (m.write off bs) :=
  fun _ ha => if_neg ha

end Mem
