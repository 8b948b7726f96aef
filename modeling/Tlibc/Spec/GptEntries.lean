import Tlibc.Native.Gpt

/-!
# The partition entry array

The entry loop clears from each entry on for the length of the whole array, so
iteration `i` clears `128 * i` bytes behind the array as well. This file says
what the loop leaves, byte by byte, from any memory:

* `writeEntries_entry`: entry `i` holds `entryByte` of partition `i`
* `writeEntries_zero`: everything behind the last entry is zero, up to the end of
  the last clear
* `writeEntries_out`: nothing else changed
-/

namespace Tlibc.Gpt

/-- The characters of a name, each followed by a zero byte. -/
def nameBytes (name : List UInt8) : List UInt8 := name.flatMap fun c => [c, 0]

/-- Each character of a name takes two bytes. -/
@[simp] theorem length_nameBytes (name : List UInt8) :
    (nameBytes name).length = 2 * name.length := by
  induction name with
  | nil => rfl
  | cons c name ih =>
    -- `flatMap` puts the two bytes of the first character in front
    show (nameBytes name).length + 2 = 2 * (name.length + 1)
    omega

/-- A GUID takes 16 bytes. -/
@[simp] theorem length_GUID_bytes (h : Host) (g : GUID) : (g.bytes h).length = 16 := by
  simp [GUID.bytes]

/-- The loop over the characters is one store of all of them. -/
private theorem writePartitionName_eq (m : Mem) (entry idx : Nat) (name : List UInt8) :
    writePartitionName m entry idx name =
      m.write (entry + PartitionEntry.partitionName + idx) (nameBytes name) := by
  induction name generalizing m idx with
  | nil =>
    funext a
    rw [writePartitionName, Mem.write_apply_out (by simp [nameBytes]; omega)]
  | cons c name ih =>
    -- the two stores of one character, then the rest right behind them
    have h1 := Mem.write_append m (entry + PartitionEntry.partitionName + idx) [c] [0]
    have h2 := Mem.write_append m (entry + PartitionEntry.partitionName + idx) [c, 0] (nameBytes name)
    rw [writePartitionName, ih]
    exact (congrArg (fun m' : Mem => m'.write _ _) h1).trans h2

/-- The stores of one iteration, in their order. -/
def entryStores (h : Host) (cp : PartitionConfig) : List (Nat × List UInt8) :=
  [(32, Mem.leBytes 8 cp.startLBA.toNat),
    (40, Mem.leBytes 8 (cp.startLBA + cp.volume - 1).toNat),
    (48, Mem.leBytes 8 5),
    (16, cp.partId.bytes h),
    (0, cp.partType.bytes h),
    (56, nameBytes cp.name.chars)]

/-- An entry is cleared, and then its members are stored. -/
private theorem writeEntry_eq (h : Host) (m : Mem) (entryArray : Nat) (n : UInt64)
    (cp : PartitionConfig) :
    writeEntry h m entryArray n cp =
      (m.fill entryArray (n * blockSize).toNat 0).writeAll entryArray (entryStores h cp) := by
  simp only [writeEntry, writePartitionName_eq, Host.storeLe_eq, entryStores, Mem.writeAll,
    PartitionEntry.startLBA, PartitionEntry.endLBA, PartitionEntry.attrs, PartitionEntry.partId,
    PartitionEntry.partType, PartitionEntry.partitionName, Width.bytes, Nat.add_zero]
  rfl

/-- The members of an entry do not overlap. -/
theorem entryStores_apart (h : Host) (cp : PartitionConfig) : Mem.Apart (entryStores h cp) := by
  simp [Mem.Apart, entryStores]

/-- With a name of at most 36 characters the stores stay inside the entry. -/
theorem entryStores_bounds (h : Host) {cp : PartitionConfig} (hname : cp.name.chars.length ≤ 36)
    {s : Nat × List UInt8} (hs : s ∈ entryStores h cp) :
    0 ≤ s.1 ∧ s.1 + s.2.length ≤ PartitionEntry.size := by
  simp only [entryStores, List.mem_cons, List.not_mem_nil, or_false] at hs
  rcases hs with rfl | rfl | rfl | rfl | rfl | rfl <;> simp
  omega

/-- Byte `j` of the entry of `cp`: the stores over zeros. -/
def entryByte (h : Host) (cp : PartitionConfig) (j : Nat) : UInt8 :=
  Mem.writeAll (fun _ => 0) 0 (entryStores h cp) j

/-- One iteration leaves the entry, then zeros. -/
private theorem writeEntry_apply (h : Host) (m : Mem) (e : Nat) (n : UInt64) {cp : PartitionConfig}
    {j : Nat} (hj : j < (n * blockSize).toNat) :
    writeEntry h m e n cp (e + j) = entryByte h cp j := by
  -- the clear makes the byte what it is in memory full of zeros
  have hfill : (m.fill e (n * blockSize).toNat 0) (e + j) = 0 :=
    Mem.fill_apply_in (Nat.le_add_right e j) (Nat.add_lt_add_left hj e)
  have hcongr := @Mem.writeAll_congr (fun _ => 0) _ 0 _ _ (entryStores h cp) hfill
  rw [Nat.zero_add] at hcongr
  rw [writeEntry_eq, hcongr, entryByte]

/-- Nothing is stored outside the block that is cleared. -/
private theorem writeEntry_out (h : Host) (m : Mem) (e : Nat) (n : UInt64) {cp : PartitionConfig}
    (hname : cp.name.chars.length ≤ 36) (hn : 128 ≤ (n * blockSize).toNat) {a : Nat}
    (ha : a < e ∨ e + (n * blockSize).toNat ≤ a) : writeEntry h m e n cp a = m a := by
  have hout : ∀ s ∈ entryStores h cp, a < e + s.1 ∨ e + s.1 + s.2.length ≤ a := by
    intro s hs
    have hb := entryStores_bounds h hname hs
    have hsize : PartitionEntry.size = 128 := rfl
    omega
  rw [writeEntry_eq, Mem.writeAll_apply_out hout, Mem.fill_apply_out ha]

/-- Behind the stores an entry is zero. -/
theorem entryByte_zero (h : Host) {cp : PartitionConfig} {j : Nat}
    (hj : ∀ s ∈ entryStores h cp, j < s.1 ∨ s.1 + s.2.length ≤ j) : entryByte h cp j = 0 :=
  Mem.writeAll_apply_out fun s hs => by
    have := hj s hs
    omega

/-! ## The loop -/

section

variable (h : Host) (n : UInt64)

/-- Bytes outside everything the loop clears keep their value. -/
theorem writeEntries_out (m : Mem) (base : Nat) (cps : List PartitionConfig)
    (hname : ∀ cp ∈ cps, cp.name.chars.length ≤ 36) (hn : 128 ≤ (n * blockSize).toNat) {a : Nat}
    (ha : a < base ∨ base + 128 * (cps.length - 1) + (n * blockSize).toNat ≤ a) :
    writeEntries h m base n cps a = m a := by
  induction cps generalizing m base with
  | nil => rfl
  | cons cp cps ih =>
    have hcp : (a < base ∨ base + (n * blockSize).toNat ≤ a) → writeEntry h m base n cp a = m a :=
      writeEntry_out h m base n (hname cp List.mem_cons_self) hn
    have hrest : ∀ cp ∈ cps, cp.name.chars.length ≤ 36 :=
      fun c hc => hname c (List.mem_cons_of_mem _ hc)
    rw [List.length_cons] at ha
    -- the last iteration clears furthest, so its end bounds all of them
    cases cps with
    | nil => exact hcp (by simpa using ha)
    | cons cp' cps =>
      rw [List.length_cons] at ha
      have hsize : PartitionEntry.size = 128 := rfl
      rw [writeEntries, ih _ _ hrest (by rw [List.length_cons]; omega), hcp (by omega)]

/-- Entry `i` of the array is the entry of partition `i`: the later clears start
    behind it. -/
theorem writeEntries_entry (m : Mem) (base : Nat) (cps : List PartitionConfig)
    (hname : ∀ cp ∈ cps, cp.name.chars.length ≤ 36) (hn : 128 ≤ (n * blockSize).toNat)
    {i j : Nat} {cp : PartitionConfig} (hi : cps[i]? = some cp) (hj : j < 128) :
    writeEntries h m base n cps (base + 128 * i + j) = entryByte h cp j := by
  induction cps generalizing m base i with
  | nil => exact absurd hi (by simp)
  | cons c cps ih =>
    have hrest : ∀ cp ∈ cps, cp.name.chars.length ≤ 36 :=
      fun c' hc => hname c' (List.mem_cons_of_mem _ hc)
    rw [writeEntries]
    -- entry 0 is this iteration's; the later ones begin 128 bytes on
    cases i with
    | zero =>
      obtain rfl : c = cp := by simpa using hi
      have hsize : PartitionEntry.size = 128 := rfl
      rw [Nat.mul_zero, Nat.add_zero, writeEntries_out h n _ _ cps hrest hn (by omega),
        writeEntry_apply h m base n (by omega)]
    | succ i =>
      have hstep : base + 128 * (i + 1) + j = base + PartitionEntry.size + 128 * i + j := by
        have hsize : PartitionEntry.size = 128 := rfl
        omega
      rw [hstep]
      exact ih _ _ hrest (by simpa using hi)

/-- The entry loop writes behind the start of the array only. -/
theorem writeEntries_below (m : Mem) (base : Nat)
    (cps : List PartitionConfig) {a : Nat} (ha : a < base) :
    writeEntries h m base n cps a = m a := by
  induction cps generalizing m base with
  | nil => rfl
  | cons cp cps ih =>
    rw [writeEntries, ih _ _ (Nat.lt_add_right _ ha), writeEntry_eq,
      Mem.writeAll_apply_out fun s _ => .inl (Nat.lt_add_right _ ha),
      Mem.fill_apply_out (.inl ha)]

/-- Behind the last entry everything is zero, up to the end of the last clear. -/
theorem writeEntries_zero (m : Mem) (base : Nat) (cps : List PartitionConfig)
    (hname : ∀ cp ∈ cps, cp.name.chars.length ≤ 36) {a : Nat}
    (hlo : base + 128 * cps.length ≤ a)
    (hhi : a < base + 128 * (cps.length - 1) + (n * blockSize).toNat) (hne : cps ≠ []) :
    writeEntries h m base n cps a = 0 := by
  induction cps generalizing m base with
  | nil => exact absurd rfl hne
  | cons cp cps ih =>
    have hrest : ∀ cp ∈ cps, cp.name.chars.length ≤ 36 :=
      fun c hc => hname c (List.mem_cons_of_mem _ hc)
    have hsize : PartitionEntry.size = 128 := rfl
    rw [List.length_cons] at hlo hhi
    cases cps with
    | nil =>
      -- the only clear: behind the entry nothing was stored
      rw [List.length_nil] at hlo hhi
      obtain ⟨j, rfl⟩ := Nat.exists_eq_add_of_le (Nat.le_trans (Nat.le_add_right _ _) hlo)
      have hj : ∀ s ∈ entryStores h cp, j < s.1 ∨ s.1 + s.2.length ≤ j := by
        intro s hs
        have := entryStores_bounds h (hname cp List.mem_cons_self) hs
        omega
      rw [writeEntries, writeEntries, writeEntry_apply h m base n (by omega), entryByte_zero h hj]
    | cons cp' cps =>
      rw [List.length_cons] at hlo hhi
      rw [writeEntries]
      refine ih _ _ hrest ?_ ?_ (List.cons_ne_nil _ _)
      · rw [List.length_cons]; omega
      · rw [List.length_cons]; omega

end

end Tlibc.Gpt
