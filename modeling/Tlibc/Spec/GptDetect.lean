import Tlibc.Spec.GptDecode

/-!
# What the checksums detect

A reader checks a header against its own checksum, and the entry array against the
one the header holds. Four corrupted bytes in a row fail the check, wherever they
lie in the header or the array.

* `crc32_detects`: for strings, and for both headers and the array of a generated
  table
-/

namespace Tlibc.Gpt

/-- The header at `a` holds the CRC of its own bytes, the checksum field zeroed. -/
def HeaderChecked (m : Mem) (a : Nat) : Prop :=
  m.load (a + GPTHeader.headerCRC32.off) 4 =
    (crc32 ((m.fill (a + GPTHeader.headerCRC32.off) 4 0).read a GPTHeader.size)).toNat

/-- The header at `header` holds the CRC of the `n` bytes of the entry array. -/
def ArrayChecked (m : Mem) (header array n : Nat) : Prop :=
  m.load (header + GPTHeader.crc32EntryArray.off) 4 = (crc32 (m.read array n)).toNat

/-- The bytes of the header at `a`, its checksum field aside. -/
def headerBytes (a : Nat) : Set Nat :=
  Set.Ico a (a + GPTHeader.size) \
    Set.Ico (a + GPTHeader.headerCRC32.off) (a + GPTHeader.headerCRC32.off + 4)

/-- `c` is `m` with some bytes of `S` changed, all within four consecutive ones. -/
structure Corrupts (S : Set Nat) (m c : Mem) : Prop where
  ne : ∃ a, c a ≠ m a
  frame : Mem.Frame S m c
  window : ∃ i, ∀ a, c a ≠ m a → i ≤ a ∧ a < i + 4

private theorem Corrupts.mem {S : Set Nat} {m c : Mem} (h : Corrupts S m c) {a : Nat}
    (ha : c a ≠ m a) :
    a ∈ S := by
  by_contra hS
  exact ha (h.frame hS)

/-- One byte changed. -/
private theorem corrupts_fill {S : Set Nat} {m : Mem} {a : Nat} {v : UInt8} (ha : a ∈ S)
    (hv : v ≠ m a) :
    Corrupts S m (m.fill a 1 v) := by
  have hne : ∀ x, m.fill a 1 v x ≠ m x → x = a := by
    intro x hx
    by_contra hxa
    exact hx (Mem.fill_apply_out (by omega))
  refine ⟨⟨a, ?_⟩, ?_, a, ?_⟩
  · rw [Mem.fill_apply_in (Nat.le_refl a) (Nat.lt_succ_self a)]
    exact hv
  · intro x hx
    by_contra hxne
    exact hx (hne x hxne ▸ ha)
  · intro x hx
    have := hne x hx
    omega

/-- The CRC of a stretch of memory changes when the stretch is corrupted. -/
private theorem Corrupts.crc32_ne {m c : Mem} {a n : Nat} (h : Corrupts (Set.Ico a (a + n)) m c) :
    crc32 (m.read a n) ≠ crc32 (c.read a n) := by
  obtain ⟨i, hi⟩ := h.window
  have hget : ∀ (m : Mem) j, j < n → (m.read a n)[j]? = some (m (a + j)) := by
    intro m j hj
    have hlen : j < (m.read a n).length := by rw [Mem.length_read]; exact hj
    rw [List.getElem?_eq_getElem hlen, Mem.getElem_read]
  have hlen : (m.read a n).length = (c.read a n).length := by
    rw [Mem.length_read, Mem.length_read]
  refine crc32_ne_of_window hlen ?_ (i := i - a) ?_
  · -- the changed byte shows in the string
    intro heq
    obtain ⟨x, hx⟩ := h.ne
    obtain ⟨hlo, hhi⟩ := h.mem hx
    obtain ⟨j, rfl⟩ := Nat.exists_eq_add_of_le hlo
    have hj : j < n := by omega
    have hbyte := hget m j hj
    rw [heq, hget c j hj] at hbyte
    exact hx (Option.some.inj hbyte)
  · intro j hne
    have hj : j < n := by
      by_contra hj
      apply hne
      rw [List.getElem?_eq_none (by simp; omega), List.getElem?_eq_none (by simp; omega)]
    rw [hget m j hj, hget c j hj] at hne
    have hwin := hi (a + j) (fun heq => hne (congrArg some heq.symm))
    omega

/-- Zeroing the checksum field leaves a corruption of the other header bytes. -/
private theorem Corrupts.fill {m c : Mem} {a : Nat} (h : Corrupts (headerBytes a) m c) :
    Corrupts (Set.Ico a (a + GPTHeader.size)) (m.fill (a + GPTHeader.headerCRC32.off) 4 0)
      (c.fill (a + GPTHeader.headerCRC32.off) 4 0) := by
  have hout : ∀ x ∈ headerBytes a, ∀ m : Mem,
      m.fill (a + GPTHeader.headerCRC32.off) 4 0 x = m x := by
    intro x hx m
    exact if_neg hx.2
  -- a byte that still differs is outside the field and differed before
  have hback : ∀ x, c.fill (a + GPTHeader.headerCRC32.off) 4 0 x ≠
      m.fill (a + GPTHeader.headerCRC32.off) 4 0 x → c x ≠ m x := by
    intro x hx heq
    simp only [Mem.fill, heq, ne_eq, not_true_eq_false] at hx
  obtain ⟨x, hx⟩ := h.ne
  obtain ⟨i, hi⟩ := h.window
  refine ⟨⟨x, ?_⟩, fun y hy => ?_, i, fun y hy => hi y (hback y hy)⟩
  · rw [hout x (h.mem hx), hout x (h.mem hx)]
    exact hx
  · by_contra hne
    exact hy (h.mem (hback y hne)).1

/-- A checked header does not stay so when its bytes are corrupted: the checksum
    field is still the one of the bytes before. -/
private theorem HeaderChecked.not_of_corrupts {m c : Mem} {a : Nat} (hm : HeaderChecked m a)
    (h : Corrupts (headerBytes a) m c) : ¬ HeaderChecked c a := by
  intro hc
  have hfield : c.load (a + GPTHeader.headerCRC32.off) 4 =
      m.load (a + GPTHeader.headerCRC32.off) 4 :=
    h.frame.load fun i hi hS => hS.2 ⟨by omega, by omega⟩
  rw [HeaderChecked, hfield, hm] at hc
  exact h.fill.crc32_ne (UInt32.toNat_inj.mp hc)

/-- The same for the entry array, which lies apart from the header that checks it. -/
private theorem ArrayChecked.not_of_corrupts {m c : Mem} {header array n : Nat}
    (hm : ArrayChecked m header array n)
    (hsep : header + GPTHeader.size ≤ array ∨ array + n ≤ header)
    (h : Corrupts (Set.Ico array (array + n)) m c) : ¬ ArrayChecked c header array n := by
  intro hc
  have hsize : GPTHeader.size = 92 := rfl
  have hoff : GPTHeader.crc32EntryArray.off = 88 := rfl
  have hfield : c.load (header + GPTHeader.crc32EntryArray.off) 4 =
      m.load (header + GPTHeader.crc32EntryArray.off) 4 := by
    refine h.frame.load fun i hi hS => ?_
    have hS : array ≤ header + GPTHeader.crc32EntryArray.off + i ∧
      header + GPTHeader.crc32EntryArray.off + i < array + n := hS
    omega
  rw [ArrayChecked, hfield, hm] at hc
  exact h.crc32_ne (UInt32.toNat_inj.mp hc)

/-- Both headers of a generated table are checked, and check its array. -/
private theorem gptGenerate_checked (m : Mem) (buf : Nat) {config : GPTConfig}
    (hok : config.tooSmall = false) (hbuf : config.volume.toNat * 512 ≤ 2 ^ 64) {header : Nat}
    (hheader : header = getSector buf 1 ∨ header = getSector buf (config.volume - 1)) :
    let r := gptGenerate .little m buf config
    HeaderChecked r.mem header ∧
      ArrayChecked r.mem header (getSector buf 2) (128 * r.ret.toNat) := by
  intro r
  have hlast := getSector_last_eq buf hok hbuf
  have hone := getSector_one buf
  obtain ⟨-, -, -, hvol⟩ := of_not_tooSmall hok
  have hmem : r.mem = _ := gptGenerate_mem .little m buf hok
  -- the header was stored with its own CRC, and with that of the entries
  have hcrc := writeHeaders_crc (arrayMem .little m buf config) (getSector buf 1)
    (getSector buf (config.volume - 1)) config (UInt64.ofNat config.endOfPartitions)
    (UInt64.ofNat config.fitting) (arrayCRC .little m buf config) (by omega)
  have harray := gptGenerate_shared .little m buf hok
    (show (88, Mem.leBytes 4 (arrayCRC .little m buf config).toNat) ∈ _ by simp [headerStores])
    (by omega) (UInt32.toNat_lt _)
  simp only [← hmem, ← crc32_eq] at hcrc
  have hret : r.ret.toNat = config.fitting := gptGenerate_ret .little m buf hok
  rw [arrayCRC_eq m buf hok hbuf, ← crc32_eq, Nat.mul_comm, ← hret] at harray
  -- the first header is behind the boot sector, and the second one in the last sector
  rcases hheader with rfl | rfl
  · exact ⟨hcrc.1, harray.1⟩
  · exact ⟨hcrc.2, harray.2⟩

/-- Strings that differ only within four consecutive bytes have different CRCs. So
    in a generated table the stored checksums expose four corrupted bytes in a row,
    in a header outside its checksum field or in the array. -/
theorem crc32_detects :
    (∀ (u v : List UInt8) (i : Nat), u.length = v.length → u ≠ v →
      (∀ j, u[j]? ≠ v[j]? → i ≤ j ∧ j < i + 4) → crc32 u ≠ crc32 v) ∧
    ∀ (m : Mem) (buf : Nat) (config : GPTConfig) (header : Nat), config.tooSmall = false →
      config.volume.toNat * 512 ≤ 2 ^ 64 →
      (header = getSector buf 1 ∨ header = getSector buf (config.volume - 1)) →
      let r := gptGenerate .little m buf config
      let array := getSector buf 2
      let n := 128 * r.ret.toNat
      HeaderChecked r.mem header ∧ ArrayChecked r.mem header array n ∧
        (∀ c, Corrupts (headerBytes header) r.mem c → ¬ HeaderChecked c header) ∧
        ∀ c, Corrupts (Set.Ico array (array + n)) r.mem c → ¬ ArrayChecked c header array n := by
  refine ⟨fun u v i hlen hne hwin => crc32_ne_of_window hlen hne hwin, ?_⟩
  intro m buf config header hok hbuf hheader r array n
  obtain ⟨hchecked, harray⟩ := gptGenerate_checked m buf hok hbuf hheader
  have hret : r.ret.toNat = config.fitting := gptGenerate_ret .little m buf hok
  have hk := fitting_le config
  rw [config.length_partitions] at hk
  obtain ⟨-, -, -, hvol⟩ := of_not_tooSmall hok
  have hsectors : config.arraySectors = (config.numPart.toNat + 3) / 4 := rfl
  have hlast := getSector_last_eq buf hok hbuf
  have hsize : GPTHeader.size = 92 := rfl
  have hone := getSector_one buf
  have htwo : array = buf + 1024 := getSector_two buf
  -- sector 1 lies before the array, the last sector behind it
  have hsep : header + GPTHeader.size ≤ array ∨ array + n ≤ header := by
    rcases hheader with rfl | rfl <;> omega
  exact ⟨hchecked, harray, fun c => hchecked.not_of_corrupts, fun c => harray.not_of_corrupts hsep⟩

theorem crc32_detects_mkgpt :
    let m := (gptGenerate .little (fun _ => 0) 0 mkgptConfig).mem
    crc32 [1, 2] ≠ crc32 [1, 3] ∧ ¬ HeaderChecked (m.fill 512 1 (m 512 + 1)) 512 := by
  intro m
  -- one more than a byte is another byte
  have hv : m 512 + 1 ≠ m 512 := by
    intro h
    have := congrArg UInt8.toNat h
    have h1 : (1 : UInt8).toNat = 1 := rfl
    rw [UInt8.toNat_add, h1] at this
    omega
  -- the byte is one of the header, and not of its CRC
  have hmem : 512 ∈ headerBytes 512 := ⟨⟨by decide, by decide⟩, fun h => absurd h.1 (by decide)⟩
  obtain ⟨hstrings, htables⟩ := crc32_detects
  obtain ⟨-, -, hheader, -⟩ := htables (fun _ => 0) 0 mkgptConfig 512 (by decide) (by decide)
    (.inl rfl)
  refine ⟨hstrings _ _ 1 rfl (by decide) fun j hj => ?_, hheader _ (corrupts_fill hmem hv)⟩
  match j with
  | 0 => exact absurd rfl hj
  | j + 1 =>
    have : j = 0 := by
      by_contra h
      exact hj (by simp [h])
    omega

end Tlibc.Gpt
