import Tlibc.Native.Atoi
import Tlibc.Spec.Numerals

/-!
# `atoi` behind `Sprintf`

`atoi` passes over every character that is no digit, and so over the sign.

* `atoi_sprintf_iff`: it reads back what `Sprintf` wrote for `%d` exactly when that is not
  negative
-/

namespace Tlibc.Atoi

open Printf

variable {v ret : Int32} {n : Nat} {c : UInt8} {cs : List UInt8} {m : Mem} {dst : Nat}

/-! ## Strings in memory -/

/-- The string that begins at an address. -/
structure StringAt (m : Mem) (dst : Nat) (s : CString) : Prop where
  chars : m.read dst s.chars.length = s.chars
  nul : m (dst + s.chars.length) = 0

/-- No character of a string in memory is a NUL. -/
theorem StringAt.char {s : CString} (h : StringAt m dst s) {i : Nat} (hi : i < s.chars.length) :
    m (dst + i) ≠ 0 := by
  have hget := Mem.getElem_read m dst s.chars.length i (by rw [Mem.length_read]; exact hi)
  simp only [h.chars] at hget
  rw [← hget]
  exact fun hzero => s.nul_free (hzero ▸ List.getElem_mem hi)

/-- There is only one. -/
private theorem StringAt.unique {s t : CString} (hs : StringAt m dst s) (ht : StringAt m dst t) :
    s.chars = t.chars := by
  -- the NUL behind the shorter one would be a character of the other
  have hlen : s.chars.length = t.chars.length := by
    rcases Nat.lt_trichotomy s.chars.length t.chars.length with hlt | heq | hgt
    · exact absurd hs.nul (ht.char hlt)
    · exact heq
    · exact absurd ht.nul (hs.char hgt)
  rw [← hs.chars, ← ht.chars, hlen]

/-! ## Digits -/

/-- A number in the range of an `int` is converted. -/
theorem toInt_toInt32 {x : Int} (hlow : -2 ^ 31 ≤ x) (hhigh : x < 2 ^ 31) :
    ∃ r, toInt32 x = .ok r ∧ r.toInt = x :=
  ⟨_, if_pos ⟨hlow, hhigh⟩, Int32.toInt_ofInt_of_le hlow hhigh⟩

/-- What is converted is the number. -/
private theorem toInt32_ok {x : Int} {r : Int32} (h : toInt32 x = .ok r) : r.toInt = x := by
  rw [toInt32] at h
  split at h
  · next hfit =>
    cases h
    exact Int32.toInt_ofInt_of_le hfit.1 hfit.2
  · cases h

/-- The decimal digits are those of `atoi`. -/
private theorem digitValue_decimal {d : Nat} (h : decimal.value c = some d) :
    isDigit c = true ∧ d = c.toNat - 0x30 ∧ 0x30 ≤ c.toNat := by
  simp only [decimal, digitValue, Option.filter_eq_some_iff, decide_eq_true_eq] at h
  obtain ⟨hvalue, hlt⟩ := h
  split at hvalue
  · next hdigit =>
    cases hvalue
    refine ⟨?_, rfl, UInt8.le_iff_toNat_le.mp hdigit.1⟩
    simp [isDigit, hdigit]
  · split at hvalue
    · -- a letter, which stands for 10 at least
      cases hvalue
      omega
    · cases hvalue

/-- What is read grows with every digit. -/
private theorem le_of_readFrom {acc : Nat} (h : decimal.readFrom acc cs = some n) : acc ≤ n := by
  induction cs generalizing acc with
  | nil =>
    cases h
    exact Nat.le_refl _
  | cons c cs ih =>
    simp only [Alphabet.readFrom, Option.bind_eq_bind, Option.bind_eq_some_iff] at h
    obtain ⟨d, -, hrest⟩ := h
    have hle := ih hrest
    have hbase : decimal.base = 10 := rfl
    rw [hbase] at hle
    omega

/-- The loop reads digits without overflow as long as their number fits. -/
private theorem atoiLoop_digits {acc : Nat} (h : decimal.readFrom acc cs = some n) (hn : n < 2 ^ 31)
    (hret : ret.toInt = acc) : ∃ r, atoiLoop ret cs = .ok r ∧ r.toInt = n := by
  induction cs generalizing acc ret with
  | nil =>
    cases h
    exact ⟨ret, rfl, hret⟩
  | cons c cs ih =>
    simp only [Alphabet.readFrom, Option.bind_eq_bind, Option.bind_eq_some_iff] at h
    obtain ⟨d, hd, hrest⟩ := h
    obtain ⟨hdigit, rfl, hzero⟩ := digitValue_decimal hd
    have hle := le_of_readFrom hrest
    have hbase : decimal.base = 10 := rfl
    rw [hbase] at hle hrest
    -- both operations fit, as the number that is read in the end does
    obtain ⟨r₁, hr₁, hval₁⟩ := toInt_toInt32 (x := ret.toInt * 10) (by omega) (by omega)
    obtain ⟨r₂, hr₂, hval₂⟩ := toInt_toInt32 (x := r₁.toInt + (c.toNat - 0x30)) (by omega) (by omega)
    obtain ⟨r, hr, hval⟩ := ih hrest (show r₂.toInt = _ by omega)
    refine ⟨r, ?_, hval⟩
    rw [atoiLoop, if_pos hdigit, hr₁, Run.ok_bind, hr₂, Run.ok_bind, hr]

/-- It never comes to a negative number. -/
private theorem atoiLoop_nonneg (h : atoiLoop ret cs = .ok v) (hret : 0 ≤ ret.toInt) :
    0 ≤ v.toInt := by
  induction cs generalizing ret with
  | nil =>
    cases h
    exact hret
  | cons c cs ih =>
    rw [atoiLoop] at h
    split at h
    · next hdigit =>
      obtain ⟨r₁, hr₁, h⟩ := Run.bind_eq_ok.mp h
      obtain ⟨r₂, hr₂, h⟩ := Run.bind_eq_ok.mp h
      have hzero : 0x30 ≤ c.toNat := by
        simp only [isDigit, Bool.and_eq_true, decide_eq_true_eq] at hdigit
        exact UInt8.le_iff_toNat_le.mp hdigit.1
      apply ih h
      rw [toInt32_ok hr₂, toInt32_ok hr₁]
      omega
    · -- any other character is passed over, the sign too
      exact ih h hret

/-! ## Back and forth -/

/-- Decimal digits are no NUL. -/
private theorem mem_decimalText (h : c ∈ decimalText n) : c ≠ 0 := by
  have hdigit : ∀ d, d < 10 → digit d ≠ 0 := by decide
  rw [decimalText] at h
  split at h
  · rw [List.mem_singleton.mp h]
    decide
  · rw [Alphabet.spell, List.mem_reverse, List.mem_map] at h
    obtain ⟨d, hd, rfl⟩ := h
    exact hdigit d (Nat.digits_lt_base (by decide) hd)

/-- The text of an `int` as a string. -/
def intText (v : Int32) : CString where
  chars := (Number.d v).text
  nul_free := by
    intro h
    rw [Number.text_eq, List.mem_append] at h
    rcases h with h | h
    · simp only [Number.lead, sign] at h
      split at h
      · exact absurd (List.mem_singleton.mp h) (by decide)
      · cases h
    · exact mem_decimalText h rfl

/-- The text of a number, with its NUL, is a string in memory. -/
private theorem stringAt_intText (m : Mem) (dst : Nat) (v : Int32) :
    StringAt (m.write dst ((intText v).chars ++ [0])) dst (intText v) := by
  constructor
  · exact Mem.read_write_left m dst _ _
  · have hlt : (intText v).chars.length < ((intText v).chars ++ [0]).length := by simp
    rw [Mem.write_apply_in hlt]
    simp

/-- A number that is not negative is read back. -/
private theorem atoi_nonneg (h : 0 ≤ v.toInt) : atoi (intText v) = .ok v := by
  have hlt := v.toInt_lt
  have hread := (Number.numeral_decimalText v.toInt.natAbs).read
  have hchars : (intText v).chars = decimalText v.toInt.natAbs := by
    show (Number.d v).text = _
    rw [Number.text_eq, Number.lead, sign]
    exact congrArg (· ++ _) (if_neg (Int.not_lt.mpr h))
  cases hcs : decimalText v.toInt.natAbs with
  | nil =>
    rw [hcs] at hread
    cases hread
  | cons c cs =>
    rw [hcs] at hread
    obtain ⟨r, hr, hval⟩ := atoiLoop_digits hread (by omega)
      (show (0 : Int32).toInt = (0 : Nat) from rfl)
    rw [atoi, hchars, hcs, hr]
    rw [← Int32.toInt_inj.mp (show r.toInt = v.toInt by omega)]

/-- `Sprintf` writes `%d` of `v` to any address, and `atoi` of the string there is `v`. -/
def RoundTrips (v : Int32) : Prop :=
  ∀ m dst, ∃ fuel r s, sprintf fuel m dst (Number.d v).format [.int v] = some (.ok r) ∧
    StringAt r.mem dst s ∧ atoi s = .ok v

/-- The number that is read back is not negative. -/
private theorem RoundTrips.nonneg (h : RoundTrips v) : 0 ≤ v.toInt := by
  obtain ⟨fuel, r, s, hrun, hs, hatoi⟩ := h (fun _ => 0) 0
  -- `Sprintf` has one result, which is the string of the text
  have hends := Number.sprintf_text (n := .d v) trivial (fun _ => 0) 0
  have heq := While.Ends.unique ⟨fuel, hrun⟩ hends
  obtain rfl := Except.ok.inj heq
  have hchars := hs.unique (stringAt_intText (fun _ => 0) 0 v)
  rw [atoi, hchars] at hatoi
  exact atoiLoop_nonneg hatoi (Int.le_refl 0)

/-- Exactly the numbers that are not negative are read back from their texts. -/
theorem atoi_sprintf_iff (v : Int32) : RoundTrips v ↔ 0 ≤ v.toInt := by
  constructor
  · exact RoundTrips.nonneg
  · intro h m dst
    obtain ⟨fuel, hrun⟩ := Number.sprintf_text (n := .d v) trivial m dst
    exact ⟨fuel, _, intText v, hrun, stringAt_intText m dst v, atoi_nonneg h⟩

/-- The text of -1 is not read as -1. -/
theorem minus_one_not_roundTrips : ¬ ∀ v, RoundTrips v := fun h =>
  absurd (h (-1)).nonneg (by decide)

end Tlibc.Atoi
