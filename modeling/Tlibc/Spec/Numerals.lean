import Tlibc.Spec.Printf

/-!
# The numerals that `Sprintf` writes

Zero is special to three of the six functions: `puthex` and `putl` put no digit for it,
and `putptr` stores its digit in the wrong buffer.

* `sprintf_returns`: no function stores a digit outside its local buffer
* `rendered_iff`: a number is written as a numeral exactly when it is not zero, or the
  function for it puts a zero of its own
-/

namespace Tlibc.Printf

/-- The conversion of a number, with its argument. -/
inductive Number where
  | d (v : Int32)
  | u (v : UInt32)
  | x (v : UInt32)
  | p (v : UInt64)
  | l (v : Int64)
  | L (v : UInt64)

namespace Number

variable {n : Number}

/-- The conversion of a number. -/
def conversion : Number → Conversion
  | d _ => .d
  | u _ => .u
  | x _ => .x
  | p _ => .p
  | l _ => .l
  | L _ => .L

/-- The argument of `sprintf`. -/
def arg : Number → Arg
  | d v => .int v
  | u v => .uint v
  | x v => .uint v
  | p v => .ulong v
  | l v => .long v
  | L v => .ulong v

/-- The number that is to be written. -/
def value : Number → Int
  | d v => v.toInt
  | u v => v.toNat
  | x v => v.toNat
  | p v => v.toNat
  | l v => v.toInt
  | L v => v.toNat

/-- The digits a number is written in. -/
def alphabet : Number → Alphabet UInt8
  | x _ | p _ => hexadecimal
  | d _ | u _ | l _ | L _ => decimal

/-- What stands in front of the digits. -/
def lead (n : Number) : List UInt8 :=
  match n with
  | x _ | p _ => hexPrefix
  | d _ | u _ | l _ | L _ => sign n.value

/-- No conversion is named by a NUL. -/
private theorem letter_ne_zero (k : Conversion) : k.letter ≠ 0 := by
  cases k <;> decide

/-- `%` and the letter of the conversion. -/
def format (n : Number) : CString where
  chars := [percent, n.conversion.letter]
  nul_free := by
    have hletter := letter_ne_zero n.conversion
    have hpercent : percent ≠ 0 := by decide
    simp [hletter.symm, hpercent.symm]

/-- `text` is a numeral of the number, with its sign or prefix. -/
def Reads (n : Number) (text : List UInt8) : Prop :=
  ∃ cs, text = n.lead ++ cs ∧ n.alphabet.Numeral n.value.natAbs cs

/-- `Sprintf` returns, leaves a numeral of the number and its NUL at `dst`, and counts the
    characters of the numeral. -/
def Rendered (n : Number) : Prop :=
  ∃ text, n.Reads text ∧ ∀ m dst, ∃ fuel r, sprintf fuel m dst n.format [n.arg] = some (.ok r) ∧
    r.mem = m.write dst (text ++ [0]) ∧ r.ret.toNat = text.length

/-- Every conversion is found by its letter. -/
private theorem ofChar_letter (k : Conversion) : Conversion.ofChar k.letter = some k := by
  cases k <;> rfl

/-- The format is this conversion. -/
private theorem pieces_format (n : Number) : pieces n.format.chars = [.conversion n.conversion] :=
  pieces_conversion (ofChar_letter n.conversion)

/-- What is put for the number. -/
def text (n : Number) : List UInt8 := n.conversion.text n.arg

/-- The digits of the text. -/
def body (n : Number) : List UInt8 :=
  match n with
  | d _ | u _ | L _ => decimalText n.value.natAbs
  | x _ | p _ | l _ => n.alphabet.spell n.value.natAbs

/-- The text is the sign or prefix, and the digits. -/
theorem text_eq (n : Number) : n.text = n.lead ++ n.body := by
  have hsign : ∀ k : Nat, sign k = [] := fun k => if_neg (Int.not_lt.mpr (Int.natCast_nonneg k))
  cases n <;> simp [text, conversion, arg, Conversion.text, lead, body, value, alphabet, hsign]

/-- The format expands to the text. -/
private theorem expand_format (n : Number) : expand (pieces n.format.chars) [n.arg] = n.text := by
  rw [pieces_format, expand, expand, List.append_nil, text]

/-- The number has at most 64 bits. -/
theorem natAbs_value_lt (n : Number) : n.value.natAbs < 2 ^ 64 := by
  -- each kind of number has its own bounds
  cases n with
  | d v =>
    have hle := v.le_toInt
    have hlt := v.toInt_lt
    simp only [value]
    omega
  | l v =>
    have hle := v.le_toInt
    have hlt := v.toInt_lt
    simp only [value]
    omega
  | u v | x v =>
    have hlt := v.toNat_lt
    simp only [value]
    omega
  | p v | L v =>
    have hlt := v.toNat_lt
    simp only [value]
    omega

/-- The text is short. -/
private theorem length_text_lt (n : Number) : n.text.length < 2 ^ 32 := by
  have hvalue := n.natAbs_value_lt
  have hdec : (decimal.spell n.value.natAbs).length ≤ 24 :=
    decimal.length_spell_le.mpr (show n.value.natAbs < 10 ^ 24 by omega)
  have hhex : (hexadecimal.spell n.value.natAbs).length ≤ 24 :=
    hexadecimal.length_spell_le.mpr (show n.value.natAbs < 16 ^ 24 by omega)
  have htext : (decimalText n.value.natAbs).length ≤ 24 := length_decimalText_le (by omega)
  have hsign : (sign n.value).length ≤ 1 := by
    rw [sign]
    split <;> decide
  have hprefix : hexPrefix.length = 2 := rfl
  rw [text_eq, List.length_append]
  cases n <;> simp only [lead, body, alphabet] <;> omega

/-- Memory and count tell which text was stored. -/
private theorem text_eq_of_stored {s t : List UInt8} {m : Mem} {dst : Nat}
    (hmem : m.write dst (s ++ [0]) = m.write dst (t ++ [0])) (hlen : s.length = t.length) :
    s = t := by
  have hread := Mem.read_write_left m dst s [0]
  rw [hmem, hlen, Mem.read_write_left] at hread
  exact hread.symm

/-- A number that the scanner puts as any other argument. -/
theorem sprintf_text (htakes : n.conversion.Takes n.arg) (m : Mem) (dst : Nat) :
    ∃ fuel, sprintf fuel m dst n.format [n.arg] = some (.ok
      { mem := m.write dst (n.text ++ [0])
        ret := UInt32.ofNat n.text.length
        args := [n.arg].drop (conversions (pieces n.format.chars)) }) := by
  have hlen : n.format.chars.length < 2 ^ 31 := by simp [format]
  have hargs : Matches (pieces n.format.chars) [n.arg] := by
    rw [pieces_format]
    exact ⟨htakes, trivial⟩
  have hends := sprintf_ends hlen hargs (by rw [expand_format]; exact n.length_text_lt) m dst
  rw [expand_format] at hends
  exact hends

/-- Such a number is rendered exactly when its text is a numeral. -/
private theorem rendered_iff_reads (htakes : n.conversion.Takes n.arg) :
    n.Rendered ↔ n.Reads n.text := by
  have hends := sprintf_text htakes
  have hret : (UInt32.ofNat n.text.length).toNat = n.text.length :=
    UInt32.toNat_ofNat_of_lt' n.length_text_lt
  constructor
  · intro ⟨text, hreads, hrun⟩
    obtain ⟨fuel, r, hr, hmem, hlen⟩ := hrun (fun _ => 0) 0
    have heq := While.Ends.unique ⟨fuel, hr⟩ (hends (fun _ => 0) 0)
    obtain rfl := Except.ok.inj heq
    rw [text_eq_of_stored hmem (hret.symm.trans hlen)]
    exact hreads
  · intro hreads
    refine ⟨n.text, hreads, fun m dst => ?_⟩
    obtain ⟨fuel, hrun⟩ := hends m dst
    exact ⟨fuel, _, hrun, rfl, hret⟩

/-! ## Zero -/

/-- A decimal text is a numeral, also for 0. -/
theorem numeral_decimalText (v : Nat) : decimal.Numeral v (decimalText v) := by
  rw [decimalText]
  split
  · rename_i hv
    rw [hv]
    exact decimal.numeral_digit_zero
  · rename_i hv
    exact decimal.numeral_spell hv

/-- The digits that are written are a numeral for all numbers but 0. -/
private theorem numeral_spell_iff (A : Alphabet UInt8) (v : Nat) :
    A.Numeral v (A.spell v) ↔ v ≠ 0 := by
  constructor
  · intro h hv
    rw [hv, A.spell_zero] at h
    exact A.not_numeral_nil h
  · exact A.numeral_spell

/-- A text is read as the number exactly when its digits are. -/
private theorem reads_text_iff : n.Reads n.text ↔ n.alphabet.Numeral n.value.natAbs n.body := by
  constructor
  · intro ⟨cs, htext, hnumeral⟩
    rw [text_eq] at htext
    rw [List.append_cancel_left htext]
    exact hnumeral
  · intro h
    exact ⟨n.body, n.text_eq, h⟩

/-- The functions that have a case for zero put a numeral of every number, the others put
    one of every number but zero. -/
private theorem numeral_body_iff : n.alphabet.Numeral n.value.natAbs n.body ↔
    n.conversion = .d ∨ n.conversion = .u ∨ n.conversion = .L ∨ n.value ≠ 0 := by
  have hzero := (Int.natAbs_ne_zero (a := n.value))
  have hspell := numeral_spell_iff n.alphabet n.value.natAbs
  rw [hzero] at hspell
  cases n with
  | d v => simp [conversion, alphabet, body, numeral_decimalText]
  | u v => simp [conversion, alphabet, body, numeral_decimalText]
  | L v => simp [conversion, alphabet, body, numeral_decimalText]
  | x v => simpa [conversion, body] using hspell
  | p v => simpa [conversion, body] using hspell
  | l v => simpa [conversion, body] using hspell

/-- `putptr` of a null pointer counts a character that it does not store. -/
private theorem putptr_null (m : Mem) (dst : Nat) :
    putptr m dst 0 = .ok { mem := m.write dst hexPrefix, ret := 3 } := by
  rw [putptr]
  simp only [put_hexPrefix, if_true]
  rfl

/-- The null pointer is written as `0x` only. -/
private theorem sprintf_null (m : Mem) (dst : Nat) :
    ∃ fuel, sprintf fuel m dst (p 0).format [(p 0).arg] = some (.ok
      { mem := (m.write dst hexPrefix).write (dst + 3) [0], ret := 3, args := [] }) := by
  have hput : Conversion.p.put m (dst + (0 : UInt32).toNat) [(p 0).arg] =
      .ok ({ mem := m.write dst hexPrefix, ret := 3 }, []) := by
    rw [arg, Conversion.put, UInt32.toNat_zero, Nat.add_zero, putptr_null]
    rfl
  have hfmt : (p 0).format.chars = [] ++ percent :: Conversion.p.letter :: [] := rfl
  have hlen : (p 0).format.chars.length < 2 ^ 31 := by
    rw [hfmt]
    decide
  obtain ⟨j, hj, hscan⟩ := scan_put { mem := m, ret := 0 } hlen hfmt
    (show (0 : Int32).toInt = 0 from rfl) (ofChar_letter .p) hput
  have hnul := scan_nul dst [] { mem := m.write dst hexPrefix, ret := 0 + 3 } hfmt hj
  exact (While.ends_again hscan).mpr ((While.ends_done hnul).mpr rfl)

/-- So it is not rendered. -/
private theorem not_rendered_null : ¬ (p 0).Rendered := by
  intro h
  obtain ⟨text, -, hrun⟩ := h
  -- the third character is what was in memory before
  have hthird : ∀ b : UInt8, text[2]? = some b := by
    intro b
    obtain ⟨fuel, r, hr, hmem, hlen⟩ := hrun (fun _ => b) 0
    have heq := While.Ends.unique ⟨fuel, hr⟩ (sprintf_null (fun _ => b) 0)
    obtain rfl := Except.ok.inj heq
    have hlen : text.length = 3 := hlen.symm
    have hlt : 2 < (text ++ [0]).length := by
      rw [List.length_append, hlen]
      decide
    have hmem : ((Mem.write (fun _ => b) 0 hexPrefix).write 3 [0]) 2 =
        (Mem.write (fun _ => b) 0 (text ++ [0])) (0 + 2) := congrFun hmem 2
    rw [Mem.write_apply_in hlt, List.getElem_append_left (by omega)] at hmem
    rw [List.getElem?_eq_getElem (by omega), ← hmem]
    rfl
  have h := (hthird 0).symm.trans (hthird 1)
  exact absurd h (by decide)

/-- Any other number is an argument that the conversion takes. -/
private theorem takes_of_ne_null (hn : n ≠ p 0) : n.conversion.Takes n.arg := by
  cases n with
  | p v => exact fun hv => hn (by rw [hv])
  | d v | u v | x v | l v | L v => trivial

/-- No function stores a digit outside its local buffer, whatever the number. -/
theorem sprintf_returns (n : Number) (m : Mem) (dst : Nat) :
    ∃ fuel r, sprintf fuel m dst n.format [n.arg] = some (.ok r) := by
  by_cases hnull : n = p 0
  · obtain ⟨fuel, hrun⟩ := sprintf_null m dst
    rw [hnull]
    exact ⟨fuel, _, hrun⟩
  · obtain ⟨fuel, hrun⟩ := sprintf_text (takes_of_ne_null hnull) m dst
    exact ⟨fuel, _, hrun⟩

/-- A number is rendered exactly when it is not zero, or its conversion is one of the
    three whose functions have a case for zero. -/
theorem rendered_iff (n : Number) : n.Rendered ↔
    n.conversion = .d ∨ n.conversion = .u ∨ n.conversion = .L ∨ n.value ≠ 0 := by
  by_cases hnull : n = p 0
  · rw [hnull]
    simp [not_rendered_null, conversion, value]
  · rw [rendered_iff_reads (takes_of_ne_null hnull), reads_text_iff, numeral_body_iff]

/-- `Sprintf` writes nothing for the `long` 0. -/
theorem long_zero_not_rendered : ¬ ∀ n : Number, n.Rendered := by
  intro h
  have hreads := (rendered_iff_reads (n := l 0) trivial).mp (h _)
  exact absurd (numeral_body_iff.mp (reads_text_iff.mp hreads)) (by decide)

end Number

end Tlibc.Printf
