import Tlibc.Lib.Numeral
import Tlibc.Native.Printf

/-!
# What `Sprintf` and `Printf` store

The functions that put an argument are brought to one form first, the text they store
(`Conversion.put_eq`). The loop is then followed from one piece of the format to the next.

* `expands`: from any place in the format on, the loop stores the text of what is left
* `sprintf_printf_expand`: what the two functions return, store and write
-/

namespace Tlibc.Printf

variable {m : Mem} {dst : Nat} {pre : List UInt8}

/-! ## The digits -/

/-- What a character stands for among the digits below `base`. -/
def digitValue (base : Nat) (c : UInt8) : Option Nat :=
  let d :=
    if 0x30 ≤ c ∧ c ≤ 0x39 then some (c.toNat - 0x30)
    else if 0x61 ≤ c ∧ c ≤ 0x66 then some (c.toNat - 0x61 + 10)
    else none
  d.filter (· < base)

/-- A digit is below the base. -/
private theorem digitValue_lt {base d : Nat} {c : UInt8} (h : digitValue base c = some d) :
    d < base := by
  simp only [digitValue, Option.filter_eq_some_iff, decide_eq_true_eq] at h
  exact h.2

/-- A digit that was written is read back. -/
private theorem digitValue_digit {base d : Nat} (hbase : base ≤ 16) (hd : d < base) :
    digitValue base (digit d) = some d := by
  have hvalue : ∀ d, d < 16 → digitValue 16 (digit d) = some d := by decide
  have h := hvalue d (Nat.lt_of_lt_of_le hd hbase)
  simp only [digitValue, Option.filter_eq_some_iff, decide_eq_true_eq] at h ⊢
  exact ⟨h.1, hd⟩

/-- `'0'` to `'9'`. -/
def decimal : Alphabet UInt8 where
  base := 10
  digit := digit
  value := digitValue 10
  one_lt_base := by decide
  value_lt := digitValue_lt
  value_digit := digitValue_digit (by decide)

/-- `'0'` to `'9'` and `'a'` to `'f'`. -/
def hexadecimal : Alphabet UInt8 where
  base := 16
  digit := digit
  value := digitValue 16
  one_lt_base := by decide
  value_lt := digitValue_lt
  value_digit := digitValue_digit (by decide)

/-- The loop stores the digits of `val`, the least significant one first. -/
private theorem digitLoop_eq (A : Alphabet UInt8) {low high : Nat → Nat} {size i val : Nat}
    (buf : Mem)
    (hdigit : A.digit = digit) (hlow : ∀ v, low v = v % A.base) (hhigh : ∀ v, high v = v / A.base)
    (hsize : i + (A.spell val).length ≤ size) :
    digitLoop low high size buf i val =
      .ok (buf.write i (A.spell val).reverse, i + (A.spell val).length) := by
  induction val using Nat.strong_induction_on generalizing buf i with
  | _ val ih =>
    rw [digitLoop]
    split
    · rename_i hval
      -- the first digit stored is the last of the text
      have hspell : A.spell val = A.spell (val / A.base) ++ [digit (val % A.base)] := by
        rw [Alphabet.spell, Nat.digits_def' A.one_lt_base hval, List.map_cons, List.reverse_cons,
          hdigit, Alphabet.spell, hdigit]
      have hlen : (A.spell val).length = (A.spell (val / A.base)).length + 1 := by
        rw [hspell, List.length_append, List.length_singleton]
      rw [if_pos (by omega), hlow, hhigh,
        ih (val / A.base) (Nat.div_lt_self hval A.one_lt_base) _ (by omega), hlen, hspell,
        List.reverse_append, List.reverse_singleton, ← Mem.write_append, List.length_singleton,
        Nat.add_assoc, Nat.add_comm 1]
    · obtain rfl : val = 0 := by omega
      simp [Alphabet.spell_zero]

/-- A buffer of `size` characters is enough for a number below `base ^ size`. -/
private theorem digitLoop_local (A : Alphabet UInt8) {low high : Nat → Nat} {size val : Nat}
    (hdigit : A.digit = digit) (hlow : ∀ v, low v = v % A.base) (hhigh : ∀ v, high v = v / A.base)
    (h : val < A.base ^ size) : digitLoop low high size localBuf 0 val =
      .ok (localBuf.write 0 (A.spell val).reverse, (A.spell val).length) := by
  have hsize : 0 + (A.spell val).length ≤ size := by
    rw [Nat.zero_add]
    exact A.length_spell_le.mpr h
  have hloop := digitLoop_eq A localBuf hdigit hlow hhigh hsize
  rw [Nat.zero_add] at hloop
  exact hloop

/-- The loop of `putint` and of the other decimal conversions leaves the digits reversed. -/
private theorem decimalLoop_eq {size val : Nat} (h : val < 10 ^ size) : decimalLoop size val =
    .ok (localBuf.write 0 (decimal.spell val).reverse, (decimal.spell val).length) :=
  digitLoop_local decimal rfl (fun _ => rfl) (fun _ => rfl) h

/-- So does the one of the hexadecimal conversions. -/
private theorem hexLoop_eq {size val : Nat} (h : val < 16 ^ size) : hexLoop size val =
    .ok (localBuf.write 0 (hexadecimal.spell val).reverse, (hexadecimal.spell val).length) :=
  digitLoop_local hexadecimal rfl (fun v => Nat.and_two_pow_sub_one_eq_mod v 4)
    (fun v => Nat.shiftRight_eq_div_pow v 4) h

/-! ## The texts -/

/-- The state behind a function that stored `text`, and counted its characters. -/
def stored (m : Mem) (dst : Nat) (text : List UInt8) : Out :=
  { mem := m.write dst text, ret := UInt32.ofNat text.length }

/-- Before the first character. -/
private theorem stored_nil (m : Mem) (dst : Nat) : stored m dst [] = { mem := m, ret := 0 } := by
  simp [stored]

/-- One character more. -/
private theorem put_stored {c : UInt8} (h : pre.length < 2 ^ 32) :
    (stored m dst pre).put dst c = stored m dst (pre ++ [c]) := by
  have hret : (UInt32.ofNat pre.length).toNat = pre.length := UInt32.toNat_ofNat_of_lt' h
  simp only [stored, Out.put, hret, Mem.write_append, List.length_append, List.length_singleton,
    UInt32.ofNat_add]
  rfl

/-- A string more. -/
private theorem puts_stored {cs : List UInt8} (h : pre.length + cs.length < 2 ^ 32) :
    cs.foldl (fun out c => out.put dst c) (stored m dst pre) = stored m dst (pre ++ cs) := by
  induction cs generalizing pre with
  | nil => rw [List.foldl_nil, List.append_nil]
  | cons c cs ih =>
    rw [List.length_cons] at h
    rw [List.foldl_cons, put_stored (by omega),
      ih (by rw [List.length_append, List.length_singleton]; omega), List.append_assoc,
      List.singleton_append]

/-- The digits of the local buffer are stored in reverse, by induction on the index. -/
private theorem copyBack_stored {buf : Mem} {i : Nat} (h : pre.length + i < 2 ^ 32) :
    copyBack dst buf i (stored m dst pre) = stored m dst (pre ++ (buf.read 0 i).reverse) := by
  induction i generalizing pre with
  | zero => simp [copyBack, Mem.read]
  | succ i ih =>
    have hread : buf.read 0 (i + 1) = buf.read 0 i ++ [buf i] := by
      simp [Mem.read, List.range_succ]
    rw [copyBack, put_stored (by omega),
      ih (by rw [List.length_append, List.length_singleton]; omega), hread, List.reverse_append,
      List.reverse_singleton, List.append_assoc]

/-- The digits are copied in the order of the text. -/
private theorem copyBack_local {cs : List UInt8} (h : pre.length + cs.length < 2 ^ 32) :
    copyBack dst (localBuf.write 0 cs.reverse) cs.length (stored m dst pre) =
      stored m dst (pre ++ cs) := by
  have hread := Mem.read_write_self localBuf 0 cs.reverse
  rw [List.length_reverse] at hread
  rw [copyBack_stored h, hread, List.reverse_reverse]

/-- So they are by the loop that counts upwards. -/
private theorem copyReversed_eq (m : Mem) (dst : Nat) {buf : Mem} {cs : List UInt8}
    (hread : buf.read 0 cs.length = cs.reverse)
    {i : Nat} (hi : i ≤ cs.length) :
    copyReversed m dst buf cs.length i = m.write dst (cs.take i) := by
  -- induction on the characters that are copied
  induction i with
  | zero => simp [copyReversed]
  | succ i ih =>
    have hlt : cs.length - 1 - i < (buf.read 0 cs.length).length := by
      rw [Mem.length_read]
      omega
    -- the buffer holds them in reverse
    have hbuf : buf (cs.length - 1 - i) = cs[i] := by
      have hget := Mem.getElem_read buf 0 cs.length (cs.length - 1 - i) hlt
      simp only [hread, List.getElem_reverse, Nat.zero_add] at hget
      rw [← hget]
      congr 1
      omega
    have hlen : (cs.take i).length = i := List.length_take_of_le (by omega)
    rw [copyReversed, ih (by omega), hbuf, List.take_succ_eq_append_getElem (by omega),
      ← Mem.write_append, hlen]

/-! ## What the functions put -/

/-- The sign of a number. -/
def sign (v : Int) : List UInt8 := if v < 0 then [minus] else []

/-- `v` as `putint`, `putuint` and `putul` write it. -/
def decimalText (v : Nat) : List UInt8 := if v = 0 then [zero] else decimal.spell v

/-- A number below `10 ^ 24` has at most 24 digits. -/
theorem length_decimalText_le {v : Nat} (h : v < 10 ^ 24) : (decimalText v).length ≤ 24 := by
  rw [decimalText]
  split
  · decide
  · exact decimal.length_spell_le.mpr h

/-- `"0x"`. -/
def hexPrefix : List UInt8 := [zero, letterX]

/-- What is put for an argument. -/
def Conversion.text : Conversion → Arg → List UInt8
  | d, .int v => sign v.toInt ++ decimalText v.toInt.natAbs
  | u, .uint v => decimalText v.toNat
  | x, .uint v => hexPrefix ++ hexadecimal.spell v.toNat
  | p, .ulong v => hexPrefix ++ hexadecimal.spell v.toNat
  | l, .long v => sign v.toInt ++ decimal.spell v.toInt.natAbs
  | s, .string none => nullText
  | s, .string (some src) => src.chars
  | L, .ulong v => decimalText v.toNat
  | _, _ => []

/-- The negation of a negative number, without sign. -/
private theorem toNat_neg_of_neg {w : Nat} {x : BitVec w} (h : x.toInt < 0) :
    (-x).toNat = x.toInt.natAbs := by
  have hlt := x.isLt
  rw [BitVec.toInt_eq_toNat_cond] at h ⊢
  split at h
  · omega
  · rename_i hmsb
    rw [if_neg hmsb, BitVec.toNat_neg, Nat.mod_eq_of_lt (by omega)]
    omega

/-- A nonnegative number, without sign. -/
private theorem toNat_of_nonneg {w : Nat} {x : BitVec w} (h : 0 ≤ x.toInt) :
    x.toNat = x.toInt.natAbs := by
  have hlt := x.isLt
  rw [BitVec.toInt_eq_toNat_cond] at h ⊢
  split at h
  · rename_i hmsb
    rw [if_pos hmsb, Int.natAbs_natCast]
  · omega

/-- The minus sign of a negative number. -/
private theorem put_minus :
    ({ mem := m, ret := 0 } : Out).put dst minus = stored m dst [minus] := by
  rw [← stored_nil m dst, put_stored (by decide), List.nil_append]

/-- The `0x` in front of a hexadecimal number. -/
theorem put_hexPrefix : (({ mem := m, ret := 0 } : Out).put dst zero).put dst letterX =
    stored m dst hexPrefix := by
  rw [← stored_nil m dst, put_stored (by decide), put_stored (by decide)]
  rfl

/-- Both loops of a function: the digits of `val` behind what was put before. -/
private theorem decimalLoop_copyBack {size val : Nat} (h : val < 10 ^ size)
    (hlen : pre.length + size < 2 ^ 32) :
    (decimalLoop size val >>= fun r => .ok (copyBack dst r.1 r.2 (stored m dst pre))) =
      .ok (stored m dst (pre ++ decimal.spell val)) := by
  have hsize : (decimal.spell val).length ≤ size := decimal.length_spell_le.mpr h
  rw [decimalLoop_eq h, Run.ok_bind, copyBack_local (by omega)]

/-- The hexadecimal digits, behind what is stored already. -/
private theorem hexLoop_copyBack {size val : Nat} (h : val < 16 ^ size)
    (hlen : pre.length + size < 2 ^ 32) :
    (hexLoop size val >>= fun r => .ok (copyBack dst r.1 r.2 (stored m dst pre))) =
      .ok (stored m dst (pre ++ hexadecimal.spell val)) := by
  have hsize : (hexadecimal.spell val).length ≤ size := hexadecimal.length_spell_le.mpr h
  rw [hexLoop_eq h, Run.ok_bind, copyBack_local (by omega)]

/-- `%d` stores the decimal text of the number. -/
private theorem putint_eq (v : Int32) : putint m dst v =
    .ok (stored m dst (sign v.toInt ++ decimalText v.toInt.natAbs)) := by
  have hlt := v.toUInt32.toNat_lt
  have hneg := (-v).toUInt32.toNat_lt
  -- a negative number is written as a minus sign and its absolute value
  by_cases h : v < 0
  · have hsign : v.toInt < 0 := Int32.lt_iff_toInt_lt.mp h
    have habs : (-v).toUInt32.toNat = v.toInt.natAbs := toNat_neg_of_neg hsign
    -- it is not 0, so it has digits
    have hne : (-v).toUInt32 ≠ 0 := fun heq => by
      rw [heq] at habs
      have hzero : (0 : UInt32).toNat = 0 := rfl
      omega
    rw [putint, if_pos h, sign, if_pos hsign, decimalText, if_neg (by omega), put_minus, ← habs]
    simp only [if_neg hne]
    exact decimalLoop_copyBack (by omega) (by decide)
  · have hsign : ¬ v.toInt < 0 := fun hneg => h (Int32.lt_iff_toInt_lt.mpr hneg)
    have habs : v.toUInt32.toNat = v.toInt.natAbs := toNat_of_nonneg (Int.not_lt.mp hsign)
    rw [putint, if_neg h, sign, if_neg hsign, List.nil_append, decimalText, ← habs]
    -- 0 has a digit of its own
    by_cases hzero : v.toUInt32 = 0
    · simp [hzero, stored]
    · have hne : v.toUInt32.toNat ≠ 0 := fun heq => hzero (UInt32.toNat_inj.mp heq)
      simp only [if_neg hzero, if_neg hne]
      rw [← stored_nil m dst]
      exact decimalLoop_copyBack (by omega) (by decide)

/-- So does `%u`. -/
private theorem putuint_eq (v : UInt32) :
    putuint m dst v = .ok (stored m dst (decimalText v.toNat)) := by
  have hlt := v.toNat_lt
  rw [putuint, decimalText]
  by_cases hzero : v = 0
  · simp [hzero, stored]
  · have hne : v.toNat ≠ 0 := fun heq => hzero (UInt32.toNat_inj.mp heq)
    rw [if_neg hzero, if_neg hne, ← stored_nil m dst]
    exact decimalLoop_copyBack (by omega) (by decide)

/-- `%x` stores `0x` and the digits, none for 0. -/
private theorem puthex_eq (v : UInt32) : puthex m dst v =
    .ok (stored m dst (hexPrefix ++ hexadecimal.spell v.toNat)) := by
  have hlt := v.toNat_lt
  rw [puthex]
  simp only [put_hexPrefix]
  exact hexLoop_copyBack (by omega) (by decide)

/-- `%p` stores the same for an address that is not null. -/
private theorem putptr_eq {v : UInt64} (hv : v ≠ 0) : putptr m dst v =
    .ok (stored m dst (hexPrefix ++ hexadecimal.spell v.toNat)) := by
  have hlt := v.toNat_lt
  rw [putptr]
  simp only [put_hexPrefix, if_neg hv]
  exact hexLoop_copyBack (by omega) (by decide)

/-- `%l` stores the sign and the digits, none for 0. -/
private theorem putl_eq (v : Int64) : putl m dst v =
    .ok (stored m dst (sign v.toInt ++ decimal.spell v.toInt.natAbs)) := by
  have hlt := v.toUInt64.toNat_lt
  have hneg := (-v).toUInt64.toNat_lt
  by_cases h : v < 0
  · have hsign : v.toInt < 0 := Int64.lt_iff_toInt_lt.mp h
    have habs : (-v).toUInt64.toNat = v.toInt.natAbs := toNat_neg_of_neg hsign
    rw [putl, if_pos h, sign, if_pos hsign, put_minus, ← habs]
    exact decimalLoop_copyBack (by omega) (by decide)
  · have hsign : ¬ v.toInt < 0 := fun hneg => h (Int64.lt_iff_toInt_lt.mpr hneg)
    have habs : v.toUInt64.toNat = v.toInt.natAbs := toNat_of_nonneg (Int.not_lt.mp hsign)
    rw [putl, if_neg h, sign, if_neg hsign, ← habs, ← stored_nil m dst]
    exact decimalLoop_copyBack (by omega) (by decide)

/-- `%L` stores the decimal text of the number. -/
private theorem putul_eq (v : UInt64) :
    putul m dst v = .ok (stored m dst (decimalText v.toNat)) := by
  have hlt := v.toNat_lt
  rw [putul, decimalText]
  by_cases hzero : v = 0
  · simp [hzero, stored]
  · have hne : v.toNat ≠ 0 := fun heq => hzero (UInt64.toNat_inj.mp heq)
    have hread := Mem.read_write_self localBuf 0 (decimal.spell v.toNat).reverse
    rw [List.length_reverse] at hread
    have hcopy := copyReversed_eq m dst hread (Nat.le_refl _)
    rw [List.take_length] at hcopy
    rw [if_neg hzero, if_neg hne, decimalLoop_eq (by omega), Run.ok_bind, stored, ← hcopy]
    rfl

/-- `%s` stores the string. -/
private theorem putstr_eq {src : Option CString}
    (h : (Conversion.s.text (.string src)).length < 2 ^ 32) :
    putstr m dst src = stored m dst (Conversion.s.text (.string src)) := by
  unfold putstr
  rw [← stored_nil m dst]
  cases src with
  | none => exact puts_stored (by decide)
  | some src => exact puts_stored (by rw [List.length_nil, Nat.zero_add]; exact h)

/-- The arguments of the type a conversion reads. A pointer is not null. -/
def Conversion.Takes : Conversion → Arg → Prop
  | d, .int _ => True
  | u, .uint _ => True
  | x, .uint _ => True
  | p, .ulong v => v ≠ 0
  | l, .long _ => True
  | s, .string _ => True
  | L, .ulong _ => True
  | _, _ => False

/-- Every conversion stores its text and takes one argument. -/
theorem Conversion.put_eq {k : Conversion} {a : Arg} (h : k.Takes a)
    (hlen : (k.text a).length < 2 ^ 32) (m : Mem) (dst : Nat) (args : List Arg) :
    k.put m dst (a :: args) = .ok (stored m dst (k.text a), args) := by
  cases k <;> cases a <;> simp only [Takes] at h
  · simp [put, putint_eq, text, Except.map]
  · simp [put, putuint_eq, text, Except.map]
  · simp [put, puthex_eq, text, Except.map]
  · simp [put, putptr_eq h, text, Except.map]
  · simp [put, putl_eq, text, Except.map]
  · simp [put, putstr_eq hlen]
  · simp [put, putul_eq, text, Except.map]

/-! ## The format -/

/-- What a format consists of. -/
inductive Piece where
  /-- a character that is copied -/
  | char (c : UInt8)
  /-- `%` and the letter of a conversion -/
  | conversion (k : Conversion)

/-- A `%` begins a conversion if a letter of one follows it, and is a character like any
    other if not. -/
def pieces : List UInt8 → List Piece
  | [] => []
  | [c] => [.char c]
  | c :: d :: fmt =>
    if c = percent then
      match Conversion.ofChar d with
      | some k => .conversion k :: pieces fmt
      | none => .char c :: pieces (d :: fmt)
    else
      .char c :: pieces (d :: fmt)

/-- The arguments begin with one for each conversion. -/
def Matches : List Piece → List Arg → Prop
  | [], _ => True
  | .char _ :: ps, args => Matches ps args
  | .conversion _ :: _, [] => False
  | .conversion k :: ps, a :: args => k.Takes a ∧ Matches ps args

/-- The text of a format, with those of its arguments. -/
def expand : List Piece → List Arg → List UInt8
  | [], _ => []
  | .char c :: ps, args => c :: expand ps args
  | .conversion k :: ps, a :: args => k.text a ++ expand ps args
  | .conversion _ :: _, [] => []

/-- The number of conversions. -/
def conversions : List Piece → Nat
  | [] => 0
  | .char _ :: ps => conversions ps
  | .conversion _ :: ps => conversions ps + 1

/-! ## The scanner -/

section Scan

variable {fmt : CString} {passed rest : List UInt8} {i : Int32} {c : UInt8} {args : List Arg}

/-- The character of the format behind those that were passed. -/
private theorem charAt_eq (passed rest : List UInt8) (hfmt : fmt.chars = passed ++ rest)
    (hi : i.toInt = passed.length) : charAt fmt i = .ok (rest.headD 0) := by
  have hlen : fmt.chars.length = passed.length + rest.length := by
    rw [hfmt, List.length_append]
  rw [charAt, if_pos (by omega), hi, Int.toNat_natCast, hfmt]
  cases rest with
  | nil => simp
  | cons c rest => simp

/-- The index does not overflow. -/
private theorem toInt_add_of_lt {n k : Nat} {j : Int32} (hi : i.toInt = n) (hj : j.toInt = k)
    (h : n + k < 2 ^ 31) : (i + j).toInt = n + k := by
  rw [Int32.toInt_add, hi, hj]
  exact Int.bmod_eq_of_le (by omega) (by omega)

/-- The index, which a conversion moves by two. -/
private theorem toInt_sub_one_add_two {n : Nat} (hi : i.toInt = n) (h : n + 1 < 2 ^ 31) :
    (i - 1 + 2).toInt = n + 1 := by
  have hone : (1 : Int32).toInt = 1 := rfl
  have htwo : (2 : Int32).toInt = 2 := rfl
  have hsub : (i - 1).toInt = n - 1 := by
    rw [Int32.toInt_sub, hi, hone]
    exact Int.bmod_eq_of_le (by omega) (by omega)
  rw [Int32.toInt_add, hsub, htwo, Int.bmod_eq_of_le (by omega) (by omega)]
  omega

/-- A character that begins no conversion is copied. -/
private theorem scan_char (m : Mem) (dst : Nat) (args : List Arg) (hlen : fmt.chars.length < 2 ^ 31)
    (hfmt : fmt.chars = passed ++ c :: rest)
    (hi : i.toInt = passed.length) (hpre : pre.length < 2 ^ 32)
    (hc : c = percent → Conversion.ofChar (rest.headD 0) = none) :
    ∃ j : Int32, j.toInt = passed.length + 1 ∧
      scan fmt dst { i := i, args := args, out := stored m dst pre } =
        .ok (.again { i := j, args := args, out := stored m dst (pre ++ [c]) }) := by
  have hc0 : c ≠ 0 := fun hzero => fmt.nul_free (by rw [hfmt, hzero]; simp)
  have hlt : passed.length + 1 < 2 ^ 31 := by
    rw [hfmt, List.length_append, List.length_cons] at hlen
    omega
  have hnext : (i + 1).toInt = (passed.length : Int) + 1 := toInt_add_of_lt hi rfl hlt
  have hat := charAt_eq passed _ hfmt hi
  rw [List.headD_cons] at hat
  unfold scan
  simp only [hat, Run.ok_bind, if_neg hc0]
  -- a percent sign that starts no conversion is a character as well
  by_cases hp : c = percent
  · have hat' : charAt fmt (i + 1) = .ok (rest.headD 0) := by
      apply charAt_eq (passed ++ [c]) rest
      · rw [hfmt, List.append_assoc, List.singleton_append]
      · rw [hnext, List.length_append, List.length_singleton]
        rfl
    -- the index is moved back to it, and then by two
    refine ⟨i - 1 + 2, toInt_sub_one_add_two hi hlt, ?_⟩
    simp only [hat', Run.ok_bind, hc hp, put_stored hpre, hp]
    rfl
  · refine ⟨i + 1, hnext, ?_⟩
    simp only [if_neg hp, put_stored hpre]
    rfl

/-- A conversion advances the cursor by two. -/
theorem scan_put {k : Conversion} {args' : List Arg} {put : Out} (out : Out)
    (hlen : fmt.chars.length < 2 ^ 31) (hfmt : fmt.chars = passed ++ percent :: c :: rest)
    (hi : i.toInt = passed.length) (hk : Conversion.ofChar c = some k)
    (hput : k.put out.mem (dst + out.ret.toNat) args = .ok (put, args')) :
    ∃ j : Int32, j.toInt = passed.length + 2 ∧
      scan fmt dst { i := i, args := args, out := out } = .ok (.again
        { i := j, args := args', out := { mem := put.mem, ret := out.ret + put.ret } }) := by
  have hlt : passed.length + 2 < 2 ^ 31 := by
    rw [hfmt, List.length_append, List.length_cons, List.length_cons] at hlen
    omega
  have hat := charAt_eq passed _ hfmt hi
  -- the character behind the percent sign names the conversion
  have hat' : charAt fmt (i + 1) = .ok c := by
    apply charAt_eq (passed ++ [percent]) (c :: rest)
    · rw [hfmt, List.append_assoc, List.singleton_append]
    · rw [toInt_add_of_lt hi (show (1 : Int32).toInt = (1 : Nat) from rfl) (by omega),
        List.length_append, List.length_singleton]
      rfl
  refine ⟨i + 2, toInt_add_of_lt hi rfl hlt, ?_⟩
  have hzero : percent ≠ 0 := by decide
  unfold scan
  simp only [hat, List.headD_cons, Run.ok_bind, if_neg hzero, if_true, hat', hk, hput]
  rfl

/-- A conversion puts the text of the next argument. -/
private theorem scan_conversion {k : Conversion} {a : Arg} (m : Mem) (dst : Nat) (args : List Arg)
    (hlen : fmt.chars.length < 2 ^ 31)
    (hfmt : fmt.chars = passed ++ percent :: c :: rest) (hi : i.toInt = passed.length)
    (hk : Conversion.ofChar c = some k) (ha : k.Takes a)
    (hpre : pre.length + (k.text a).length < 2 ^ 32) :
    ∃ j : Int32, j.toInt = passed.length + 2 ∧
      scan fmt dst { i := i, args := a :: args, out := stored m dst pre } =
        .ok (.again { i := j, args := args, out := stored m dst (pre ++ k.text a) }) := by
  -- the characters stored so far are fewer than `2 ^ 32`, so their count has not wrapped
  have hret : (stored m dst pre).ret.toNat = pre.length :=
    UInt32.toNat_ofNat_of_lt' (show pre.length < 2 ^ 32 by omega)
  have hput := k.put_eq ha (by omega) (stored m dst pre).mem (dst + pre.length) args
  rw [← hret] at hput
  obtain ⟨j, hj, hscan⟩ := scan_put _ hlen hfmt hi hk hput
  refine ⟨j, hj, ?_⟩
  rw [hscan, hret]
  simp only [stored, Mem.write_append, List.length_append, UInt32.ofNat_add]

/-- The NUL ends the loop. -/
theorem scan_nul (dst : Nat) (args : List Arg) (out : Out) (hfmt : fmt.chars = passed)
    (hi : i.toInt = passed.length) :
    scan fmt dst { i := i, args := args, out := out } = .ok (.done
      { mem := out.mem.write (dst + out.ret.toNat) [0], ret := out.ret, args := args }) := by
  have hat := charAt_eq passed [] (by rw [List.append_nil]; exact hfmt) hi
  unfold scan
  simp only [hat, List.headD_nil, Run.ok_bind, if_true]
  rfl

/-- A character that starts no conversion is a piece of its own. -/
private theorem pieces_char (hc : c = percent → Conversion.ofChar (rest.headD 0) = none) :
    pieces (c :: rest) = .char c :: pieces rest := by
  cases rest with
  | nil => rfl
  | cons d rest =>
    rw [pieces]
    split
    · rename_i hp
      have hnone : Conversion.ofChar d = none := hc hp
      simp only [hnone]
    · rfl

/-- A conversion is a piece of two characters. -/
theorem pieces_conversion {k : Conversion} (hk : Conversion.ofChar c = some k) :
    pieces (percent :: c :: rest) = .conversion k :: pieces rest := by
  rw [pieces, if_pos rfl]
  simp only [hk]

/-- The loop ends when it is at `rest`, and has stored the text of `rest` behind what it
    stored before. Fuel for every character that is left and for the NUL is enough. -/
def Expands (fmt : CString) (m : Mem) (dst : Nat) (rest : List UInt8) : Prop :=
  ∀ (passed : List UInt8) (i : Int32) (args : List Arg) (pre : List UInt8) (fuel : Nat),
    fmt.chars = passed ++ rest → i.toInt = passed.length → Matches (pieces rest) args →
    pre.length + (expand (pieces rest) args).length < 2 ^ 32 → rest.length < fuel →
    While.run (scan fmt dst) fuel { i := i, args := args, out := stored m dst pre } = some (.ok
      { mem := m.write dst (pre ++ expand (pieces rest) args ++ [0])
        ret := UInt32.ofNat (pre ++ expand (pieces rest) args).length
        args := args.drop (conversions (pieces rest)) })

/-- At the NUL of the format. -/
private theorem expands_nil : Expands fmt m dst [] := by
  intro passed i args pre fuel hfmt hi _ hpre hfuel
  obtain ⟨fuel, rfl⟩ := Nat.exists_eq_succ_of_ne_zero (Nat.ne_of_gt hfuel)
  rw [List.append_nil] at hfmt
  have hret : (stored m dst pre).ret.toNat = pre.length :=
    UInt32.toNat_ofNat_of_lt' (Nat.lt_of_le_of_lt (Nat.le_add_right _ _) hpre)
  rw [While.run_done (scan_nul dst args _ hfmt hi), hret]
  simp only [pieces, expand, List.append_nil, conversions, List.drop_zero, stored,
    Mem.write_append]

/-- A character of the format is stored as it is. -/
private theorem expands_char (hlen : fmt.chars.length < 2 ^ 31)
    (hc : c = percent → Conversion.ofChar (rest.headD 0) = none)
    (ih : Expands fmt m dst rest) : Expands fmt m dst (c :: rest) := by
  -- one pass for the character, and the induction hypothesis for the rest
  intro passed i args pre fuel hfmt hi hargs hpre hfuel
  obtain ⟨fuel, rfl⟩ := Nat.exists_eq_succ_of_ne_zero (Nat.ne_of_gt (Nat.zero_lt_of_lt hfuel))
  rw [List.length_cons] at hfuel
  rw [pieces_char hc] at hargs hpre ⊢
  simp only [expand, List.length_cons] at hpre
  obtain ⟨j, hj, hscan⟩ := scan_char m dst args hlen hfmt hi
    (show pre.length < 2 ^ 32 by omega) hc
  have hrest := ih (passed ++ [c]) j args (pre ++ [c]) fuel
    (by rw [hfmt, List.append_assoc, List.singleton_append])
    (by rw [hj, List.length_append, List.length_singleton]; rfl) hargs
    (by rw [List.length_append, List.length_singleton]; omega) (by omega)
  rw [While.run_succ hscan]
  rw [List.append_assoc pre, List.singleton_append] at hrest
  exact hrest

/-- A conversion stores its text. -/
private theorem expands_conversion {k : Conversion} (hlen : fmt.chars.length < 2 ^ 31)
    (hk : Conversion.ofChar c = some k) (ih : Expands fmt m dst rest) :
    Expands fmt m dst (percent :: c :: rest) := by
  intro passed i args pre fuel hfmt hi hargs hpre hfuel
  obtain ⟨fuel, rfl⟩ := Nat.exists_eq_succ_of_ne_zero (Nat.ne_of_gt (Nat.zero_lt_of_lt hfuel))
  rw [List.length_cons, List.length_cons] at hfuel
  rw [pieces_conversion hk] at hargs hpre ⊢
  cases args with
  | nil => cases hargs
  | cons a args =>
    obtain ⟨ha, hargs⟩ := hargs
    simp only [expand, List.length_append] at hpre
    -- one pass for both characters, with the argument that the conversion takes
    obtain ⟨j, hj, hscan⟩ := scan_conversion m dst args hlen hfmt hi hk ha
      (show pre.length + (k.text a).length < 2 ^ 32 by omega)
    have hrest := ih (passed ++ [percent, c]) j args (pre ++ k.text a) fuel
      (by rw [hfmt, List.append_assoc]; rfl) (by rw [hj, List.length_append]; rfl) hargs
      (by rw [List.length_append]; omega) (by omega)
    rw [While.run_succ hscan]
    rw [List.append_assoc pre] at hrest
    exact hrest

/-- The format is expanded from any place on, by induction on what is left. -/
theorem expands (m : Mem) (dst : Nat) (hlen : fmt.chars.length < 2 ^ 31) (rest : List UInt8) :
    Expands fmt m dst rest := by
  induction rest using pieces.induct with
  | case1 => exact expands_nil
  | case2 c => exact expands_char hlen (fun _ => rfl) expands_nil
  | case3 d rest k hk ih => exact expands_conversion hlen hk ih
  | case4 d rest hk ih => exact expands_char hlen (fun _ => hk) ih
  | case5 c d rest hc ih => exact expands_char hlen (fun hp => absurd hp hc) ih

end Scan

/-- A call of `Sprintf` returns, and leaves the text and its NUL at `dst`. -/
theorem sprintf_eq {fmt : CString} {args : List Arg} (hlen : fmt.chars.length < 2 ^ 31)
    (hargs : Matches (pieces fmt.chars) args)
    (htext : (expand (pieces fmt.chars) args).length < 2 ^ 32) (m : Mem) (dst : Nat) {fuel : Nat}
    (hfuel : fmt.chars.length < fuel) : sprintf fuel m dst fmt args = some (.ok
      { mem := m.write dst (expand (pieces fmt.chars) args ++ [0])
        ret := UInt32.ofNat (expand (pieces fmt.chars) args).length
        args := args.drop (conversions (pieces fmt.chars)) }) := by
  have h := expands m dst hlen fmt.chars [] 0 args [] fuel rfl rfl hargs
    (by rw [List.length_nil, Nat.zero_add]; exact htext) hfuel
  rw [stored_nil] at h
  exact h

/-- With arguments that match the format, `sprintf` ends. -/
theorem sprintf_ends {fmt : CString} {args : List Arg} (hlen : fmt.chars.length < 2 ^ 31)
    (hargs : Matches (pieces fmt.chars) args)
    (htext : (expand (pieces fmt.chars) args).length < 2 ^ 32) (m : Mem) (dst : Nat) :
    ∃ fuel, sprintf fuel m dst fmt args = some (.ok
      { mem := m.write dst (expand (pieces fmt.chars) args ++ [0])
        ret := UInt32.ofNat (expand (pieces fmt.chars) args).length
        args := args.drop (conversions (pieces fmt.chars)) }) :=
  ⟨_, sprintf_eq hlen hargs htext m dst (Nat.lt_succ_self _)⟩

/-- `Sprintf` and `Printf` return for every format and the arguments it takes, with the
    length of the text. The one stores the text and a NUL at `dst`. The other writes the
    text to descriptor 1, and stores nothing outside its buffer of 2048 characters. Both
    read one argument for each conversion. -/
theorem sprintf_printf_expand (fmt : CString) (args : List Arg)
    (hlen : fmt.chars.length < 2 ^ 31) (hargs : Matches (pieces fmt.chars) args)
    (htext : (expand (pieces fmt.chars) args).length < 2048) (m : Mem) (dst buf : Nat) :
    (∃ fuel r, sprintf fuel m dst fmt args = some (.ok r) ∧
      r.mem = m.write dst (expand (pieces fmt.chars) args ++ [0]) ∧
      r.ret.toNat = (expand (pieces fmt.chars) args).length ∧
      r.args = args.drop (conversions (pieces fmt.chars))) ∧
    ∃ fuel r, printf fuel m buf fmt args = some (.ok r) ∧
      r.written = { fd := 1, bytes := expand (pieces fmt.chars) args } ∧
      r.result.ret.toNat = (expand (pieces fmt.chars) args).length ∧
      r.result.args = args.drop (conversions (pieces fmt.chars)) ∧
      ∀ a, a < buf ∨ buf + 2048 ≤ a → r.result.mem a = m a := by
  -- the length of the text is what both functions return
  have hret : (UInt32.ofNat (expand (pieces fmt.chars) args).length).toNat =
      (expand (pieces fmt.chars) args).length :=
    UInt32.toNat_ofNat_of_lt' (Nat.lt_trans htext (by decide))
  have hends := sprintf_ends hlen hargs (Nat.lt_trans htext (by decide)) m
  constructor
  · obtain ⟨fuel, hrun⟩ := hends dst
    exact ⟨fuel, _, hrun, rfl, hret, rfl⟩
  · obtain ⟨fuel, hrun⟩ := hends buf
    -- `printf` writes the text to its buffer, and from there in one call
    refine ⟨fuel, _, by rw [printf, hrun]; rfl, ?_, hret, rfl, ?_⟩
    · rw [hret, Mem.read_write_left]
    · intro a ha
      apply Mem.write_apply_out
      rw [List.length_append, List.length_singleton]
      omega

/-- `"%d%"` -/
def percentFormat : CString where
  chars := [percent, 0x64, percent]
  nul_free := by decide

theorem sprintf_printf_minus :
    (∃ fuel r, sprintf fuel (fun _ => 0) 16 percentFormat [.int (-15)] = some (.ok r) ∧
      r.mem = Mem.write (fun _ => 0) 16 [minus, 0x31, 0x35, percent, 0] ∧ r.ret.toNat = 4 ∧
      r.args = []) ∧
    ∃ fuel r, printf fuel (fun _ => 0) 64 percentFormat [.int (-15)] = some (.ok r) ∧
      r.written = { fd := 1, bytes := [minus, 0x31, 0x35, percent] } ∧ r.result.ret.toNat = 4 := by
  have htext : expand (pieces percentFormat.chars) [.int (-15)] = [minus, 0x31, 0x35, percent] := by
    decide
  have h := sprintf_printf_expand percentFormat [.int (-15)] (by decide) ⟨trivial, trivial⟩
    (by rw [htext]; decide) (fun _ => 0) 16 64
  rw [htext] at h
  obtain ⟨hsprintf, fuel, r, hprintf, hwritten, hret, -⟩ := h
  exact ⟨hsprintf, fuel, r, hprintf, hwritten, hret⟩

end Tlibc.Printf
