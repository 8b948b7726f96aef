import Mathlib.Data.Nat.Digits.Lemmas

/-!
# Numerals

Natural numbers as texts over an alphabet of digits, the most significant digit first.

* `Numeral`: a text that has a digit, has no leading zero, and is read as a number
* `numeral_spell`, `numeral_digit_zero`: the digits of a number are a numeral of it, and
  so is the digit zero
-/

/-- The digits of a positional system: `value` is what a character stands for. -/
structure Alphabet (α : Type) where
  base : Nat
  digit : Nat → α
  value : α → Option Nat
  one_lt_base : 1 < base
  value_lt : ∀ {c d}, value c = some d → d < base
  value_digit : ∀ {d}, d < base → value (digit d) = some d

namespace Alphabet

variable {α : Type} (A : Alphabet α) {v acc : Nat} {c : α} {cs : List α}

/-- The digits of `v`. Zero has none. -/
def spell (v : Nat) : List α := ((Nat.digits A.base v).map A.digit).reverse

/-- The number that digits spell, behind those that spell `acc`. -/
def readFrom (acc : Nat) : List α → Option Nat
  | [] => some acc
  | c :: cs => do
    let d ← A.value c
    readFrom (acc * A.base + d) cs

/-- The number that a text spells. -/
def read : List α → Option Nat
  | [] => none
  | c :: cs => A.readFrom 0 (c :: cs)

/-- `cs` is a numeral of `v`. -/
structure Numeral (v : Nat) (cs : List α) : Prop where
  read : A.read cs = some v
  no_leading_zero : ∀ c rest, cs = c :: rest → A.value c = some 0 → rest = []

/-- The empty string is no numeral. -/
theorem not_numeral_nil : ¬ A.Numeral v [] := fun h => nomatch h.read

/-- A string is read in two parts. -/
theorem readFrom_append (cs ds : List α) :
    A.readFrom acc (cs ++ ds) = (A.readFrom acc cs).bind fun n => A.readFrom n ds := by
  induction cs generalizing acc with
  | nil => rfl
  | cons c cs ih =>
    rw [List.cons_append, readFrom, readFrom]
    cases A.value c with
    | none => rfl
    | some d => exact ih

/-- Digits that are written in reverse are read as their number. -/
theorem readFrom_reverse {ds : List Nat} (hds : ∀ d ∈ ds, d < A.base) :
    A.readFrom 0 (ds.map A.digit).reverse = some (Nat.ofDigits A.base ds) := by
  induction ds with
  | nil => rfl
  | cons d ds ih =>
    have ih := ih fun e he => hds e (List.mem_cons_of_mem _ he)
    have hd := A.value_digit (hds d List.mem_cons_self)
    rw [List.map_cons, List.reverse_cons, readFrom_append, ih, Option.bind_some]
    simp only [readFrom, hd, Option.bind_eq_bind, Option.bind_some, Nat.ofDigits_cons]
    congr 1
    ring

/-- 0 is spelled without digits. -/
theorem spell_zero : A.spell 0 = [] := by
  simp [spell]

/-- A number has at most `k` digits when it is below `base ^ k`. -/
theorem length_spell_le {k : Nat} : (A.spell v).length ≤ k ↔ v < A.base ^ k := by
  rw [spell, List.length_reverse, List.length_map, Nat.digits_length_le_iff A.one_lt_base]

/-- A number that is not 0 is spelled as a numeral. -/
theorem numeral_spell (hv : v ≠ 0) : A.Numeral v (A.spell v) := by
  have hlt : ∀ d ∈ Nat.digits A.base v, d < A.base := fun d hd => Nat.digits_lt_base A.one_lt_base hd
  have hread := A.readFrom_reverse hlt
  rw [Nat.ofDigits_digits] at hread
  have hne : Nat.digits A.base v ≠ [] := Nat.digits_ne_nil_iff_ne_zero.mpr hv
  -- the text begins with the last digit
  have hsplit := congrArg (fun ds => (ds.map A.digit).reverse) (List.dropLast_append_getLast hne)
  simp only [List.map_append, List.map_cons, List.map_nil, List.reverse_append,
    List.reverse_singleton, List.singleton_append] at hsplit
  rw [← hsplit] at hread
  constructor
  · rw [spell, ← hsplit]
    exact hread
  · intro c rest hcons hzero
    rw [spell, ← hsplit] at hcons
    obtain ⟨rfl, -⟩ := List.cons.inj hcons
    rw [A.value_digit (hlt _ (List.getLast_mem hne))] at hzero
    exact absurd (Option.some.inj hzero) (Nat.getLast_digit_ne_zero A.base hv)

/-- The digit 0 is a numeral. -/
theorem numeral_digit_zero : A.Numeral 0 [A.digit 0] := by
  have hzero := A.value_digit (Nat.lt_trans Nat.zero_lt_one A.one_lt_base)
  constructor
  · simp [read, readFrom, hzero]
  · intro c rest hcons _
    exact (List.cons.inj hcons).2.symm

end Alphabet
