import Tlibc.Spec.Eval

/-!
# Blanks in the expressions of `eval`

A blank applies the remembered operator to what `cur` holds, as an operator does, but
leaves it in place; right behind a closing bracket it is skipped instead of what follows.

* `eval_spaced`: what `eval` makes of an expression with blanks anywhere between tokens
* `eval_blanks`: blanks that are inert leave the result as it is, and on a line that is
  read as it was written, others change it for some numbers
-/

namespace Tlibc.Eval

variable {rest tail : List UInt8} {ret cur v : Int64} {op : Oper} {c : UInt8}

/-! ## Expressions with blanks -/

/-- Any number of spaces and tabs. -/
structure Gap where
  chars : List UInt8
  blank : ∀ c ∈ chars, c = 0x20 ∨ c = 0x09

mutual

/-- An expression with gaps. Those behind an opening and in front of a closing bracket
    belong to the operands. -/
inductive SpacedExpr where
  | term (t : SpacedTerm)
  | bin (e : SpacedExpr) (o : BinOp) (t : SpacedTerm)

/-- An operand with the gaps in front of it and behind it. -/
inductive SpacedTerm where
  | number (before : Gap) (n : Numeral) (after : Gap)
  | bracket (before : Gap) (e : SpacedExpr) (after : Gap)

end

namespace SpacedTerm

/-- The blanks in front of an operand. -/
def before : SpacedTerm → List UInt8
  | number before _ _ => before.chars
  | bracket before _ _ => before.chars

/-- The blanks behind an operand. -/
def after : SpacedTerm → List UInt8
  | number _ _ after => after.chars
  | bracket _ _ after => after.chars

/-- Whether the operand is a bracket. -/
def isBracket : SpacedTerm → Bool
  | number _ _ _ => false
  | bracket _ _ _ => true

/-- A bracket without a blank behind it. -/
def tight (t : SpacedTerm) : Bool := t.isBracket && t.after.isEmpty

end SpacedTerm

mutual

/-- The characters, blanks included. -/
def SpacedExpr.render : SpacedExpr → List UInt8
  | .term t => t.render
  | .bin e o t => e.render ++ o.sign :: t.render

/-- The characters of an operand, with its blanks. -/
def SpacedTerm.render : SpacedTerm → List UInt8
  | .number before n after => before.chars ++ (n.digits ++ after.chars)
  | .bracket before e after =>
    before.chars ++ openBracket :: (e.render ++ closeBracket :: after.chars)

end

mutual

/-- The expression without its blanks. -/
def SpacedExpr.strip : SpacedExpr → Expr
  | .term t => .term t.strip
  | .bin e o t => .bin e.strip o t.strip

/-- The operand without its blanks. -/
def SpacedTerm.strip : SpacedTerm → Term
  | .number _ n _ => .number n
  | .bracket _ e _ => .bracket e.strip

end

namespace SpacedExpr

/-- The line that is typed. -/
def line (s : SpacedExpr) : List UInt8 := s.render ++ [newline]

/-- The last operand. -/
def last : SpacedExpr → SpacedTerm
  | term t => t
  | bin _ _ t => t

/-- The operator that is remembered at the last operand. -/
def pending : SpacedExpr → Oper
  | term _ => .null
  | bin e o _ => if e.last.tight then e.pending else o.oper

end SpacedExpr

/-! ## What `eval` makes of them -/

/-- The operator is applied `k` times with nothing in `cur`. -/
def pad (op : Oper) : Nat → Int64 → Except Fault Int64
  | 0, x => .ok x
  | k + 1, x => combine op x 0 >>= pad op k

/-- An operand with the value `y`, behind `x`: every blank around it applies the operator
    once more. -/
def SpacedTerm.applied (t : SpacedTerm) (y : Except Fault Int64) (op : Oper) (x : Int64) :
    Except Fault Int64 := do
  let x ← pad op t.before.length x
  let y ← y
  let x ← combine op x y
  pad op t.after.length x

mutual

/-- What `eval` makes of an expression none of whose brackets closes right behind another. -/
def SpacedExpr.read : SpacedExpr → Except Fault Int64
  | .term t => t.applied t.read .null 0
  | .bin e o t => e.read >>= t.applied t.read (SpacedExpr.bin e o t).pending

/-- What `eval` makes of an operand. -/
def SpacedTerm.read : SpacedTerm → Except Fault Int64
  | .number _ n _ => .ok n.value
  | .bracket _ e _ => e.read

end

mutual

/-- No bracket closes right behind another. -/
def SpacedExpr.Apart : SpacedExpr → Prop
  | .term t => t.Apart
  | .bin e _ t => e.Apart ∧ t.Apart

/-- The same for an operand: the expression inside of it does not end in a bracket that closes
    right here. -/
def SpacedTerm.Apart : SpacedTerm → Prop
  | .number _ _ _ => True
  | .bracket _ e _ => e.Apart ∧ e.last.tight = false

end

/-- A character that ends an operand: neither a digit nor an opening bracket. -/
structure Ends (c : UInt8) : Prop where
  digit : isDigit c = false
  notOpen : c ≠ openBracket

/-- How the loop goes on when `c` has applied the operator. -/
def finish (c : UInt8) (rest : List UInt8) (op : Oper) (x : Int64) :
    Except Fault (Int64 × List UInt8) :=
  if c = closeBracket then .ok (x, rest) else evalFrom rest x 0 (nextOper c op)

/-- A character that ends an operand applies the operator to it. -/
private theorem evalFrom_finish (hc : Ends c) :
    evalFrom (c :: rest) ret cur op = combine op ret cur >>= finish c rest op := by
  by_cases hclose : c = closeBracket
  · rw [hclose, evalFrom_close, evalSimple_eq, bind_assoc]
    rfl
  · have hfinish : finish c rest op = fun x => evalFrom rest x 0 (nextOper c op) := by
      funext x
      exact if_neg hclose
    rw [evalFrom_ends hc.digit hclose hc.notOpen, hfinish]

/-- A blank does so too, and the number behind it starts from 0. -/
private theorem evalFrom_blank (hc : c = 0x20 ∨ c = 0x09) :
    evalFrom (c :: rest) ret cur op = combine op ret cur >>= fun x => evalFrom rest x 0 op := by
  rcases hc with rfl | rfl
  · exact evalFrom_ends (by decide) (by decide) (by decide)
  · exact evalFrom_ends (by decide) (by decide) (by decide)

/-- So the operator is applied once for each blank. -/
private theorem evalFrom_gap {gap : List UInt8} (h : ∀ c ∈ gap, c = 0x20 ∨ c = 0x09) :
    evalFrom (gap ++ rest) ret 0 op = pad op gap.length ret >>= fun x => evalFrom rest x 0 op := by
  induction gap generalizing ret with
  | nil => rfl
  | cons c gap ih =>
    rw [List.cons_append, evalFrom_blank (h c List.mem_cons_self), List.length_cons, pad,
      bind_assoc]
    congr 1
    funext x
    exact ih fun d hd => h d (List.mem_cons_of_mem c hd)

/-- Applying the operator once more, at the end. -/
private theorem pad_concat (op : Oper) (k : Nat) (x : Int64) :
    (pad op k x >>= fun y => combine op y 0) = pad op (k + 1) x := by
  induction k generalizing x with
  | zero =>
    show combine op x 0 = combine op x 0 >>= Except.ok
    cases combine op x 0 <;> rfl
  | succ k ih =>
    rw [pad, bind_assoc, pad]
    congr 1
    funext y
    exact ih y

/-- A gap, and the character behind it, which applies the operator once more. -/
private theorem evalFrom_gap_ends {gap : List UInt8} (h : ∀ c ∈ gap, c = 0x20 ∨ c = 0x09)
    (hc : Ends c) :
    evalFrom (gap ++ c :: rest) ret cur op =
      combine op ret cur >>= pad op gap.length >>= finish c rest op := by
  -- without a gap the character is read as it is, and otherwise behind the first blank
  cases gap with
  | nil =>
    rw [List.nil_append, evalFrom_finish hc, bind_assoc]
    rfl
  | cons b gap =>
    rw [List.cons_append, evalFrom_blank (h b List.mem_cons_self), bind_assoc]
    congr 1
    funext x
    -- the blanks behind it change nothing more
    rw [evalFrom_gap fun d hd => h d (List.mem_cons_of_mem b hd), List.length_cons, ← pad_concat,
      bind_assoc]
    congr 1
    funext y
    exact evalFrom_finish hc

/-- How the loop goes on behind an operand, in front of `c`, which a tight bracket skips. -/
def behind (tight : Bool) (c : UInt8) (rest : List UInt8) (op : Oper) (x : Int64) :
    Except Fault (Int64 × List UInt8) :=
  if tight then evalFrom rest x 0 op else finish c rest op x

/-- A bracket with the value `v`: the character behind the closing one is skipped, whatever
    it is. -/
private theorem evalFrom_open_gap {gap : List UInt8} (h : ∀ d ∈ gap, d = 0x20 ∨ d = 0x09)
    (hc : Ends c)
    (hcloses : evalFrom expr 0 0 .null = .ok (v, gap ++ c :: rest)) :
    evalFrom (openBracket :: expr) ret cur op =
      combine op ret v >>= pad op gap.length >>= behind gap.isEmpty c rest op := by
  cases gap with
  | nil =>
    rw [List.nil_append] at hcloses
    rw [evalFrom_open hcloses, evalSimple_eq, bind_assoc, bind_assoc]
    rfl
  | cons b gap =>
    -- one blank is skipped, and `c` applies the operator for it
    rw [List.cons_append] at hcloses
    rw [evalFrom_open hcloses, evalSimple_eq, bind_assoc, bind_assoc]
    congr 1
    funext z
    rw [Run.ok_bind, evalFrom_gap fun d hd => h d (List.mem_cons_of_mem b hd), List.length_cons,
      ← pad_concat, bind_assoc]
    congr 1
    funext w
    exact evalFrom_finish hc

mutual

/-- `eval` reads a spaced expression and goes on behind it, by induction on the expression and its
    operands. -/
private theorem SpacedExpr.runs :
    (e : SpacedExpr) → e.Apart → ∀ {c : UInt8} (rest : List UInt8), Ends c →
    evalFrom (e.render ++ c :: rest) 0 0 .null = e.read >>= behind e.last.tight c rest e.pending
  | .term t, h, c, rest, hc => SpacedTerm.runs t h rest hc 0 .null
  | .bin e o t, h, c, rest, hc => by
    have hsign : Ends o.sign := ⟨by cases o <;> decide, by cases o <;> decide⟩
    have hsplit : (SpacedExpr.bin e o t).render ++ c :: rest =
        e.render ++ o.sign :: (t.render ++ c :: rest) := by
      rw [SpacedExpr.render, List.append_assoc, List.cons_append]
    -- behind the left operand the operator is pending, whatever the gap was
    have hnext : ∀ x, behind e.last.tight o.sign (t.render ++ c :: rest) e.pending x =
        evalFrom (t.render ++ c :: rest) x 0 (SpacedExpr.bin e o t).pending := by
      intro x
      rw [behind, SpacedExpr.pending]
      split
      · rfl
      · cases o <;> rfl
    -- the left operand is read with its gap, and then the right one
    rw [hsplit, SpacedExpr.runs e h.1 _ hsign, SpacedExpr.read, bind_assoc]
    congr 1
    funext x
    rw [hnext, SpacedTerm.runs t h.2 rest hc]
    rfl

/-- The same for an operand, behind a value and an operator. -/
theorem SpacedTerm.runs : (t : SpacedTerm) → t.Apart → ∀ {c : UInt8} (rest : List UInt8), Ends c →
    ∀ (x : Int64) (op : Oper), evalFrom (t.render ++ c :: rest) x 0 op =
      t.applied t.read op x >>= behind t.tight c rest op
  | .number before n after, _, c, rest, hc, x, op => by
    have hsplit : (SpacedTerm.number before n after).render ++ c :: rest =
        before.chars ++ (n.digits ++ (after.chars ++ c :: rest)) := by
      rw [SpacedTerm.render, List.append_assoc, List.append_assoc]
    rw [hsplit, evalFrom_gap before.blank, SpacedTerm.applied, bind_assoc]
    congr 1
    funext x
    rw [evalFrom_number, evalFrom_gap_ends after.blank hc]
    rfl
  | .bracket before e after, h, c, rest, hc, x, op => by
    have hsplit : (SpacedTerm.bracket before e after).render ++ c :: rest =
        before.chars ++
          openBracket :: (e.render ++ closeBracket :: (after.chars ++ c :: rest)) := by
      rw [SpacedTerm.render, List.append_assoc, List.cons_append, List.append_assoc]
      rfl
    have hinner := SpacedExpr.runs e h.1 (after.chars ++ c :: rest)
      (show Ends closeBracket from ⟨by decide, by decide⟩)
    rw [h.2] at hinner
    rw [hsplit, evalFrom_gap before.blank, SpacedTerm.applied, bind_assoc]
    congr 1
    funext x
    rw [SpacedTerm.read]
    -- a fault inside the brackets is one of the whole
    cases hread : e.read with
    | error f =>
      rw [hread] at hinner
      rw [evalFrom_open_error hinner]
      rfl
    | ok y =>
      have hcloses : evalFrom (e.render ++ closeBracket :: (after.chars ++ c :: rest)) 0 0 .null =
          .ok (y, after.chars ++ c :: rest) := by
        rw [hinner, hread]
        rfl
      rw [evalFrom_open_gap after.blank hc hcloses]
      rfl

end

/-- What `eval` returns for a line with blanks whose closing brackets are apart. -/
theorem eval_spaced {s : SpacedExpr} (h : s.Apart) : eval s.line = s.read := by
  have hruns := SpacedExpr.runs s h [] (show Ends newline from ⟨by decide, by decide⟩)
  have hend : ∀ x, behind s.last.tight newline [] s.pending x = .ok (x, []) := by
    intro x
    unfold behind
    split <;> rfl
  show evalFrom (s.render ++ [newline]) 0 0 .null >>= _ = _
  rw [hruns, bind_assoc]
  cases s.read with
  | error f => rfl
  | ok x =>
    rw [Run.ok_bind, hend]
    rfl

/-! ## Blanks that change nothing -/

/-- A 0 makes no difference to a sum. -/
def Oper.keeps : Oper → Bool
  | .plus => true
  | .sub => true
  | _ => false

/-- The blanks around an operand change nothing when `op` is remembered: it is a sum, or
    nothing is remembered and there are none behind the operand. -/
def SpacedTerm.GapsInert (op : Oper) (t : SpacedTerm) : Prop :=
  (t.before ≠ [] → op.keeps = true ∨ op = .null) ∧ (t.after ≠ [] → op.keeps = true)

mutual

/-- No blank does anything: those around every operand change nothing, and where there are
    some behind a bracket, the operator that follows is the one remembered. No bracket
    closes behind another. -/
def SpacedExpr.Inert : SpacedExpr → Prop
  | .term t => t.GapsInert .null ∧ t.Inert
  | .bin e o t => e.Inert ∧ (e.last.isBracket = true → e.last.after ≠ [] → e.pending = o.oper) ∧
      t.GapsInert (SpacedExpr.bin e o t).pending ∧ t.Inert

/-- The same for an operand: the expression in a bracket does not end in one. -/
def SpacedTerm.Inert : SpacedTerm → Prop
  | .number _ _ _ => True
  | .bracket _ e _ => e.Inert ∧ e.last.isBracket = false

end

/-- An operator that keeps the value when it is applied to 0 keeps it for any number of blanks. -/
private theorem pad_keeps (h : op.keeps = true) (k : Nat) (x : Int64) : pad op k x = .ok x := by
  induction k with
  | zero => rfl
  | succ k ih =>
    have hzero : combine op x 0 = .ok x := by
      cases op with
      | plus => exact congrArg Except.ok (Int64.add_zero x)
      | sub => exact congrArg Except.ok (Int64.sub_zero x)
      | _ => cases h
    rw [pad, hzero, Run.ok_bind, ih]

/-- Without an operator blanks never fault. -/
private theorem pad_null (k : Nat) (x : Int64) : ∃ x', pad .null k x = .ok x' := by
  induction k generalizing x with
  | zero => exact ⟨x, rfl⟩
  | succ k ih => exact ih 0

/-- An operand whose blanks are inert is applied once. -/
private theorem applied_inert {t : SpacedTerm} (h : t.GapsInert op) (y : Except Fault Int64)
    (x : Int64) :
    t.applied y op x = y >>= combine op x := by
  have hafter : ∀ z, pad op t.after.length z = .ok z := by
    intro z
    by_cases hnil : t.after = []
    · rw [hnil]
      rfl
    · exact pad_keeps (h.2 hnil) _ z
  have hbefore : ∃ x', pad op t.before.length x = .ok x' ∧ combine op x' = combine op x := by
    by_cases hnil : t.before = []
    · rw [hnil]
      exact ⟨x, rfl, rfl⟩
    · rcases h.1 hnil with hkeeps | rfl
      · exact ⟨x, pad_keeps hkeeps _ x, rfl⟩
      · -- what was there before is lost anyway
        obtain ⟨x', hx'⟩ := pad_null t.before.length x
        exact ⟨x', hx', rfl⟩
  obtain ⟨x', hx', hsame⟩ := hbefore
  rw [SpacedTerm.applied, hx', Run.ok_bind]
  cases y with
  | error f => rfl
  | ok y =>
    rw [Run.ok_bind, Run.ok_bind, hsame]
    cases combine op x y with
    | error f => rfl
    | ok z => exact hafter z

/-- Blanks do not make an operand a bracket. -/
private theorem SpacedTerm.isBracket_strip (t : SpacedTerm) : t.strip.isBracket = t.isBracket := by
  cases t <;> rfl

/-- The last operand of the expression without blanks. -/
private theorem SpacedExpr.last_strip (s : SpacedExpr) : s.strip.last = s.last.strip := by
  cases s <;> rfl

/-- Only brackets can be tight. -/
private theorem SpacedTerm.tight_of_not_isBracket {t : SpacedTerm} (h : t.isBracket = false) :
    t.tight = false := by
  rw [tight, h, Bool.false_and]

/-- Inert blanks leave the operator that is applied as it is. -/
private theorem SpacedExpr.Inert.pending_eq :
    {s : SpacedExpr} → s.Inert → s.pending = s.strip.applied
  | .term _, _ => rfl
  | .bin e o t, h => by
    have he := SpacedExpr.Inert.pending_eq h.1
    show (if e.last.tight then e.pending else o.oper) =
      if e.strip.last.isBracket then e.strip.applied else o.oper
    rw [e.last_strip, SpacedTerm.isBracket_strip, ← he]
    cases hbracket : e.last.isBracket with
    | false => rw [SpacedTerm.tight_of_not_isBracket hbracket]
    | true =>
      by_cases hnil : e.last.after = []
      · simp [SpacedTerm.tight, hbracket, hnil]
      · simp [SpacedTerm.tight, hbracket, hnil, h.2.1 hbracket hnil]

mutual

/-- Where no blank does harm, the expression is read as the one without them. -/
private theorem SpacedExpr.Inert.read_eq : {s : SpacedExpr} → s.Inert → s.read = s.strip.read
  | .term t, h => by
    show t.applied t.read .null 0 = t.strip.read
    rw [applied_inert h.1, SpacedTerm.Inert.read_eq h.2]
    cases t.strip.read <;> rfl
  | .bin e o t, h => by
    show e.read >>= t.applied t.read (SpacedExpr.bin e o t).pending =
      e.strip.read >>= fun x => t.strip.read >>= fun y =>
        combine (SpacedExpr.bin e o t).strip.applied x y
    rw [SpacedExpr.Inert.read_eq h.1, ← SpacedExpr.Inert.pending_eq h]
    congr 1
    funext x
    rw [applied_inert h.2.2.1, SpacedTerm.Inert.read_eq h.2.2.2]

/-- So is an operand. -/
private theorem SpacedTerm.Inert.read_eq : {t : SpacedTerm} → t.Inert → t.read = t.strip.read
  | .number _ _ _, _ => rfl
  | .bracket _ _ _, h => SpacedExpr.Inert.read_eq h.1

end

/-! ## Other numbers -/

/-- The number of one digit. -/
def Numeral.ofDigit (k : Fin 10) : Numeral where
  digits := [UInt8.ofNat (0x30 + k.val)]
  ne_nil := List.cons_ne_nil _ _
  isDigit := by
    intro c hc
    rw [List.mem_singleton.mp hc]
    clear hc
    revert k
    decide

/-- A digit has its own value. -/
private theorem Numeral.value_ofDigit :
    ∀ k : Fin 10, (ofDigit k).value = Int64.ofNat k.val := by decide

mutual

/-- The expression with zeros for its numbers. Two with the same shape have the same
    operators, brackets and gaps. -/
def SpacedExpr.shape : SpacedExpr → SpacedExpr
  | .term t => .term t.shape
  | .bin e o t => .bin e.shape o t.shape

/-- The operand with every number replaced by 0. -/
def SpacedTerm.shape : SpacedTerm → SpacedTerm
  | .number before _ after => .number before (.ofDigit 0) after
  | .bracket before e after => .bracket before e.shape after

end

section Shape

/-- The shape has the same blanks in front. -/
private theorem SpacedTerm.before_shape (t : SpacedTerm) : t.shape.before = t.before := by
  cases t <;> rfl

/-- It has the same blanks behind. -/
private theorem SpacedTerm.after_shape (t : SpacedTerm) : t.shape.after = t.after := by
  cases t <;> rfl

/-- It is a bracket where the operand is one. -/
private theorem SpacedTerm.isBracket_shape (t : SpacedTerm) : t.shape.isBracket = t.isBracket := by
  cases t <;> rfl

/-- It is tight where the operand is. -/
private theorem SpacedTerm.tight_shape (t : SpacedTerm) : t.shape.tight = t.tight := by
  rw [tight, tight, t.isBracket_shape, t.after_shape]

/-- Its last operand is the shape of the last operand. -/
private theorem SpacedExpr.last_shape (s : SpacedExpr) : s.shape.last = s.last.shape := by
  cases s <;> rfl

/-- It leaves the same operator pending. -/
private theorem SpacedExpr.pending_shape : (s : SpacedExpr) → s.shape.pending = s.pending
  | .term _ => rfl
  | .bin e o _ => by
    show (if e.shape.last.tight then e.shape.pending else o.oper) = _
    rw [e.last_shape, SpacedTerm.tight_shape, SpacedExpr.pending_shape e]
    rfl

/-- Its last operator is the same. -/
private theorem SpacedExpr.lastOper_shape (s : SpacedExpr) :
    s.shape.strip.lastOper = s.strip.lastOper := by
  cases s <;> rfl

/-- It ends in a bracket where the expression does. -/
private theorem SpacedExpr.lastBracket_shape (s : SpacedExpr) :
    s.shape.strip.last.isBracket = s.strip.last.isBracket := by
  rw [last_strip, last_strip, SpacedTerm.isBracket_strip, SpacedTerm.isBracket_strip, last_shape,
    SpacedTerm.isBracket_shape]

/-- Whether blanks do harm depends on the shape only. -/
private theorem SpacedTerm.gapsInert_shape (t : SpacedTerm) :
    t.shape.GapsInert op ↔ t.GapsInert op := by
  unfold GapsInert
  rw [t.before_shape, t.after_shape]

mutual

/-- So it does for all blanks of an expression. -/
private theorem SpacedExpr.inert_shape : (s : SpacedExpr) → (s.shape.Inert ↔ s.Inert)
  | .term t => by
    show t.shape.GapsInert .null ∧ t.shape.Inert ↔ _
    rw [t.gapsInert_shape, SpacedTerm.inert_shape t]
    rfl
  | .bin e o t => by
    show e.shape.Inert ∧ (e.shape.last.isBracket = true → e.shape.last.after ≠ [] →
      e.shape.pending = o.oper) ∧ t.shape.GapsInert (SpacedExpr.bin e o t).shape.pending ∧
      t.shape.Inert ↔ _
    rw [SpacedExpr.inert_shape e, e.last_shape, SpacedTerm.isBracket_shape, SpacedTerm.after_shape,
      e.pending_shape, SpacedExpr.pending_shape, t.gapsInert_shape, SpacedTerm.inert_shape t]
    rfl

/-- And for those inside of an operand. -/
private theorem SpacedTerm.inert_shape : (t : SpacedTerm) → (t.shape.Inert ↔ t.Inert)
  | .number _ _ _ => Iff.rfl
  | .bracket _ e _ => by
    show e.shape.Inert ∧ e.shape.last.isBracket = false ↔ _
    rw [SpacedExpr.inert_shape e, e.last_shape, SpacedTerm.isBracket_shape]
    rfl

end

mutual

/-- Whether every bracket resumes its operator depends on the shape only. -/
private theorem SpacedExpr.resumes_shape :
    (s : SpacedExpr) → (s.shape.strip.Resumes ↔ s.strip.Resumes)
  | .term t => SpacedTerm.resumes_shape t
  | .bin e o t => by
    show e.shape.strip.Resumes ∧ t.shape.strip.Resumes ∧
      (e.shape.strip.last.isBracket = true → e.shape.strip.lastOper = o.oper) ↔ _
    rw [SpacedExpr.resumes_shape e, SpacedTerm.resumes_shape t, e.lastBracket_shape,
      e.lastOper_shape]
    rfl

/-- The same for an operand. -/
theorem SpacedTerm.resumes_shape : (t : SpacedTerm) → (t.shape.strip.Resumes ↔ t.strip.Resumes)
  | .number _ _ _ => Iff.rfl
  | .bracket _ e _ => by
    show e.shape.strip.Resumes ∧ e.shape.strip.last.isBracket = false ↔ _
    rw [SpacedExpr.resumes_shape e, e.lastBracket_shape]
    rfl

end

/-- An expression of the same shape is inert as well. -/
private theorem SpacedExpr.Inert.of_shape {s s' : SpacedExpr} (hs : s'.shape = s.shape)
    (h : s.Inert) :
    s'.Inert := by
  rwa [← inert_shape, hs, inert_shape]

/-- And it resumes its operators as well. -/
private theorem SpacedExpr.resumes_of_shape {s s' : SpacedExpr} (hs : s'.shape = s.shape)
    (h : s.strip.Resumes) : s'.strip.Resumes := by
  rwa [← resumes_shape, hs, resumes_shape]

end Shape

/-! ## Blanks that change something -/

/-- The operator behind an expression that resumes is the one that is read. -/
private theorem SpacedExpr.pending_of_resumes : (s : SpacedExpr) → s.strip.Resumes →
    s.pending = s.strip.lastOper
  | .term _, _ => rfl
  | .bin e o _, h => by
    show (if e.last.tight then e.pending else o.oper) = o.oper
    split
    · -- the bracket is tight, so its operator is applied again
      next htight =>
        have hbracket : e.strip.last.isBracket = true := by
          rw [e.last_strip, SpacedTerm.isBracket_strip]
          exact (Bool.and_eq_true_iff.mp htight).1
        rw [SpacedExpr.pending_of_resumes e h.1, h.2.2 hbracket]
    · rfl

/-- An expression whose brackets resume their operator is read operand by operand. -/
private theorem Expr.Resumes.read_bin {e : Expr} {o : BinOp} {t : Term}
    (h : (Expr.bin e o t).Resumes) :
    (Expr.bin e o t).read = e.read >>= fun x => t.read >>= fun y => combine o.oper x y := by
  rw [Expr.read, h.applied_eq]
  rfl

/-- The operand that changes nothing on the right of an operator. -/
def BinOp.neutral : BinOp → Fin 10
  | add => 0
  | sub => 0
  | mul => 1
  | div => 1

/-- The neutral operand of an operator leaves the value as it is. -/
private theorem combine_neutral (o : BinOp) (x : Int64) :
    combine o.oper x (Int64.ofNat o.neutral.val) = .ok x := by
  cases o with
  | add => exact congrArg Except.ok (Int64.add_zero x)
  | sub => exact congrArg Except.ok (Int64.sub_zero x)
  | mul => exact congrArg Except.ok (Int64.mul_one x)
  | div =>
    have hdiv : divide x 1 = .ok (x / 1) := by
      refine if_neg fun h => ?_
      rcases h with h | ⟨-, h⟩
      · exact absurd h (by decide)
      · exact absurd h (by decide)
    show (divide x 1 >>= fun l => Except.ok (l, (0 : Int64))).map Prod.fst = .ok x
    rw [hdiv, Int64.div_one]
    rfl

/-- A left operand with which an operator tells 1 and 2 on the right apart. -/
private theorem combine_apart (o : BinOp) : ∃ k : Fin 10,
    (combine o.oper (Int64.ofNat k.val) 1 = .ok 1 ∧ combine o.oper (Int64.ofNat k.val) 2 = .ok 2) ∨
      (combine o.oper (Int64.ofNat k.val) 1 = .ok 2 ∧
        combine o.oper (Int64.ofNat k.val) 2 = .ok 1) := by
  cases o with
  | add => exact ⟨0, .inl (by decide)⟩
  | sub => exact ⟨3, .inr (by decide)⟩
  | mul => exact ⟨1, .inl (by decide)⟩
  | div => exact ⟨2, .inr (by decide)⟩

mutual

/-- With other numbers an expression has any small value. -/
private theorem SpacedExpr.reach : (s : SpacedExpr) → s.strip.Resumes → (k : Fin 10) →
    ∃ s' : SpacedExpr, s'.shape = s.shape ∧ s'.strip.read = .ok (Int64.ofNat k.val)
  | .term t, h, k => by
    obtain ⟨t', hshape, hread⟩ := SpacedTerm.reach t h k
    exact ⟨.term t', congrArg SpacedExpr.term hshape, hread⟩
  | .bin e o t, h, k => by
    obtain ⟨e', heshape, heread⟩ := SpacedExpr.reach e h.1 k
    obtain ⟨t', htshape, htread⟩ := SpacedTerm.reach t h.2.1 o.neutral
    have hshape : (SpacedExpr.bin e' o t').shape = (SpacedExpr.bin e o t).shape := by
      rw [SpacedExpr.shape, heshape, htshape]
      rfl
    have hread := (SpacedExpr.resumes_of_shape hshape h).read_bin
    refine ⟨.bin e' o t', hshape, hread.trans ?_⟩
    rw [heread, htread, Run.ok_bind, Run.ok_bind, combine_neutral]

/-- An operand of the same shape can have any value of one digit. -/
private theorem SpacedTerm.reach : (t : SpacedTerm) → t.strip.Resumes → (k : Fin 10) →
    ∃ t' : SpacedTerm, t'.shape = t.shape ∧ t'.strip.read = .ok (Int64.ofNat k.val)
  | .number before _ after, _, k =>
    ⟨.number before (.ofDigit k) after, rfl, congrArg Except.ok (Numeral.value_ofDigit k)⟩
  | .bracket before e after, h, k => by
    obtain ⟨e', hshape, hread⟩ := SpacedExpr.reach e h.1 k
    exact ⟨.bracket before e' after, by rw [SpacedTerm.shape, hshape]; rfl, hread⟩

end

/-- Where blanks are not inert for an operator, what was there before is lost. -/
private theorem pad_forgets (h : op.keeps = false) {k : Nat} (hk : k ≠ 0) (x x' : Int64) :
    pad op k x = pad op k x' := by
  obtain ⟨k, rfl⟩ := Nat.exists_eq_succ_of_ne_zero hk
  have hzero : combine op x 0 = combine op x' 0 := by
    cases op with
    | plus => cases h
    | sub => cases h
    | null => rfl
    | mult =>
      show Except.ok (x * 0) = Except.ok (x' * 0)
      rw [Int64.mul_zero, Int64.mul_zero]
    | div => rfl
  rw [pad, pad, hzero]

/-- An operator that does not keep the value forgets what was before it. -/
private theorem combine_pad_forgets (h : op.keeps = false) {k : Nat} (hk : k ≠ 0) (x x' y : Int64) :
    combine op x y >>= pad op k = combine op x' y >>= pad op k := by
  cases op with
  | plus => cases h
  | sub => cases h
  | null => rfl
  | mult => exact pad_forgets h hk _ _
  | div =>
    -- the quotient is divided by zero, if there is one
    have hfault : ∀ z, pad .div k z = .error .divide := by
      intro z
      obtain ⟨k, rfl⟩ := Nat.exists_eq_succ_of_ne_zero hk
      rfl
    have hall : ∀ x, combine .div x y >>= pad .div k = .error .divide := by
      intro x
      have hdivide : divide x y = .error .divide ∨ ∃ z, divide x y = .ok z := by
        unfold divide
        split
        · exact .inl rfl
        · exact .inr ⟨_, rfl⟩
      rcases hdivide with hdiv | ⟨z, hdiv⟩
      · show (divide x y >>= fun l => Except.ok (l, (0 : Int64))).map Prod.fst >>= _ = _
        rw [hdiv]
        rfl
      · show (divide x y >>= fun l => Except.ok (l, (0 : Int64))).map Prod.fst >>= _ = _
        rw [hdiv]
        exact hfault z
    rw [hall, hall]

/-- So an operand with harmful blanks forgets the value before it. -/
private theorem applied_forgets {t : SpacedTerm} {o : BinOp} (h : ¬ t.GapsInert o.oper)
    (y : Except Fault Int64) (x x' : Int64) : t.applied y o.oper x = t.applied y o.oper x' := by
  -- the operator does not keep its left operand when it is applied to 0
  have hkeeps : o.oper.keeps = false := by
    by_contra hkeeps
    rw [Bool.not_eq_false] at hkeeps
    exact h ⟨fun _ => .inl hkeeps, fun _ => hkeeps⟩
  -- the gap in front of the operand or the one behind it is there
  by_cases hbefore : t.before = []
  · have hafter : t.after ≠ [] := fun hafter => h ⟨fun hne => absurd hbefore hne,
      fun hne => absurd hafter hne⟩
    -- the gap is behind the operand
    rw [SpacedTerm.applied, SpacedTerm.applied, hbefore]
    show (y >>= fun y => combine o.oper x y >>= pad o.oper t.after.length) =
      (y >>= fun y => combine o.oper x' y >>= pad o.oper t.after.length)
    congr 1
    funext y
    exact combine_pad_forgets hkeeps (fun hlen => hafter (List.length_eq_zero_iff.mp hlen)) x x' y
  · -- it is in front of it
    rw [SpacedTerm.applied, SpacedTerm.applied,
      pad_forgets hkeeps (fun hlen => hbefore (List.length_eq_zero_iff.mp hlen)) x x']

/-- With nothing remembered, a blank behind an operand loses its value. -/
private theorem applied_null_forgets {t : SpacedTerm} (h : ¬ t.GapsInert .null) (x y y' : Int64) :
    t.applied (.ok y) .null x = t.applied (.ok y') .null x := by
  have hafter : t.after ≠ [] := fun hafter => h ⟨fun _ => .inr rfl, fun hne => absurd hafter hne⟩
  rw [SpacedTerm.applied, SpacedTerm.applied]
  congr 1
  funext x
  exact pad_forgets rfl (fun hlen => hafter (List.length_eq_zero_iff.mp hlen)) y y'

/-- How an operand is applied depends on its shape only. -/
private theorem applied_shape {t t' : SpacedTerm} (h : t'.shape = t.shape) :
    t'.applied = t.applied := by
  funext y op x
  rw [SpacedTerm.applied, SpacedTerm.applied, ← t'.before_shape, ← t'.after_shape, h,
    t.before_shape, t.after_shape]

/-- Two choices of the numbers that give 1 and 2 without the blanks give the same with
    them. -/
def SpacedExpr.Confused (s : SpacedExpr) : Prop :=
  ∃ s₁ s₂ : SpacedExpr, s₁.shape = s.shape ∧ s₂.shape = s.shape ∧
    s₁.strip.read = .ok 1 ∧ s₂.strip.read = .ok 2 ∧ s₁.read = s₂.read

/-- The same of an operand. -/
def SpacedTerm.Confused (t : SpacedTerm) : Prop :=
  ∃ t₁ t₂ : SpacedTerm, t₁.shape = t.shape ∧ t₂.shape = t.shape ∧
    t₁.strip.read = .ok 1 ∧ t₂.strip.read = .ok 2 ∧ t₁.read = t₂.read

section Confused

variable {e : SpacedExpr} {o : BinOp} {t : SpacedTerm}

/-- Expressions of one shape, with an operator behind. -/
private theorem shape_bin {e' : SpacedExpr} {t' : SpacedTerm} (he : e'.shape = e.shape)
    (ht : t'.shape = t.shape) : (SpacedExpr.bin e' o t').shape = (SpacedExpr.bin e o t).shape := by
  rw [SpacedExpr.shape, he, ht]
  rfl

/-- A spaced expression is read operand by operand. -/
private theorem read_bin (h : (SpacedExpr.bin e o t).strip.Resumes) :
    (SpacedExpr.bin e o t).read = e.read >>= t.applied t.read o.oper := by
  rw [SpacedExpr.read, SpacedExpr.pending_of_resumes _ h]
  rfl

/-- Confusion on the left of an operator. -/
private theorem SpacedExpr.Confused.bin_left (h : (SpacedExpr.bin e o t).strip.Resumes)
    (he : e.Confused) : (SpacedExpr.bin e o t).Confused := by
  obtain ⟨e₁, e₂, hs₁, hs₂, hr₁, hr₂, hsame⟩ := he
  obtain ⟨t', hst, hrt⟩ := SpacedTerm.reach t h.2.1 o.neutral
  have h₁ := SpacedExpr.resumes_of_shape (shape_bin hs₁ hst) h
  have h₂ := SpacedExpr.resumes_of_shape (shape_bin hs₂ hst) h
  refine ⟨.bin e₁ o t', .bin e₂ o t', shape_bin hs₁ hst, shape_bin hs₂ hst, ?_, ?_, ?_⟩
  · refine h₁.read_bin.trans ?_
    rw [hr₁, hrt, Run.ok_bind, Run.ok_bind]
    exact combine_neutral o 1
  · refine h₂.read_bin.trans ?_
    rw [hr₂, hrt, Run.ok_bind, Run.ok_bind]
    exact combine_neutral o 2
  · rw [read_bin h₁, read_bin h₂, hsame]

/-- Confusion on the right of an operator. -/
private theorem SpacedTerm.Confused.bin_right (h : (SpacedExpr.bin e o t).strip.Resumes)
    (ht : t.Confused) : (SpacedExpr.bin e o t).Confused := by
  obtain ⟨t₁, t₂, hs₁, hs₂, hr₁, hr₂, hsame⟩ := ht
  -- there is a left operand on which two values of the right one give different results
  obtain ⟨k, hk⟩ := combine_apart o
  obtain ⟨e', hse, hre⟩ := SpacedExpr.reach e h.1 k
  have h₁ := SpacedExpr.resumes_of_shape (shape_bin hse hs₁) h
  have h₂ := SpacedExpr.resumes_of_shape (shape_bin hse hs₂) h
  -- without the gaps the two expressions have these results
  have hread : ∀ {t' : SpacedTerm} {y : Int64}, (SpacedExpr.bin e' o t').strip.Resumes →
      t'.strip.read = .ok y →
      (SpacedExpr.bin e' o t').strip.read = combine o.oper (Int64.ofNat k.val) y := by
    intro t' y h' hy
    refine h'.read_bin.trans ?_
    rw [hre, hy, Run.ok_bind, Run.ok_bind]
  -- with them they are read alike
  have hspaced : (SpacedExpr.bin e' o t₁).read = (SpacedExpr.bin e' o t₂).read := by
    rw [read_bin h₁, read_bin h₂, hsame, applied_shape (hs₁.trans hs₂.symm)]
  -- the two results may come in either order
  rcases hk with ⟨hk₁, hk₂⟩ | ⟨hk₁, hk₂⟩
  · exact ⟨.bin e' o t₁, .bin e' o t₂, shape_bin hse hs₁, shape_bin hse hs₂,
      (hread h₁ hr₁).trans hk₁, (hread h₂ hr₂).trans hk₂, hspaced⟩
  · exact ⟨.bin e' o t₂, .bin e' o t₁, shape_bin hse hs₂, shape_bin hse hs₁,
      (hread h₂ hr₂).trans hk₂, (hread h₁ hr₁).trans hk₁, hspaced.symm⟩

/-- Blanks around an operand that lose what is on its left. -/
private theorem confused_of_gaps (h : (SpacedExpr.bin e o t).strip.Resumes)
    (hgaps : ¬ t.GapsInert o.oper) (hinert : e.Inert) : (SpacedExpr.bin e o t).Confused := by
  -- two left operands with different values, and a right one that leaves them as they are
  obtain ⟨e₁, hs₁, hr₁⟩ := SpacedExpr.reach e h.1 1
  obtain ⟨e₂, hs₂, hr₂⟩ := SpacedExpr.reach e h.1 2
  obtain ⟨t', hst, hrt⟩ := SpacedTerm.reach t h.2.1 o.neutral
  have h₁ := SpacedExpr.resumes_of_shape (shape_bin hs₁ hst) h
  have h₂ := SpacedExpr.resumes_of_shape (shape_bin hs₂ hst) h
  have hgaps' : ¬ t'.GapsInert o.oper := by
    rwa [← t'.gapsInert_shape, hst, t.gapsInert_shape]
  -- without the gaps the values differ, and with them the left one is forgotten
  refine ⟨.bin e₁ o t', .bin e₂ o t', shape_bin hs₁ hst, shape_bin hs₂ hst, ?_, ?_, ?_⟩
  · refine h₁.read_bin.trans ?_
    rw [hr₁, hrt, Run.ok_bind, Run.ok_bind, combine_neutral]
    rfl
  · refine h₂.read_bin.trans ?_
    rw [hr₂, hrt, Run.ok_bind, Run.ok_bind, combine_neutral]
    rfl
  · rw [read_bin h₁, read_bin h₂, (hinert.of_shape hs₁).read_eq, (hinert.of_shape hs₂).read_eq,
      hr₁, hr₂]
    exact applied_forgets hgaps' _ _ _

mutual

/-- Where a blank does harm, two expressions of the same shape and of different values are read as
    the same. -/
private theorem SpacedExpr.confused : (s : SpacedExpr) → s.strip.Resumes → ¬ s.Inert → s.Confused
  | .term t, h, hinert => by
    by_cases ht : t.Inert
    · -- the blanks behind the operand lose its value
      have hgaps : ¬ t.GapsInert .null := fun hgaps => hinert ⟨hgaps, ht⟩
      obtain ⟨t₁, hs₁, hr₁⟩ := SpacedTerm.reach t h 1
      obtain ⟨t₂, hs₂, hr₂⟩ := SpacedTerm.reach t h 2
      have hinert₁ : t₁.Inert := by rwa [← t₁.inert_shape, hs₁, t.inert_shape]
      have hinert₂ : t₂.Inert := by rwa [← t₂.inert_shape, hs₂, t.inert_shape]
      refine ⟨.term t₁, .term t₂, congrArg SpacedExpr.term hs₁, congrArg SpacedExpr.term hs₂,
        hr₁, hr₂, ?_⟩
      rw [SpacedExpr.read, SpacedExpr.read, hinert₁.read_eq, hinert₂.read_eq, hr₁, hr₂,
        applied_shape hs₁, applied_shape hs₂]
      exact applied_null_forgets hgaps _ _ _
    · obtain ⟨t₁, t₂, hs₁, hs₂, hr₁, hr₂, hsame⟩ := SpacedTerm.confused t h ht
      refine ⟨.term t₁, .term t₂, congrArg SpacedExpr.term hs₁, congrArg SpacedExpr.term hs₂,
        hr₁, hr₂, ?_⟩
      rw [SpacedExpr.read, SpacedExpr.read, hsame, applied_shape (hs₁.trans hs₂.symm)]
  | .bin e o t, h, hinert => by
    -- the blanks that do something are on the left, inside the operand, or around it
    by_cases he : e.Inert
    · by_cases ht : t.Inert
      · have hpending : (SpacedExpr.bin e o t).pending = o.oper :=
          SpacedExpr.pending_of_resumes _ h
        have hresumed : e.last.isBracket = true → e.last.after ≠ [] → e.pending = o.oper := by
          intro hbracket _
          rw [SpacedExpr.pending_of_resumes e h.1]
          exact h.2.2 (by rw [e.last_strip, SpacedTerm.isBracket_strip, hbracket])
        apply confused_of_gaps h _ he
        intro hgaps
        exact hinert ⟨he, hresumed, by rwa [hpending], ht⟩
      · exact (SpacedTerm.confused t h.2.1 ht).bin_right h
    · exact (SpacedExpr.confused e h.1 he).bin_left h

/-- The same for an operand. -/
theorem SpacedTerm.confused : (t : SpacedTerm) → t.strip.Resumes → ¬ t.Inert → t.Confused
  | .number _ _ _, _, hinert => absurd trivial hinert
  | .bracket before e after, h, hinert => by
    have hlast : e.last.isBracket = false := by
      rw [← SpacedTerm.isBracket_strip, ← e.last_strip]
      exact h.2
    have he : ¬ e.Inert := fun he => hinert ⟨he, hlast⟩
    obtain ⟨e₁, e₂, hs₁, hs₂, hr₁, hr₂, hsame⟩ := SpacedExpr.confused e h.1 he
    refine ⟨.bracket before e₁ after, .bracket before e₂ after, ?_, ?_, hr₁, hr₂, hsame⟩
    · rw [SpacedTerm.shape, hs₁]
      rfl
    · rw [SpacedTerm.shape, hs₂]
      rfl

end

end Confused

/-! ## All lines -/

mutual

/-- Blanks keep brackets apart that were apart without them. -/
private theorem SpacedExpr.apart_of_strip : (s : SpacedExpr) → s.strip.Apart → s.Apart
  | .term t, h => SpacedTerm.apart_of_strip t h
  | .bin e _ t, h => ⟨SpacedExpr.apart_of_strip e h.1, SpacedTerm.apart_of_strip t h.2⟩

/-- The same inside of an operand. -/
theorem SpacedTerm.apart_of_strip : (t : SpacedTerm) → t.strip.Apart → t.Apart
  | .number _ _ _, _ => trivial
  | .bracket _ e _, h => by
    refine ⟨SpacedExpr.apart_of_strip e h.1, SpacedTerm.tight_of_not_isBracket ?_⟩
    rw [← SpacedTerm.isBracket_strip, ← e.last_strip]
    exact h.2

end

mutual

/-- An inert expression has no two brackets that close side by side. -/
private theorem SpacedExpr.Inert.apart : {s : SpacedExpr} → s.Inert → s.strip.Apart
  | .term _, h => SpacedTerm.Inert.apart h.2
  | .bin _ _ _, h => ⟨SpacedExpr.Inert.apart h.1, SpacedTerm.Inert.apart h.2.2.2⟩

/-- Nor does an inert operand. -/
theorem SpacedTerm.Inert.apart : {t : SpacedTerm} → t.Inert → t.strip.Apart
  | .number _ _ _, _ => trivial
  | .bracket _ e _, h => by
    refine ⟨SpacedExpr.Inert.apart h.1, ?_⟩
    rw [e.last_strip, SpacedTerm.isBracket_strip]
    exact h.2

end

/-- An inert line has the value of the line without blanks. -/
private theorem eval_inert {s : SpacedExpr} (h : s.Inert) : eval s.line = eval s.strip.line := by
  rw [eval_spaced (s.apart_of_strip h.apart), eval_line h.apart, h.read_eq]

/-- Inert blanks change nothing. On a line that is read as it was written, other blanks
    change the result for some choice of the numbers. -/
theorem eval_blanks (s : SpacedExpr) :
    (s.Inert → eval s.line = eval s.strip.line) ∧
      (s.strip.Resumes →
        ((∀ s' : SpacedExpr, s'.shape = s.shape → eval s'.line = eval s'.strip.line) ↔
          s.Inert)) := by
  refine ⟨eval_inert, fun hresumes => ⟨fun hall => ?_, fun hinert s' hs' => ?_⟩⟩
  · by_contra hinert
    obtain ⟨s₁, s₂, hs₁, hs₂, hr₁, hr₂, hsame⟩ := s.confused hresumes hinert
    have hread : ∀ {s' : SpacedExpr}, s'.shape = s.shape → s'.read = s'.strip.read := by
      intro s' hs'
      have happ := (SpacedExpr.resumes_of_shape hs' hresumes).apart
      rw [← eval_spaced (s'.apart_of_strip happ), ← eval_line happ]
      exact hall s' hs'
    -- the blanks would have to make 1 and 2 the same
    rw [hread hs₁, hread hs₂, hr₁, hr₂] at hsame
    exact absurd hsame (by decide)
  · exact eval_inert (hinert.of_shape hs')

/-- `1 +2` -/
def blankLine : SpacedExpr :=
  .bin (.term (.number ⟨[], by simp⟩ (.ofDigit 1) ⟨[0x20], by simp⟩)) .add
    (.number ⟨[], by simp⟩ (.ofDigit 2) ⟨[], by simp⟩)

/-- `1 +2` gives 2, and `1+2` gives 3. -/
theorem blankLine_changes : ¬ ∀ s : SpacedExpr, eval s.line = eval s.strip.line := by
  intro h
  exact absurd (h blankLine) (by decide)

end Tlibc.Eval
