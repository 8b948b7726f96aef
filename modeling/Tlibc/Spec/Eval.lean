import Tlibc.Native.Eval
import Mathlib.Data.List.Chain

/-!
# What `eval` computes

Behind a closing bracket the caller of `eval_recur` advances the cursor once more
than it should, over the character that follows.

* `eval_value`: on a line of the grammar `eval` returns the value if every closing
  bracket is followed by the newline or by the operator in front of its opening
  bracket, and it returns anything at all only if no two closing brackets are adjacent
-/

namespace Tlibc.Eval

variable {fuel : Nat} {expr rest : List UInt8} {ret cur v : Int64} {op : Oper} {c : UInt8}

/-! ## The cursor -/

/-- `op` after a character that is neither a digit nor a bracket. -/
def nextOper (c : UInt8) (op : Oper) : Oper :=
  if c = plusSign then .plus
  else if c = minusSign then .sub
  else if c = timesSign then .mult
  else if c = slash then .div
  else op

/-- A digit is put behind the digits of the operand that is being read. -/
theorem evalRecur_digit (hc : isDigit c = true) : evalRecur (fuel + 1) (c :: expr) ret cur op =
    evalRecur fuel expr ret (cur * 10 + digitValue c) op := by
  rw [evalRecur, if_pos hc]

/-- A closing bracket applies the pending operator and ends the call. -/
theorem evalRecur_close : evalRecur (fuel + 1) (closeBracket :: expr) ret cur op =
    evalSimple ret cur op >>= fun r => .ok (r.1, expr) := by
  rw [evalRecur, if_neg (by decide), if_pos rfl]
  rfl

/-- What the caller does with the value and the cursor of a bracket. -/
def afterBracket (fuel : Nat) (ret : Int64) (op : Oper) (r : Int64 × List UInt8) :
    Except Fault (Int64 × List UInt8) :=
  evalSimple ret r.1 op >>= fun s =>
    match r.2 with
    | [] => .error .pastEnd
    | _ :: expr => evalRecur fuel expr s.1 s.2 op

/-- An opening bracket starts a call on what it encloses. -/
theorem evalRecur_open : evalRecur (fuel + 1) (openBracket :: expr) ret cur op =
    evalRecur fuel expr 0 0 .null >>= afterBracket fuel ret op := by
  rw [evalRecur, if_neg (by decide), if_neg (by decide), if_pos rfl]
  rfl

/-- Any other character applies the pending operator and is looked at for the next one. -/
theorem evalRecur_other (hdigit : isDigit c = false) (hclose : c ≠ closeBracket)
    (hopen : c ≠ openBracket) : evalRecur (fuel + 1) (c :: expr) ret cur op =
      evalSimple ret cur op >>= fun r => evalRecur fuel expr r.1 r.2 (nextOper c op) := by
  rw [evalRecur, if_neg (by rw [hdigit]; decide), if_neg hclose, if_neg hopen, nextOper]
  split_ifs <;> rfl

/-- A character is a digit, a bracket or something else. -/
theorem char_cases (c : UInt8) : isDigit c = true ∨ c = closeBracket ∨ c = openBracket ∨
    (isDigit c = false ∧ c ≠ closeBracket ∧ c ≠ openBracket) := by
  cases hdigit : isDigit c with
  | true => exact .inl rfl
  | false =>
    by_cases hclose : c = closeBracket
    · exact .inr (.inl hclose)
    · by_cases hopen : c = openBracket
      · exact .inr (.inr (.inl hopen))
      · exact .inr (.inr (.inr ⟨rfl, hclose, hopen⟩))

/-- A digit is no bracket. -/
theorem isDigit_ne (h : isDigit c = true) : c ≠ closeBracket ∧ c ≠ openBracket := by
  constructor
  · intro heq
    rw [heq] at h
    exact absurd h (by decide)
  · intro heq
    rw [heq] at h
    exact absurd h (by decide)

/-- The cursor that is returned is not in front of the one that was passed. -/
theorem evalRecur_length (h : evalRecur fuel expr ret cur op = .ok (v, rest)) :
    rest.length ≤ expr.length := by
  induction fuel generalizing expr ret cur op v rest with
  | zero => cases h
  | succ fuel ih =>
    cases expr with
    | nil =>
      cases h
      exact Nat.le_refl _
    | cons c expr =>
      rw [List.length_cons]
      rcases char_cases c with hdigit | rfl | rfl | ⟨hdigit, hclose, hopen⟩
      · rw [evalRecur_digit hdigit] at h
        exact Nat.le_succ_of_le (ih h)
      · rw [evalRecur_close] at h
        obtain ⟨r, -, h⟩ := Run.bind_eq_ok.mp h
        cases h
        exact Nat.le_succ _
      · -- the inner call comes first, and the loop goes on from its cursor
        rw [evalRecur_open] at h
        obtain ⟨⟨w, inner⟩, hinner, h⟩ := Run.bind_eq_ok.mp h
        obtain ⟨s, -, h⟩ := Run.bind_eq_ok.mp h
        have hle := ih hinner
        cases inner with
        | nil => cases h
        | cons d inner =>
          have hle' := ih h
          rw [List.length_cons] at hle
          omega
      · rw [evalRecur_other hdigit hclose hopen] at h
        obtain ⟨r, -, h⟩ := Run.bind_eq_ok.mp h
        exact Nat.le_succ_of_le (ih h)

/-- Fuel for every character is enough, and more makes no difference. -/
private theorem evalRecur_fuel {fuel' : Nat} (h : expr.length < fuel) (h' : expr.length < fuel') :
    evalRecur fuel expr ret cur op = evalRecur fuel' expr ret cur op := by
  induction fuel generalizing fuel' expr ret cur op with
  | zero => omega
  | succ fuel ih =>
    obtain ⟨fuel', rfl⟩ := Nat.exists_eq_succ_of_ne_zero (show fuel' ≠ 0 by omega)
    cases expr with
    | nil => rfl
    | cons c expr =>
      rw [List.length_cons] at h h'
      rw [Nat.succ_eq_add_one]
      rcases char_cases c with hdigit | rfl | rfl | ⟨hdigit, hclose, hopen⟩
      · rw [evalRecur_digit hdigit, evalRecur_digit hdigit]
        exact ih (by omega) (by omega)
      · rw [evalRecur_close, evalRecur_close]
      · rw [evalRecur_open, evalRecur_open, ih (show expr.length < fuel by omega)
          (show expr.length < fuel' by omega)]
        cases hinner : evalRecur fuel' expr 0 0 .null with
        | error e => rfl
        | ok r =>
          obtain ⟨w, inner⟩ := r
          -- the fuel is enough for what the inner call has left
          have hle := evalRecur_length hinner
          rw [Run.ok_bind, Run.ok_bind, afterBracket, afterBracket]
          cases inner with
          | nil => rfl
          | cons d inner =>
            rw [List.length_cons] at hle
            congr 1
            funext s
            exact ih (by omega) (by omega)
      · rw [evalRecur_other hdigit hclose hopen, evalRecur_other hdigit hclose hopen]
        congr 1
        funext r
        exact ih (by omega) (by omega)

/-- The loop of `eval_recur`, with fuel for every character. -/
def evalFrom (expr : List UInt8) (ret cur : Int64) (op : Oper) :
    Except Fault (Int64 × List UInt8) :=
  evalRecur (expr.length + 1) expr ret cur op

/-- A digit is put behind the digits of the operand. -/
theorem evalFrom_digit (hc : isDigit c = true) : evalFrom (c :: expr) ret cur op =
    evalFrom expr ret (cur * 10 + digitValue c) op := evalRecur_digit hc

/-- A closing bracket applies the pending operator and ends the call. -/
theorem evalFrom_close : evalFrom (closeBracket :: expr) ret cur op =
    evalSimple ret cur op >>= fun r => .ok (r.1, expr) := evalRecur_close

/-- Any other character applies the pending operator. -/
private theorem evalFrom_other (hdigit : isDigit c = false) (hclose : c ≠ closeBracket)
    (hopen : c ≠ openBracket) : evalFrom (c :: expr) ret cur op =
      evalSimple ret cur op >>= fun r => evalFrom expr r.1 r.2 (nextOper c op) :=
  evalRecur_other hdigit hclose hopen

/-- A bracket whose value is found leaves the cursor behind the next character. -/
theorem evalFrom_open (h : evalFrom expr 0 0 .null = .ok (v, c :: rest)) :
    evalFrom (openBracket :: expr) ret cur op =
      evalSimple ret v op >>= fun r => evalFrom rest r.1 r.2 op := by
  have hle := evalRecur_length h
  rw [List.length_cons] at hle
  have hopen : evalFrom (openBracket :: expr) ret cur op =
      evalFrom expr 0 0 .null >>= afterBracket (expr.length + 1) ret op := evalRecur_open
  rw [hopen, h, Run.ok_bind, afterBracket]
  congr 1
  funext s
  exact evalRecur_fuel (by omega) (Nat.lt_succ_self _)

/-- What fails inside brackets fails as a whole. -/
theorem evalFrom_open_error {f : Fault} (h : evalFrom expr 0 0 .null = .error f) :
    evalFrom (openBracket :: expr) ret cur op = .error f := by
  have hopen : evalFrom (openBracket :: expr) ret cur op =
      evalFrom expr 0 0 .null >>= afterBracket (expr.length + 1) ret op := evalRecur_open
  rw [hopen, h, Run.error_bind]

/-! ## The grammar -/

/-- A decimal number. -/
structure Numeral where
  digits : List UInt8
  ne_nil : digits ≠ []
  isDigit : ∀ c ∈ digits, Eval.isDigit c = true

/-- The natural number that digits spell, behind those that spell `acc`. -/
def natOf (acc : Nat) (digits : List UInt8) : Nat :=
  digits.foldl (fun n c => n * 10 + (c.toNat - 0x30)) acc

/-- The value of a number, as 64-bit two's complement. -/
def Numeral.value (n : Numeral) : Int64 := Int64.ofNat (natOf 0 n.digits)

inductive BinOp where
  | add
  | sub
  | mul
  | div
  deriving DecidableEq, Repr

namespace BinOp

/-- The character of the operator. -/
def sign : BinOp → UInt8
  | add => plusSign
  | sub => minusSign
  | mul => timesSign
  | div => slash

/-- The operator as `eval` remembers it. -/
def oper : BinOp → Oper
  | add => .plus
  | sub => .sub
  | mul => .mult
  | div => .div

/-- The value of an operation: none when it divides by zero. -/
def apply (o : BinOp) (x y : Int64) : Option Int64 :=
  match o with
  | add => some (x + y)
  | sub => some (x - y)
  | mul => some (x * y)
  | div => if y = 0 then none else some (x / y)

end BinOp

mutual

/-- `E ::= T | E op T` -/
inductive Expr where
  | term (t : Term)
  | bin (e : Expr) (o : BinOp) (t : Term)

/-- `T ::= number | '(' E ')'` -/
inductive Term where
  | number (n : Numeral)
  | bracket (e : Expr)

end

mutual

/-- The characters of an expression. -/
def Expr.render : Expr → List UInt8
  | .term t => t.render
  | .bin e o t => e.render ++ o.sign :: t.render

/-- The characters of an operand. -/
def Term.render : Term → List UInt8
  | .number n => n.digits
  | .bracket e => openBracket :: e.render ++ [closeBracket]

end

mutual

/-- The value of an expression, its operators applied from left to right. -/
def Expr.value : Expr → Option Int64
  | .term t => t.value
  | .bin e o t => do
    let x ← e.value
    let y ← t.value
    o.apply x y

/-- The value of an operand. -/
def Term.value : Term → Option Int64
  | .number n => some n.value
  | .bracket e => e.value

end

/-- The character that ends the line. -/
def newline : UInt8 := 0x0a

/-- An expression as the tool reads it. -/
def Expr.line (e : Expr) : List UInt8 := e.render ++ [newline]

/-! ## How an expression is read -/

/-- Whether an operand is a bracket. -/
def Term.isBracket : Term → Bool
  | .number _ => false
  | .bracket _ => true

/-- The last operand of an expression. -/
def Expr.last : Expr → Term
  | .term t => t
  | .bin _ _ t => t

/-- The operator in front of the last operand. -/
def Expr.lastOper : Expr → Oper
  | .term _ => .null
  | .bin _ o _ => o.oper

mutual

/-- No two closing brackets are adjacent. -/
def Expr.Apart : Expr → Prop
  | .term t => t.Apart
  | .bin e _ t => e.Apart ∧ t.Apart

/-- No bracket inside the operand is followed by a closing bracket. -/
def Term.Apart : Term → Prop
  | .number _ => True
  | .bracket e => e.Apart ∧ e.last.isBracket = false

end

mutual

/-- Every closing bracket in the expression is followed by the operator in front of
    its opening bracket, the one at the end of the expression aside. -/
def Expr.Resumes : Expr → Prop
  | .term t => t.Resumes
  | .bin e o t => e.Resumes ∧ t.Resumes ∧ (e.last.isBracket = true → e.lastOper = o.oper)

/-- Inside the operand the brackets are followed by the operator in front of them. -/
def Term.Resumes : Term → Prop
  | .number _ => True
  | .bracket e => e.Resumes ∧ e.last.isBracket = false

end

mutual

/-- No division is of the least `long` by -1. -/
def Expr.NoOverflow : Expr → Prop
  | .term t => t.NoOverflow
  | .bin e o t => e.NoOverflow ∧ t.NoOverflow ∧
      ¬ (o = .div ∧ e.value = some Int64.minValue ∧ t.value = some (-1))

/-- Inside the operand no quotient overflows. -/
def Term.NoOverflow : Term → Prop
  | .number _ => True
  | .bracket e => e.NoOverflow

end

/-- The operator that is applied to the last operand. The one that follows a bracket
    is skipped, so that the operator in front of the bracket is applied again. -/
def Expr.applied : Expr → Oper
  | .term _ => .null
  | .bin e o _ => if e.last.isBracket then e.applied else o.oper

/-- `eval_simple` without the operand that it clears. -/
def combine (op : Oper) (left right : Int64) : Except Fault Int64 :=
  (evalSimple left right op).map Prod.fst

mutual

/-- What `eval` makes of an expression whose closing brackets are apart. -/
def Expr.read : Expr → Except Fault Int64
  | .term t => t.read
  | .bin e o t => do
    let x ← e.read
    let y ← t.read
    combine (Expr.bin e o t).applied x y

/-- What `eval` makes of an operand. -/
def Term.read : Term → Except Fault Int64
  | .number n => .ok n.value
  | .bracket e => e.read

end

/-- What is in `ret` when the last operand is read. -/
def Expr.before : Expr → Except Fault Int64
  | .term _ => .ok 0
  | .bin e _ _ => e.read

/-- `eval_simple` combines the operands, and clears the one that was read. -/
theorem evalSimple_eq (left right : Int64) (op : Oper) :
    evalSimple left right op = combine op left right >>= fun x => .ok (x, 0) := by
  cases op with
  | div =>
    rw [combine, evalSimple]
    cases divide left right with
    | error f => rfl
    | ok x => rfl
  | _ => rfl

/-- An expression is read up to its last operand, to which the last operator is applied. -/
private theorem Expr.read_eq (e : Expr) :
    e.read = e.before >>= fun x => e.last.read >>= fun y => combine e.applied x y := by
  cases e with
  | term t =>
    show t.read = t.read >>= fun y => .ok y
    cases t.read with
    | error f => rfl
    | ok y => rfl
  | bin e o t => rw [Expr.read, before, last]

/-! ## Runs over an expression -/

/-- The digits of a number are read into `cur`. -/
private theorem evalFrom_digits {digits : List UInt8} (h : ∀ c ∈ digits, isDigit c = true)
    (n : Nat) :
    evalFrom (digits ++ rest) ret (Int64.ofNat n) op =
      evalFrom rest ret (Int64.ofNat (natOf n digits)) op := by
  induction digits generalizing n with
  | nil => rfl
  | cons c digits ih =>
    have hnext : Int64.ofNat n * 10 + digitValue c = Int64.ofNat (n * 10 + (c.toNat - 0x30)) := by
      rw [Int64.ofNat_add, Int64.ofNat_mul]
      rfl
    rw [List.cons_append, evalFrom_digit (h c List.mem_cons_self), hnext,
      ih (fun d hd => h d (List.mem_cons_of_mem _ hd))]
    rfl

/-- The digits of a number are read as its value. -/
theorem evalFrom_number (n : Numeral) :
    evalFrom (n.digits ++ rest) ret 0 op = evalFrom rest ret n.value op :=
  evalFrom_digits n.isDigit 0

/-- A character that is neither a digit nor a bracket ends an operand. -/
theorem evalFrom_ends (hdigit : isDigit c = false) (hclose : c ≠ closeBracket)
    (hopen : c ≠ openBracket) : evalFrom (c :: rest) ret cur op =
      combine op ret cur >>= fun x => evalFrom rest x 0 (nextOper c op) := by
  rw [evalFrom_other hdigit hclose hopen, evalSimple_eq]
  cases combine op ret cur with
  | error f => rfl
  | ok x => rfl

/-- An operator applies the one before it, and is pending then. -/
private theorem evalFrom_sign (o : BinOp) : evalFrom (o.sign :: rest) ret cur op =
    combine op ret cur >>= fun x => evalFrom rest x 0 o.oper := by
  cases o <;> exact evalFrom_ends (by decide) (by decide) (by decide)

/-- What the loop does behind an expression: the last number is still to be applied,
    and behind a bracket one character is skipped. -/
structure Expr.Runs (e : Expr) : Prop where
  number : ∀ n rest, e.last = .number n → evalFrom (e.render ++ rest) 0 0 .null =
    e.before >>= fun x => evalFrom rest x n.value e.applied
  bracket : ∀ c rest, e.last.isBracket = true → evalFrom (e.render ++ c :: rest) 0 0 .null =
    e.read >>= fun x => evalFrom rest x 0 e.applied

/-- The same behind an operand. -/
structure Term.Runs (t : Term) : Prop where
  number : ∀ n rest x op, t = .number n →
    evalFrom (t.render ++ rest) x 0 op = evalFrom rest x n.value op
  bracket : ∀ c rest x op, t.isBracket = true → evalFrom (t.render ++ c :: rest) x 0 op =
    t.read >>= fun y => combine op x y >>= fun z => evalFrom rest z 0 op

/-- A bracket closes behind a number. -/
private theorem Expr.Runs.closes {e : Expr} (he : e.Runs) (hlast : e.last.isBracket = false) :
    evalFrom (e.render ++ closeBracket :: rest) 0 0 .null =
      e.read >>= fun x => .ok (x, rest) := by
  -- an operand that is a bracket is not at the end of an expression like this
  cases hterm : e.last with
  | bracket e' =>
    rw [hterm] at hlast
    cases hlast
  | number n =>
    rw [he.number n _ hterm, e.read_eq, hterm, Term.read]
    cases e.before with
    | error f => rfl
    | ok x =>
      -- the closing bracket applies the operator that is pending
      rw [Run.ok_bind, Run.ok_bind, Run.ok_bind, evalFrom_close, evalSimple_eq]
      cases combine e.applied x n.value with
      | error f => rfl
      | ok z => rfl

/-- The operator behind an expression is read, or skipped behind a bracket. -/
private theorem Expr.Runs.sign {e : Expr} (he : e.Runs) (o : BinOp) (t : Term) :
    evalFrom (e.render ++ o.sign :: rest) 0 0 .null =
      e.read >>= fun x => evalFrom rest x 0 (Expr.bin e o t).applied := by
  rw [Expr.applied]
  cases hterm : e.last with
  | bracket e' =>
    rw [he.bracket o.sign rest (by rw [hterm]; rfl)]
    rfl
  | number n =>
    rw [he.number n _ hterm, e.read_eq, hterm, Term.read]
    cases e.before with
    | error f => rfl
    | ok x =>
      rw [Run.ok_bind, Run.ok_bind, Run.ok_bind, evalFrom_sign]
      rfl

mutual

/-- An expression whose closing brackets are apart. -/
private theorem Expr.runs : (e : Expr) → e.Apart → e.Runs
  | .term t, h => by
    have ht := Term.runs t h
    refine ⟨fun n rest hlast => ht.number n rest 0 .null hlast, fun c rest hlast => ?_⟩
    exact ht.bracket c rest 0 .null hlast
  | .bin e o t, h => by
    have he := Expr.runs e h.1
    have ht := Term.runs t h.2
    have hsplit : ∀ rest, (Expr.bin e o t).render ++ rest =
        e.render ++ o.sign :: (t.render ++ rest) := fun rest => by
      rw [Expr.render, List.append_assoc, List.cons_append]
    constructor
    · -- behind the left operand the operator is pending, and the right one is read with it
      intro n rest hlast
      rw [hsplit, he.sign o t]
      simp only [ht.number n rest _ _ hlast, Expr.before]
    · intro c rest hlast
      rw [hsplit, he.sign o t]
      simp only [ht.bracket c rest _ _ hlast, Expr.read, bind_assoc]

/-- Reading an operand, by induction together with the expressions. -/
theorem Term.runs : (t : Term) → t.Apart → t.Runs
  | .number n, _ => by
    refine ⟨fun n' rest x op heq => ?_, fun c rest x op hb => (by cases hb)⟩
    cases heq
    exact evalFrom_number n
  | .bracket e, h => by
    have he := Expr.runs e h.1
    refine ⟨fun n rest x op heq => (by cases heq), fun c rest x op _ => ?_⟩
    have hrender : (Term.bracket e).render ++ c :: rest =
        openBracket :: (e.render ++ closeBracket :: c :: rest) := by
      rw [Term.render, List.cons_append, List.cons_append, List.append_assoc]
      rfl
    have hcloses := @Expr.Runs.closes (c :: rest) e he h.2
    rw [hrender, Term.read]
    -- a fault inside the brackets is one of the whole
    cases hread : e.read with
    | error f =>
      rw [hread] at hcloses
      rw [evalFrom_open_error hcloses, Run.error_bind]
    | ok y =>
      rw [hread] at hcloses
      rw [evalFrom_open hcloses, evalSimple_eq, Run.ok_bind, bind_assoc]
      rfl

end

/-- What `eval` returns for a line whose closing brackets are apart. -/
theorem eval_line {e : Expr} (h : e.Apart) : eval e.line = e.read := by
  have he := e.runs h
  have hfrom : evalFrom e.line 0 0 .null = e.read >>= fun x => .ok (x, []) := by
    unfold Expr.line
    -- the newline ends a number, while behind a bracket it is skipped as its operator
    cases hterm : e.last with
    | number n =>
      rw [he.number n _ hterm, e.read_eq, hterm, Term.read, bind_assoc]
      congr 1
      funext x
      exact evalFrom_ends (by decide) (by decide) (by decide)
    | bracket e' => exact he.bracket newline [] (by rw [hterm]; rfl)
  show (evalFrom e.line 0 0 .null >>= fun r => .ok r.1) = _
  rw [hfrom]
  cases e.read with
  | error f => rfl
  | ok x => rfl

/-! ## When the value is right -/

/-- Under a bracket that is followed by its own operator nothing is misread. -/
theorem Expr.Resumes.applied_eq : {e : Expr} → e.Resumes → e.applied = e.lastOper
  | .term _, _ => rfl
  | .bin e o t, h => by
    rw [Expr.applied, Expr.lastOper]
    split_ifs with hlast
    · rw [h.1.applied_eq, h.2.2 hlast]
    · rfl

mutual

/-- Where brackets resume, none is followed by a closing bracket. -/
theorem Expr.Resumes.apart : {e : Expr} → e.Resumes → e.Apart
  | .term _, h => Term.Resumes.apart h
  | .bin _ _ _, h => ⟨Expr.Resumes.apart h.1, Term.Resumes.apart h.2.1⟩

/-- So it is for operands. -/
theorem Term.Resumes.apart : {t : Term} → t.Resumes → t.Apart
  | .number _, _ => trivial
  | .bracket _, h => ⟨Expr.Resumes.apart h.1, h.2⟩

end

/-- The processor divides as the grammar does, unless the quotient overflows. -/
private theorem combine_eq_ok_iff {o : BinOp} {x y v : Int64} : combine o.oper x y = .ok v ↔
    o.apply x y = some v ∧ ¬ (o = .div ∧ x = Int64.minValue ∧ y = -1) := by
  -- only division has a result of its own
  cases o with
  | div =>
    have hsimple : combine BinOp.div.oper x y = divide x y := by
      rw [combine, BinOp.oper, evalSimple]
      cases divide x y with
      | error f => rfl
      | ok z => rfl
    -- dividing by 0 faults, and so does the quotient that is too large
    rw [hsimple, divide, BinOp.apply]
    by_cases hzero : y = 0
    · rw [if_pos hzero, if_pos (.inl hzero)]
      exact iff_of_false nofun fun h => nomatch h.1
    · rw [if_neg hzero]
      by_cases hover : x = Int64.minValue ∧ y = -1
      · rw [if_pos (.inr hover)]
        exact iff_of_false nofun fun h => h.2 ⟨rfl, hover⟩
      · rw [if_neg fun h => h.elim hzero hover, Except.ok.injEq, Option.some.injEq]
        exact (and_iff_left fun h => hover h.2).symm
  -- the other operators wrap in both
  | _ =>
    show Except.ok _ = Except.ok v ↔ some _ = some v ∧ _
    rw [Except.ok.injEq, Option.some.injEq]
    exact (and_iff_left fun h => nomatch h.1).symm

/-- The operator of the last operand when each one behind a closing bracket is replaced by
    the one in front of the matching bracket: none where nothing stands in front. -/
def Expr.front : Expr → Option BinOp
  | .term _ => none
  | .bin e o _ => if e.last.isBracket then e.front else some o

/-- The operation in the grammar: without an operator what stands in front is dropped, and
    the divide error has no value. -/
def applyFront : Option BinOp → Int64 → Int64 → Option Int64
  | none, _, y => some y
  | some o, x, y => if o = .div ∧ x = Int64.minValue ∧ y = -1 then none else o.apply x y

mutual

/-- The value of an expression whose operators behind closing brackets are replaced. -/
def Expr.replaced : Expr → Option Int64
  | .term t => t.replaced
  | .bin e o t => do
    let x ← e.replaced
    let y ← t.replaced
    applyFront (Expr.bin e o t).front x y

/-- The value of an operand, with the operators behind brackets replaced. -/
def Term.replaced : Term → Option Int64
  | .number n => some n.value
  | .bracket e => e.replaced

end

/-- `eval` applies the operator that replaces the one behind a bracket. -/
private theorem Expr.applied_front : (e : Expr) → e.applied = e.front.elim .null BinOp.oper
  | .term _ => rfl
  | .bin e o t => by
    rw [Expr.applied, Expr.front]
    split
    · exact e.applied_front
    · rfl

/-- With no operator the processor adds, and otherwise it divides as the grammar does. -/
private theorem combine_applyFront {o : Option BinOp} {x y v : Int64} :
    combine (o.elim .null BinOp.oper) x y = .ok v ↔ applyFront o x y = some v := by
  cases o with
  | none =>
    show Except.ok y = Except.ok v ↔ some y = some v
    rw [Except.ok.injEq, Option.some.injEq]
  | some o =>
    rw [Option.elim, combine_eq_ok_iff, applyFront]
    split
    · next hover => exact iff_of_false (fun h => h.2 hover) nofun
    · next hover => exact and_iff_left hover

mutual

/-- What `eval` makes of an expression is its value with the operators replaced. -/
private theorem Expr.read_ok_iff : (e : Expr) → {v : Int64} → (e.read = .ok v ↔ e.replaced = some v)
  | .term t, _ => t.read_ok_iff
  | .bin e o t, v => by
    rw [Expr.read, Expr.replaced, Run.bind_eq_ok, Expr.applied_front]
    show _ ↔ (e.replaced.bind fun x => t.replaced.bind fun y => applyFront _ x y) = some v
    rw [Option.bind_eq_some_iff]
    refine exists_congr fun x => and_congr e.read_ok_iff ?_
    rw [Run.bind_eq_ok, Option.bind_eq_some_iff]
    exact exists_congr fun y => and_congr t.read_ok_iff combine_applyFront

/-- So it is for operands. -/
theorem Term.read_ok_iff : (t : Term) → {v : Int64} → (t.read = .ok v ↔ t.replaced = some v)
  | .number n, v => by
    show Except.ok n.value = Except.ok v ↔ some n.value = some v
    rw [Except.ok.injEq, Option.some.injEq]
  | .bracket e, _ => e.read_ok_iff

end

mutual

/-- The value is read when brackets resume and no quotient overflows. -/
theorem Expr.Resumes.read_eq : {e : Expr} → e.Resumes → e.NoOverflow → {v : Int64} →
    e.value = some v → e.read = .ok v
  | .term _, h, hover, _, hv => Term.Resumes.read_eq h hover hv
  | .bin e o t, h, hover, v, hv => by
    obtain ⟨x, hx, hv⟩ := Option.bind_eq_some_iff.mp hv
    obtain ⟨y, hy, hv⟩ := Option.bind_eq_some_iff.mp hv
    have happlied := Expr.Resumes.applied_eq h
    rw [Expr.lastOper] at happlied
    rw [Expr.read, Expr.Resumes.read_eq h.1 hover.1 hx, Term.Resumes.read_eq h.2.1 hover.2.1 hy,
      happlied]
    refine combine_eq_ok_iff.mpr ⟨hv, fun hdiv => hover.2.2 ⟨hdiv.1, ?_, ?_⟩⟩
    · rw [hx, hdiv.2.1]
    · rw [hy, hdiv.2.2]

/-- So it is for operands. -/
theorem Term.Resumes.read_eq : {t : Term} → t.Resumes → t.NoOverflow → {v : Int64} →
    t.value = some v → t.read = .ok v
  | .number _, _, _, _, hv => congrArg Except.ok (Option.some.inj hv)
  | .bracket _, h, hover, _, hv => Expr.Resumes.read_eq h.1 hover hv

end

/-! ## When the line is read to its end -/

/-- The closing brackets that no opening one in front of them matches, less the opening
    ones that are left open. -/
def net : List UInt8 → Int
  | [] => 0
  | c :: cs => (if c = closeBracket then 1 else if c = openBracket then -1 else 0) + net cs

/-- No closing bracket is followed by another. -/
abbrev Separate (cs : List UInt8) : Prop :=
  cs.IsChain fun a b => a = closeBracket → b ≠ closeBracket

/-- No closing bracket is followed by an opening one. -/
abbrev Ordered (cs : List UInt8) : Prop :=
  cs.IsChain fun a b => a = closeBracket → b ≠ openBracket

/-- What two strings open beyond what they close adds up. -/
private theorem net_append (as bs : List UInt8) : net (as ++ bs) = net as + net bs := by
  induction as with
  | nil => rw [List.nil_append, net, Int.zero_add]
  | cons a as ih => rw [List.cons_append, net, net, ih, Int.add_assoc]

/-- A character that is no closing bracket may be followed by anything. -/
private theorem isChain_cons_of_ne {R : UInt8 → UInt8 → Prop} {cs : List UInt8}
    (hc : c ≠ closeBracket) (h : cs.IsChain fun a b => a = closeBracket → R a b) :
    (c :: cs).IsChain fun a b => a = closeBracket → R a b := by
  rw [List.isChain_cons]
  exact ⟨fun _ _ heq => absurd heq hc, h⟩

/-- Characters with at least `k` closing brackets too many, and with none that follows
    another if there are no more than that. -/
structure Surplus (k : Int) (cs : List UInt8) : Prop where
  le : k ≤ net cs
  separate : net cs = k → Separate cs

/-- A character that is no bracket leaves the surplus as it is. -/
private theorem Surplus.cons {k : Int} {cs : List UInt8} (h : Surplus k cs)
    (hclose : c ≠ closeBracket)
    (hopen : c ≠ openBracket) : Surplus k (c :: cs) := by
  have hnet : net (c :: cs) = net cs := by
    rw [net, if_neg hclose, if_neg hopen, Int.zero_add]
  exact ⟨hnet ▸ h.le, fun heq => isChain_cons_of_ne hclose (h.separate (hnet ▸ heq))⟩

/-- A bracket, the character that is skipped behind it, and what comes then. -/
theorem Surplus.bracket {k : Int} {inner cs : List UInt8}
    (hinner : Surplus 1 (inner ++ [closeBracket])) (hc : c ≠ openBracket) (h : Surplus k cs) :
    Surplus k (openBracket :: inner ++ closeBracket :: c :: cs) := by
  have hle := hinner.le
  have hle' := h.le
  have hsplit : openBracket :: inner ++ closeBracket :: c :: cs =
      openBracket :: ((inner ++ [closeBracket]) ++ c :: cs) := by
    rw [List.append_assoc, List.cons_append]
    rfl
  -- a closing bracket that is skipped only adds to the surplus
  have hskip : 0 ≤ (if c = closeBracket then 1 else if c = openBracket then -1 else 0 : Int) := by
    split_ifs
    · decide
    · decide
  have hnet : net (openBracket :: inner ++ closeBracket :: c :: cs) =
      -1 + (net (inner ++ [closeBracket]) +
        ((if c = closeBracket then 1 else if c = openBracket then -1 else 0) + net cs)) := by
    rw [hsplit, net, net_append, net, if_neg (by decide), if_pos rfl]
  refine ⟨by omega, fun heq => ?_⟩
  have hne : c ≠ closeBracket := by
    rintro rfl
    rw [if_pos rfl] at hnet
    omega
  rw [hsplit]
  refine isChain_cons_of_ne (by decide) (List.IsChain.append (hinner.separate (by omega))
    (isChain_cons_of_ne hne (h.separate (by omega))) ?_)
  intro a _ b hb _
  rw [List.head?_cons, Option.mem_some_iff] at hb
  rwa [← hb]

/-- A call that returns stopped behind a closing bracket or at the NUL. A bracket that
    was skipped makes a surplus. -/
private theorem evalRecur_surplus (hordered : Ordered expr)
    (h : evalRecur fuel expr ret cur op = .ok (v, rest)) :
    (∃ used, expr = used ++ closeBracket :: rest ∧ Surplus 1 (used ++ [closeBracket])) ∨
      (rest = [] ∧ Surplus 0 expr) := by
  induction fuel generalizing expr ret cur op v rest with
  | zero => cases h
  | succ fuel ih =>
    cases expr with
    | nil =>
      -- the NUL
      cases h
      exact .inr ⟨rfl, Int.le_refl _, fun _ => List.IsChain.nil⟩
    | cons c expr =>
      have htail : Ordered expr := hordered.tail
      rcases char_cases c with hdigit | rfl | rfl | ⟨hdigit, hclose, hopen⟩
      · rw [evalRecur_digit hdigit] at h
        obtain ⟨hclose, hopen⟩ := isDigit_ne hdigit
        rcases ih htail h with ⟨used, rfl, hused⟩ | ⟨hrest, hused⟩
        · exact .inl ⟨c :: used, rfl, hused.cons hclose hopen⟩
        · exact .inr ⟨hrest, hused.cons hclose hopen⟩
      · rw [evalRecur_close] at h
        obtain ⟨r, -, h⟩ := Run.bind_eq_ok.mp h
        cases h
        exact .inl ⟨[], rfl, by decide, fun _ => List.IsChain.singleton _⟩
      · rw [evalRecur_open] at h
        obtain ⟨⟨w, behind⟩, hinner, hafter⟩ := Run.bind_eq_ok.mp h
        obtain ⟨s, -, hloop⟩ := Run.bind_eq_ok.mp hafter
        cases behind with
        | nil => cases hloop
        | cons d behind =>
          -- the inner call stopped behind a bracket, as there is a character behind it
          rcases ih htail hinner with ⟨inner, rfl, hsurplus⟩ | ⟨hnil, -⟩
          · -- the character behind the bracket is skipped, and the loop goes on
            obtain ⟨-, hd, hbehind⟩ := List.isChain_append_cons_cons.mp htail
            rcases ih hbehind.tail hloop with ⟨used, rfl, hused⟩ | ⟨hrest, hused⟩
            · refine .inl ⟨openBracket :: inner ++ closeBracket :: d :: used, ?_, ?_⟩
              · rw [List.append_assoc, List.cons_append, List.cons_append]
                rfl
              · have hbracket := hsurplus.bracket (hd rfl) hused
                rw [List.append_assoc, List.cons_append, List.cons_append]
                exact hbracket
            · exact .inr ⟨hrest, hsurplus.bracket (hd rfl) hused⟩
          · cases hnil
      · rw [evalRecur_other hdigit hclose hopen] at h
        obtain ⟨r, -, h⟩ := Run.bind_eq_ok.mp h
        rcases ih htail h with ⟨used, rfl, hused⟩ | ⟨hrest, hused⟩
        · exact .inl ⟨c :: used, rfl, hused.cons hclose hopen⟩
        · exact .inr ⟨hrest, hused.cons hclose hopen⟩

/-- Characters whose brackets match, with an operand or operator between any closing
    bracket and the next opening one. -/
structure Balanced (cs : List UInt8) : Prop where
  net_eq : net cs = 0
  take_le : ∀ k, net (cs.take k) ≤ 0
  ordered : Ordered cs

/-- The empty string is balanced. -/
private theorem balanced_nil : Balanced [] :=
  ⟨rfl, fun k => by rw [List.take_nil]; exact Int.le_refl _, List.IsChain.nil⟩

/-- Two balanced strings with a character between them that is no bracket. -/
private theorem Balanced.append_cons {as bs : List UInt8} (ha : Balanced as) (hb : Balanced bs)
    (hclose : c ≠ closeBracket) (hopen : c ≠ openBracket) : Balanced (as ++ c :: bs) := by
  have hnet : ∀ cs, net (c :: cs) = net cs := fun cs => by
    rw [net, if_neg hclose, if_neg hopen, Int.zero_add]
  refine ⟨by rw [net_append, hnet, ha.net_eq, hb.net_eq]; rfl, fun k => ?_, ?_⟩
  · -- a prefix ends in the first part or behind `c`
    have hleft := ha.take_le k
    rw [List.take_append, net_append]
    cases hk : k - as.length with
    | zero =>
      rw [List.take_zero, net]
      omega
    | succ j =>
      have hright := hb.take_le j
      rw [List.take_succ_cons, hnet]
      omega
  · refine List.IsChain.append ha.ordered (isChain_cons_of_ne hclose hb.ordered) ?_
    intro a _ b hb' _
    rw [List.head?_cons, Option.mem_some_iff] at hb'
    rwa [← hb']

/-- A balanced string in brackets. -/
theorem Balanced.bracket {cs : List UInt8} (h : Balanced cs) :
    Balanced (openBracket :: cs ++ [closeBracket]) := by
  have hnet : ∀ cs, net (openBracket :: cs) = -1 + net cs := fun cs => rfl
  have hone : net [closeBracket] = 1 := rfl
  -- the brackets around it cancel out, and inside there is never more closed than opened
  refine ⟨by rw [List.cons_append, hnet, net_append, h.net_eq, hone]; rfl, fun k => ?_, ?_⟩
  · cases k with
    | zero => exact Int.le_refl _
    | succ k =>
      have hle := h.take_le k
      -- a prefix is inside, or it is the whole string
      rw [List.cons_append, List.take_succ_cons, hnet, List.take_append, net_append]
      cases k - cs.length with
      | zero =>
        rw [List.take_zero, net]
        omega
      | succ j =>
        rw [List.take_succ_cons, List.take_nil, hone]
        omega
  · -- in front of the closing bracket nothing is closed that was not opened
    rw [List.cons_append]
    refine isChain_cons_of_ne (by decide) (List.IsChain.append h.ordered
      (List.IsChain.singleton _) ?_)
    intro a _ b hb _
    rw [List.head?_cons, Option.mem_some_iff] at hb
    rw [← hb]
    decide

/-- Digits are balanced. -/
private theorem balanced_digits {digits : List UInt8} (h : ∀ c ∈ digits, isDigit c = true) :
    Balanced digits := by
  induction digits with
  | nil => exact balanced_nil
  | cons c digits ih =>
    obtain ⟨hclose, hopen⟩ := isDigit_ne (h c List.mem_cons_self)
    exact balanced_nil.append_cons (ih fun d hd => h d (List.mem_cons_of_mem _ hd)) hclose hopen

/-- An operator is no bracket. -/
private theorem BinOp.sign_ne (o : BinOp) : o.sign ≠ closeBracket ∧ o.sign ≠ openBracket := by
  cases o <;> decide

mutual

/-- The brackets of an expression are balanced. -/
private theorem Expr.balanced : (e : Expr) → Balanced e.render
  | .term t => Term.balanced t
  | .bin e o t => (Expr.balanced e).append_cons (Term.balanced t) o.sign_ne.1 o.sign_ne.2

/-- So are those of an operand. -/
theorem Term.balanced : (t : Term) → Balanced t.render
  | .number n => balanced_digits n.isDigit
  | .bracket e => (Expr.balanced e).bracket

end

/-- An operand that is a bracket ends with a closing bracket. -/
private theorem Term.render_bracket {t : Term} (h : t.isBracket = true) :
    ∃ cs, t.render = cs ++ [closeBracket] := by
  cases t with
  | number n => cases h
  | bracket e => exact ⟨openBracket :: e.render, rfl⟩

/-- So does an expression whose last operand is one. -/
private theorem Expr.render_bracket {e : Expr} (h : e.last.isBracket = true) :
    ∃ cs, e.render = cs ++ [closeBracket] := by
  cases e with
  | term t => exact Term.render_bracket h
  | bin e o t =>
    obtain ⟨cs, hcs⟩ := Term.render_bracket (show t.isBracket = true from h)
    exact ⟨e.render ++ o.sign :: cs, by rw [Expr.render, hcs, List.append_assoc, List.cons_append]⟩

mutual

/-- In an expression whose characters are separate, no bracket is followed by a closing bracket.
    -/
private theorem Expr.apart_of_separate : (e : Expr) → Separate e.render → e.Apart
  | .term t, h => Term.apart_of_separate t h
  | .bin e _ t, h => ⟨Expr.apart_of_separate e h.left_of_append,
      Term.apart_of_separate t h.right_of_append.tail⟩

/-- So it is for operands. -/
theorem Term.apart_of_separate : (t : Term) → Separate t.render → t.Apart
  | .number _, _ => trivial
  | .bracket e, h => by
    have hinner : Separate (e.render ++ [closeBracket]) := h.tail
    refine ⟨Expr.apart_of_separate e hinner.left_of_append, ?_⟩
    cases hlast : e.last.isBracket with
    | false => rfl
    | true =>
      -- the bracket around the expression closes right behind its last one
      obtain ⟨cs, hcs⟩ := Expr.render_bracket hlast
      rw [hcs, List.append_assoc] at hinner
      exact absurd rfl ((List.isChain_append_cons_cons.mp hinner).2.1 rfl)

end

/-- `eval` returns only on a line whose closing brackets are apart. -/
private theorem apart_of_eval {e : Expr} (h : eval e.line = .ok v) : e.Apart := by
  obtain ⟨⟨w, rest⟩, hrecur, -⟩ := Run.bind_eq_ok.mp h
  have hline : Balanced e.line := e.balanced.append_cons balanced_nil (by decide) (by decide)
  rcases evalRecur_surplus hline.ordered hrecur with ⟨used, hused, hsurplus⟩ | ⟨-, hsurplus⟩
  · -- the outermost loop meets no closing bracket: there is none too many
    have htake : e.line.take (used.length + 1) = used ++ [closeBracket] := by
      rw [hused, List.take_append, List.take_of_length_le (Nat.le_succ _),
        Nat.add_sub_cancel_left, List.take_succ_cons, List.take_zero]
    have hle := hline.take_le (used.length + 1)
    have hge := hsurplus.le
    rw [htake] at hle
    omega
  · have hseparate : Separate (e.render ++ [newline]) := hsurplus.separate hline.net_eq
    exact e.apart_of_separate hseparate.left_of_append

/-- On a line of the grammar with a value, `eval` returns the value when every closing
    bracket resumes its operator and no quotient overflows. It returns the value exactly
    when no two closing brackets are adjacent and the expression has the same value with
    each operator behind a bracket replaced by the one in front of it. -/
theorem eval_value (e : Expr) (v : Int64) (hv : e.value = some v) :
    (e.Resumes → e.NoOverflow → eval e.line = .ok v) ∧
      (eval e.line = .ok v ↔ e.Apart ∧ e.replaced = some v) := by
  rw [← e.read_ok_iff]
  refine ⟨fun hresumes hover => ?_, fun heval => ?_, fun ⟨hapart, hread⟩ => ?_⟩
  · rw [eval_line hresumes.apart, hresumes.read_eq hover hv]
  · have hapart := apart_of_eval heval
    rw [eval_line hapart] at heval
    exact ⟨hapart, heval⟩
  · rw [eval_line hapart, hread]

/-- A number of one digit. -/
def digit (c : UInt8) (h : isDigit c = true) : Term :=
  .number ⟨[c], List.cons_ne_nil _ _, fun d hd => by rw [List.mem_singleton.mp hd]; exact h⟩

/-- `2+(3)+4` -/
def sumLine : Expr :=
  .bin (.bin (.term (digit 0x32 (by decide))) .add (.bracket (.term (digit 0x33 (by decide)))))
    .add (digit 0x34 (by decide))

/-- The line of `1+2*3` is read from left to right: 9. -/
theorem eval_sumLine : eval sumLine.line = .ok 9 :=
  (eval_value sumLine 9 (by decide)).1 ⟨⟨trivial, ⟨trivial, rfl⟩, nofun⟩, trivial, fun _ => rfl⟩
    ⟨⟨trivial, trivial, nofun⟩, trivial, nofun⟩

/-- `(1+2)*3` -/
def productLine : Expr :=
  .bin (.term (.bracket (.bin (.term (digit 0x31 (by decide))) .add (digit 0x32 (by decide)))))
    .mul (digit 0x33 (by decide))

/-- `(1+2)*3` has the value 9, and `eval` returns 3. -/
theorem productLine_misread : productLine.value = some 9 ∧ eval productLine.line = .ok 3 := by
  have hapart : productLine.Apart := ⟨⟨⟨trivial, trivial⟩, rfl⟩, trivial⟩
  refine ⟨by decide, ?_⟩
  rw [eval_line hapart]
  decide

-- the `*` behind the bracket is replaced, and nothing stands in front of the bracket
example : productLine.replaced = some 3 := by decide

end Tlibc.Eval
