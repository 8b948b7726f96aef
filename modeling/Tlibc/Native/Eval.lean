import Tlibc.Lib.Run

/-!
# `tlibc/eval.c`

The evaluator of the `eval` tool. A string is the list of its characters before the
terminating NUL, so that a cursor is the list of those that are left: at the end of
the list it points to the NUL. A `long` is an `Int64`, whose arithmetic wraps.
-/

namespace Tlibc.Eval

/-- The ways a call ends without returning. -/
inductive Fault where
  /-- the divide error of the processor: by zero, or of `LONG_MIN` by -1 -/
  | divide
  /-- the cursor is advanced beyond the NUL -/
  | pastEnd
  /-- the fuel ran out -/
  | diverges
  deriving DecidableEq, Repr

/-- `enum oper`. -/
inductive Oper where
  | null
  | plus
  | sub
  | mult
  | div
  deriving DecidableEq, Repr

/-- `*left /= *right`. -/
def divide (left right : Int64) : Except Fault Int64 :=
  if right = 0 ∨ (left = Int64.minValue ∧ right = -1) then .error .divide else .ok (left / right)

/-- `eval_simple`: the new `*left` and `*right`. -/
def evalSimple (left right : Int64) : Oper → Except Fault (Int64 × Int64)
  | .null => .ok (right, 0)
  | .plus => .ok (left + right, 0)
  | .sub => .ok (left - right, 0)
  | .mult => .ok (left * right, 0)
  | .div => do
    let left ← divide left right
    return (left, 0)

/-- The digits, brackets and operators, as characters. -/
def isDigit (c : UInt8) : Bool := 0x30 ≤ c && c ≤ 0x39

def openBracket : UInt8 := 0x28

def closeBracket : UInt8 := 0x29

def plusSign : UInt8 := 0x2b

def minusSign : UInt8 := 0x2d

def timesSign : UInt8 := 0x2a

def slash : UInt8 := 0x2f

/-- `(long) (*expr - '0')`. -/
def digitValue (c : UInt8) : Int64 := Int64.ofNat (c.toNat - 0x30)

/-- The loop of `eval_recur` from the cursor `expr` on: the value stored in `*res`, and
    the cursor that is returned. Every call advances the cursor, so as much fuel as
    there are characters is enough. -/
def evalRecur : Nat → List UInt8 → Int64 → Int64 → Oper → Except Fault (Int64 × List UInt8)
  | 0, _, _, _, _ => .error .diverges
  | _ + 1, [], ret, _, _ => .ok (ret, [])
  | fuel + 1, c :: expr, ret, cur, op =>
    if isDigit c then
      evalRecur fuel expr ret (cur * 10 + digitValue c) op
    else if c = closeBracket then do
      let (ret, _) ← evalSimple ret cur op
      return (ret, expr)
    else if c = openBracket then do
      let (cur, expr) ← evalRecur fuel expr 0 0 .null
      let (ret, cur) ← evalSimple ret cur op
      match expr with
      | [] => .error .pastEnd
      | _ :: expr => evalRecur fuel expr ret cur op
    else if c = plusSign then do
      let (ret, cur) ← evalSimple ret cur op
      evalRecur fuel expr ret cur .plus
    else if c = minusSign then do
      let (ret, cur) ← evalSimple ret cur op
      evalRecur fuel expr ret cur .sub
    else if c = timesSign then do
      let (ret, cur) ← evalSimple ret cur op
      evalRecur fuel expr ret cur .mult
    else if c = slash then do
      let (ret, cur) ← evalSimple ret cur op
      evalRecur fuel expr ret cur .div
    else do
      let (ret, cur) ← evalSimple ret cur op
      evalRecur fuel expr ret cur op

/-- `eval`. -/
def eval (expr : List UInt8) : Except Fault Int64 := do
  let (ret, _) ← evalRecur (expr.length + 1) expr 0 0 .null
  return ret

end Tlibc.Eval
