import Tlibc.Native.Basic

/-!
# `tlibc/atoi.c`

An `int` is an `Int32`. An operation whose value does not fit in one is a signed
overflow, which has no defined result, and is a fault here.
-/

namespace Tlibc.Atoi

/-- The ways a call ends without returning. -/
inductive Fault where
  | overflow
  deriving DecidableEq, Repr

/-- The `int` of a value. -/
def toInt32 (v : Int) : Except Fault Int32 :=
  if -2 ^ 31 ≤ v ∧ v < 2 ^ 31 then .ok (Int32.ofInt v) else .error .overflow

/-- `*nptr >= '0' && *nptr <= '9'`. -/
def isDigit (c : UInt8) : Bool := 0x30 ≤ c && c ≤ 0x39

/-- The loop of `atoi`. -/
def atoiLoop (ret : Int32) : List UInt8 → Except Fault Int32
  | [] => .ok ret
  | c :: nptr =>
    if isDigit c then do
      let ret ← toInt32 (ret.toInt * 10)
      let ret ← toInt32 (ret.toInt + (c.toNat - 0x30))
      atoiLoop ret nptr
    else
      atoiLoop ret nptr

/-- `atoi`. -/
def atoi (nptr : CString) : Except Fault Int32 := atoiLoop 0 nptr.chars

end Tlibc.Atoi
