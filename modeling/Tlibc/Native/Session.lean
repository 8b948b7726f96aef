import Tlibc.Native.Eval
import Tlibc.Native.Printf
import Tlibc.Native.Sh
import Tlibc.Native.Stdio
import Tlibc.Native.Strings

/-!
# The `main` of `tlibc/sh.c` and of `tlibc/eval.c`

Both read a line at a time and prompt for the next one. What they do is the list of their
events, in order. The static variables are at any addresses; what the body of the loop does
to memory leaves the line buffer alone. What a `sys_write` returns is not used.
-/

namespace Tlibc.Stdio

/-- `sizeof(buf)` of both programs. -/
def lineSize : Nat := 2048

/-- What the body of the loop does: its events, the memory it leaves, and whether the loop
    goes on. -/
structure Body (ε : Type) where
  events : List ε
  mem : Mem
  goesOn : Bool

/-- `while (fdgets(&br, buf, 0))`: the events of the body. -/
def forLines {ε : Type} (body : Mem → List UInt8 → Body ε) (br : BufferedReader)
    (input : List Chunk) (m : Mem) (buf : Nat) : List ε :=
  let got := fdgets br input m buf
  if got.ret then
    let done := body got.mem (Strings.stringAt got.mem buf lineSize)
    if done.goesOn then
      done.events ++ forLines body got.br got.input done.mem buf
    else
      done.events
  else
    []
termination_by (input.length, br.count)
decreasing_by exact fdgets_lt br input m buf ‹_›

end Tlibc.Stdio

namespace Tlibc.Sh

open Stdio (BufferedReader Chunk forLines)

/-- What the shell does. -/
inductive Event where
  /-- `sys_write(1, "(yrd) ", 6)` -/
  | prompt
  | call (c : Call)
  /-- a call that does not return -/
  | fault (f : Fault)

/-- The body of the loop of `main`: its events, and whether the loop goes on. -/
def onLine (line : List UInt8) : List Event × Bool :=
  let r := system line
  match r.fault with
  | some f => (r.calls.map .call ++ [.fault f], false)
  | none =>
    match r.calls.getLast? with
    | some .exit => (r.calls.map .call, false)
    | _ => (r.calls.map .call ++ [.prompt], true)

/-- `main`, with its static `br` and `buf` as they are before. -/
def main (br : BufferedReader) (input : List Chunk) (m : Mem) (buf : Nat) : List Event :=
  .prompt :: forLines (fun m line => ⟨(onLine line).1, m, (onLine line).2⟩) br.reset input m buf

end Tlibc.Sh

namespace Tlibc.Eval

open Stdio (BufferedReader Chunk forLines)

/-- What `eval` does. -/
inductive Event where
  /-- a `sys_write` -/
  | write (w : Printf.Written)
  /-- a call of `eval` that does not return -/
  | fault (f : Fault)
  /-- a call of `Printf` that does not return -/
  | printf (f : Printf.Fault)

/-- `sys_write(1, "(eval) ", 7)` -/
def prompt : Event := .write { fd := 1, bytes := [0x28, 0x65, 0x76, 0x61, 0x6c, 0x29, 0x20] }

/-- `"%l\n"`. -/
def format : CString where
  chars := [0x25, 0x6c, 0x0a]
  nul_free := by decide

/-- `'q'`. -/
def letterQ : UInt8 := 0x71

/-- The body of the loop of `main`. The static buffer of `Printf` is at `pbuf`, and fuel for
    every character of the format and its NUL is enough. -/
def onLine (pbuf : Nat) (m : Mem) (line : List UInt8) : Stdio.Body Event :=
  match eval line with
  | .error f => ⟨[.fault f], m, false⟩
  | .ok v =>
    match Printf.printf (format.chars.length + 1) m pbuf format [.long v] with
    | none => ⟨[.fault .diverges], m, false⟩
    | some (.error f) => ⟨[.printf f], m, false⟩
    | some (.ok r) =>
      if line.head? = some letterQ then
        ⟨[.write r.written], r.result.mem, false⟩
      else
        ⟨[.write r.written, prompt], r.result.mem, true⟩

/-- `main`, with its static `br` and `buf` as they are before. -/
def main (br : BufferedReader) (input : List Chunk) (m : Mem) (buf pbuf : Nat) : List Event :=
  prompt :: forLines (onLine pbuf) br.reset input m buf

end Tlibc.Eval
