import Mathlib.Data.List.Basic
import Tlibc.Lib.Mem

/-!
# `tlibc/stdio.c`: the buffered reader

`fdgets` copies a line from a file descriptor to `dst` through a buffer of 2048
bytes, which `start` and `end` delimit. A descriptor is the list of chunks its
`sys_read` calls will deliver; behind the last one it returns 0.
-/

namespace Tlibc.Stdio

/-- `'\n'`. -/
def newline : UInt8 := 0x0a

/-- `struct buffered_reader`. Its two `int`s are reduced modulo the size of the buffer
    whenever they are assigned; `stop` is `end`. -/
structure BufferedReader where
  buf : Fin 2048 → UInt8
  start : Fin 2048
  stop : Fin 2048

/-- What a `sys_read` that asks for 2048 bytes stores when it returns a positive count. -/
structure Chunk where
  bytes : List UInt8
  nonempty : bytes ≠ []
  length_le : bytes.length ≤ 2048

/-- What `fill_buf` leaves: its result, the reader, and the chunks to come. -/
structure Filled where
  ret : Bool
  br : BufferedReader
  input : List Chunk

/-- `fill_buf`. -/
def fillBuf (br : BufferedReader) (input : List Chunk) : Filled :=
  if br.start = br.stop then
    let br := { br with start := 0, stop := 0 }
    match input with
    | [] => { ret := false, br := br, input := [] }
    | c :: input =>
      let br := { br with buf := fun i => c.bytes.getD i (br.buf i) }
      let br := { br with stop := Fin.ofNat 2048 (br.stop + c.bytes.length) }
      { ret := true, br := br, input := input }
  else
    { ret := true, br := br, input := input }

namespace BufferedReader

/-- A `static` one before anything is stored in it. -/
def zero : BufferedReader := { buf := fun _ => 0, start := 0, stop := 0 }

/-- `br.start = br.end = 0`. -/
def reset (br : BufferedReader) : BufferedReader := { br with start := 0, stop := 0 }

/-- The step of `start` behind a byte of the buffer. -/
def advance (br : BufferedReader) : BufferedReader := { br with start := br.start + 1 }

/-- The place of the byte `i` behind `start`. -/
def place (br : BufferedReader) (i : Nat) : Fin 2048 := br.start + Fin.ofNat 2048 i

/-- How many bytes of the buffer are left. -/
def count (br : BufferedReader) : Nat := (br.stop - br.start).val

theorem count_advance {br : BufferedReader} (hne : br.start ≠ br.stop) :
    br.count = br.advance.count + 1 := by
  have hne : br.start.val ≠ br.stop.val := fun h => hne (Fin.ext h)
  have hstart := br.start.isLt
  have hstop := br.stop.isLt
  show (br.stop - br.start).val = (br.stop - (br.start + 1)).val + 1
  rw [Fin.sub_def, Fin.sub_def, Fin.add_def]
  show (2048 - br.start.val + br.stop.val) % 2048 =
    (2048 - (br.start.val + 1) % 2048 + br.stop.val) % 2048 + 1
  omega

end BufferedReader

/-- The reader, the memory, and the pointer `dst` behind a loop. -/
structure Cursor where
  br : BufferedReader
  mem : Mem
  dst : Nat

/-- `copy_buf`. -/
def copyBuf (br : BufferedReader) (m : Mem) (dst : Nat) : Cursor :=
  if br.start = br.stop then
    { br := br, mem := m, dst := dst }
  else
    let c := br.buf br.start
    if c = 0 then
      copyBuf br.advance m dst
    else
      let m := m.write dst [c]
      if c = newline then
        { br := br.advance, mem := m.write (dst + 1) [0], dst := dst + 1 }
      else
        copyBuf br.advance m (dst + 1)
termination_by br.count
decreasing_by all_goals exact Nat.lt_of_succ_le (Nat.le_of_eq (br.count_advance ‹_›).symm)

theorem copyBuf_count_le (br : BufferedReader) (m : Mem) (dst : Nat) :
    (copyBuf br m dst).br.count ≤ br.count := by
  fun_induction copyBuf br m dst with
  | case1 => exact Nat.le_refl _
  | case2 br m dst hne _ _ ih =>
    have hcount := br.count_advance hne
    omega
  | case3 br m dst hne =>
    have hcount := br.count_advance hne
    show br.advance.count ≤ br.count
    omega
  | case4 br m dst hne _ _ _ _ ih =>
    have hcount := br.count_advance hne
    omega

/-- A pass over a buffer that is not empty takes a byte at least. -/
theorem copyBuf_count_lt {br : BufferedReader} (m : Mem) (dst : Nat) (hne : br.start ≠ br.stop) :
    (copyBuf br m dst).br.count < br.count := by
  have hcount := br.count_advance hne
  fun_cases copyBuf br m dst with
  | case1 h => exact absurd h hne
  | case2 =>
    have hle := copyBuf_count_le br.advance m dst
    omega
  | case3 =>
    show br.advance.count < br.count
    omega
  | case4 => exact Nat.lt_of_le_of_lt (copyBuf_count_le br.advance _ (dst + 1)) (by omega)

/-- A pass of `fdgets` that fills the buffer and copies from it uses up a chunk, or
    else a byte of the buffer. -/
theorem pass_lt {br : BufferedReader} {input : List Chunk} (m : Mem) (dst : Nat)
    (hret : (fillBuf br input).ret = true) :
    Prod.Lex (· < ·) (· < ·)
      ((fillBuf br input).input.length, (copyBuf (fillBuf br input).br m dst).br.count)
      (input.length, br.count) := by
  unfold fillBuf at hret ⊢
  by_cases hempty : br.start = br.stop
  · rw [if_pos hempty] at hret ⊢
    cases input with
    | nil => cases hret
    | cons c input => exact Prod.Lex.left _ _ (Nat.lt_succ_self _)
  · rw [if_neg hempty]
    exact Prod.Lex.right _ (copyBuf_count_lt m dst hempty)

/-- The state when `fdgets` returns: its result, the reader, the chunks to come, the
    memory, and its pointer `dst`. -/
structure Got where
  ret : Bool
  br : BufferedReader
  input : List Chunk
  mem : Mem
  dst : Nat

/-- `fdgets`. -/
def fdgets (br : BufferedReader) (input : List Chunk) (m : Mem) (dst : Nat) : Got :=
  let f := fillBuf br input
  if f.ret then
    let c := copyBuf f.br m dst
    if c.mem c.dst = 0 then
      { ret := true, br := c.br, input := f.input, mem := c.mem, dst := c.dst }
    else
      fdgets c.br f.input c.mem c.dst
  else
    { ret := false, br := f.br, input := f.input, mem := m, dst := dst }
termination_by (input.length, br.count)
decreasing_by exact pass_lt m dst ‹_›

/-- A call that returns true used up something. -/
theorem fdgets_lt (br : BufferedReader) (input : List Chunk) (m : Mem) (dst : Nat)
    (hret : (fdgets br input m dst).ret = true) :
    Prod.Lex (· < ·) (· < ·)
      ((fdgets br input m dst).input.length, (fdgets br input m dst).br.count)
      (input.length, br.count) := by
  fun_induction fdgets br input m dst with
  | case1 br input m dst f hfill c => exact pass_lt m dst hfill
  | case2 br input m dst f hfill c _ ih => exact Prod.Lex.trans (ih hret) (pass_lt m dst hfill)
  | case3 => cases hret

/-! ## The loop around it -/

/-- Where a call is told to store: an address, and what memory holds by then. -/
structure Destination where
  mem : Mem
  dst : Nat

/-- A call that was made. -/
structure Call where
  dest : Destination
  got : Got

/-- The characters a call stored. -/
def Call.text (c : Call) : List UInt8 := c.got.mem.read c.dest.dst (c.got.dst - c.dest.dst)

/-- `while (fdgets(&br, buf, 0))`, the loop of `sh.c` and `eval.c`: the calls that return
    true, and the one that ends it. The body may change the destination. -/
def fdgetsLoop (dests : Nat → Destination) (br : BufferedReader) (input : List Chunk) :
    List Call × Call :=
  let got := fdgets br input (dests 0).mem (dests 0).dst
  if got.ret then
    let (calls, last) := fdgetsLoop (fun n => dests (n + 1)) got.br got.input
    (⟨dests 0, got⟩ :: calls, last)
  else
    ([], ⟨dests 0, got⟩)
termination_by (input.length, br.count)
decreasing_by exact fdgets_lt br input (dests 0).mem (dests 0).dst ‹_›

end Tlibc.Stdio
