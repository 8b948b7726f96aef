import Tlibc.Native.Process
import Tlibc.Spec.Atoi
import Mathlib.Data.List.TakeWhile

/-!
# What `main` is called with

The kernel leaves `argc` on top of the stack of a new program, the pointers to its
arguments and to the strings of its environment above it, and these strings above all
pointers. The static variables are below the stack.

* `process_eq`: `_start` calls `main` with these arrays
* `Given.congr`: what is stored below the stack leaves them alone
* `printf_ends`, `printf_overflows`: `Printf` of a text that fits its buffer, or does not
-/

namespace Tlibc.Process

open Machine (Reg State loadWord storeWord)
open Fueled (Ends)
open Atoi (StringAt)

variable {m m' : Mem} {lo buf : Nat} {a : UInt64} {s : CString} {ss : List CString}

/-! ## Strings -/

/-- The length is found once the fuel exceeds the characters that are left. -/
private theorem strlenFrom_eq {fuel i : Nat} (h : StringAt m lo s) (hi : i ≤ s.chars.length)
    (hfuel : s.chars.length - i < fuel) : Strings.strlenFrom m lo fuel i = some s.chars.length := by
  induction fuel generalizing i with
  | zero => omega
  | succ fuel ih =>
    rw [Strings.strlenFrom]
    by_cases heq : i = s.chars.length
    · rw [if_neg (by simp [heq, h.nul]), heq]
    · rw [if_pos (h.char (by omega)), ih (by omega) (by omega)]

/-- A string in memory is read up to its NUL. -/
theorem stringOf_ends (h : StringAt m lo s) : Ends (stringOf m lo) (.ok s) := by
  have hchars : Strings.stringAt m lo s.chars.length = s.chars := by
    rw [Strings.stringAt, h.chars, List.takeWhile_eq_self_iff]
    intro c hc
    simp only [ne_eq, decide_eq_true_eq]
    exact fun hzero => s.nul_free (hzero ▸ hc)
  filter_upwards [Filter.eventually_gt_atTop s.chars.length] with fuel hfuel
  show (Strings.strlenFrom m lo fuel 0).map _ = _
  rw [strlenFrom_eq h (Nat.zero_le _) (by omega)]
  simp only [Option.map_some, hchars]

/-- A null pointer leads to no string. -/
theorem stringAt_null (m : Mem) : Ends (stringAt m 0) (.ok none) := Fueled.ends_pure none

/-- Any other pointer leads to the string that is there. -/
private theorem stringAt_ends (ha : a ≠ 0) (h : StringAt m a.toNat s) :
    Ends (stringAt m a) (.ok (some s)) := by
  rw [stringAt, if_neg ha]
  exact (stringOf_ends h).bind (Fueled.ends_pure _)

/-- A string above `lo` does not change with what is stored below. -/
private theorem stringAt_congr (h : StringAt m lo s) (hm : ∀ a, lo ≤ a → m' a = m a) :
    StringAt m' lo s where
  chars := by
    rw [Mem.read_congr fun i _ => hm (lo + i) (Nat.le_add_right _ _)]
    exact h.chars
  nul := by
    rw [hm _ (Nat.le_add_right _ _)]
    exact h.nul

/-! ## Arrays of strings -/

/-- The strings that the pointers of an array lead to, up to its null pointer. All of it is
    from `lo` on. -/
def Pointers (lo : Nat) (m : Mem) (a : UInt64) : List CString → Prop
  | [] => lo ≤ a.toNat ∧ loadWord m a = 0
  | s :: ss => lo ≤ a.toNat ∧ loadWord m a ≠ 0 ∧ lo ≤ (loadWord m a).toNat ∧
    StringAt m (loadWord m a).toNat s ∧ Pointers lo m (a + 8) ss

/-- Nor does an array of pointers, with the strings they lead to. -/
theorem Pointers.congr (h : Pointers lo m a ss) (hm : ∀ a, lo ≤ a → m' a = m a) :
    Pointers lo m' a ss := by
  induction ss generalizing a with
  | nil =>
    obtain ⟨hle, hnull⟩ := h
    refine ⟨hle, ?_⟩
    rw [Machine.loadWord_congr fun i _ => hm _ (by omega)]
    exact hnull
  | cons s ss ih =>
    obtain ⟨hle, hne, hstr, hat, hss⟩ := h
    -- the pointer is at an address that does not change
    have hword : loadWord m' a = loadWord m a := Machine.loadWord_congr fun i _ => hm _ (by omega)
    rw [Pointers, hword]
    exact ⟨hle, hne, hstr, stringAt_congr hat fun a ha => hm a (by omega), ih hss⟩

/-- Behind some of the strings. -/
private theorem Pointers.drop {n : Nat} (h : Pointers lo m a ss) (hn : n ≤ ss.length) :
    Pointers lo m (a + 8 * UInt64.ofNat n) (ss.drop n) := by
  induction n generalizing a ss with
  | zero => simpa using h
  | succ n ih =>
    cases ss with
    | nil => exact absurd hn (Nat.not_succ_le_zero n)
    | cons s ss =>
      have hrest := ih h.2.2.2.2 (Nat.le_of_succ_le_succ hn)
      -- the arrays differ by one pointer
      have haddr : a + 8 + 8 * UInt64.ofNat n = a + 8 * UInt64.ofNat (n + 1) := by
        rw [UInt64.ofNat_add, UInt64.mul_add, UInt64.add_assoc, UInt64.add_comm 8]
        rfl
      rw [haddr] at hrest
      exact hrest

/-- A nonnegative `int` is extended to the address offset of the same value. -/
private theorem toUInt64_of_toInt {i : Int32} {n : Nat} (hi : i.toInt = n) :
    i.toInt64.toUInt64 = UInt64.ofNat n := by
  have hlt := i.toInt_lt
  -- the sign bit is 0, so that the extension keeps the value
  have hint : i.toInt64 = Int64.ofNat n := by
    rw [← Int64.toInt_inj, Int32.toInt_toInt64, hi, Int64.toInt_ofNat_of_lt (by omega)]
  rw [hint, Int64.toUInt64_ofNat']

/-- From `p[i]` on. -/
theorem Pointers.at {i : Int32} {n : Nat} (h : Pointers lo m a ss) (hi : i.toInt = n)
    (hn : n ≤ ss.length) : Pointers lo m (a + 8 * i.toInt64.toUInt64) (ss.drop n) := by
  rw [toUInt64_of_toInt hi]
  exact h.drop hn

/-- The string that `p[i]` leads to. -/
theorem Pointers.get {i : Int32} {n : Nat} (h : Pointers lo m a ss) (hi : i.toInt = n)
    (hs : ss[n]? = some s) :
    pointerAt m a i ≠ 0 ∧ Ends (stringAt m (pointerAt m a i)) (.ok (some s)) := by
  obtain ⟨hn, hget⟩ := List.getElem?_eq_some_iff.mp hs
  have hat := h.at hi (Nat.le_of_lt hn)
  rw [List.drop_eq_getElem_cons hn, hget] at hat
  exact ⟨hat.2.1, stringAt_ends hat.2.1 hat.2.2.2.1⟩

/-! ## `Printf` -/

section Printf

open Printf (Matches pieces expand)

variable {c : Console} {fmt : CString} {args : List Printf.Arg} {text : List UInt8}

/-- Behind the loop of `Printf`. -/
private theorem printf_loop (c : Console) (hlen : fmt.chars.length < 2 ^ 31)
    (hargs : Matches (pieces fmt.chars) args) (htext : expand (pieces fmt.chars) args = text)
    (hshort : text.length < 2 ^ 32) :
    Ends (Fueled.ofRun fun fuel =>
      (Printf.printf fuel c.mem buf fmt args).map fun r => r.mapError Crash.printf)
      (.ok
        { result :=
            { mem := c.mem.write buf (text ++ [0])
              ret := UInt32.ofNat text.length
              args := args.drop (Printf.conversions (pieces fmt.chars)) }
          written := { fd := 1, bytes := text } }) := by
  have hret : (UInt32.ofNat text.length).toNat = text.length := UInt32.toNat_ofNat_of_lt' hshort
  have hrun := Printf.sprintf_ends hlen hargs (by rw [htext]; exact hshort) c.mem buf
  rw [htext] at hrun
  filter_upwards [Fueled.ends_of_while hrun] with fuel hfuel
  have hsprintf : Printf.sprintf fuel c.mem buf fmt args = _ := hfuel
  -- `sys_write` reads the text back from the buffer
  show (Printf.printf fuel c.mem buf fmt args).map _ = _
  rw [Printf.printf, hsprintf]
  simp only [Option.map_some, Run.ok_bind, hret, Mem.read_write_left]
  rfl

/-- `Printf` of arguments that match its format, with a text that fits the buffer: one call, and
    the text with its NUL in the buffer. -/
theorem printf_ends (c : Console) (hlen : fmt.chars.length < 2 ^ 31)
    (hargs : Matches (pieces fmt.chars) args) (htext : expand (pieces fmt.chars) args = text)
    (hfit : text.length < printfSize) :
    Ends (printf buf c fmt args) (.ok
      { mem := c.mem.write buf (text ++ [0])
        written := c.written ++ [{ fd := 1, bytes := text }] }) := by
  have hshort : text.length < 2 ^ 32 := Nat.lt_trans hfit (by decide)
  refine (printf_loop c hlen hargs htext hshort).bind ?_
  rw [if_pos (by rw [UInt32.toNat_ofNat_of_lt' hshort]; exact hfit)]
  exact Fueled.ends_pure _

/-- A text that does not fit is stored beyond the buffer. -/
theorem printf_overflows (c : Console) (hlen : fmt.chars.length < 2 ^ 31)
    (hargs : Matches (pieces fmt.chars) args) (htext : expand (pieces fmt.chars) args = text)
    (hshort : text.length < 2 ^ 32) (hlong : ¬ text.length < printfSize) :
    Ends (printf buf c fmt args) (.error .outOfBounds) := by
  refine (printf_loop c hlen hargs htext hshort).bind ?_
  rw [if_neg (by rw [UInt32.toNat_ofNat_of_lt' hshort]; exact hlong)]
  exact Fueled.ends_ofExcept _

end Printf

/-! ## The end of a process -/

/-- A process ends with a status, and has made these `sys_write` calls. -/
def Exits (x : Fueled Crash (Int32 × Console)) (status : Int32) (written : List Printf.Written) :
    Prop :=
  ∃ c, Ends x (.ok (status, c)) ∧ c.written = written

/-- A call for each text, to descriptor 1. -/
def stdout (texts : List (List UInt8)) : List Printf.Written :=
  texts.map fun text => { fd := 1, bytes := text }

/-- A process ends with status 0, and has made a `sys_write` call for each of these texts, to
    descriptor 1. -/
def Writes (x : Fueled Crash (Int32 × Console)) (texts : List (List UInt8)) : Prop :=
  Exits x 0 (stdout texts)

/-! ## `_start` -/

/-- What the kernel leaves on the stack of a new program. -/
structure Image (m : Mem) (rsp : UInt64) (args env : List CString) : Prop where
  argc : loadWord m rsp = UInt64.ofNat args.length
  argv : Pointers rsp.toNat m (rsp + 8) args
  envp : Pointers rsp.toNat m (rsp + 8 * UInt64.ofNat (args.length + 2)) env
  args_lt : args.length < 2 ^ 31
  env_lt : env.length < 2 ^ 31
  string_lt : ∀ s ∈ args ++ env, s.chars.length < 2 ^ 31

/-- What `main` is called with. -/
structure Given (lo : Nat) (args env : List CString) (argc : Int32) (argv envp : UInt64) (m : Mem) :
    Prop where
  argc : argc.toInt = args.length
  argv : Pointers lo m argv args
  envp : Pointers lo m envp env

variable {args env : List CString} {argc : Int32} {argv envp back : UInt64} {t : State}

/-- What `main` is given stays as it is when memory changes below `lo` only. -/
theorem Given.congr (h : Given lo args env argc argv envp m) (hm : ∀ a, lo ≤ a → m' a = m a) :
    Given lo args env argc argv envp m' :=
  ⟨h.argc, h.argv.congr hm, h.envp.congr hm⟩

/-- `argc` counts the arguments, so comparing it with a constant compares their number. -/
theorem Given.argc_lt_iff (h : Given lo args env argc argv envp m) {k : Int32} {n : Nat}
    (hk : k.toInt = n) : argc < k ↔ args.length < n := by
  rw [Int32.lt_iff_toInt_lt, h.argc, hk, Int.ofNat_lt]

/-- The same, with the constant on the left. -/
theorem Given.lt_argc_iff (h : Given lo args env argc argv envp m) {k : Int32} {n : Nat}
    (hk : k.toInt = n) : k < argc ↔ n < args.length := by
  rw [Int32.lt_iff_toInt_lt, h.argc, hk, Int.ofNat_lt]

/-- The same, for equality. -/
theorem Given.argc_eq_iff (h : Given lo args env argc argv envp m) {k : Int32} {n : Nat}
    (hk : k.toInt = n) : argc = k ↔ args.length = n := by
  rw [← Int32.toInt_inj, h.argc, hk, Int.ofNat_inj]

/-- The registers and the memory at the `call main` of `_start`. -/
private theorem start_regs (back : UInt64) (t : State) :
    let u := (start back).foldl Instr.exec t
    u.regs .rdi = loadWord t.mem (t.regs .rsp) ∧ u.regs .rsi = t.regs .rsp + 8 ∧
      u.regs .rdx = t.regs .rsp + (loadWord t.mem (t.regs .rsp) + 2) <<< 3 ∧
      u.mem = storeWord t.mem (t.regs .rsp - 8) back := by
  simp [start, Instr.exec, Machine.Instr.exec, State.setReg, Function.update]

/-- A count below `2 ^ 31` is itself as an `int`. -/
private theorem toInt32_ofNat {n : Nat} (h : n < 2 ^ 31) :
    (UInt64.ofNat n).toUInt32.toInt32.toInt = n := by
  rw [UInt64.toUInt32_ofNat', UInt32.toInt32_ofNat']
  exact Int32.toInt_ofNat_of_lt h

/-- A shift by 3 is a multiplication by the size of a pointer. -/
private theorem shiftLeft_three (v : UInt64) : v <<< 3 = 8 * v := by
  rw [← UInt64.toNat_inj, UInt64.toNat_shiftLeft, UInt64.toNat_mul]
  show v.toNat <<< 3 % 2 ^ 64 = 8 * v.toNat % 2 ^ 64
  rw [Nat.shiftLeft_eq, Nat.mul_comm]

/-- `_start` finds the arrays, and calls `main` with them. -/
theorem process_eq (h : Image t.mem (t.regs .rsp) args env) (hlow : 8 ≤ (t.regs .rsp).toNat)
    (back : UInt64) : ∃ argc argv envp m, Given (t.regs .rsp).toNat args env argc argv envp m ∧
      ∀ {σ : Type} (main : ProgramOf σ),
        process main back t = main argc argv envp { mem := m, written := [] } := by
  obtain ⟨hrdi, hrsi, hrdx, hmem⟩ := start_regs back t
  -- `call` stores below the stack
  have hsame : ∀ a, (t.regs .rsp).toNat ≤ a → storeWord t.mem (t.regs .rsp - 8) back a = t.mem a := by
    intro a ha
    have hpush : (t.regs .rsp - 8).toNat = (t.regs .rsp).toNat - 8 :=
      UInt64.toNat_sub_of_le _ _ (UInt64.le_iff_toNat_le.mpr hlow)
    exact Mem.write_apply_out (by rw [hpush, Mem.length_leBytes]; omega)
  refine ⟨_, _, _, _, ⟨?_, ?_, ?_⟩, fun _ => rfl⟩
  · rw [hrdi, h.argc]
    exact toInt32_ofNat h.args_lt
  · rw [hrsi, hmem]
    exact h.argv.congr hsame
  · -- `argc` pointers and a null pointer are between `argv` and `envp`
    have henvp : t.regs .rsp + (UInt64.ofNat args.length + 2) <<< 3 =
        t.regs .rsp + 8 * UInt64.ofNat (args.length + 2) := by
      rw [shiftLeft_three, UInt64.ofNat_add]
      rfl
    rw [hrdx, hmem, h.argc, henvp]
    exact h.envp.congr hsame

/-! ## A stack -/

/-- `"tool"`, `"3"` and `"A=1"`. -/
def toolName : CString := ⟨[0x74, 0x6f, 0x6f, 0x6c], by decide⟩
/-- `"3"`. -/
def threeText : CString := ⟨[0x33], by decide⟩
/-- `"A=1"`. -/
def homeText : CString := ⟨[0x41, 0x3d, 0x31], by decide⟩

/-- A stack at 0x10000 with these two arguments, and the third string for the environment. -/
def threeState : State where
  regs _ := 0x10000
  rip := 0
  mem := Mem.write (fun _ => 0) 0x10000
    (Mem.leBytes 8 2 ++ Mem.leBytes 8 0x10030 ++ Mem.leBytes 8 0x10035 ++ Mem.leBytes 8 0 ++
      Mem.leBytes 8 0x10037 ++ Mem.leBytes 8 0 ++ toolName.chars ++ 0 :: threeText.chars ++
      0 :: homeText.chars)

/-- An array of no pointers is its null pointer. -/
private theorem pointers_nil (hle : lo ≤ a.toNat)
    (hnull : loadWord m a = 0) : Pointers lo m a [] := ⟨hle, hnull⟩

/-- A pointer to a string, in front of an array. -/
private theorem pointers_cons {p : UInt64}
    (hp : loadWord m a = p) (hle : lo ≤ a.toNat) (hne : p ≠ 0) (hstr : lo ≤ p.toNat)
    (hs : StringAt m p.toNat s) (hss : Pointers lo m (a + 8) ss) : Pointers lo m a (s :: ss) := by
  subst hp
  exact ⟨hle, hne, hstr, hs, hss⟩

/-- The stack of `tool 3` with one environment string is one that the kernel leaves. -/
theorem threeState_image :
    Image threeState.mem (threeState.regs .rsp) [toolName, threeText] [homeText] where
  argc := by decide +kernel
  argv := by
    refine pointers_cons (p := 0x10030) (by decide +kernel) (by decide) (by decide) (by decide)
      ⟨by decide +kernel, by decide +kernel⟩ ?_
    refine pointers_cons (p := 0x10035) (by decide +kernel) (by decide) (by decide) (by decide)
      ⟨by decide +kernel, by decide +kernel⟩ ?_
    exact pointers_nil (by decide) (by decide +kernel)
  envp := by
    refine pointers_cons (p := 0x10037) (by decide +kernel) (by decide) (by decide) (by decide)
      ⟨by decide +kernel, by decide +kernel⟩ ?_
    exact pointers_nil (by decide) (by decide +kernel)
  args_lt := by decide
  env_lt := by decide
  string_lt := by decide

end Tlibc.Process
