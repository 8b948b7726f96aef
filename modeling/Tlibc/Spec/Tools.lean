import Tlibc.Native.Tools
import Tlibc.Spec.Process

/-!
# `echo`, `env`, `seq` and `cat`

Each program is run from `_start` on, over any stack that the kernel may leave.

* `PrintsEach.loops`, `PrintsEach.overflows`: a loop that prints the strings of an array
* `echo_env_write`, `Seq.seq_prints`, `Cat.cat_writes`: the `sys_write` calls that the programs
  make
-/

namespace Tlibc

open Process
open Fueled (Ends Loops)

variable {lo buf : Nat} {args env : List CString} {argc : Int32} {argv envp : UInt64}

namespace Process

/-- An `int` that is not the greatest is incremented. -/
theorem increment_ends {i : Int32} (hi : i.toInt + 1 < 2 ^ 31) :
    ∃ j : Int32, j.toInt = i.toInt + 1 ∧ Ends (increment i) (.ok j) := by
  have hlow := i.le_toInt
  obtain ⟨j, hj, hint⟩ := @Atoi.toInt_toInt32 (i.toInt + 1) (by omega) (by omega)
  refine ⟨j, hint, ?_⟩
  rw [increment, hj]
  exact Fueled.ends_ofExcept _

/-- Incrementing the greatest one overflows. -/
private theorem increment_overflows {i : Int32} (hi : i.toInt = 2 ^ 31 - 1) :
    Ends (increment i) (.error .overflow) := by
  rw [increment, Atoi.toInt32, if_neg (by omega)]
  exact Fueled.ends_ofExcept _

/-! ## A loop over strings -/

section Strings

/-- The text fits the buffer of `Printf`, with the character behind it. -/
def Fits (s : CString) : Prop := s.chars.length + 1 < printfSize

instance (s : CString) : Decidable (Fits s) := inferInstanceAs (Decidable (_ < _))

/-- Behind the `Printf` of a pass. -/
def advance (i : Int32) (c : Console) : Fueled Crash (While.Next Counter Console) := do
  let i ← increment i
  return .again { i := i, console := c }

variable {pass : Counter → Fueled Crash (While.Next Counter Console)} {fmt : CString} {sep : UInt8}
  {good : Mem → Prop} {strs : List CString}

/-- The loop prints the strings of an array, one in each pass, while memory from `lo` on
    stays as it is. -/
structure PrintsEach (buf lo : Nat) (pass : Counter → Fueled Crash (While.Next Counter Console))
    (fmt : CString) (good : Mem → Prop) (strs : List CString) : Prop where
  keeps : ∀ {m m' : Mem}, good m → (∀ a, lo ≤ a → m' a = m a) → good m'
  each : ∀ {i : Int32} {n : Nat} {c : Console} {s : CString} {r}, i.toInt = n → good c.mem →
    strs[n]? = some s → Ends (printf buf c fmt [.string (some s)] >>= advance i) r →
    Ends (pass { i := i, console := c }) r
  last : ∀ {i : Int32} {c : Console}, i.toInt = strs.length → good c.mem →
    Ends (pass { i := i, console := c }) (.ok (.done c))

/-- `"%s"` and a character behind it. -/
structure Separated (fmt : CString) (sep : UInt8) : Prop where
  length : fmt.chars.length < 2 ^ 31
  pieces : Printf.pieces fmt.chars = [.conversion .s, .char sep]

/-- The format expands to the string and the separator. -/
private theorem Separated.expand (h : Separated fmt sep) (s : CString) :
    Printf.expand (Printf.pieces fmt.chars) [.string (some s)] = s.chars ++ [sep] := by
  rw [h.pieces]
  simp [Printf.expand, Printf.Conversion.text]

/-- It takes one string. -/
private theorem Separated.matches (h : Separated fmt sep) (s : CString) :
    Printf.Matches (Printf.pieces fmt.chars) [.string (some s)] := by
  rw [h.pieces]
  exact ⟨trivial, trivial⟩

/-- A string that fits is written in one call. -/
private theorem Separated.printf_fits (h : Separated fmt sep) (buf : Nat) (c : Console)
    {s : CString}
    (hfits : Fits s) : Ends (printf buf c fmt [.string (some s)]) (.ok
      { mem := c.mem.write buf (s.chars ++ [sep] ++ [0])
        written := c.written ++ [{ fd := 1, bytes := s.chars ++ [sep] }] }) := by
  refine printf_ends c h.length (h.matches s) (h.expand s) ?_
  rw [List.length_append, List.length_singleton]
  exact hfits

/-- One that does not is stored beyond the buffer. -/
private theorem Separated.printf_long (h : Separated fmt sep) (buf : Nat) (c : Console)
    {s : CString}
    (hs : s.chars.length < 2 ^ 31) (hlong : ¬ Fits s) :
    Ends (printf buf c fmt [.string (some s)]) (.error .outOfBounds) := by
  refine printf_overflows c h.length (h.matches s) (h.expand s) ?_ ?_
  · rw [List.length_append, List.length_singleton]
    omega
  · rw [List.length_append, List.length_singleton]
    exact hlong

/-- The loop goes on to the next index. -/
private theorem advance_ends {i : Int32} (hi : i.toInt + 1 < 2 ^ 31) (c : Console) :
    ∃ j : Int32, j.toInt = i.toInt + 1 ∧
      Ends (advance i c) (.ok (.again { i := j, console := c })) := by
  obtain ⟨j, hj, hends⟩ := increment_ends hi
  exact ⟨j, hj, hends.bind (Fueled.ends_pure _)⟩

/-- A pass over a string that fits. -/
private theorem PrintsEach.pass_fits (h : PrintsEach buf lo pass fmt good strs)
    (hfmt : Separated fmt sep)
    (hbuf : buf + printfSize ≤ lo) (hlen : strs.length < 2 ^ 31) {i : Int32} {n : Nat} {c : Console}
    {s : CString} (hi : i.toInt = n) (hgood : good c.mem) (hs : strs[n]? = some s) (hfits : Fits s) :
    ∃ (j : Int32) (c' : Console), j.toInt = (n + 1 : Nat) ∧ good c'.mem ∧
      c'.written = c.written ++ [{ fd := 1, bytes := s.chars ++ [sep] }] ∧
      Ends (pass { i := i, console := c }) (.ok (.again { i := j, console := c' })) := by
  have hn : n < strs.length := (List.getElem?_eq_some_iff.mp hs).1
  have hprint := hfmt.printf_fits buf c hfits
  obtain ⟨j, hj, hadv⟩ := @advance_ends i (by omega)
    { mem := c.mem.write buf (s.chars ++ [sep] ++ [0])
      written := c.written ++ [{ fd := 1, bytes := s.chars ++ [sep] }] }
  -- what is stored in the buffer is below the strings that are left
  refine ⟨j, _, by omega, h.keeps hgood fun a ha => ?_, rfl, h.each hi hgood hs (hprint.bind hadv)⟩
  apply Mem.write_apply_out
  rw [List.length_append, List.length_append, List.length_singleton, List.length_singleton]
  rw [Fits] at hfits
  omega

/-- The loop, when all strings that are left fit. -/
theorem PrintsEach.loops (h : PrintsEach buf lo pass fmt good strs) (hfmt : Separated fmt sep)
    (hbuf : buf + printfSize ≤ lo) (hlen : strs.length < 2 ^ 31) {i : Int32} {n : Nat} {c : Console}
    (hi : i.toInt = n) (hn : n ≤ strs.length) (hgood : good c.mem)
    (hfits : ∀ s ∈ strs.drop n, Fits s) :
    ∃ c' : Console, Loops pass { i := i, console := c } (.ok c') ∧
      c'.written =
        c.written ++ (strs.drop n).map fun s => { fd := 1, bytes := s.chars ++ [sep] } := by
  -- by the number of strings that are left
  obtain ⟨k, hk⟩ := Nat.exists_eq_add_of_le hn
  induction k generalizing i n c with
  | zero =>
    have hdone := h.last (i := i) (c := c) (by omega) hgood
    exact ⟨c, .done hdone, by rw [List.drop_eq_nil_of_le (by omega)]; simp⟩
  | succ k ih =>
    have hlt : n < strs.length := by omega
    have hdrop : strs.drop n = strs[n] :: strs.drop (n + 1) := List.drop_eq_getElem_cons hlt
    rw [hdrop] at hfits
    obtain ⟨hhead, htail⟩ := List.forall_mem_cons.mp hfits
    obtain ⟨j, c₁, hj, hgood₁, hwritten₁, hpass⟩ :=
      h.pass_fits hfmt hbuf hlen hi hgood (List.getElem?_eq_getElem hlt) hhead
    obtain ⟨c₂, hloops, hwritten₂⟩ := ih hj (by omega) hgood₁ htail (by omega)
    refine ⟨c₂, .again hpass hloops, ?_⟩
    rw [hwritten₂, hwritten₁, hdrop, List.map_cons, List.append_assoc, List.singleton_append]

/-- The loop, when one of them does not. -/
theorem PrintsEach.overflows (h : PrintsEach buf lo pass fmt good strs) (hfmt : Separated fmt sep)
    (hbuf : buf + printfSize ≤ lo) (hlen : strs.length < 2 ^ 31)
    (hshort : ∀ s ∈ strs, s.chars.length < 2 ^ 31) {i : Int32} {n : Nat} {c : Console}
    (hi : i.toInt = n) (hgood : good c.mem) (hfits : ¬ ∀ s ∈ strs.drop n, Fits s) :
    Loops pass { i := i, console := c } (.error .outOfBounds) := by
  have hn : n < strs.length := by
    by_contra hge
    exact hfits (by simp [List.drop_eq_nil_of_le (Nat.not_lt.mp hge)])
  -- by the number of strings that are left, of which the first may fit
  obtain ⟨k, hk⟩ := Nat.exists_eq_add_of_le (Nat.le_of_lt hn)
  induction k generalizing i n c with
  | zero => omega
  | succ k ih =>
    have hdrop : strs.drop n = strs[n] :: strs.drop (n + 1) := List.drop_eq_getElem_cons hn
    have hs : strs[n]? = some strs[n] := List.getElem?_eq_getElem hn
    rw [hdrop] at hfits
    by_cases hhead : Fits strs[n]
    · obtain ⟨j, c₁, hj, hgood₁, -, hpass⟩ := h.pass_fits hfmt hbuf hlen hi hgood hs hhead
      have hrest : ¬ ∀ s ∈ strs.drop (n + 1), Fits s := fun hall =>
        hfits (List.forall_mem_cons.mpr ⟨hhead, hall⟩)
      have hlt : n + 1 < strs.length := by
        by_contra hge
        exact hrest (by simp [List.drop_eq_nil_of_le (Nat.not_lt.mp hge)])
      exact .again hpass (ih hj hgood₁ hrest hlt (by omega))
    · have hprint := hfmt.printf_long buf c (hshort _ (List.getElem_mem hn)) hhead
      exact .fault (h.each hi hgood hs hprint.bind_error)

end Strings

end Process

/-! ## `echo` and `env` -/

namespace Echo

/-- The loop prints one argument after another. -/
private theorem printsEach : PrintsEach buf lo (pass buf argc argv) format
    (Given lo args env argc argv envp) args where
  keeps hgood hm := hgood.congr hm
  each := by
    intro i n c s r hi hgood hs hends
    have hn : n < args.length := (List.getElem?_eq_some_iff.mp hs).1
    rw [pass, if_pos ((hgood.lt_argc_iff hi).mpr hn)]
    exact (hgood.argv.get hi hs).2.bind hends
  last := by
    intro i c hi hgood
    rw [pass, if_neg (mt (hgood.lt_argc_iff hi).mp (Nat.lt_irrefl _))]
    exact Fueled.ends_pure _

/-- Its format is a string and a blank. -/
private theorem separated : Separated format 0x20 := ⟨by decide, rfl⟩

/-- Without a name there are no arguments. -/
private theorem loops_nil {m : Mem} {c : Console} (h : Given lo [] env argc argv envp m) :
    Loops (pass buf argc argv) { i := 1, console := c } (.ok c) := by
  have hdone : ¬ (1 : Int32) < argc := mt (h.lt_argc_iff (n := 1) rfl).mp (Nat.not_lt_zero 1)
  refine .done ?_
  rw [pass, if_neg hdone]
  exact Fueled.ends_pure _

/-- Every argument is written, and a newline behind them. -/
private theorem main_writes {m : Mem} (h : Given lo args env argc argv envp m)
    (hbuf : buf + printfSize ≤ lo)
    (hlen : args.length < 2 ^ 31) (hfits : ∀ s ∈ args.tail, Fits s) :
    Writes (main buf argc argv envp { mem := m, written := [] })
      (args.tail.map (fun s => s.chars ++ [0x20]) ++ [[0x0a]]) := by
  -- the arguments behind the name of the program are printed
  have hloop : ∃ c : Console, Loops (pass buf argc argv) { i := 1, console := ⟨m, []⟩ } (.ok c) ∧
      c.written = args.tail.map fun s => { fd := 1, bytes := s.chars ++ [0x20] } := by
    cases args with
    -- without a name there is no argument either
    | nil => exact ⟨_, loops_nil h, rfl⟩
    | cons name args =>
      obtain ⟨c, hloops, hwritten⟩ := printsEach.loops separated hbuf hlen (i := 1) (n := 1)
        (c := ⟨m, []⟩) rfl (Nat.succ_le_succ (Nat.zero_le _)) h hfits
      exact ⟨c, hloops, by simpa using hwritten⟩
  obtain ⟨c, hloops, hwritten⟩ := hloop
  refine ⟨c.write 1 [0x0a], hloops.ends.bind (Fueled.ends_pure _), ?_⟩
  simp [Console.write, hwritten, stdout, Function.comp_def]

/-- An argument that does not fit ends the run. -/
private theorem main_overflows {m : Mem} (h : Given lo args env argc argv envp m)
    (hbuf : buf + printfSize ≤ lo) (hlen : args.length < 2 ^ 31)
    (hshort : ∀ s ∈ args, s.chars.length < 2 ^ 31) (hfits : ¬ ∀ s ∈ args.tail, Fits s) :
    Ends (main buf argc argv envp { mem := m, written := [] }) (.error .outOfBounds) := by
  have hloops := printsEach.overflows separated hbuf hlen hshort (i := 1) (n := 1) (c := ⟨m, []⟩) rfl
    h (by simpa using hfits)
  exact hloops.ends.bind_error

end Echo

namespace Env

/-- The loop prints one string of the environment after another. -/
private theorem printsEach : PrintsEach buf lo (pass buf envp) format
    (Given lo args env argc argv envp) env where
  keeps hgood hm := hgood.congr hm
  each := by
    intro i n c s r hi hgood hs hends
    obtain ⟨hne, hstring⟩ := hgood.envp.get hi hs
    rw [pass, if_pos hne]
    exact hstring.bind hends
  last := by
    intro i c hi hgood
    have hat := hgood.envp.at hi (Nat.le_refl _)
    rw [List.drop_length] at hat
    rw [pass, if_neg (by simpa [pointerAt] using hat.2)]
    exact Fueled.ends_pure _

/-- Its format is a string and a newline. -/
private theorem separated : Separated format 0x0a := ⟨by decide, rfl⟩

/-- Every string of the environment is written. -/
private theorem main_writes {m : Mem} (h : Given lo args env argc argv envp m)
    (hbuf : buf + printfSize ≤ lo)
    (hlen : env.length < 2 ^ 31) (hfits : ∀ s ∈ env, Fits s) :
    Writes (main buf argc argv envp { mem := m, written := [] })
      (env.map fun s => s.chars ++ [0x0a]) := by
  obtain ⟨c, hloops, hwritten⟩ := printsEach.loops separated hbuf hlen (i := 0) (n := 0)
    (c := ⟨m, []⟩) rfl (Nat.zero_le _) h hfits
  exact ⟨c, hloops.ends.bind (Fueled.ends_pure _), by simpa [stdout, Function.comp_def] using hwritten⟩

/-- One that does not fit ends the run. -/
private theorem main_overflows {m : Mem} (h : Given lo args env argc argv envp m)
    (hbuf : buf + printfSize ≤ lo) (hlen : env.length < 2 ^ 31)
    (hshort : ∀ s ∈ env, s.chars.length < 2 ^ 31) (hfits : ¬ ∀ s ∈ env, Fits s) :
    Ends (main buf argc argv envp { mem := m, written := [] }) (.error .outOfBounds) := by
  have hloops := printsEach.overflows separated hbuf hlen hshort (i := 0) (n := 0) (c := ⟨m, []⟩) rfl
    h hfits
  exact hloops.ends.bind_error

end Env

/-- From `_start` on, `echo` writes its arguments with a blank behind each, and `env` its
    environment with a newline behind each string, and both end with status 0. They store
    outside the buffer of `Printf` if and only if one of the strings is too long for it. -/
theorem echo_env_write {t : Machine.State} (h : Image t.mem (t.regs .rsp) args env)
    (hbuf : buf + printfSize ≤ (t.regs .rsp).toNat) (back : UInt64) :
    ((∀ s ∈ args.tail, Fits s) → Writes (process (Echo.main buf) back t)
      (args.tail.map (fun s => s.chars ++ [0x20]) ++ [[0x0a]])) ∧
    ((¬ ∀ s ∈ args.tail, Fits s) → Ends (process (Echo.main buf) back t) (.error .outOfBounds)) ∧
    ((∀ s ∈ env, Fits s) → Writes (process (Env.main buf) back t)
      (env.map fun s => s.chars ++ [0x0a])) ∧
    ((¬ ∀ s ∈ env, Fits s) → Ends (process (Env.main buf) back t) (.error .outOfBounds)) := by
  have hlow : 8 ≤ (t.regs .rsp).toNat := by
    rw [printfSize] at hbuf
    omega
  obtain ⟨argc, argv, envp, m, hgiven, hmain⟩ := process_eq h hlow back
  rw [hmain, hmain]
  -- all strings are shorter than `2 ^ 31`
  have hargs : ∀ s ∈ args, s.chars.length < 2 ^ 31 := fun s hs =>
    h.string_lt s (List.mem_append_left _ hs)
  have henv : ∀ s ∈ env, s.chars.length < 2 ^ 31 := fun s hs =>
    h.string_lt s (List.mem_append_right _ hs)
  exact ⟨Echo.main_writes hgiven hbuf h.args_lt, Echo.main_overflows hgiven hbuf h.args_lt hargs,
    Env.main_writes hgiven hbuf h.env_lt, Env.main_overflows hgiven hbuf h.env_lt henv⟩

theorem echo_env_write_three :
    Writes (process (Echo.main 0x1000) 0 threeState) [[0x33, 0x20], [0x0a]] ∧
    Writes (process (Env.main 0x1000) 0 threeState) [[0x41, 0x3d, 0x31, 0x0a]] := by
  obtain ⟨hecho, -, henv, -⟩ := @echo_env_write 0x1000 _ _ _ threeState_image (by decide) 0
  exact ⟨hecho (by decide), henv (by decide)⟩

/-! ## `seq` -/

/-- `atoi` of a string that a pointer leads to. -/
theorem Process.atoi_ends {m : Mem} {p : UInt64} {s : CString}
    (hs : Ends (stringAt m p) (.ok (some s))) :
    Ends (Process.atoi m p) ((Atoi.atoi s).mapError fun _ => .overflow) :=
  hs.bind ((Fueled.ends_pure s).bind (Fueled.ends_ofExcept _))

namespace Seq

/-- A number and a newline. -/
def line (v : Int32) : List UInt8 := Printf.Conversion.d.text (.int v) ++ [0x0a]

/-- The lines of `n` numbers. -/
def lines (first : Int) (n : Nat) : List (List UInt8) :=
  (List.range n).map fun k : Nat => line (Int32.ofInt (first + k))

/-- The first line, and the others. -/
private theorem lines_succ (i j : Int32) (hj : j.toInt = i.toInt + 1) (n : Nat) :
    lines i.toInt (n + 1) = line i :: lines j.toInt n := by
  have hnext : ∀ k : Nat, i.toInt + ((k + 1 : Nat) : Int) = j.toInt + k := fun k => by omega
  rw [lines, lines, List.range_succ_eq_map, List.map_cons, List.map_map, Int.ofNat_zero, Int.add_zero,
    Int32.ofInt_toInt]
  congr 1
  refine List.map_congr_left fun k _ => ?_
  rw [Function.comp_apply, ← hnext]

/-- A line is written in one call. -/
private theorem printf_line (buf : Nat) (c : Console) (v : Int32) :
    Ends (printf buf c format [.int v]) (.ok
      { mem := c.mem.write buf (line v ++ [0])
        written := c.written ++ [{ fd := 1, bytes := line v }] }) := by
  -- the format is a number and a newline
  have hpieces : Printf.pieces format.chars = [.conversion .d, .char 0x0a] := rfl
  refine printf_ends c (by decide) ?_ ?_ ?_
  · rw [hpieces]
    exact ⟨trivial, trivial⟩
  · rw [hpieces]
    simp [Printf.expand, line]
  · -- an `int` has at most ten digits, and a sign
    have hlow := v.le_toInt
    have hhigh := v.toInt_lt
    have hdigits := @Printf.length_decimalText_le v.toInt.natAbs (by omega)
    have hsign : (Printf.sign v.toInt).length ≤ 1 := by
      rw [Printf.sign]
      split <;> simp
    simp only [line, Printf.Conversion.text, List.length_append, List.length_singleton, printfSize]
    omega

/-- A pass over a number. -/
private theorem pass_number {i last : Int32} (h : i ≤ last) (c : Console) :
    ∃ c' : Console, c'.written = c.written ++ stdout [line i] ∧
      ∀ r, Ends (advance i c') r → Ends (pass buf last { i := i, console := c }) r := by
  let c' : Console :=
    { mem := c.mem.write buf (line i ++ [0])
      written := c.written ++ [{ fd := 1, bytes := line i }] }
  refine ⟨c', rfl, fun r hr => ?_⟩
  rw [pass, if_pos h]
  exact (printf_line buf c i).bind hr

/-- Behind the last number the loop ends. -/
private theorem pass_done {i last : Int32} (h : ¬ i ≤ last) (c : Console) :
    Ends (pass buf last { i := i, console := c }) (.ok (.done c)) := by
  rw [pass, if_neg h]
  exact Fueled.ends_pure _

/-- The loop, by the number of lines to come. -/
theorem loops {last : Int32} (hlast : last.toInt < 2 ^ 31 - 1) {n : Nat} {i : Int32}
    (hn : n = (last.toInt + 1 - i.toInt).toNat) (c : Console) :
    ∃ c' : Console, c'.written = c.written ++ stdout (lines i.toInt n) ∧
      Loops (pass buf last) { i := i, console := c } (.ok c') := by
  -- induction on how many numbers are left
  induction n generalizing i c with
  | zero =>
    have hgt : ¬ i ≤ last := by
      rw [Int32.le_iff_toInt_le]
      omega
    exact ⟨c, by simp [lines, stdout], .done (pass_done hgt c)⟩
  | succ n ih =>
    -- the next number is not above the last one, and so it is printed
    have hle : i ≤ last := by
      rw [Int32.le_iff_toInt_le]
      omega
    obtain ⟨c₁, hwritten₁, hpass⟩ := @pass_number buf i last hle c
    obtain ⟨j, hj, hadvance⟩ := advance_ends (i := i) (by omega) c₁
    obtain ⟨c₂, hwritten₂, hloops⟩ := @ih j (by omega) c₁
    refine ⟨c₂, ?_, .again (hpass _ hadvance) hloops⟩
    rw [hwritten₂, hwritten₁, lines_succ i j hj]
    simp [stdout]

/-- Behind the greatest `int` there is no next one. -/
theorem overflows {last : Int32} (hlast : last.toInt = 2 ^ 31 - 1) {n : Nat} {i : Int32}
    (hn : i.toInt + n = last.toInt) (c : Console) :
    Loops (pass buf last) { i := i, console := c } (.error .overflow) := by
  have hle : i ≤ last := by
    rw [Int32.le_iff_toInt_le]
    omega
  obtain ⟨c₁, -, hpass⟩ := @pass_number buf i last hle c
  -- induction on the distance to the greatest `int`
  induction n generalizing i c c₁ with
  -- here the increment overflows
  | zero =>
    exact .fault (hpass _ (increment_overflows (by omega)).bind_error)
  | succ n ih =>
    obtain ⟨j, hj, hadvance⟩ := advance_ends (i := i) (by omega) c₁
    have hle' : j ≤ last := by
      rw [Int32.le_iff_toInt_le]
      omega
    obtain ⟨c₂, -, hpass'⟩ := @pass_number buf j last hle' c₁
    exact .again (hpass _ hadvance) (ih (by omega) c₁ hle' c₂ hpass')

/-- One line for each number up to the last one, unless that is the greatest `int`. -/
structure Prints (x : Fueled Crash (Int32 × Console)) (first last : Int32) : Prop where
  ends : ¬ (first ≤ last ∧ last.toInt = 2 ^ 31 - 1) →
    Writes x (lines first.toInt (last.toInt + 1 - first.toInt).toNat)
  overflows : first ≤ last → last.toInt = 2 ^ 31 - 1 → Ends x (.error .overflow)

/-- The loop prints the numbers from the first to the last, by induction on how many there are. -/
private theorem count_prints (first last : Int32) (m : Mem) :
    Prints (count buf first last ⟨m, []⟩) first last where
  ends h := by
    by_cases hlast : last.toInt < 2 ^ 31 - 1
    · obtain ⟨c, hwritten, hloops⟩ := @loops buf last hlast _ first rfl ⟨m, []⟩
      exact ⟨c, hloops.ends.bind (Fueled.ends_pure _), hwritten⟩
    · have hmax := last.toInt_lt
      -- no line is printed, and `i++` is not reached
      have hgt : ¬ first ≤ last := fun hle => h ⟨hle, by omega⟩
      have hnone : (last.toInt + 1 - first.toInt).toNat = 0 := by
        rw [Int32.le_iff_toInt_le] at hgt
        omega
      refine ⟨⟨m, []⟩, (Loops.done (pass_done hgt _)).ends.bind (Fueled.ends_pure _), ?_⟩
      rw [hnone]
      rfl
  overflows hle hlast := by
    rw [Int32.le_iff_toInt_le] at hle
    obtain ⟨n, hn⟩ := Int.eq_ofNat_of_zero_le (a := last.toInt - first.toInt) (by omega)
    exact (@Seq.overflows buf last hlast n first (by omega) ⟨m, []⟩).ends.bind_error

/-- So does anything that ends as it does. -/
private theorem Prints.congr {x y : Fueled Crash (Int32 × Console)} {first last : Int32}
    (h : Prints x first last) (hy : ∀ r, Ends x r → Ends y r) : Prints y first last where
  ends hends := by
    obtain ⟨c, hx, hwritten⟩ := h.ends hends
    exact ⟨c, hy _ hx, hwritten⟩
  overflows hle hlast := hy _ (h.overflows hle hlast)

/-- From `_start` on, `seq` writes the numbers from the first one, or 1, to the last one, a
    line each. When the last one is the greatest `int`, its loop overflows behind it. -/
theorem seq_prints {t : Machine.State} (h : Image t.mem (t.regs .rsp) args env)
    (hlow : 8 ≤ (t.regs .rsp).toNat) (buf : Nat) (back : UInt64) :
    (∀ name l last, args = [name, l] → Atoi.atoi l = .ok last →
      Prints (process (main buf) back t) 1 last) ∧
    (∀ name f l first last, args = [name, f, l] → Atoi.atoi f = .ok first → Atoi.atoi l = .ok last →
      Prints (process (main buf) back t) first last) ∧
    (args.length ≠ 2 → args.length ≠ 3 → Exits (process (main buf) back t) 1 (stdout [usage])) := by
  obtain ⟨argc, argv, envp, m, hgiven, hmain⟩ := process_eq h hlow back
  rw [hmain]
  refine ⟨fun name l last hargs hlast => ?_, fun name f l first last hargs hfirst hlast => ?_,
    fun htwo hthree => ?_⟩
  · -- one argument: it is the last number, and the first one is 1
    have hargc := (hgiven.argc_eq_iff (k := 2) (n := 2) rfl).mpr (by rw [hargs]; rfl)
    have hl := atoi_ends (hgiven.argv.get (i := 1) (n := 1) rfl (by rw [hargs]; rfl)).2
    rw [hlast] at hl
    refine (@count_prints buf 1 last m).congr fun r hr => ?_
    rw [main, if_pos hargc]
    exact hl.bind hr
  · -- two arguments: the first and the last number
    have hargc := (hgiven.argc_eq_iff (k := 3) (n := 3) rfl).mpr (by rw [hargs]; rfl)
    have hf := atoi_ends (hgiven.argv.get (i := 1) (n := 1) rfl (by rw [hargs]; rfl)).2
    have hl := atoi_ends (hgiven.argv.get (i := 2) (n := 2) rfl (by rw [hargs]; rfl)).2
    rw [hfirst] at hf
    rw [hlast] at hl
    refine (@count_prints buf first last m).congr fun r hr => ?_
    rw [main, if_neg (by rw [hargc]; decide), if_pos hargc]
    exact hf.bind (hl.bind hr)
  · -- any other number of arguments is not accepted
    refine ⟨Console.write ⟨m, []⟩ 1 usage, ?_, rfl⟩
    rw [main, if_neg (mt (hgiven.argc_eq_iff (k := 2) (n := 2) rfl).mp htwo),
      if_neg (mt (hgiven.argc_eq_iff (k := 3) (n := 3) rfl).mp hthree)]
    exact Fueled.ends_pure _

theorem seq_prints_three : Writes (process (main 0x1000) 0 threeState) (lines 1 3) := by
  obtain ⟨hcount, -⟩ := seq_prints threeState_image (by decide) 0x1000 0
  have hprints := hcount toolName threeText 3 rfl (by decide)
  exact hprints.ends (by decide)

end Seq

/-! ## `cat` -/

namespace Cat

/-- Every part of the input that was read is written in one call. -/
private theorem copyInput_written (buf : Nat) (input : List Wc.Chunk) (c : Console) :
    (copyInput buf input c).written = c.written ++ stdout (input.map Wc.Chunk.bytes) := by
  induction input generalizing c with
  | nil => simp [copyInput, stdout]
  | cons chunk input ih =>
    rw [copyInput, ih]
    simp [Console.write, Mem.read_write_self, stdout]

/-- `sys_mmap` returns an error number below 4096 as a negative value. -/
def Fails (calls : Calls) (fd : Int32) : Prop :=
  ∃ e : Nat, 0 < e ∧ e < 4096 ∧
    (calls.sysMmap (calls.sysLseek fd).toUInt64 fd).toNat = 2 ^ 64 - e

/-- The file is mapped from the begin of a page on. -/
structure Maps (calls : Calls) (fd : Int32) (bytes : List UInt8) : Prop where
  size : (calls.sysLseek fd).toUInt64.toNat = bytes.length
  page : (calls.sysMmap (calls.sysLseek fd).toUInt64 fd).toNat % 4096 = 0
  holds : ∀ m, (calls.mapped m).read (calls.sysMmap (calls.sysLseek fd).toUInt64 fd).toNat
    bytes.length = bytes

/-- The bits that `mmap` leaves clear are the remainder by the size of a page. -/
private theorem toNat_and_mask (dat : UInt64) : (dat &&& 0xfff).toNat = dat.toNat % 4096 := by
  rw [UInt64.toNat_and]
  exact Nat.and_two_pow_sub_one_eq_mod dat.toNat 12

/-- An error number is told from the begin of a page. -/
private theorem mask_eq_zero_iff (dat : UInt64) : dat &&& 0xfff = 0 ↔ dat.toNat % 4096 = 0 := by
  rw [← UInt64.toNat_inj, toNat_and_mask]
  exact Iff.rfl

/-- The number of an error is rejected. -/
private theorem rejected_of_error {dat : UInt64} {e : Nat} (hpos : 0 < e) (hlt : e < 4096)
    (hdat : dat.toNat = 2 ^ 64 - e) : dat &&& 0xfff ≠ 0 := by
  intro hzero
  have hmod := (mask_eq_zero_iff dat).mp hzero
  omega

/-- The address of a page is accepted. -/
private theorem accepted_of_page {dat : UInt64} (hpage : dat.toNat % 4096 = 0) :
    ¬ (dat = -1 ∨ dat &&& 0xfff ≠ 0) := by
  intro h
  rcases h with rfl | hne
  · exact absurd hpage (by decide)
  · exact hne ((mask_eq_zero_iff dat).mpr hpage)

/-- From `_start` on, `cat` without arguments makes a `sys_write` call for each piece that it
    reads. With one it makes a single call, for all bytes of the file, and ends with status 0
    whatever that call returns; or it ends with status 1 when the file cannot be opened or
    mapped. -/
theorem cat_writes {t : Machine.State} (h : Image t.mem (t.regs .rsp) args env)
    (hlow : 8 ≤ (t.regs .rsp).toNat) (calls : Calls) (input : List Wc.Chunk) (buf : Nat)
    (back : UInt64) :
    (args.length < 2 →
      Writes (process (main calls input buf) back t) (input.map Wc.Chunk.bytes)) ∧
    (∀ name path rest, args = name :: path :: rest →
      (calls.sysOpen (some path) < 0 → Exits (process (main calls input buf) back t) 1 []) ∧
      (¬ calls.sysOpen (some path) < 0 → Fails calls (calls.sysOpen (some path)) →
        Exits (process (main calls input buf) back t) 1 [{ fd := 2, bytes := badMmap }]) ∧
      (¬ calls.sysOpen (some path) < 0 → ∀ bytes, Maps calls (calls.sysOpen (some path)) bytes →
        Writes (process (main calls input buf) back t) [bytes])) := by
  obtain ⟨argc, argv, envp, m, hgiven, hmain⟩ := process_eq h hlow back
  rw [hmain]
  constructor
  · -- without a path the input is copied
    intro hfew
    have hlt : argc < 2 := (hgiven.argc_lt_iff (n := 2) rfl).mpr hfew
    refine ⟨copyInput buf input ⟨m, []⟩, ?_, copyInput_written buf input ⟨m, []⟩⟩
    rw [main, if_pos hlt]
    exact Fueled.ends_pure _
  · -- with one its file is opened and mapped
    intro name path rest hargs
    have hge : ¬ argc < 2 := mt (hgiven.argc_lt_iff (n := 2) rfl).mp (by simp [hargs])
    have hpath := (hgiven.argv.get (i := 1) (n := 1) rfl (by rw [hargs]; rfl)).2
    rw [main, if_neg hge]
    refine ⟨fun hfd => ?_, fun hfd hfails => ?_, fun hfd bytes hmaps => ?_⟩
    · -- the file is not there
      refine ⟨⟨m, []⟩, hpath.bind ?_, rfl⟩
      rw [if_pos hfd]
      exact Fueled.ends_pure _
    · -- it cannot be mapped
      obtain ⟨e, hpos, hlt, hdat⟩ := hfails
      refine ⟨Console.write ⟨calls.mapped m, []⟩ 2 badMmap, hpath.bind ?_, rfl⟩
      rw [if_neg hfd, if_pos (.inr (rejected_of_error hpos hlt hdat))]
      exact Fueled.ends_pure _
    · -- it is mapped, and written in one call
      refine ⟨Console.write ⟨calls.mapped m, []⟩ 1 bytes, hpath.bind ?_, rfl⟩
      rw [if_neg hfd, if_neg (accepted_of_page hmaps.page), hmaps.size, hmaps.holds m]
      exact Fueled.ends_pure _

/-- A file of one byte at 0x3000. -/
theorem cat_writes_three :
    Writes (process (main ⟨fun _ => 3, fun _ => 1, fun _ _ => 0x3000, fun m => m.write 0x3000 [0x37]⟩
      [] 0x2000) 0 threeState) [[0x37]] := by
  obtain ⟨-, hfile⟩ := cat_writes threeState_image (by decide)
    ⟨fun _ => 3, fun _ => 1, fun _ _ => 0x3000, fun m => m.write 0x3000 [0x37]⟩ [] 0x2000 0
  obtain ⟨-, -, hmaps⟩ := hfile toolName threeText [] rfl
  exact hmaps (by decide) [0x37] ⟨by decide, by decide, fun m => Mem.read_write_self m 0x3000 [0x37]⟩

end Cat

end Tlibc
