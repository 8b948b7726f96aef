import Mathlib.Logic.Relation
import Tlibc.Spec.Stdio

/-!
# Where `fdgets` stores

`fdgets` gets no size: where it stops is decided by the characters it takes and by
what the line buffer holds at the end of a chunk. `fdgetsStores` lists the addresses
a call stores to, `taken` the characters it takes, from the state before the call.

* `fdgets_inside_iff`: a call stores inside the line buffer if and only if what it
  takes fits there
* `loop_inside_iff`: it is so in every run of the loops of `sh.c` and `eval.c`, and
  all is well when every line is short enough
-/

namespace Tlibc.Stdio

open BufferedReader

/-! ## What a call touches -/

/-- The addresses `copy_buf` stores to. -/
def copyStores (br : BufferedReader) (dst : Nat) : List Nat :=
  if br.start = br.stop then []
  else
    let c := br.buf br.start
    if c = 0 then copyStores br.advance dst
    else if c = newline then [dst, dst + 1]
    else dst :: copyStores br.advance (dst + 1)
termination_by br.count
decreasing_by all_goals exact Nat.lt_of_succ_le (Nat.le_of_eq (br.count_advance ‹_›).symm)

/-- The addresses `fdgets` stores to. -/
def fdgetsStores (br : BufferedReader) (input : List Chunk) (m : Mem) (dst : Nat) : List Nat :=
  let f := fillBuf br input
  if f.ret then
    let c := copyBuf f.br m dst
    if c.mem c.dst = 0 then
      copyStores f.br dst
    else
      copyStores f.br dst ++ fdgetsStores c.br f.input c.mem c.dst
  else
    []
termination_by (input.length, br.count)
decreasing_by exact pass_lt m dst ‹_›

/-- The indices of `br->buf` that `fill_buf` has `sys_read` store to. -/
def fillIndices (br : BufferedReader) (input : List Chunk) : List Nat :=
  if br.start = br.stop then
    match input with
    | [] => []
    | c :: _ => List.range c.bytes.length
  else
    []

/-- The indices `copy_buf` uses on `br->buf`. -/
def copyIndices (br : BufferedReader) : List Nat :=
  if br.start = br.stop then []
  else if br.buf br.start = newline then [br.start.val]
  else br.start.val :: copyIndices br.advance
termination_by br.count
decreasing_by exact Nat.lt_of_succ_le (Nat.le_of_eq (br.count_advance ‹_›).symm)

/-- The indices `fdgets` uses on `br->buf`. -/
def fdgetsIndices (br : BufferedReader) (input : List Chunk) (m : Mem) (dst : Nat) : List Nat :=
  let f := fillBuf br input
  if f.ret then
    let c := copyBuf f.br m dst
    if c.mem c.dst = 0 then
      fillIndices br input ++ copyIndices f.br
    else
      fillIndices br input ++ copyIndices f.br ++ fdgetsIndices c.br f.input c.mem c.dst
  else
    fillIndices br input
termination_by (input.length, br.count)
decreasing_by exact pass_lt m dst ‹_›

/-- `fill_buf` stays inside the buffer. -/
private theorem fillIndices_lt (br : BufferedReader) (input : List Chunk) :
    ∀ i ∈ fillIndices br input, i < 2048 := by
  intro i hi
  unfold fillIndices at hi
  split at hi
  · cases input with
    | nil => cases hi
    | cons c input => exact Nat.lt_of_lt_of_le (List.mem_range.mp hi) c.length_le
  · cases hi

/-- So does the loop that copies from it. -/
private theorem copyIndices_lt (br : BufferedReader) : ∀ i ∈ copyIndices br, i < 2048 := by
  fun_induction copyIndices br with
  | case1 => simp
  | case2 br => simp
  | case3 br _ _ ih => simpa using ih

/-- So does `fdgets`. -/
private theorem fdgetsIndices_lt (br : BufferedReader) (input : List Chunk) (m : Mem) (dst : Nat) :
    ∀ i ∈ fdgetsIndices br input m dst, i < 2048 := by
  have hpass : ∀ br input, ∀ i ∈ fillIndices br input ++ copyIndices (fillBuf br input).br,
      i < 2048 := by
    intro br input i hi
    exact (List.mem_append.mp hi).elim (fillIndices_lt _ _ i) (copyIndices_lt _ i)
  fun_induction fdgetsIndices br input m dst with
  | case1 br input m dst => exact hpass br input
  | case2 br input m dst f _ c _ ih =>
    intro i hi
    exact (List.mem_append.mp hi).elim (hpass br input i) (ih i)
  | case3 br input m dst => exact fillIndices_lt br input

/-! ## Characters -/

/-- The bytes that are copied: a NUL is not. -/
def chars (p : List UInt8) : List UInt8 := p.filter (· ≠ 0)

/-- The characters of two strings. -/
private theorem chars_append (p q : List UInt8) : chars (p ++ q) = chars p ++ chars q :=
  List.filter_append p q

/-- A NUL is skipped. -/
private theorem chars_nul (p : List UInt8) : chars (0 :: p) = chars p :=
  List.filter_cons_of_neg (by simp)

/-- Any other character is kept. -/
private theorem chars_cons {b : UInt8} (hb : b ≠ 0) (p : List UInt8) :
    chars (b :: p) = b :: chars p :=
  List.filter_cons_of_pos (by simpa using hb)

/-- How many bytes it takes to store the first line of `t`, with a NUL behind a complete
    one. -/
def width (t : List UInt8) : Nat :=
  if newline ∈ t then (t.takeWhile (· ≠ newline)).length + 2 else t.length

/-- Without a newline a string takes as many bytes as it has. -/
private theorem width_of_notMem {t : List UInt8} (h : newline ∉ t) : width t = t.length := if_neg h

/-- A line takes its characters, the newline and a NUL. -/
private theorem width_line {l : List UInt8} (h : newline ∉ l) (rest : List UInt8) :
    width (l ++ newline :: rest) = l.length + 2 := by
  have hall : ∀ b ∈ l, (b ≠ newline : Bool) = true := fun b hb => by
    simpa using fun heq : b = newline => h (heq ▸ hb)
  rw [width, if_pos (by simp), List.takeWhile_append_of_pos hall,
    List.takeWhile_cons_of_neg (by simp), List.append_nil]

/-- In front of the first newline the characters count as they are. -/
private theorem width_append {t : List UInt8} (h : newline ∉ t) (u : List UInt8) :
    width (t ++ u) = t.length + width u := by
  by_cases hu : newline ∈ u
  · obtain ⟨l, rest, rfl, hl⟩ := List.eq_append_cons_of_mem hu
    rw [width_line hl, ← List.append_assoc, width_line (by simp [h, hl]), List.length_append,
      Nat.add_assoc]
  · rw [width_of_notMem hu, width_of_notMem (by simp [h, hu]), List.length_append]

/-! ## A pass -/

/-- What `copy_buf` does to the characters `t` that are pending. -/
inductive CopiedChars (t : List UInt8) (m : Mem) (dst : Nat) (c : Cursor) : Prop where
  | line (l rest : List UInt8) (pending : t = l ++ newline :: rest) (first : newline ∉ l)
      (mem : c.mem = m.write dst (l ++ [newline, 0])) (pointer : c.dst = dst + l.length + 1)
      (left : chars c.br.pending = rest)
  | all (pending : newline ∉ t) (mem : c.mem = m.write dst t) (pointer : c.dst = dst + t.length)
      (left : c.br.pending = [])

/-- The characters behind the start of the buffer are copied. -/
private theorem copyBuf_copiedChars (br : BufferedReader) (m : Mem) (dst : Nat) :
    CopiedChars (chars br.pending) m dst (copyBuf br m dst) := by
  obtain ⟨p, hp⟩ : ∃ p, br.pending = p := ⟨_, rfl⟩
  rw [hp]
  -- induction on what is pending
  induction p generalizing br m dst with
  | nil =>
    rw [copyBuf, if_pos (pending_eq_nil.mp hp)]
    exact .all List.not_mem_nil (Mem.write_nil m dst).symm rfl hp
  | cons b p ih =>
    obtain ⟨hleft, hcopy⟩ := copyBuf_cons m dst hp
    rw [hcopy]
    -- a NUL is skipped
    by_cases hnul : b = 0
    · rw [if_pos hnul, hnul, chars_nul]
      exact ih br.advance m dst hleft
    rw [if_neg hnul, chars_cons hnul]
    by_cases hb : b = newline
    · rw [if_pos hb, hb]
      exact .line [] (chars p) rfl List.not_mem_nil (Mem.write_append m dst [newline] [0]) rfl
        (congrArg chars hleft)
    · rw [if_neg hb]
      -- any other character is written in front of what follows
      have happ : ∀ bs, (m.write dst [b]).write (dst + 1) bs = m.write dst (b :: bs) :=
        fun bs => Mem.write_append m dst [b] bs
      cases ih br.advance (m.write dst [b]) (dst + 1) hleft with
      | line l rest hpend hfirst hmem hptr hrest =>
        rw [happ] at hmem
        exact .line (b :: l) rest (by rw [hpend, List.cons_append])
          (by simp [Ne.symm hb, hfirst]) hmem (by rw [hptr, List.length_cons]; omega) hrest
      | all hpend hmem hptr hrest =>
        rw [happ] at hmem
        exact .all (by simp [Ne.symm hb, hpend]) hmem (by rw [hptr, List.length_cons]; omega) hrest

/-- It stores behind `dst`, as much as the first line of the characters takes. -/
private theorem copyStores_eq (br : BufferedReader) (dst : Nat) :
    copyStores br dst = List.range' dst (width (chars br.pending)) := by
  fun_induction copyStores br dst with
  -- the four ways of the loop: the end of the buffer, a NUL, a newline, another character
  | case1 br dst hempty =>
    rw [pending_eq_nil.mpr hempty]
    rfl
  | case2 br dst hne c hnul ih =>
    have hbyte : br.buf br.start = 0 := hnul
    rw [pending_advance hne, hbyte, chars_nul, ih]
  | case3 br dst hne c hnul hline =>
    have hchars : chars br.pending = [] ++ newline :: chars br.advance.pending := by
      rw [pending_advance hne, chars_cons hnul]
      exact congrArg (· :: _) hline
    rw [hchars, width_line List.not_mem_nil]
    rfl
  | case4 br dst hne c hnul hline ih =>
    have hsingle : newline ∉ [c] := by simpa using Ne.symm hline
    have hchars : chars br.pending = [c] ++ chars br.advance.pending := by
      rw [pending_advance hne, chars_cons hnul]
      rfl
    rw [hchars, width_append hsingle, ih, List.length_singleton, Nat.add_comm 1, List.range'_succ]

/-! ## A call -/

/-- The characters that the passes of `fdgets` find pending, one after another. -/
def segments (br : BufferedReader) (input : List Chunk) : List (List UInt8) :=
  (if br.pending = [] then [] else [chars br.pending]) ++ input.map fun c => chars (kept [c])

/-- The characters a call takes: those of the passes up to the first that finds a newline,
    or behind which memory holds a 0. -/
def taken (m : Mem) (dst : Nat) : List (List UInt8) → List UInt8
  | [] => []
  | t :: ts =>
    if newline ∈ t ∨ m (dst + t.length) = 0 then t else t ++ taken m (dst + t.length) ts

/-- What is taken depends on the memory from the destination on. -/
private theorem taken_congr {m m' : Mem} {dst : Nat} (h : ∀ a, dst ≤ a → m' a = m a)
    (ts : List (List UInt8)) : taken m' dst ts = taken m dst ts := by
  induction ts generalizing dst with
  | nil => rfl
  | cons t ts ih =>
    rw [taken, taken, h _ (Nat.le_add_right _ _), ih fun a ha => h a (by omega)]

/-- What is taken is an initial part of what there is. -/
private theorem taken_prefix (m : Mem) (dst : Nat) (ts : List (List UInt8)) :
    taken m dst ts <+: ts.flatten := by
  induction ts generalizing dst with
  | nil => exact List.nil_prefix
  | cons t ts ih =>
    rw [taken, List.flatten_cons]
    split
    · exact List.prefix_append t _
    · exact (List.prefix_append_right_inj t).mpr (ih _)

/-- Together the segments are all characters that are left. -/
private theorem segments_flatten (br : BufferedReader) (input : List Chunk) :
    (segments br input).flatten = chars (br.pending ++ kept input) := by
  have hrest : (input.map fun c => chars (kept [c])).flatten = chars (kept input) := by
    induction input with
    | nil => rfl
    | cons c input ih => rw [List.map_cons, List.flatten_cons, ih, kept_cons c input, chars_append]
  rw [segments, List.flatten_append, hrest, chars_append]
  split
  next hnil =>
    rw [hnil]
    rfl
  next => rw [List.flatten_singleton]

/-- `fill_buf` makes the first of them pending. -/
private theorem segments_fillBuf {br : BufferedReader} {input : List Chunk}
    (hret : (fillBuf br input).ret = true) :
    segments br input = chars (fillBuf br input).br.pending ::
      (fillBuf br input).input.map fun c => chars (kept [c]) := by
  obtain ⟨pre, hinput, hpend, hread, hpre⟩ := fillBuf_read hret
  rcases hpre with hnil | ⟨hempty, hone⟩
  · have hne := hread.resolve_right (absurd hnil)
    rw [hnil, List.nil_append] at hinput
    rw [hnil] at hpend
    rw [segments, if_neg hne, hpend, ← hinput]
    simp [kept, stream]
  · obtain ⟨c, rfl⟩ := List.length_eq_one_iff.mp hone
    rw [hempty, List.nil_append] at hpend
    rw [segments, if_pos hempty, hpend]
    conv => lhs; rw [hinput]
    rfl

/-- With an empty buffer every piece of the input is a segment. -/
private theorem segments_of_empty {br : BufferedReader} (h : br.pending = []) (input : List Chunk) :
    segments br input = input.map fun c => chars (kept [c]) := by
  rw [segments, if_pos h, List.nil_append]

/-- A list of addresses that ascend one by one lies below `limit` when its end does. -/
private theorem range'_inside {lo dst n limit : Nat} (hlo : lo ≤ dst) (hdst : dst ≤ limit) :
    (∀ a ∈ List.range' dst n, lo ≤ a ∧ a < limit) ↔ dst + n ≤ limit := by
  constructor
  · intro h
    cases n with
    | zero => exact hdst
    | succ n =>
      have hlast := (h (dst + n) (List.mem_range'_1.mpr (by omega))).2
      omega
  · intro h a ha
    have ha := List.mem_range'_1.mp ha
    omega

/-- A call stays inside the limit exactly when what it takes does. -/
theorem fdgets_inside_iff {lo dst limit : Nat} (br : BufferedReader) (input : List Chunk) (m : Mem)
    (hlo : lo ≤ dst) (hdst : dst ≤ limit) :
    (∀ a ∈ fdgetsStores br input m dst, lo ≤ a ∧ a < limit) ↔
      dst + width (taken m dst (segments br input)) ≤ limit := by
  fun_induction fdgetsStores br input m dst with
  | case1 br input m dst f hfill c hzero =>
    -- the call ends with this pass: a line was copied, or there was a 0 behind it all along
    have hstop : newline ∈ chars f.br.pending ∨ m (dst + (chars f.br.pending).length) = 0 := by
      cases copyBuf_copiedChars f.br m dst with
      | line l rest hpend =>
        rw [hpend]
        exact .inl (by simp)
      | all _ hmem hptr =>
        have hzero : (copyBuf f.br m dst).mem (copyBuf f.br m dst).dst = 0 := hzero
        rw [hmem, hptr, Mem.write_apply_out (by omega)] at hzero
        exact .inr hzero
    rw [copyStores_eq, segments_fillBuf hfill, taken, if_pos hstop, range'_inside hlo hdst]
  | case2 br input m dst f hfill c hzero ih =>
    have hzero : (copyBuf f.br m dst).mem (copyBuf f.br m dst).dst ≠ 0 := hzero
    cases copyBuf_copiedChars f.br m dst with
    | line l rest _ _ hmem hptr _ =>
      -- behind a line there is the NUL that was stored
      rw [hmem, hptr] at hzero
      exact absurd (write_line_nul m dst l) hzero
    | all hpart hmem hptr hleft =>
      have hptr : c.dst = dst + (chars f.br.pending).length := hptr
      have hgo : ¬ (newline ∈ chars f.br.pending ∨
          m (dst + (chars f.br.pending).length) = 0) := by
        rw [hmem, hptr, Mem.write_apply_out (by omega)] at hzero
        exact not_or.mpr ⟨hpart, hzero⟩
      -- the pass stored in front of where the next one looks
      have hrest : taken c.mem c.dst (segments c.br f.input) =
          taken m (dst + (chars f.br.pending).length) (f.input.map fun c => chars (kept [c])) := by
        rw [segments_of_empty hleft, hptr]
        refine taken_congr (fun a ha => ?_) _
        show (copyBuf f.br m dst).mem a = m a
        rw [hmem, Mem.write_apply_out (by omega)]
      rw [segments_fillBuf hfill, taken, if_neg hgo, width_append hpart, ← Nat.add_assoc, ← hrest,
        ← hptr, List.forall_mem_append, copyStores_eq, range'_inside hlo hdst,
        width_of_notMem hpart, ← hptr]
      constructor
      · intro h
        exact (ih (by omega) h.1).mp h.2
      · intro h
        have hle : c.dst ≤ limit := by omega
        exact ⟨hle, (ih (by omega) hle).mpr h⟩
  | case3 br input m dst f hfill =>
    obtain ⟨hp, hinput, -⟩ := fillBuf_eof (Bool.eq_false_iff.mpr hfill)
    rw [segments_of_empty hp, hinput]
    exact iff_of_true (fun _ ha => absurd ha List.not_mem_nil) hdst

/-- What a call leaves is the end of what it found. -/
private theorem fdgets_suffix (br : BufferedReader) (input : List Chunk) (m : Mem) (dst : Nat) :
    chars ((fdgets br input m dst).br.pending ++ kept (fdgets br input m dst).input) <:+
      chars (br.pending ++ kept input) := by
  have hpass : ∀ (br : BufferedReader) (input : List Chunk) (m : Mem) (dst : Nat),
      (fillBuf br input).ret = true →
      chars ((copyBuf (fillBuf br input).br m dst).br.pending ++ kept (fillBuf br input).input) <:+
        chars (br.pending ++ kept input) := by
    intro br input m dst hret
    obtain ⟨pre, hinput, hpend, -, -⟩ := fillBuf_read hret
    conv => rhs; rw [hinput, kept_append, ← List.append_assoc, ← hpend]
    rw [chars_append, chars_append]
    cases copyBuf_copiedChars (fillBuf br input).br m dst with
    | line l rest hline _ _ _ hleft =>
      -- what is behind the newline stays pending
      rw [hline, hleft]
      exact ⟨l ++ [newline], by simp⟩
    | all _ _ _ hleft =>
      rw [hleft]
      exact List.suffix_append _ _
  fun_induction fdgets br input m dst with
  | case1 br input m dst f hfill c => exact hpass br input m dst hfill
  | case2 br input m dst f hfill c _ ih => exact ih.trans (hpass br input m dst hfill)
  | case3 br input m dst f hfill =>
    obtain ⟨-, -, hleft, hend⟩ := fillBuf_eof (Bool.eq_false_iff.mpr hfill)
    show chars (f.br.pending ++ kept f.input) <:+ _
    rw [hleft, hend]
    exact List.nil_suffix

/-! ## The loops -/

/-- The programs with a loop `while (fdgets(&br, buf, 0))`. -/
inductive Program where
  | sh
  | eval

/-- Whether the loop goes on behind a line that starts with `c`: `eval` stops at a `q`. -/
def Program.goesOn : Program → UInt8 → Bool
  | sh, _ => true
  | eval, c => c ≠ 0x71

/-- The state at the head of such a loop. -/
structure State where
  br : BufferedReader
  input : List Chunk
  mem : Mem

namespace State

/-- The state behind `br.start = br.end = 0`. -/
def entered (br : BufferedReader) (input : List Chunk) (m : Mem) : State :=
  { br := br.reset, input := input, mem := m }

/-- The call in the condition. The line buffer is at `buf`. -/
def got (buf : Nat) (s : State) : Got := fdgets s.br s.input s.mem buf

/-- The characters that are to come. -/
def text (s : State) : List UInt8 := chars (s.br.pending ++ kept s.input)

/-- The characters the call takes. -/
def taken (buf : Nat) (s : State) : List UInt8 :=
  Stdio.taken s.mem buf (segments s.br s.input)

end State

/-- A pass of the loop. Its body leaves the line buffer alone; what it does to the rest of
    memory is not said. -/
structure Next (p : Program) (buf : Nat) (s s' : State) : Prop where
  ret : (s.got buf).ret = true
  goesOn : p.goesOn ((s.got buf).mem buf) = true
  br : s'.br = (s.got buf).br
  input : s'.input = (s.got buf).input
  line : s'.mem.read buf 2048 = (s.got buf).mem.read buf 2048

/-- The states at the head of the loop in a run from `s`. -/
def Reached (p : Program) (buf : Nat) : State → State → Prop := Relation.ReflTransGen (Next p buf)

/-- Every character the call stores is in the line buffer, and every index it uses on the
    reader's buffer is in range. -/
def Inside (buf : Nat) (s : State) : Prop :=
  (∀ a ∈ fdgetsStores s.br s.input s.mem buf, buf ≤ a ∧ a < buf + 2048) ∧
    ∀ i ∈ fdgetsIndices s.br s.input s.mem buf, i < 2048

/-- The first line of what the call takes fits into the line buffer, a NUL behind it if it
    is complete. -/
def Fits (buf : Nat) (s : State) : Prop := width (s.taken buf) ≤ 2048

/-- A call stays inside its destination exactly when what it takes fits. -/
private theorem inside_iff (buf : Nat) (s : State) : Inside buf s ↔ Fits buf s := by
  unfold Inside Fits
  rw [and_iff_left (fdgetsIndices_lt _ _ _ _),
    fdgets_inside_iff s.br s.input s.mem (Nat.le_refl buf) (Nat.le_add_right buf 2048)]
  exact Nat.add_le_add_iff_left

/-- Every line of `t` fits into the line buffer, with its newline and a NUL, and so does
    what is behind the last. -/
def ShortLines (t : List UInt8) : Prop :=
  ∀ l, newline ∉ l →
    (l <:+: t → l.length ≤ 2048) ∧ (l ++ [newline] <:+: t → l.length + 2 ≤ 2048)

/-- A part of a text with short lines has short lines. -/
private theorem ShortLines.of_infix {t u : List UInt8} (h : ShortLines t) (hu : u <:+: t) :
    ShortLines u := by
  intro l hl
  exact ⟨fun hin => (h l hl).1 (hin.trans hu), fun hin => (h l hl).2 (hin.trans hu)⟩

/-- The first line takes at most 2048 bytes. -/
private theorem ShortLines.width_le {t : List UInt8} (h : ShortLines t) : width t ≤ 2048 := by
  by_cases hline : newline ∈ t
  · obtain ⟨l, rest, rfl, hl⟩ := List.eq_append_cons_of_mem hline
    rw [width_line hl]
    exact (h l hl).2 ⟨[], rest, by simp⟩
  · rw [width_of_notMem hline]
    exact (h t hline).1 (List.infix_refl t)

/-- A step leaves the end of the text. -/
private theorem text_suffix {p : Program} {buf : Nat} {s s' : State} (h : Next p buf s s') :
    s'.text <:+ s.text := by
  unfold State.text
  rw [h.br, h.input]
  exact fdgets_suffix s.br s.input s.mem buf

/-- So do all steps. -/
private theorem reached_suffix {p : Program} {buf : Nat} {s s' : State} (h : Reached p buf s s') :
    s'.text <:+ s.text := by
  induction h with
  | refl => exact List.suffix_refl _
  | tail _ hnext ih => exact (text_suffix hnext).trans ih

/-- With short lines what is taken fits. -/
private theorem fits_of_shortLines {buf : Nat} {s : State} (h : ShortLines s.text) :
    Fits buf s := by
  have hprefix := taken_prefix s.mem buf (segments s.br s.input)
  rw [segments_flatten] at hprefix
  exact (h.of_infix hprefix.isInfix).width_le

theorem loop_inside_iff (p : Program) (buf : Nat) (br : BufferedReader) (input : List Chunk)
    (m : Mem) :
    ((∀ s, Reached p buf (.entered br input m) s → Inside buf s) ↔
      ∀ s, Reached p buf (.entered br input m) s → Fits buf s) ∧
    (ShortLines (chars (kept input)) →
      ∀ s, Reached p buf (.entered br input m) s → Inside buf s) := by
  refine ⟨?_, fun hshort s hs => ?_⟩
  · constructor
    · intro h s hs
      exact (inside_iff buf s).mp (h s hs)
    · intro h s hs
      exact (inside_iff buf s).mpr (h s hs)
  · -- at the start the text is what the input holds
    have htext : (State.entered br input m).text = chars (kept input) := by
      unfold State.text
      rw [show (State.entered br input m).br.pending = [] from pending_eq_nil.mpr rfl,
        List.nil_append]
      rfl
    -- all that is left later on is a part of it
    rw [← htext] at hshort
    exact (inside_iff buf s).mpr
      (fits_of_shortLines (hshort.of_infix (reached_suffix hs).isInfix))

/-- Two lines of 2 and 2049 characters, of which a `sys_read` delivers the first, then the
    first two characters of the second. -/
def longLine : List Chunk :=
  [⟨[0x61, 0x61, newline], by decide, by decide⟩, ⟨[0x61, 0x61], by decide, by decide⟩,
    ⟨List.replicate 2047 0x61, List.cons_ne_nil _ _, by rw [List.length_replicate]; decide⟩]

/-- The loop of `sh` at its start, with the line buffer at 0. -/
def longLineStart : State := .entered .zero longLine fun _ => 0

/-- A call that finds a complete line pending stores that line. -/
theorem fdgets_line (br : BufferedReader) (input : List Chunk) (m : Mem) (dst : Nat)
    {l rest : List UInt8} (hret : (fillBuf br input).ret = true)
    (hpend : (fillBuf br input).br.pending = l ++ newline :: rest) (hl : newline ∉ l)
    (hnul : 0 ∉ (fillBuf br input).br.pending) :
    (fdgets br input m dst).ret = true ∧
      (fdgets br input m dst).input = (fillBuf br input).input ∧
      (fdgets br input m dst).br.pending = rest ∧
      (fdgets br input m dst).mem = m.write dst (l ++ [newline, 0]) := by
  rw [fdgets, if_pos hret]
  cases copyBuf_copied (fillBuf br input).br m dst hnul with
  | line l' rest' hpend' hl' hmem hptr hleft =>
    rw [hpend] at hpend'
    -- the first newline is the end of the line
    obtain ⟨rfl, rfl⟩ := Lines.append_sep_inj hl hl' hpend'
    have hzero : (copyBuf (fillBuf br input).br m dst).mem
        (copyBuf (fillBuf br input).br m dst).dst = 0 := by
      rw [hmem, hptr]
      exact write_line_nul m dst l
    rw [if_pos hzero]
    exact ⟨rfl, rfl, hleft, hmem⟩
  -- there is a newline among what is pending
  | all hpart =>
    rw [hpend] at hpart
    exact absurd (by simp) hpart

theorem longLine_overruns :
    ¬ ∀ s, Reached .sh 0 longLineStart s → Inside 0 s := by
  intro h
  have hpend : (fillBuf longLineStart.br longLine).br.pending = [0x61, 0x61] ++ newline :: [] :=
    pending_read (fun _ => 0) ⟨[0x61, 0x61, newline], by decide, by decide⟩
  obtain ⟨hret, hinput, hleft, hmem⟩ := fdgets_line longLineStart.br longLine longLineStart.mem 0
    rfl hpend (by decide) (by rw [hpend]; decide)
  obtain ⟨s, hs⟩ : ∃ s, s = State.mk (longLineStart.got 0).br longLine.tail
      (longLineStart.got 0).mem := ⟨_, rfl⟩
  have hnext : Next .sh 0 longLineStart s := by
    rw [hs]
    exact ⟨hret, rfl, rfl, hinput.symm, rfl⟩
  have hfits := (inside_iff 0 s).mp (h s (.single hnext))
  have hpart : newline ∉ List.replicate 2047 (0x61 : UInt8) := fun hin =>
    absurd (List.eq_of_mem_replicate hin) (by decide)
  have hsegments : segments s.br s.input = [[0x61, 0x61], List.replicate 2047 0x61] := by
    have hchars : chars (List.replicate 2047 0x61) = List.replicate 2047 0x61 :=
      List.filter_replicate_of_pos (by decide)
    rw [segments_of_empty (by rw [hs]; exact hleft), hs]
    show [chars (kept [_]), chars (kept [_])] = _
    rw [kept_singleton, kept_singleton, if_neg (by decide), if_neg (by
      rw [List.length_replicate]; decide), hchars]
    rfl
  -- memory holds the newline of the first line where the second chunk ends
  have hgo : ¬ (newline ∈ ([0x61, 0x61] : List UInt8) ∨ s.mem 2 = 0) := by
    rw [hs]
    show ¬ (_ ∨ (fdgets longLineStart.br longLine longLineStart.mem 0).mem 2 = 0)
    rw [hmem]
    decide
  have hlast : ∀ dst, taken s.mem dst [List.replicate 2047 0x61] = List.replicate 2047 0x61 := by
    intro dst
    rw [taken, taken, List.append_nil, ite_self]
  have htaken : s.taken 0 = [0x61, 0x61] ++ List.replicate 2047 0x61 := by
    rw [State.taken, hsegments, taken]
    exact (if_neg hgo).trans (congrArg _ (hlast 2))
  rw [Fits, htaken, width_append (by decide), width_of_notMem hpart, List.length_replicate]
    at hfits
  exact absurd hfits (by decide)

end Tlibc.Stdio
