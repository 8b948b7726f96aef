import Tlibc.Native.Session
import Tlibc.Spec.Eval
import Tlibc.Spec.Numerals
import Tlibc.Spec.ShLaunch
import Tlibc.Spec.StdioBounds

/-!
# Whole sessions of the shell and of the evaluator

A terminal delivers complete lines: a `sys_read` returns some of those that were typed. How
many at a time makes no difference to either program.

* `forLines_lines`: the body of the loop is run on the lines of the input, one after another
* `sh_session`: the shell runs the pipelines of a script in order, up to a line that ends it
* `eval_session`: the evaluator writes the value of each expression it is given, and for a
  value of 0 an empty line
-/

namespace Tlibc.Stdio

/-- What a `sys_read` stores from a terminal: complete lines that do not fill the buffer. -/
structure Chunk.Whole (c : Chunk) : Prop where
  short : c.bytes.length < 2048
  ends : c.bytes.getLast? = some newline
  nulFree : 0 ∉ c.bytes

/-- The body, run on lines up to one that ends the loop. -/
def onLines {ε : Type} (body : List UInt8 → List ε × Bool) : List (List UInt8) → List ε
  | [] => []
  | line :: lines =>
    let (events, goesOn) := body line
    if goesOn then events ++ onLines body lines else events

variable {ε : Type} {body : Mem → List UInt8 → Body ε} {lines : List UInt8 → List ε × Bool}
    {br : BufferedReader} {input : List Chunk}

/-- Less than the whole buffer is pending. -/
private theorem length_pending_lt (br : BufferedReader) : br.pending.length < 2048 := by
  rw [BufferedReader.pending, List.length_map, List.length_range]
  exact Fin.isLt _

/-- A part of the input that ends in a newline has a first line, and so does the rest. -/
private theorem first_line {t : List UInt8} (h : t.getLast? = some newline) : ∃ l rest,
    t = l ++ newline :: rest ∧ newline ∉ l ∧ (rest = [] ∨ rest.getLast? = some newline) := by
  -- induction on the text
  induction t with
  | nil => cases h
  | cons c t ih =>
    by_cases hc : c = newline
    · -- the line ends here, and what is behind it ends as the whole text does
      refine ⟨[], t, by rw [hc]; rfl, List.not_mem_nil, ?_⟩
      cases t with
      | nil => exact .inl rfl
      | cons d t => exact .inr (by rwa [List.getLast?_cons_cons] at h)
    · cases t with
      -- the last character is a newline, and this one is not
      | nil => exact absurd (Option.some.inj h) hc
      | cons d t =>
        rw [List.getLast?_cons_cons] at h
        obtain ⟨l, rest, heq, hl, hrest⟩ := ih h
        refine ⟨c :: l, rest, by rw [heq]; rfl, ?_, hrest⟩
        simp [Ne.symm hc, hl]

/-- What is pending ends in a newline, and so does every chunk to come. -/
structure Whole (br : BufferedReader) (input : List Chunk) : Prop where
  pending : br.pending = [] ∨ br.pending.getLast? = some newline
  nulFree : 0 ∉ br.pending
  input : ∀ c ∈ input, c.Whole

/-- The buffer is filled with whole lines. -/
private theorem Whole.fill (h : Whole br input) (hret : (fillBuf br input).ret = true) :
    ∃ l rest, (fillBuf br input).br.pending = l ++ newline :: rest ∧ newline ∉ l ∧
      (rest = [] ∨ rest.getLast? = some newline) ∧ 0 ∉ (fillBuf br input).br.pending ∧
      (∀ c ∈ (fillBuf br input).input, c.Whole) ∧
      br.pending ++ stream input = l ++ newline :: (rest ++ stream (fillBuf br input).input) := by
  obtain ⟨pre, hinput, hpend, hread, hpre⟩ := fillBuf_read hret
  have hwhole := h.input
  rw [hinput] at hwhole
  -- chunks of whole lines are shorter than the buffer
  have hkept : kept pre = stream pre :=
    kept_eq_stream (fun c hc => (hwhole c (List.mem_append_left _ hc)).short) (List.prefix_refl _)
  rw [hkept] at hpend
  have hends : (fillBuf br input).br.pending.getLast? = some newline ∧
      0 ∉ (fillBuf br input).br.pending := by
    rw [hpend]
    rcases hpre with rfl | ⟨hnil, hone⟩
    · -- nothing was read, so what is pending is what was pending before
      have hsome := hread.resolve_right (fun hne => hne rfl)
      rw [stream, List.flatMap_nil, List.append_nil]
      exact ⟨h.pending.resolve_left hsome, h.nulFree⟩
    · -- one chunk was read, which ends with a newline
      obtain ⟨c, rfl⟩ := List.length_eq_one_iff.mp hone
      have hc := hwhole c (by simp)
      rw [hnil, List.nil_append, stream, List.flatMap_singleton]
      exact ⟨hc.ends, hc.nulFree⟩
  obtain ⟨l, rest, heq, hl, hrest⟩ := first_line hends.1
  refine ⟨l, rest, heq, hl, hrest, hends.2, fun c hc => hwhole c (List.mem_append_right _ hc), ?_⟩
  conv => lhs; rw [hinput, stream, List.flatMap_append]
  rw [← List.append_assoc, ← stream, ← hpend, heq, List.append_assoc]
  rfl

/-- A call that finds something stores the next line, and leaves the lines behind it. -/
private theorem Whole.fdgets (h : Whole br input) (hret : (fillBuf br input).ret = true) (m : Mem)
    (buf : Nat) : ∃ l, newline ∉ l ∧ (Stdio.fdgets br input m buf).ret = true ∧
      Whole (Stdio.fdgets br input m buf).br (Stdio.fdgets br input m buf).input ∧
      Strings.stringAt (Stdio.fdgets br input m buf).mem buf lineSize = l ++ [newline] ∧
      br.pending ++ stream input = l ++ newline :: ((Stdio.fdgets br input m buf).br.pending ++
        stream (Stdio.fdgets br input m buf).input) := by
  obtain ⟨l, rest, hpend, hl, hrest, hnul, hwhole, htotal⟩ := h.fill hret
  -- so `fdgets` takes the first line of what is pending
  obtain ⟨hgot, hinput, hleft, hmem⟩ := fdgets_line br input m buf hret hpend hl hnul
  have hlength := length_pending_lt (fillBuf br input).br
  rw [hpend, List.length_append, List.length_cons] at hlength
  rw [hpend] at hnul
  refine ⟨l, hl, hgot, ⟨?_, ?_, ?_⟩, ?_, ?_⟩
  · rw [hleft]
    exact hrest
  · rw [hleft]
    exact fun hin => hnul (by simp [hin])
  · rw [hinput]
    exact hwhole
  · -- it is stored with a NUL behind it
    have hsplit : l ++ [newline, 0] = l ++ [newline] ++ [0] := by simp
    rw [hmem, hsplit]
    apply Strings.stringAt_write
    · intro c hc hzero
      rw [hzero, List.mem_append, List.mem_singleton] at hc
      rcases hc with hc | hc
      · exact hnul (by simp [hc])
      · cases hc
    · -- the line fits its buffer, as it came out of one of 2048 bytes
      rw [List.length_append, List.length_singleton, lineSize]
      omega
  · rw [hleft, hinput]
    exact htotal

/-- At the end of the input `fdgets` returns false. -/
private theorem fdgets_eof (hret : (fillBuf br input).ret = false) (m : Mem) (buf : Nat) :
    (fdgets br input m buf).ret = false := by
  rw [fdgets, if_neg (by rw [hret]; exact Bool.false_ne_true)]

/-- What the body does with a line does not depend on what else is in memory. -/
def Body.Answers (body : Mem → List UInt8 → Body ε) (lines : List UInt8 → List ε × Bool) : Prop :=
  ∀ m line, ((body m line).events, (body m line).goesOn) = lines line

/-- The loop runs its body on the lines of the input, however many a read delivers. -/
theorem forLines_lines (h : Whole br input) (hbody : Body.Answers body lines) (m : Mem)
    (buf : Nat) :
    forLines body br input m buf =
      onLines lines (Lines.split newline (br.pending ++ stream input)).1 := by
  -- along the lines that the loop reads
  fun_induction forLines body br input m buf with
  | case1 br input m got hret done hgoes ih =>
    cases hfill : (fillBuf br input).ret with
    | false => exact absurd ((fdgets_eof hfill m buf).symm.trans hret) Bool.false_ne_true
    | true =>
      -- the line is the first one of the input
      obtain ⟨l, hl, -, hwhole, hline, htotal⟩ := h.fdgets hfill m buf
      rw [htotal, Lines.split_append_sep hl, onLines, ← hline, ← hbody got.mem, ih hwhole]
      exact (if_pos hgoes).symm
  | case2 br input m got hret done hstop =>
    cases hfill : (fillBuf br input).ret with
    | false => exact absurd ((fdgets_eof hfill m buf).symm.trans hret) Bool.false_ne_true
    | true =>
      obtain ⟨l, hl, -, hwhole, hline, htotal⟩ := h.fdgets hfill m buf
      rw [htotal, Lines.split_append_sep hl, onLines, ← hline, ← hbody got.mem]
      exact (if_neg hstop).symm
  -- the input is read to its end
  | case3 br input m got hret =>
    cases hfill : (fillBuf br input).ret with
    | false =>
      obtain ⟨hpend, hinput, -, -⟩ := fillBuf_eof hfill
      rw [hpend, hinput]
      rfl
    | true =>
      obtain ⟨l, -, htrue, -⟩ := h.fdgets hfill m buf
      exact absurd htrue hret

end Tlibc.Stdio

/-! ## The shell -/

namespace Tlibc.Sh

open Stdio (Chunk BufferedReader newline stream onLines)

/-- A line of a script: pipelines with `;` or `&` between them. -/
structure CommandLine where
  init : List Line
  last : Line
  init_sep : ∀ line ∈ init, line.sep ≠ newline
  last_sep : last.sep = newline

namespace CommandLine

/-- The lines of the command. -/
def lines (c : CommandLine) : List Line := c.init ++ [c.last]

/-- Its characters, with the newline. -/
def chars (c : CommandLine) : List UInt8 := c.lines.flatMap Line.chars

/-- The characters before the newline. -/
def text (c : CommandLine) : List UInt8 := c.init.flatMap Line.chars ++ c.last.text

/-- The newline is the last of them. -/
private theorem chars_eq (c : CommandLine) : c.chars = c.text ++ [newline] := by
  rw [chars, lines, List.flatMap_append, List.flatMap_singleton, Line.chars, c.last_sep, text,
    List.append_assoc]

end CommandLine

/-- A line of the command has no newline inside. -/
private theorem newline_notMem_text (line : Line) : newline ∉ line.text := by
  intro hin
  rcases line.renders.mem hin with hgap | ⟨t, ht, hc⟩
  · exact absurd hgap (by decide)
  · exact (stages_plain _ t ht).2 newline hc (by decide)

/-- Nor has the command. -/
private theorem CommandLine.newline_notMem_text (c : CommandLine) : newline ∉ c.text := by
  rw [text, List.mem_append, List.mem_flatMap, not_or]
  refine ⟨fun ⟨line, hline, hin⟩ => ?_, Sh.newline_notMem_text c.last⟩
  rw [Line.chars, List.mem_append, List.mem_singleton] at hin
  rcases hin with hin | hin
  · exact Sh.newline_notMem_text line hin
  · exact c.init_sep line hline hin.symm

/-- `system` makes a call for each pipeline, and goes on with what is behind them. -/
private theorem system_append (lines : List Line) (more : List UInt8) : ∃ calls,
    List.Forall₂ Passes (lines.map Line.pipeline) calls ∧
    system (lines.flatMap Line.chars ++ more) =
      ⟨calls ++ (system more).calls, (system more).fault⟩ := by
  induction lines with
  | nil => exact ⟨[], .nil, rfl⟩
  | cons line lines ih =>
    obtain ⟨calls, hcalls, htail⟩ := ih
    obtain ⟨call, hpasses, hsystem⟩ := system_line line (lines.flatMap Line.chars ++ more)
    refine ⟨call :: calls, .cons hpasses hcalls, ?_⟩
    rw [List.flatMap_cons, List.append_assoc, hsystem, htail]
    rfl

/-- Every call is one for a pipeline. -/
private theorem exists_passes {ps : List Pipeline} {calls : List Call}
    (h : List.Forall₂ Passes ps calls)
    {call : Call} (hcall : call ∈ calls) : ∃ p, Passes p call := by
  induction h with
  | nil => exact absurd hcall List.not_mem_nil
  | cons head _ ih =>
    rcases List.mem_cons.mp hcall with rfl | hcall
    · exact ⟨_, head⟩
    · exact ih hcall

/-- The body of the loop, on a line of a script. -/
private theorem onLine_commandLine (c : CommandLine) : ∃ calls,
    List.Forall₂ Passes (c.lines.map Line.pipeline) calls ∧
    onLine c.chars = (calls.map .call ++ [.prompt], true) := by
  obtain ⟨calls, hcalls, hsystem⟩ := system_append c.lines []
  have hnil : system [] = ⟨[], none⟩ := by rw [system]
  rw [hnil, List.append_nil, List.append_nil, ← CommandLine.chars] at hsystem
  refine ⟨calls, hcalls, ?_⟩
  -- no call of a pipeline is one of `exit`
  have hlast : calls.getLast? ≠ some .exit := by
    intro hexit
    obtain ⟨p, hpasses⟩ := exists_passes hcalls (List.mem_of_getLast? hexit)
    exact hpasses.elim
  rw [onLine, hsystem]
  dsimp only
  split
  · next hexit => exact absurd hexit hlast
  · rfl

/-- The loop of `system_single` over a single word. -/
private theorem tokens_word {name : List UInt8} (hne : name ≠ [])
    (hname : ∀ c ∈ name, c ∉ special) :
    Tokens.tokens (contains blank) name = [name] := by
  have hrenders : Tokens.Renders (· ∈ [0x20, 0x09, 0x0d]) [name] ([] ++ (name ++ [])) :=
    .lead (by simp) (.last (by simp))
  rw [List.nil_append, List.append_nil] at hrenders
  apply Tokens.tokens_renders gap_blank ?_ hrenders
  intro t ht
  obtain rfl := List.mem_singleton.mp ht
  exact ⟨hne, fun c hc => contains_blank (hname c hc)⟩

/-- `exit` and `q`, on a line of their own, end the loop. -/
private theorem onLine_exit {name : List UInt8} (h : name = exitName ∨ name = qName) :
    onLine (name ++ [newline]) = ([.call .exit], false) := by
  have hne : name ≠ [] := by rcases h with rfl | rfl <;> decide
  have hname : ∀ c ∈ name, c ∉ special :=
    plain_of_all (builtins_plain name (by rcases h with rfl | rfl <;> decide))
  -- the line is one word, which is a command of `system` itself
  have hsingle : systemSingle (name ++ [newline]) name.length = .ok (some .exit) := by
    rw [systemSingle, if_neg (by simp), List.take_left, scan_eq, tokens_word hne hname]
    rcases h with rfl | rfl <;> rfl
  -- the newline ends the segment
  have htake : ((name ++ [newline]).takeWhile fun c => !contains eoc c) = name :=
    (Tokens.span_token (fun c hc => contains_eoc (hname c hc))
      fun c hc => by obtain rfl := Option.some.inj hc; rfl).1
  obtain ⟨c, cmd, hcmd⟩ := List.exists_cons_of_ne_nil (show name ++ [newline] ≠ [] by simp)
  have hsystem : system (name ++ [newline]) = ⟨[.exit], none⟩ := by
    rw [hcmd] at hsingle htake ⊢
    rw [system, htake, hsingle]
  rw [onLine, hsystem]
  rfl

/-- The commands that end the session have no newline. -/
private theorem newline_notMem_name {name : List UInt8} (h : name = exitName ∨ name = qName) :
    newline ∉ name := by
  rcases h with rfl | rfl <;> decide

/-- What is typed behind a script: nothing, or a line that ends the shell and anything. -/
inductive Closing : List UInt8 → List Event → Prop where
  | eof : Closing [] []
  | exit {name : List UInt8} (more : List UInt8) (h : name = exitName ∨ name = qName) :
    Closing (name ++ newline :: more) [.call .exit]

/-- The shell prompts and runs the pipelines of each line in their order, up to the end of its
    input or to a line that ends it, however many lines a read delivers. -/
theorem sh_session (script : List CommandLine) {more : List UInt8} {last : List Event}
    (hmore : Closing more last) (input : List Chunk) (hinput : ∀ c ∈ input, c.Whole)
    (hstream : stream input = script.flatMap CommandLine.chars ++ more) (br : BufferedReader)
    (m : Mem) (buf : Nat) : ∃ calls : List (List Call),
      List.Forall₂ (fun c cs => List.Forall₂ Passes (c.lines.map Line.pipeline) cs) script calls ∧
      main br input m buf = .prompt :: calls.flatMap (fun cs => cs.map .call ++ [.prompt]) ++ last := by
  -- the buffer is empty, and all chunks are whole lines
  have hreset : br.reset.pending = [] := BufferedReader.pending_eq_nil.mpr rfl
  have hwhole : Stdio.Whole br.reset input :=
    ⟨.inl hreset, by rw [hreset]; exact List.not_mem_nil, hinput⟩
  -- so the loop runs over the lines of the script
  have hmain : main br input m buf = .prompt :: onLines onLine (Lines.split newline
      (script.flatMap CommandLine.chars ++ more)).1 := by
    have hanswers : Stdio.Body.Answers
      (fun m line => ⟨(onLine line).1, m, (onLine line).2⟩) onLine := fun _ _ => rfl
    rw [main, Stdio.forLines_lines hwhole hanswers, hreset, List.nil_append, hstream]
  rw [hmain]
  clear hstream hmain
  -- induction on the commands of the script
  induction script with
  | nil =>
    refine ⟨[], .nil, congrArg (Event.prompt :: ·) ?_⟩
    -- the script ends with the input, or with the line that ends the session
    cases hmore with
    | eof => rfl
    | exit more h =>
      have hname := newline_notMem_name h
      rw [List.flatMap_nil, List.nil_append, Lines.split_append_sep hname, onLines, onLine_exit h]
      rfl
  | cons c script ih =>
    obtain ⟨calls, hcalls, htail⟩ := ih
    -- one command: `system` makes the calls of its lines, and the loop goes on
    obtain ⟨cs, hcs, hline⟩ := onLine_commandLine c
    refine ⟨cs :: calls, .cons hcs hcalls, ?_⟩
    rw [List.flatMap_cons, c.chars_eq, List.append_assoc, List.append_assoc, List.singleton_append,
      Lines.split_append_sep c.newline_notMem_text, onLines, ← c.chars_eq, hline]
    have htail := (List.cons.inj htail).2
    simp [htail]

/-- A terminal at which `ls < a | ls` and `exit` are typed at once. -/
def exitInput : List Chunk :=
  [⟨[0x6c, 0x73, 0x20, 0x3c, 0x20, 0x61, 0x20, 0x7c, 0x20, 0x6c, 0x73, 0x0a, 0x65, 0x78, 0x69, 0x74,
    0x0a], by decide, by decide⟩]

theorem sh_session_exit : ∃ calls : List (List Call),
    List.Forall₂ (fun c cs => List.Forall₂ Passes (CommandLine.lines c |>.map Line.pipeline) cs)
      [⟨[], lsLine, fun _ h => absurd h List.not_mem_nil, rfl⟩] calls ∧
    main .zero exitInput (fun _ => 0) 4096 =
      .prompt :: calls.flatMap (fun cs => cs.map .call ++ [.prompt]) ++ [.call .exit] :=
  sh_session [⟨[], lsLine, fun _ h => absurd h List.not_mem_nil, rfl⟩] (.exit [] (.inl rfl)) exitInput
    (fun c hc => by rw [List.mem_singleton.mp hc]; exact ⟨by decide, by decide, by decide⟩) rfl _ _ _

end Tlibc.Sh

/-! ## The evaluator -/

namespace Tlibc.Eval

open Stdio (Chunk BufferedReader stream onLines)

/-- The characters of expressions. -/
def isSymbol (c : UInt8) : Bool :=
  isDigit c || [openBracket, closeBracket, plusSign, minusSign, timesSign, slash].contains c

mutual

/-- An expression is made of symbols. -/
private theorem Expr.isSymbol_render : (e : Expr) → ∀ c ∈ e.render, isSymbol c = true
  | .term t => t.isSymbol_render
  | .bin e o t => by
    intro c hc
    rw [Expr.render, List.mem_append, List.mem_cons] at hc
    rcases hc with hc | rfl | hc
    · exact e.isSymbol_render c hc
    · cases o <;> rfl
    · exact t.isSymbol_render c hc

/-- So is an operand. -/
theorem Term.isSymbol_render : (t : Term) → ∀ c ∈ t.render, isSymbol c = true
  | .number n => fun c hc => by rw [isSymbol, n.isDigit c hc, Bool.true_or]
  | .bracket e => by
    intro c hc
    rw [Term.render, List.cons_append, List.mem_cons, List.mem_append, List.mem_singleton] at hc
    rcases hc with rfl | hc | rfl
    · rfl
    · exact e.isSymbol_render c hc
    · rfl

end

/-- An expression has no newline inside. -/
private theorem Expr.newline_notMem_render (e : Expr) : newline ∉ e.render := fun h =>
  absurd (e.isSymbol_render newline h) (by decide)

/-- The line of an expression does not start with a `q`. -/
private theorem Expr.head_line_ne (e : Expr) : e.line.head? ≠ some letterQ := by
  intro h
  rw [Expr.line] at h
  cases hrender : e.render with
  | nil =>
    rw [hrender] at h
    exact absurd h (by decide)
  | cons c cs =>
    rw [hrender] at h
    have hc : c = letterQ := Option.some.inj h
    have hsymbol := e.isSymbol_render c (by rw [hrender]; exact List.mem_cons_self)
    rw [hc] at hsymbol
    exact absurd hsymbol (by decide)

/-- A line that the evaluator reads as its grammar does, with its value. -/
structure Query where
  expr : Expr
  value : Int64
  value_eq : expr.value = some value
  resumes : expr.Resumes
  noOverflow : expr.NoOverflow

/-! ### What is printed -/

/-- A value as `Printf` writes it: its sign and its decimal digits, of which 0 has none. -/
def valueText (v : Int64) : List UInt8 := Printf.sign v.toInt ++ Printf.decimal.spell v.toInt.natAbs

/-- The text of a value is short. -/
private theorem length_valueText_lt (v : Int64) : (valueText v ++ [newline]).length < 2 ^ 32 := by
  have hsign : (Printf.sign v.toInt).length ≤ 1 := by
    rw [Printf.sign]
    split <;> decide
  have hdigits : (Printf.decimal.spell v.toInt.natAbs).length ≤ 24 := by
    have hvalue : v.toInt.natAbs < 2 ^ 64 := Printf.Number.natAbs_value_lt (.l v)
    exact Printf.decimal.length_spell_le.mpr (show v.toInt.natAbs < 10 ^ 24 by omega)
  rw [valueText, List.length_append, List.length_append, List.length_singleton]
  omega

/-- `Printf("%l\n", v)` returns, whatever is in memory, and writes the value and a newline. -/
private theorem printf_value (m : Mem) (pbuf : Nat) (v : Int64) : ∃ r,
    Printf.printf (format.chars.length + 1) m pbuf format [.long v] = some (.ok r) ∧
      r.written = { fd := 1, bytes := valueText v ++ [newline] } := by
  have hpieces : Printf.pieces format.chars = [.conversion .l, .char newline] := rfl
  have hexpand : Printf.expand (Printf.pieces format.chars) [.long v] = valueText v ++ [newline] := by
    rw [hpieces]
    rfl
  have hshort := length_valueText_lt v
  have hret : (UInt32.ofNat (valueText v ++ [newline]).length).toNat =
      (valueText v ++ [newline]).length := UInt32.toNat_ofNat_of_lt' hshort
  have hrun := @Printf.sprintf_eq format [.long v] (by decide)
    (by rw [hpieces]; exact ⟨trivial, trivial⟩)
    (by rw [hexpand]; exact hshort) m pbuf _ (Nat.lt_succ_self _)
  rw [hexpand] at hrun
  -- `sys_write` reads the text back from the buffer
  rw [Printf.printf, hrun]
  refine ⟨_, rfl, ?_⟩
  show Printf.Written.mk 1 (Mem.read _ pbuf (UInt32.ofNat _).toNat) = _
  rw [hret, Mem.read_write_left]

/-- What the body of the loop writes for a line. -/
def answer (line : List UInt8) : List Event × Bool :=
  match eval line with
  | .error f => ([.fault f], false)
  | .ok v =>
    if line.head? = some letterQ then
      ([.write { fd := 1, bytes := valueText v ++ [newline] }], false)
    else
      ([.write { fd := 1, bytes := valueText v ++ [newline] }, prompt], true)

/-- The body of the loop answers every line. -/
private theorem answers (pbuf : Nat) : Stdio.Body.Answers (onLine pbuf) answer := by
  intro m line
  rw [onLine, answer]
  cases eval line with
  | error f => rfl
  | ok v =>
    obtain ⟨r, hprintf, hwritten⟩ := printf_value m pbuf v
    simp only [hprintf, hwritten]
    split <;> rfl

/-- What the evaluator writes for a query. -/
def Query.events (q : Query) : List Event :=
  [.write { fd := 1, bytes := valueText q.value ++ [newline] }, prompt]

/-- A line with an expression is answered with its value. -/
private theorem answer_query (q : Query) : answer q.expr.line = (q.events, true) := by
  have heval : eval q.expr.line = .ok q.value := by
    rw [eval_line q.resumes.apart, q.resumes.read_eq q.noOverflow q.value_eq]
  rw [answer, heval]
  exact if_neg q.expr.head_line_ne

/-- A line that begins with a `q` and has nothing else on it has the value 0. -/
private theorem answer_quit :
    answer [letterQ, newline] = ([.write { fd := 1, bytes := [newline] }], false) := by
  rw [answer, show eval [letterQ, newline] = .ok 0 by decide]
  rfl

/-- What is typed behind the expressions: nothing, or a `q` and anything. -/
inductive Closing : List UInt8 → List Event → Prop where
  | eof : Closing [] []
  | quit (more : List UInt8) :
    Closing (letterQ :: newline :: more) [.write { fd := 1, bytes := [newline] }]

/-- The evaluator prompts and writes the value of each line, up to the end of its input or to
    a `q`, however many lines a read delivers. `Printf` puts no digit for 0, so that a value
    of 0 is an empty line, and so is what it writes for the `q`. -/
theorem eval_session (script : List Query) {more : List UInt8} {last : List Event}
    (hmore : Closing more last) (input : List Chunk) (hinput : ∀ c ∈ input, c.Whole)
    (hstream : stream input = script.flatMap (fun q => q.expr.line) ++ more) (br : BufferedReader)
    (m : Mem) (buf pbuf : Nat) :
    main br input m buf pbuf = prompt :: script.flatMap Query.events ++ last := by
  -- the buffer is empty, and all chunks are whole lines
  have hreset : br.reset.pending = [] := BufferedReader.pending_eq_nil.mpr rfl
  have hwhole : Stdio.Whole br.reset input :=
    ⟨.inl hreset, by rw [hreset]; exact List.not_mem_nil, hinput⟩
  rw [main, Stdio.forLines_lines hwhole (answers pbuf), hreset, List.nil_append, hstream,
    List.cons_append]
  clear hstream
  congr 1
  -- induction on the lines of the script
  induction script with
  | nil =>
    rw [List.flatMap_nil, List.flatMap_nil, List.nil_append, List.nil_append]
    -- the script ends with the input, or with the line `q`
    cases hmore with
    | eof => rfl
    | quit more =>
      have hq : Stdio.newline ∉ [letterQ] := by decide
      have hsplit := Lines.split_append_sep hq more
      rw [show letterQ :: newline :: more = [letterQ] ++ Stdio.newline :: more from rfl, hsplit,
        onLines, show [letterQ] ++ [Stdio.newline] = [letterQ, newline] from rfl, answer_quit]
      rfl
  | cons q script ih =>
    -- one expression: its value is printed, and the loop goes on
    have hline : answer (q.expr.render ++ [Stdio.newline]) = (q.events, true) := answer_query q
    have hpart : Stdio.newline ∉ q.expr.render := q.expr.newline_notMem_render
    have hsplit := Lines.split_append_sep hpart (script.flatMap (fun q => q.expr.line) ++ more)
    have hfirst : (q :: script).flatMap (fun q => q.expr.line) ++ more =
        q.expr.render ++ Stdio.newline :: (script.flatMap (fun q => q.expr.line) ++ more) := by
      rw [List.flatMap_cons, Expr.line, List.append_assoc, List.append_assoc]
      rfl
    rw [hfirst, hsplit, onLines, hline, List.flatMap_cons, List.append_assoc, ← ih]
    rfl

/-- `2+(3)+4`, and its value. -/
def sumQuery : Query where
  expr := sumLine
  value := 9
  value_eq := by decide
  resumes := ⟨⟨trivial, ⟨trivial, rfl⟩, nofun⟩, trivial, fun _ => rfl⟩
  noOverflow := ⟨⟨trivial, trivial, nofun⟩, trivial, nofun⟩

/-- `0`. -/
def zeroQuery : Query where
  expr := .term (digit 0x30 (by decide))
  value := 0
  value_eq := by decide
  resumes := trivial
  noOverflow := trivial

/-- A terminal at which these two and `q` are typed, the first by itself. -/
def sumInput : List Chunk :=
  [⟨[0x32, 0x2b, 0x28, 0x33, 0x29, 0x2b, 0x34, 0x0a], by decide, by decide⟩,
    ⟨[0x30, 0x0a, 0x71, 0x0a], by decide, by decide⟩]

theorem eval_session_sum : main .zero sumInput (fun _ => 0) 4096 8192 =
    [prompt, .write { fd := 1, bytes := [0x39, 0x0a] }, prompt, .write { fd := 1, bytes := [0x0a] },
      prompt, .write { fd := 1, bytes := [0x0a] }] :=
  eval_session [sumQuery, zeroQuery] (.quit []) sumInput (fun c hc => by
    rcases List.mem_cons.mp hc with rfl | hc
    · exact ⟨by decide, by decide, by decide⟩
    · rw [List.mem_singleton.mp hc]
      exact ⟨by decide, by decide, by decide⟩) rfl _ _ _ _

end Tlibc.Eval
