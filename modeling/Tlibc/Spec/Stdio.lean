import Tlibc.Lib.Lines
import Tlibc.Native.Stdio
import Mathlib.Data.List.GetD

/-!
# Lines through the buffered reader

`Reply` is what one call of `fdgets` does to the bytes that are pending in the
buffer and to the chunks to come, for every chunk length and every destination.

* `fdgetsLoop_stream_iff`: a loop of calls stores the whole stream if and only if no
  chunk has 2048 bytes
* `fdgetsLoop_lines_iff`: it stores line after line, however the stream was split, if
  and only if no chunk ends where the destination holds a 0
-/

namespace Tlibc.Stdio

/-! ## Pending bytes -/

namespace BufferedReader

/-- The bytes of the buffer between `start` and `stop`. -/
def pending (br : BufferedReader) : List UInt8 :=
  (List.range br.count).map fun i => br.buf (br.place i)

/-- Nothing is pending when the buffer was read to its end. -/
theorem pending_eq_nil {br : BufferedReader} : br.pending = [] ↔ br.start = br.stop := by
  have hstart := br.start.isLt
  have hstop := br.stop.isLt
  have hcount : br.count = (2048 - br.start.val + br.stop.val) % 2048 := by
    rw [count, Fin.sub_def]
  rw [pending, List.map_eq_nil_iff, List.range_eq_nil, hcount, Fin.ext_iff]
  omega

/-- The next character, and those behind it. -/
theorem pending_advance {br : BufferedReader} (hne : br.start ≠ br.stop) :
    br.pending = br.buf br.start :: br.advance.pending := by
  -- the places of the advanced buffer are those of the old one, moved by one
  have hshift : ∀ i, br.place (i + 1) = br.advance.place i := by
    intro i
    ext
    rw [place, place, advance, Fin.add_def, Fin.add_def, Fin.add_def]
    show (br.start.val + (i + 1) % 2048) % 2048 =
      ((br.start.val + 1) % 2048 + i % 2048) % 2048
    omega
  -- the first place is the start, which is read next
  have hzero : br.place 0 = br.start := by
    ext
    rw [place, Fin.add_def]
    show (br.start.val + 0 % 2048) % 2048 = br.start.val
    have hstart := br.start.isLt
    omega
  rw [pending, count_advance hne, List.range_succ_eq_map, List.map_cons, List.map_map, hzero]
  refine congrArg _ (List.map_congr_left fun i _ => ?_)
  show br.buf (br.place (i + 1)) = br.buf (br.advance.place i)
  rw [hshift]

end BufferedReader

open BufferedReader

/-- The bytes of the chunks, one after another. -/
def stream (chunks : List Chunk) : List UInt8 := chunks.flatMap Chunk.bytes

/-- The bytes that `fill_buf` leaves pending: those of the chunks that do not make
    `end` equal to `start` again. -/
def kept (chunks : List Chunk) : List UInt8 :=
  stream (chunks.filter fun c => c.bytes.length ≠ 2048)

/-- What is kept of two inputs. -/
theorem kept_append (cs ds : List Chunk) : kept (cs ++ ds) = kept cs ++ kept ds := by
  rw [kept, List.filter_append, stream, List.flatMap_append]
  rfl

/-- Of a single piece everything is kept, unless it fills the buffer. -/
theorem kept_singleton (c : Chunk) :
    kept [c] = if c.bytes.length = 2048 then [] else c.bytes := by
  by_cases h2048 : c.bytes.length = 2048
  · simp [kept, stream, h2048]
  · simp [kept, stream, h2048]

/-! ## `fill_buf` and `copy_buf` -/

/-- A chunk is pending when it was read, unless it makes `end` equal to `start`. -/
theorem pending_read (buf : Fin 2048 → UInt8) (c : Chunk) :
    pending { buf := fun i => c.bytes.getD i (buf i), start := 0,
              stop := Fin.ofNat 2048 (0 + c.bytes.length) } = kept [c] := by
  obtain ⟨br, hbr⟩ : ∃ br : BufferedReader, br =
    { buf := fun i => c.bytes.getD i (buf i), start := 0,
      stop := Fin.ofNat 2048 (0 + c.bytes.length) } := ⟨_, rfl⟩
  have hle := c.length_le
  -- a full chunk of 2048 bytes wraps `stop` back to `start`, so that nothing is pending
  have hcount : br.count = c.bytes.length % 2048 := by
    rw [hbr, count, Fin.sub_def]
    show (2048 - 0 + (0 + c.bytes.length) % 2048) % 2048 = c.bytes.length % 2048
    omega
  rw [← hbr, kept_singleton, pending, hcount]
  split_ifs with h2048
  · rw [h2048]
    rfl
  · refine List.ext_getElem (by simp; omega) fun i _ hi => ?_
    -- from the start of the buffer on, a place is its own index
    have hindex : (br.place i).val = i := by
      rw [hbr, place, Fin.zero_add]
      show i % 2048 = i
      omega
    have hbuf : br.buf (br.place i) = c.bytes.getD (br.place i).val (buf (br.place i)) := by
      rw [hbr]
    rw [List.getElem_map, List.getElem_range, hbuf, hindex, List.getD_eq_getElem _ _ hi]

/-- `fill_buf` makes something pending: what is, or else the next chunk. -/
theorem fillBuf_read {br : BufferedReader} {input : List Chunk}
    (hret : (fillBuf br input).ret = true) :
    ∃ pre, input = pre ++ (fillBuf br input).input ∧
      (fillBuf br input).br.pending = br.pending ++ kept pre ∧ (br.pending ≠ [] ∨ pre ≠ []) ∧
      (pre = [] ∨ br.pending = [] ∧ pre.length = 1) := by
  unfold fillBuf at hret ⊢
  by_cases hempty : br.start = br.stop
  · -- the buffer is empty, so one chunk is read
    have hnil := pending_eq_nil.mpr hempty
    rw [if_pos hempty] at hret ⊢
    cases input with
    | nil => cases hret
    | cons c input =>
      refine ⟨[c], rfl, ?_, .inr (List.cons_ne_nil _ _), .inr ⟨hnil, rfl⟩⟩
      rw [hnil]
      exact pending_read br.buf c
  · -- something is pending, and nothing is read
    have hne : br.pending ≠ [] := fun hnil => hempty (pending_eq_nil.mp hnil)
    rw [if_neg hempty]
    exact ⟨[], rfl, (List.append_nil _).symm, .inl hne, .inl rfl⟩

/-- It fails when nothing is pending and nothing is to come. -/
theorem fillBuf_eof {br : BufferedReader} {input : List Chunk}
    (hret : (fillBuf br input).ret = false) :
    br.pending = [] ∧ input = [] ∧ (fillBuf br input).br.pending = [] ∧
      (fillBuf br input).input = [] := by
  unfold fillBuf at hret ⊢
  by_cases hempty : br.start = br.stop
  · rw [if_pos hempty] at hret ⊢
    cases input with
    | nil => exact ⟨pending_eq_nil.mpr hempty, rfl, pending_eq_nil.mpr rfl, rfl⟩
    | cons c input => cases hret
  · rw [if_neg hempty] at hret
    cases hret

/-- A byte that is pending, as `copy_buf` treats it. -/
theorem copyBuf_cons {br : BufferedReader} {b : UInt8} {p : List UInt8} (m : Mem) (dst : Nat)
    (hp : br.pending = b :: p) :
    br.advance.pending = p ∧ copyBuf br m dst =
      if b = 0 then copyBuf br.advance m dst
      else if b = newline then ⟨br.advance, (m.write dst [b]).write (dst + 1) [0], dst + 1⟩
      else copyBuf br.advance (m.write dst [b]) (dst + 1) := by
  have hne : br.start ≠ br.stop := fun h => by
    rw [pending_eq_nil.mpr h] at hp
    cases hp
  rw [pending_advance hne] at hp
  obtain ⟨rfl, rfl⟩ := List.cons.inj hp
  refine ⟨rfl, ?_⟩
  conv => lhs; rw [copyBuf, if_neg hne]

/-- What `copy_buf` does to the pending bytes: it copies the first line and terminates it,
    or copies everything. -/
inductive Copied (p : List UInt8) (m : Mem) (dst : Nat) (c : Cursor) : Prop where
  | line (l rest : List UInt8) (pending : p = l ++ newline :: rest) (first : newline ∉ l)
      (mem : c.mem = m.write dst (l ++ [newline, 0])) (pointer : c.dst = dst + l.length + 1)
      (left : c.br.pending = rest)
  | all (pending : newline ∉ p) (mem : c.mem = m.write dst p) (pointer : c.dst = dst + p.length)
      (left : c.br.pending = [])

/-- The loop of `fdgets` copies up to a newline, when no NUL is pending. -/
theorem copyBuf_copied (br : BufferedReader) (m : Mem) (dst : Nat) (hnul : 0 ∉ br.pending) :
    Copied br.pending m dst (copyBuf br m dst) := by
  obtain ⟨p, hp⟩ : ∃ p, br.pending = p := ⟨_, rfl⟩
  rw [hp] at hnul ⊢
  -- induction on the pending characters; no case is a 0, which would not be advanced past
  induction p generalizing br m dst with
  | nil =>
    rw [copyBuf, if_pos (pending_eq_nil.mp hp)]
    exact .all List.not_mem_nil (Mem.write_nil m dst).symm rfl hp
  | cons b p ih =>
    obtain ⟨hleft, hcopy⟩ := copyBuf_cons m dst hp
    rw [List.mem_cons, not_or] at hnul
    rw [hcopy, if_neg (Ne.symm hnul.1)]
    by_cases hb : b = newline
    · rw [if_pos hb, hb]
      exact .line [] p rfl List.not_mem_nil (Mem.write_append m dst [newline] [0]) rfl hleft
    · -- any other character is written in front of what the rest of the loop writes
      rw [if_neg hb]
      have happ : ∀ bs, (m.write dst [b]).write (dst + 1) bs = m.write dst (b :: bs) :=
        fun bs => Mem.write_append m dst [b] bs
      cases ih br.advance (m.write dst [b]) (dst + 1) hnul.2 hleft with
      | line l rest hpend hfirst hmem hptr hrest =>
        rw [happ] at hmem
        exact .line (b :: l) rest (by rw [hpend, List.cons_append])
          (by simp [Ne.symm hb, hfirst]) hmem (by rw [hptr, List.length_cons]; omega) hrest
      | all hpend hmem hptr hrest =>
        rw [happ] at hmem
        exact .all (by simp [Ne.symm hb, hpend]) hmem (by rw [hptr, List.length_cons]; omega) hrest

/-! ## A call -/

/-- How a call ends that found `p` pending and read the chunks `pre`: behind a line,
    at a 0 it did not write, or at the end of the file. -/
inductive Ending (p : List UInt8) (m : Mem) (dst : Nat) (got : Got) (text : List UInt8)
    (pre : List Chunk) : Prop where
  | line (l : List UInt8) (complete : text = l ++ [newline]) (first : newline ∉ l)
      (ret : got.ret = true) (nul : got.mem got.dst = 0)
  | stale (part : newline ∉ text) (read : p ≠ [] ∨ pre ≠ []) (ret : got.ret = true)
      (left : got.br.pending = []) (zero : m (dst + text.length) = 0)
  | eof (part : newline ∉ text) (ret : got.ret = false) (left : got.br.pending = [])
      (input : got.input = []) (nonzero : p ≠ [] ∨ pre ≠ [] → m (dst + text.length) ≠ 0)

/-- A call stores `text` and reads the chunks `pre`. It went on where one of them ended,
    since the line was not complete and memory held no 0 there. -/
structure Reply (br : BufferedReader) (input : List Chunk) (m : Mem) (dst : Nat) (got : Got)
    (text : List UInt8) (pre : List Chunk) : Prop where
  pointer : got.dst = dst + text.length
  read : got.mem.read dst text.length = text
  below : ∀ a, a < dst → got.mem a = m a
  input : input = pre ++ got.input
  bytes : br.pending ++ kept pre = text ++ got.br.pending
  passed : ∀ pre₁ pre₂, pre = pre₁ ++ pre₂ → pre₂ ≠ [] → br.pending ≠ [] ∨ pre₁ ≠ [] →
    newline ∉ br.pending ++ kept pre₁ ∧ m (dst + (br.pending ++ kept pre₁).length) ≠ 0
  ending : Ending br.pending m dst got text pre

/-- The first part of what was written is read back. -/
private theorem read_write_append (m : Mem) (off : Nat) (xs ys : List UInt8) :
    (m.write off (xs ++ ys)).read off xs.length = xs := by
  rw [← Mem.write_append]
  conv => rhs; rw [← Mem.read_write_self m off xs]
  exact Mem.read_congr fun i hi => Mem.write_apply_out (by omega)

/-- `copy_buf` terminates the line it copies. -/
theorem write_line_nul (m : Mem) (dst : Nat) (l : List UInt8) :
    m.write dst (l ++ [newline, 0]) (dst + l.length + 1) = 0 := by
  have hlen : l.length + 1 < (l ++ [newline, 0]).length := by simp
  rw [Nat.add_assoc, Mem.write_apply_in hlen]
  simp

/-- One pass reads at most one chunk, so it does not go past the end of any. -/
private theorem pass_single {p : List UInt8} {pre pre₁ pre₂ : List Chunk}
    (hpre : pre = [] ∨ p = [] ∧ pre.length = 1) (hsplit : pre = pre₁ ++ pre₂)
    (hread : p ≠ [] ∨ pre₁ ≠ []) : pre₂ = [] := by
  rcases hpre with hnil | ⟨hp, hone⟩
  · exact (List.append_eq_nil_iff.mp (hsplit.symm.trans hnil)).2
  · have hpos : 0 < pre₁.length := List.length_pos_iff.mpr (hread.resolve_left (absurd hp))
    rw [hsplit, List.length_append] at hone
    exact List.length_eq_zero_iff.mp (by omega)

/-- A pass that copied `t` and goes on, before the rest of the call. -/
private theorem Reply.pass {br : BufferedReader} {input rest pre pre' : List Chunk} {m : Mem}
    {dst : Nat}
    {c : Cursor} {got : Got} {t text : List UInt8} (hinput : input = pre ++ rest)
    (ht : t = br.pending ++ kept pre) (hread : br.pending ≠ [] ∨ pre ≠ [])
    (hpre : pre = [] ∨ br.pending = [] ∧ pre.length = 1) (hpart : newline ∉ t)
    (hmem : c.mem = m.write dst t) (hptr : c.dst = dst + t.length) (hleft : c.br.pending = [])
    (hzero : c.mem c.dst ≠ 0) (h : Reply c.br rest c.mem c.dst got text pre') :
    Reply br input m dst got (t ++ text) (pre ++ pre') := by
  -- the pass wrote its own part, so what follows is a reply on the memory behind it
  rw [hmem, hptr] at h hzero
  rw [Mem.write_apply_out (by omega)] at hzero
  have hout : ∀ k, m.write dst t (dst + t.length + k) = m (dst + (t.length + k)) := fun k => by
    rw [Mem.write_apply_out (by omega), Nat.add_assoc]
  have hjoin : ∀ {u : List UInt8}, newline ∉ u → newline ∉ t ++ u := fun hu hin =>
    (List.mem_append.mp hin).elim hpart hu
  have hbytes := h.bytes
  -- nothing of the pass is left in the buffer, so the bytes of the reply come from the rest
  rw [hleft, List.nil_append] at hbytes
  refine ⟨?_, ?_, fun a ha => ?_, ?_, ?_, fun q₁ q₂ hq hq₂ hq₁ => ?_, ?_⟩
  · rw [h.pointer, List.length_append, Nat.add_assoc]
  · have ht : got.mem.read dst t.length = t := by
      conv => rhs; rw [← Mem.read_write_self m dst t]
      exact Mem.read_congr fun i hi => h.below _ (by omega)
    rw [List.length_append, Mem.read_add, ht, h.read]
  · rw [h.below a (by omega), Mem.write_apply_out (by omega)]
  · rw [hinput, List.append_assoc, ← h.input]
  · rw [kept_append, ← List.append_assoc, ← ht, hbytes, List.append_assoc]
  · -- the chunks gone past are those of this pass, or some of the rest too
    obtain ⟨a, rfl, hrest⟩ : ∃ a, q₁ = pre ++ a ∧ pre' = a ++ q₂ := by
      rcases List.append_eq_append_iff.mp hq with ⟨a, h₁, h₂⟩ | ⟨b, h₁, h₂⟩
      · exact ⟨a, h₁, h₂⟩
      · have hb := pass_single hpre h₁ hq₁
        rw [hb, List.append_nil] at h₁
        exact ⟨[], by rw [h₁, List.append_nil], by rw [h₂, hb]; rfl⟩
    rw [kept_append, ← List.append_assoc, ← ht, List.length_append]
    by_cases ha : a = []
    · rw [ha]
      exact ⟨by rwa [kept, List.filter_nil, stream, List.flatMap_nil, List.append_nil], hzero⟩
    · have hpassed := h.passed a q₂ hrest hq₂ (.inr ha)
      rw [hleft, List.nil_append, hout] at hpassed
      exact ⟨hjoin hpassed.1, hpassed.2⟩
  · -- the reply ends as the rest of the loop ended
    cases h.ending with
    | line l hcomplete hfirst hret hnul =>
      exact .line (t ++ l) (by rw [hcomplete, List.append_assoc]) (hjoin hfirst) hret hnul
    | stale htext _ hret hleft hstale =>
      rw [hout, ← List.length_append] at hstale
      exact .stale (hjoin htext)
        (hread.imp_right fun hne hnil => hne (List.append_eq_nil_iff.mp hnil).1) hret hleft hstale
    | eof htext hret hempty hend hnonzero =>
      refine .eof (hjoin htext) hret hempty hend fun _ => ?_
      rw [List.length_append]
      by_cases hpre' : pre' = []
      · -- nothing more was read, so nothing more was stored
        rw [hpre'] at hbytes
        rw [(List.append_eq_nil_iff.mp hbytes.symm).1]
        exact hzero
      · rw [← hout]
        exact hnonzero (.inr hpre')

/-- A call of `fdgets` replies with a text, when the input has no NUL. -/
private theorem fdgets_reply (br : BufferedReader) (input : List Chunk) (m : Mem) (dst : Nat)
    (hnul : 0 ∉ br.pending ++ kept input) :
    ∃ text pre, Reply br input m dst (fdgets br input m dst) text pre := by
  -- along the passes of `fdgets`: a zero ends the loop, anything else repeats it
  fun_induction fdgets br input m dst with
  | case1 br input m dst f hfill c hzero =>
    obtain ⟨pre, hinput, hpend, hread, hpre⟩ := fillBuf_read hfill
    rw [hinput, kept_append, ← List.append_assoc, ← hpend, List.mem_append, not_or] at hnul
    -- a single chunk was read, so none of it is gone past before the call ends
    have hpassed : ∀ pre₁ pre₂, pre = pre₁ ++ pre₂ → pre₂ ≠ [] → br.pending ≠ [] ∨ pre₁ ≠ [] →
        newline ∉ br.pending ++ kept pre₁ ∧ m (dst + (br.pending ++ kept pre₁).length) ≠ 0 :=
      fun _ _ hsplit hne hsome => absurd (pass_single hpre hsplit hsome) hne
    cases copyBuf_copied f.br m dst hnul.1 with
    | line l rest hline hfirst hmem hptr hleft =>
      have hsplit : l ++ [newline, 0] = (l ++ [newline]) ++ [0] := by simp
      refine ⟨l ++ [newline], pre, ?_, ?_, fun a ha => ?_, hinput, ?_, hpassed,
        .line l rfl hfirst rfl hzero⟩
      · rw [List.length_append]
        exact hptr
      · show (copyBuf f.br m dst).mem.read dst _ = _
        rw [hmem, hsplit]
        exact read_write_append m dst _ _
      · show (copyBuf f.br m dst).mem a = m a
        rw [hmem, Mem.write_apply_out (.inl ha)]
      · show _ = l ++ [newline] ++ (copyBuf f.br m dst).br.pending
        rw [← hpend, hline, hleft, List.append_assoc]
        rfl
    | all hpart hmem hptr hleft =>
      refine ⟨f.br.pending, pre, hptr, ?_, fun a ha => ?_, hinput, ?_, hpassed,
        .stale hpart hread rfl hleft ?_⟩
      · show (copyBuf f.br m dst).mem.read dst _ = _
        rw [hmem, Mem.read_write_self]
      · show (copyBuf f.br m dst).mem a = m a
        rw [hmem, Mem.write_apply_out (.inl ha)]
      · show _ = f.br.pending ++ (copyBuf f.br m dst).br.pending
        rw [← hpend, hleft, List.append_nil]
      · have hzero : (copyBuf f.br m dst).mem (copyBuf f.br m dst).dst = 0 := hzero
        rwa [hmem, hptr, Mem.write_apply_out (by omega)] at hzero
  | case2 br input m dst f hfill c hzero ih =>
    -- the loop goes on, so the buffer was copied without a newline
    obtain ⟨pre, hinput, hpend, hread, hpre⟩ := fillBuf_read hfill
    rw [hinput, kept_append, ← List.append_assoc, ← hpend, List.mem_append, not_or] at hnul
    have hzero : (copyBuf f.br m dst).mem (copyBuf f.br m dst).dst ≠ 0 := hzero
    cases copyBuf_copied f.br m dst hnul.1 with
    | line l rest _ _ hmem hptr _ =>
      -- a line would have been ended by a zero
      rw [hmem, hptr] at hzero
      exact absurd (write_line_nul m dst l) hzero
    | all hpart hmem hptr hleft =>
      have hnul' : 0 ∉ (copyBuf f.br m dst).br.pending ++ kept f.input := by
        rw [hleft]
        exact hnul.2
      obtain ⟨text, pre', hreply⟩ := ih hnul'
      exact ⟨_, _, hreply.pass hinput hpend hread hpre hpart hmem hptr hleft hzero⟩
  | case3 br input m dst f hfill =>
    -- at the end of the input nothing is stored
    obtain ⟨hp, hinput, hleft, hend⟩ := fillBuf_eof (Bool.eq_false_iff.mpr hfill)
    refine ⟨[], [], rfl, rfl, fun _ _ => rfl, ?_, ?_, fun pre₁ pre₂ hsplit hne => ?_,
      .eof List.not_mem_nil rfl hleft hend fun h => ?_⟩
    · exact hinput.trans hend.symm
    · show br.pending ++ kept [] = f.br.pending
      rw [hp, hleft]
      rfl
    · exact absurd (List.append_eq_nil_iff.mp hsplit.symm).2 hne
    · rcases h with h | h
      · exact absurd hp h
      · exact absurd rfl h

namespace Reply

variable {br : BufferedReader} {input pre : List Chunk} {d : Destination} {got : Got}
  {text : List UInt8}

/-- The text of the call. -/
private theorem text_eq (h : Reply br input d.mem d.dst got text pre) :
    Call.text ⟨d, got⟩ = text := by
  show got.mem.read d.dst (got.dst - d.dst) = text
  rw [h.pointer, Nat.add_sub_cancel_left, h.read]

/-- What is left is what the call did not store. -/
private theorem total (h : Reply br input d.mem d.dst got text pre) :
    br.pending ++ kept input = text ++ (got.br.pending ++ kept got.input) := by
  conv => lhs; rw [h.input]
  rw [kept_append, ← List.append_assoc, h.bytes, List.append_assoc]

/-- What is left has no NUL. -/
private theorem nulFree (h : Reply br input d.mem d.dst got text pre)
    (hnul : 0 ∉ br.pending ++ kept input) : 0 ∉ got.br.pending ++ kept got.input := by
  rw [h.total, List.mem_append, not_or] at hnul
  exact hnul.2

/-- When the call returns false, nothing is left. -/
private theorem left_of_ret (h : Reply br input d.mem d.dst got text pre) (hret : got.ret = false) :
    got.br.pending = [] ∧ got.input = [] := by
  cases h.ending with
  | line _ _ _ htrue => exact absurd (hret.symm.trans htrue) Bool.false_ne_true
  | stale _ _ htrue => exact absurd (hret.symm.trans htrue) Bool.false_ne_true
  | eof _ _ hleft hend => exact ⟨hleft, hend⟩

end Reply

/-! ## The whole stream -/

/-- What is kept of one piece and the others. -/
theorem kept_cons (c : Chunk) (cs : List Chunk) : kept (c :: cs) = kept [c] ++ kept cs :=
  kept_append [c] cs

/-- The stream of one piece and the others. -/
private theorem stream_cons (c : Chunk) (cs : List Chunk) :
    stream (c :: cs) = c.bytes ++ stream cs :=
  List.flatMap_cons

/-- What is kept comes from the stream, in order. -/
private theorem kept_sublist (chunks : List Chunk) : (kept chunks).Sublist (stream chunks) := by
  induction chunks with
  | nil => exact List.Sublist.refl _
  | cons c cs ih =>
    rw [kept_cons, stream_cons, kept_singleton]
    refine List.Sublist.append ?_ ih
    split_ifs
    · exact List.nil_sublist _
    · exact List.Sublist.refl _

/-- `fill_buf` keeps every byte when no chunk fills the buffer. -/
private theorem kept_eq_stream_iff (chunks : List Chunk) :
    kept chunks = stream chunks ↔ ∀ c ∈ chunks, c.bytes.length ≠ 2048 := by
  induction chunks with
  | nil => exact iff_of_true rfl fun _ hc => absurd hc List.not_mem_nil
  | cons c cs ih =>
    rw [kept_cons, stream_cons, kept_singleton, List.forall_mem_cons, ← ih]
    split_ifs with h2048
    · refine iff_of_false (fun heq => ?_) fun h => h.1 h2048
      have hlen := congrArg List.length heq
      have hle := (kept_sublist cs).length_le
      rw [List.nil_append, List.length_append] at hlen
      omega
    · rw [List.append_cancel_left_eq]
      exact ⟨fun h => ⟨h2048, h⟩, And.right⟩

/-- A loop stores what its reader keeps. -/
private theorem loop_kept (dests : Nat → Destination) (br : BufferedReader) (input : List Chunk)
    (hnul : 0 ∉ br.pending ++ kept input) :
    (fdgetsLoop dests br input).1.flatMap Call.text ++ (fdgetsLoop dests br input).2.text =
      br.pending ++ kept input := by
  fun_induction fdgetsLoop dests br input with
  | case1 dests br input got hret calls last hloop ih =>
    obtain ⟨text, pre, hreply⟩ := fdgets_reply br input (dests 0).mem (dests 0).dst hnul
    have hrest := ih (hreply.nulFree hnul)
    rw [hloop] at hrest
    rw [List.flatMap_cons, hreply.text_eq, List.append_assoc, hrest, hreply.total]
  | case2 dests br input got hret =>
    obtain ⟨text, pre, hreply⟩ := fdgets_reply br input (dests 0).mem (dests 0).dst hnul
    obtain ⟨hleft, hend⟩ := hreply.left_of_ret (Bool.eq_false_iff.mpr hret)
    rw [List.flatMap_nil, List.nil_append, hreply.text_eq, hreply.total, hleft, hend]
    exact (List.append_nil text).symm

theorem fdgetsLoop_stream_iff (dests : Nat → Destination) (br : BufferedReader)
    (chunks : List Chunk) (hempty : br.start = br.stop) (hnul : 0 ∉ stream chunks) :
    (fdgetsLoop dests br chunks).1.flatMap Call.text ++ (fdgetsLoop dests br chunks).2.text =
      stream chunks ↔ ∀ c ∈ chunks, c.bytes.length ≠ 2048 := by
  have hkept : 0 ∉ br.pending ++ kept chunks := by
    rw [pending_eq_nil.mpr hempty, List.nil_append]
    exact fun h => hnul ((kept_sublist chunks).subset h)
  rw [loop_kept dests br chunks hkept, pending_eq_nil.mpr hempty, List.nil_append,
    kept_eq_stream_iff]

theorem fdgetsLoop_stream_short :
    (fdgetsLoop (fun _ => ⟨fun _ => 0, 0⟩) ⟨fun _ => 0, 0, 0⟩
        [⟨[0x61], by decide, by decide⟩, ⟨[0x62, newline], by decide, by decide⟩]).1.flatMap
      Call.text ++
        (fdgetsLoop (fun _ => ⟨fun _ => 0, 0⟩) ⟨fun _ => 0, 0, 0⟩
          [⟨[0x61], by decide, by decide⟩, ⟨[0x62, newline], by decide, by decide⟩]).2.text =
      [0x61, 0x62, newline] :=
  (fdgetsLoop_stream_iff _ _ _ rfl (by decide)).mpr (by decide)

/-- A chunk of 2048 empty lines is lost as a whole. -/
theorem fdgetsLoop_stream_full :
    (fdgetsLoop (fun _ => ⟨fun _ => 0, 0⟩) ⟨fun _ => 0, 0, 0⟩
        [⟨List.replicate 2048 newline, List.cons_ne_nil _ _, by
          rw [List.length_replicate]⟩]).1.flatMap Call.text ++
        (fdgetsLoop (fun _ => ⟨fun _ => 0, 0⟩) ⟨fun _ => 0, 0, 0⟩
          [⟨List.replicate 2048 newline, List.cons_ne_nil _ _, by
            rw [List.length_replicate]⟩]).2.text = [] ∧
      stream [⟨List.replicate 2048 newline, List.cons_ne_nil _ _, by
        rw [List.length_replicate]⟩] ≠ [] := by
  -- a chunk that fills the buffer is lost
  have hlost : ∀ c : Chunk, c.bytes.length = 2048 →
      pending ⟨fun _ => 0, 0, 0⟩ ++ kept [c] = [] := fun c hc => by
    rw [kept_singleton, if_pos hc]
    rfl
  refine ⟨?_, List.cons_ne_nil _ _⟩
  rw [loop_kept, hlost _ List.length_replicate]
  rw [hlost _ List.length_replicate]
  exact List.not_mem_nil

/-! ## Line by line -/

/-- The calls store the lines of `s`, one each, with a NUL behind it. -/
def StoresLines (s : List UInt8) (calls : List Call) : Prop :=
  ∀ (n : Nat) (c : Call), calls[n]? = some c → (Lines.split newline s).1[n]? = some c.text ∧
    c.got.mem (c.dest.dst + c.text.length) = 0

/-- When the bytes `t` are copied and a line is left unfinished, the byte behind it is
    not 0 in what the destination of that call held. -/
def BoundaryOk (dests : Nat → Destination) (t : List UInt8) : Prop :=
  let (lines, part) := Lines.split newline t
  part ≠ [] → (dests lines.length).mem ((dests lines.length).dst + part.length) ≠ 0

/-- It is so wherever a chunk ends, and at the end of the file. -/
def Guarded (dests : Nat → Destination) (p : List UInt8) (chunks : List Chunk) : Prop :=
  ∀ pre, pre <+: chunks → BoundaryOk dests (p ++ stream pre)

/-- For text without a newline the boundary is at its end. -/
private theorem boundaryOk_of_notMem {dests : Nat → Destination} {t : List UInt8}
    (h : newline ∉ t) :
    BoundaryOk dests t ↔ (t ≠ [] → (dests 0).mem ((dests 0).dst + t.length) ≠ 0) := by
  rw [BoundaryOk, Lines.split_of_notMem h]
  rfl

/-- Behind a line, the destinations of the calls to come count. -/
private theorem boundaryOk_line {dests : Nat → Destination} {l : List UInt8} (h : newline ∉ l)
    (t : List UInt8) :
    BoundaryOk dests (l ++ newline :: t) ↔ BoundaryOk (fun n => dests (n + 1)) t := by
  rw [BoundaryOk, Lines.split_append_sep h]
  rfl

/-- The first line is stored by the first call, and the others by the others. -/
private theorem storesLines_cons {l : List UInt8} (h : newline ∉ l) (s : List UInt8) (c : Call)
    (calls : List Call) :
    StoresLines (l ++ newline :: s) (c :: calls) ↔
      (c.text = l ++ [newline] ∧ c.got.mem (c.dest.dst + c.text.length) = 0) ∧
        StoresLines s calls := by
  rw [StoresLines, Lines.split_append_sep h]
  constructor
  · intro hlines
    obtain ⟨hline, hzero⟩ := hlines 0 c rfl
    exact ⟨⟨(Option.some.inj hline).symm, hzero⟩, fun n d hd => hlines (n + 1) d hd⟩
  · rintro ⟨⟨hline, hzero⟩, hlines⟩ n d hd
    cases n with
    | zero =>
      cases hd
      exact ⟨congrArg some hline.symm, hzero⟩
    | succ n => exact hlines n d hd

/-- No chunk of an input, and so none of any first part of it, fills the buffer. -/
theorem kept_eq_stream {input q : List Chunk}
    (hlen : ∀ c ∈ input, c.bytes.length < 2048) (hq : q <+: input) : kept q = stream q :=
  (kept_eq_stream_iff q).mpr fun c hc => Nat.ne_of_lt (hlen c (hq.subset hc))

/-- A prefix of two lists is a proper prefix of the first, or reaches into the second. -/
private theorem prefix_append_cases {α : Type} {q pre rest : List α} (h : q <+: pre ++ rest) :
    (∃ a, a ≠ [] ∧ pre = q ++ a) ∨ ∃ a, q = pre ++ a ∧ a <+: rest := by
  obtain ⟨b, hb⟩ := h
  rcases List.append_eq_append_iff.mp hb with ⟨a, hpre, -⟩ | ⟨a, hq, hrest⟩
  · by_cases ha : a = []
    · rw [ha, List.append_nil] at hpre
      exact .inr ⟨[], by rw [hpre, List.append_nil], List.nil_prefix⟩
    · exact .inl ⟨a, ha, hpre⟩
  · exact .inr ⟨a, hq, b, hrest.symm⟩

namespace Reply

variable {dests : Nat → Destination} {br : BufferedReader} {input pre : List Chunk} {got : Got}
  {text : List UInt8}

/-- The call went on at the end of a chunk because memory held no 0 there. -/
private theorem boundary_passed (h : Reply br input (dests 0).mem (dests 0).dst got text pre)
    {q a : List Chunk} (hq : kept q = stream q) (hpre : pre = q ++ a) (ha : a ≠ []) :
    BoundaryOk dests (br.pending ++ stream q) := by
  by_cases hread : br.pending ≠ [] ∨ q ≠ []
  · have hpassed := h.passed q a hpre ha hread
    rw [hq] at hpassed
    exact (boundaryOk_of_notMem hpassed.1).mpr fun _ => hpassed.2
  · rw [not_or, not_not, not_not] at hread
    rw [hread.1, hread.2]
    exact (boundaryOk_of_notMem List.not_mem_nil).mpr fun h => absurd rfl h

/-- The pieces that are left are as short as before. -/
private theorem rest_lt (h : Reply br input (dests 0).mem (dests 0).dst got text pre)
    (hlen : ∀ c ∈ input, c.bytes.length < 2048) : ∀ c ∈ got.input, c.bytes.length < 2048 := by
  intro c hc
  refine hlen c ?_
  rw [h.input]
  exact List.mem_append_right pre hc

/-- A complete line is the first line of what there is to come. -/
private theorem total_line (h : Reply br input (dests 0).mem (dests 0).dst got text pre)
    {l : List UInt8}
    (hline : text = l ++ [newline]) :
    br.pending ++ kept input = l ++ newline :: (got.br.pending ++ kept got.input) := by
  rw [h.total, hline, List.append_assoc, List.singleton_append]

/-- After a line, the guards that are left are those of the calls to come. -/
private theorem guarded_line (h : Reply br input (dests 0).mem (dests 0).dst got text pre)
    (hlen : ∀ c ∈ input, c.bytes.length < 2048) {l : List UInt8}
    (hline : text = l ++ [newline]) (hfirst : newline ∉ l) :
    Guarded dests br.pending input ↔
      Guarded (fun n => dests (n + 1)) got.br.pending got.input := by
  have hpre : pre <+: input := ⟨got.input, h.input.symm⟩
  -- the line was taken off the front of the stream
  have hjoin : ∀ q, br.pending ++ stream (pre ++ q) =
      l ++ newline :: (got.br.pending ++ stream q) := fun q => by
    have hbytes := h.bytes
    rw [kept_eq_stream hlen hpre, hline] at hbytes
    rw [stream, List.flatMap_append, ← List.append_assoc]
    exact (congrArg (· ++ stream q) hbytes).trans (by simp)
  constructor
  · -- the guards behind the line are those of the longer prefixes
    intro hg q hq
    rw [← boundaryOk_line hfirst, ← hjoin]
    refine hg _ ?_
    rw [h.input]
    exact (List.prefix_append_right_inj pre).mpr hq
  · intro hg q hq
    have hq' := hq
    rw [h.input] at hq'
    -- a prefix that ends inside the line is past its boundary already
    rcases prefix_append_cases hq' with ⟨a, ha, hsplit⟩ | ⟨a, rfl, ha⟩
    · exact h.boundary_passed (kept_eq_stream hlen hq) hsplit ha
    · rw [hjoin, boundaryOk_line hfirst]
      exact hg a ha

/-- A call that takes a 0 it did not write for its own runs into one the guards exclude. -/
private theorem not_guarded_of_stale (h : Reply br input (dests 0).mem (dests 0).dst got text pre)
    (hlen : ∀ c ∈ input, c.bytes.length < 2048) (hpart : newline ∉ text)
    (hread : br.pending ≠ [] ∨ pre ≠ []) (hleft : got.br.pending = [])
    (hzero : (dests 0).mem ((dests 0).dst + text.length) = 0) :
    ¬ Guarded dests br.pending input := by
  intro hg
  have hpre : pre <+: input := ⟨got.input, h.input.symm⟩
  -- all that was read is the text, which has no newline
  have hbytes : br.pending ++ stream pre = text := by
    rw [← kept_eq_stream hlen hpre, h.bytes, hleft, List.append_nil]
  have hne : text ≠ [] := by
    intro hnil
    rw [hnil, List.append_eq_nil_iff] at hbytes
    refine hread.elim (absurd hbytes.1) fun hne => ?_
    obtain ⟨c, hc⟩ := List.exists_mem_of_ne_nil pre hne
    exact c.nonempty (List.flatMap_eq_nil_iff.mp hbytes.2 c hc)
  -- so its end is a boundary, where the guard wants a byte that is not 0
  have hok := hg pre hpre
  rw [hbytes, boundaryOk_of_notMem hpart] at hok
  exact hok hne hzero

/-- The call that ends the loop found no 0 that it did not write. -/
private theorem guarded_eof (h : Reply br input (dests 0).mem (dests 0).dst got text pre)
    (hlen : ∀ c ∈ input, c.bytes.length < 2048) (hret : got.ret = false) :
    newline ∉ br.pending ++ stream input ∧ Guarded dests br.pending input := by
  cases h.ending with
  | line _ _ _ htrue => exact absurd (hret.symm.trans htrue) Bool.false_ne_true
  | stale _ _ htrue => exact absurd (hret.symm.trans htrue) Bool.false_ne_true
  | eof hpart _ hleft hend hnonzero =>
    -- the whole input was read
    have hinput := h.input
    rw [hend, List.append_nil] at hinput
    have hbytes : br.pending ++ stream input = text := by
      rw [← kept_eq_stream hlen (List.prefix_refl input), hinput, h.bytes, hleft,
        List.append_nil]
    refine ⟨by rwa [hbytes], fun q hq => ?_⟩
    have hq' : q <+: pre ++ [] := by rwa [List.append_nil, ← hinput]
    -- inside the text every prefix was passed, and its end is the end of the stream
    rcases prefix_append_cases hq' with ⟨a, ha, hsplit⟩ | ⟨a, hsplit, ha⟩
    · exact h.boundary_passed (kept_eq_stream hlen hq) hsplit ha
    · rw [List.prefix_nil.mp ha, List.append_nil, ← hinput] at hsplit
      rw [hsplit, hbytes, boundaryOk_of_notMem hpart]
      intro hne
      refine hnonzero ?_
      by_contra hnot
      rw [not_or, not_not, not_not] at hnot
      rw [hinput, hnot.1, hnot.2] at hbytes
      exact hne hbytes.symm

end Reply

/-- A loop stores line after line if and only if its destinations meet the guards. -/
private theorem loop_storesLines_iff (dests : Nat → Destination) (br : BufferedReader)
    (input : List Chunk) (hlen : ∀ c ∈ input, c.bytes.length < 2048)
    (hnul : 0 ∉ br.pending ++ kept input) :
    StoresLines (br.pending ++ kept input) (fdgetsLoop dests br input).1 ↔
      Guarded dests br.pending input := by
  -- along the calls of the loop: the first call is a line, and the others are its rest
  fun_induction fdgetsLoop dests br input with
  | case1 dests br input got hret calls last hloop ih =>
    obtain ⟨text, pre, hreply⟩ := fdgets_reply br input (dests 0).mem (dests 0).dst hnul
    cases hreply.ending with
    | line l hline hfirst _ hzero =>
      have hrest := ih (hreply.rest_lt hlen) (hreply.nulFree hnul)
      have hnul' : got.mem ((dests 0).dst + text.length) = 0 := by
        rw [← hreply.pointer]
        exact hzero
      rw [hloop] at hrest
      rw [hreply.total_line hline, storesLines_cons hfirst, hreply.text_eq,
        hreply.guarded_line hlen hline hfirst]
      exact (and_iff_right ⟨hline, hnul'⟩).trans hrest
    -- a call without a newline stores no line, and meets no guard
    | stale hpart hread _ hleft hzero =>
      refine iff_of_false (fun hlines => ?_)
        (hreply.not_guarded_of_stale hlen hpart hread hleft hzero)
      have hfirst := (hlines 0 _ rfl).1
      rw [hreply.text_eq] at hfirst
      exact hpart (Lines.mem_of_mem_split (List.mem_of_getElem? hfirst))
    | eof _ hfalse => exact absurd (hfalse.symm.trans hret) Bool.false_ne_true
  -- the last call: there is no line left, and every guard is met
  | case2 dests br input got hret =>
    obtain ⟨text, pre, hreply⟩ := fdgets_reply br input (dests 0).mem (dests 0).dst hnul
    refine iff_of_true (fun n c hc => ?_)
      (hreply.guarded_eof hlen (Bool.eq_false_iff.mpr hret)).2
    rw [List.getElem?_nil] at hc
    cases hc

/-- Then it returns true once for each complete line. -/
private theorem loop_lines (dests : Nat → Destination) (br : BufferedReader) (input : List Chunk)
    (hlen : ∀ c ∈ input, c.bytes.length < 2048) (hnul : 0 ∉ br.pending ++ kept input)
    (hguard : Guarded dests br.pending input) :
    (fdgetsLoop dests br input).1.map Call.text =
      (Lines.split newline (br.pending ++ kept input)).1 := by
  -- the same induction, with the guards given
  fun_induction fdgetsLoop dests br input with
  | case1 dests br input got hret calls last hloop ih =>
    obtain ⟨text, pre, hreply⟩ := fdgets_reply br input (dests 0).mem (dests 0).dst hnul
    cases hreply.ending with
    | line l hline hfirst _ hzero =>
      have hrest := ih (hreply.rest_lt hlen) (hreply.nulFree hnul)
        ((hreply.guarded_line hlen hline hfirst).mp hguard)
      rw [hloop] at hrest
      rw [hreply.total_line hline, Lines.split_append_sep hfirst, List.map_cons, hreply.text_eq,
        hline, hrest]
    | stale hpart hread _ hleft hzero =>
      -- the guards rule out a call that stops in the middle of a line
      exact absurd hguard (hreply.not_guarded_of_stale hlen hpart hread hleft hzero)
    | eof _ hfalse => exact absurd (hfalse.symm.trans hret) Bool.false_ne_true
  | case2 dests br input got hret =>
    obtain ⟨text, pre, hreply⟩ := fdgets_reply br input (dests 0).mem (dests 0).dst hnul
    have hpart := (hreply.guarded_eof hlen (Bool.eq_false_iff.mpr hret)).1
    rw [kept_eq_stream hlen (List.prefix_refl input), Lines.split_of_notMem hpart]
    rfl

theorem fdgetsLoop_lines_iff (dests₁ dests₂ : Nat → Destination) (br₁ br₂ : BufferedReader)
    (chunks₁ chunks₂ : List Chunk) (hempty₁ : br₁.start = br₁.stop)
    (hempty₂ : br₂.start = br₂.stop) (hlen₁ : ∀ c ∈ chunks₁, c.bytes.length < 2048)
    (hlen₂ : ∀ c ∈ chunks₂, c.bytes.length < 2048) (hsame : stream chunks₂ = stream chunks₁)
    (hnul : 0 ∉ stream chunks₁) :
    (StoresLines (stream chunks₁) (fdgetsLoop dests₁ br₁ chunks₁).1 ∧
        StoresLines (stream chunks₁) (fdgetsLoop dests₂ br₂ chunks₂).1 ∧
        (fdgetsLoop dests₁ br₁ chunks₁).1.map Call.text =
          (fdgetsLoop dests₂ br₂ chunks₂).1.map Call.text) ↔
      Guarded dests₁ [] chunks₁ ∧ Guarded dests₂ [] chunks₂ := by
  -- all chunks are shorter than the buffer, so all of their bytes are kept
  have hstream : ∀ {br : BufferedReader} {chunks : List Chunk}, br.start = br.stop →
      (∀ c ∈ chunks, c.bytes.length < 2048) → br.pending ++ kept chunks = stream chunks :=
    fun hempty hlen => by
      rw [pending_eq_nil.mpr hempty, kept_eq_stream hlen (List.prefix_refl _)]
      rfl
  have hnul₁ : 0 ∉ br₁.pending ++ kept chunks₁ := by rwa [hstream hempty₁ hlen₁]
  have hnul₂ : 0 ∉ br₂.pending ++ kept chunks₂ := by rwa [hstream hempty₂ hlen₂, hsame]
  -- each loop stores the lines when its own guards hold
  have hlines₁ := loop_storesLines_iff dests₁ br₁ chunks₁ hlen₁ hnul₁
  have hlines₂ := loop_storesLines_iff dests₂ br₂ chunks₂ hlen₂ hnul₂
  have hmap₁ := loop_lines dests₁ br₁ chunks₁ hlen₁ hnul₁
  have hmap₂ := loop_lines dests₂ br₂ chunks₂ hlen₂ hnul₂
  rw [hstream hempty₁ hlen₁, pending_eq_nil.mpr hempty₁] at hlines₁ hmap₁
  rw [hstream hempty₂ hlen₂, hsame, pending_eq_nil.mpr hempty₂] at hlines₂ hmap₂
  rw [hlines₁, hlines₂, ← and_assoc]
  exact and_iff_left_of_imp fun h => (hmap₁ h.1).trans (hmap₂ h.2).symm

/-- A destination without a 0 meets every guard. -/
theorem fdgetsLoop_lines_fresh :
    StoresLines [0x61, 0x62, newline] (fdgetsLoop (fun _ => ⟨fun _ => 0xff, 0⟩)
        ⟨fun _ => 0, 0, 0⟩
        [⟨[0x61], by decide, by decide⟩, ⟨[0x62, newline], by decide, by decide⟩]).1 ∧
      StoresLines [0x61, 0x62, newline] (fdgetsLoop (fun _ => ⟨fun _ => 0x20, 0⟩)
        ⟨fun _ => 0, 0, 0⟩ [⟨[0x61, 0x62, newline], by decide, by decide⟩]).1 ∧
      (fdgetsLoop (fun _ => ⟨fun _ => 0xff, 0⟩) ⟨fun _ => 0, 0, 0⟩
        [⟨[0x61], by decide, by decide⟩, ⟨[0x62, newline], by decide, by decide⟩]).1.map
          Call.text =
        (fdgetsLoop (fun _ => ⟨fun _ => 0x20, 0⟩) ⟨fun _ => 0, 0, 0⟩
          [⟨[0x61, 0x62, newline], by decide, by decide⟩]).1.map Call.text := by
  -- the byte behind the text is not 0 in either destination
  have hff : (0xff : UInt8) ≠ 0 := by decide
  have h20 : (0x20 : UInt8) ≠ 0 := by decide
  exact (fdgetsLoop_lines_iff (fun _ => ⟨fun _ => 0xff, 0⟩) (fun _ => ⟨fun _ => 0x20, 0⟩)
    ⟨fun _ => 0, 0, 0⟩ ⟨fun _ => 0, 0, 0⟩
    [⟨[0x61], by decide, by decide⟩, ⟨[0x62, newline], by decide, by decide⟩]
    [⟨[0x61, 0x62, newline], by decide, by decide⟩] rfl rfl (by decide) (by decide) rfl
    (by decide)).mpr ⟨fun _ _ _ => hff, fun _ _ _ => h20⟩

/-- In a destination full of 0s, as a static buffer is at first, `a` is taken for a line
    when a chunk ends behind it. -/
theorem fdgetsLoop_lines_stale :
    stream [⟨[0x61], by decide, by decide⟩, ⟨[0x62, newline], by decide, by decide⟩] =
        stream [⟨[0x61, 0x62, newline], by decide, by decide⟩] ∧
      ¬ StoresLines [0x61, 0x62, newline] (fdgetsLoop (fun _ => ⟨fun _ => 0, 0⟩)
        ⟨fun _ => 0, 0, 0⟩
        [⟨[0x61], by decide, by decide⟩, ⟨[0x62, newline], by decide, by decide⟩]).1 := by
  refine ⟨rfl, fun hlines => ?_⟩
  have hguard := (loop_storesLines_iff _ _ _ (by decide) (by decide)).mp hlines
  exact hguard [⟨[0x61], by decide, by decide⟩] (by simp) (by decide) rfl

end Tlibc.Stdio
