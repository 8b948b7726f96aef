import Tlibc.Lib.Tokens
import Tlibc.Native.Wc
import Tlibc.Spec.Printf

/-!
# What `wc` counts

The flag that says whether the last line has ended is set by any newline and never taken
back, and a byte from 0x80 on is a negative index.

* `correct_iff`: the counts are right, for any splitting into chunks, exactly for ASCII
  bytes that end in a newline or have none
-/

namespace Tlibc.Wc

variable {c : UInt8} {bytes : List UInt8} {s : Scan} {nbyte : UInt32} {chunks : List Chunk}

/-! ## What is to be counted -/

/-- The bytes of the chunks. -/
def stream (chunks : List Chunk) : List UInt8 := chunks.flatMap Chunk.bytes

/-- A byte of a word. -/
def isWord (c : UInt8) : Bool := chtype c.toNat

/-- The lines, the last one also when no newline ends it. -/
def lines (bytes : List UInt8) : Nat :=
  bytes.count newline + if bytes = [] ∨ bytes.getLast? = some newline then 0 else 1

/-- The maximal runs of bytes of words. -/
def words (bytes : List UInt8) : Nat := (Tokens.tokens (fun c => !isWord c) bytes).length

/-- The counts of a stream, modulo 2 ^ 32. -/
def expected (bytes : List UInt8) : Counts :=
  ⟨UInt32.ofNat (lines bytes), UInt32.ofNat (words bytes), UInt32.ofNat bytes.length⟩

/-- A tab. -/
def tab : UInt8 := 0x09

/-- The text of the counts. -/
def Counts.report (counts : Counts) : List UInt8 :=
  tab :: Printf.decimalText counts.nline.toNat ++ tab :: Printf.decimalText counts.nword.toNat ++
    tab :: Printf.decimalText counts.nbyte.toNat ++ [newline]

/-- `wc` reads `chtype` inside its elements only, and prints the counts of the stream. -/
structure Correct (chunks : List Chunk) : Prop where
  counts : wc chunks 0 = .ok (expected (stream chunks))
  printed : ∀ m buf, ∃ fuel r,
    Printf.printf fuel m buf format (expected (stream chunks)).args = some (.ok r) ∧
      r.written = { fd := 1, bytes := (expected (stream chunks)).report }

/-! ## One byte -/

/-- The table covers the ASCII characters. -/
private theorem chtypeAt_ascii (h : c < 0x80) : chtypeAt c = .ok (isWord c) := by
  have hlt : c.toNat < 0x80 := UInt8.lt_iff_toNat_lt.mp h
  have hint : c.toInt8.toInt = c.toNat := by
    show c.toBitVec.toInt = _
    rw [BitVec.toInt_eq_toNat_of_lt (by
      show 2 * c.toNat < 2 ^ 8
      omega)]
    rfl
  rw [chtypeAt, hint]
  simp only [Int.toNat_natCast]
  rw [if_pos (by omega), isWord]

/-- It covers no others. -/
private theorem chtypeAt_high (h : ¬ c < 0x80) : chtypeAt c = .error .outOfBounds := by
  have hge : 0x80 ≤ c.toNat := Nat.not_lt.mp fun hlt => h (UInt8.lt_iff_toNat_lt.mpr hlt)
  have hint : c.toInt8.toInt < 0 := by
    show c.toBitVec.toInt < 0
    -- `char` is signed
    rw [BitVec.toInt_eq_toNat_cond, if_neg (by
      show ¬ 2 * c.toNat < 2 ^ 8
      omega)]
    have hlt := c.toNat_lt
    show (c.toNat : Int) - (2 ^ 8 : Nat) < 0
    omega
  rw [chtypeAt, if_neg (by omega)]

/-! ## Words -/

/-- A character that is no part of a word adds none. -/
private theorem words_gap (h : isWord c = false) (bytes : List UInt8) :
    words (c :: bytes) = words bytes := by
  have hgap := Tokens.tokens_gap (p := fun c => !isWord c) (show !isWord c by rw [h]; rfl) bytes
  rw [words, hgap, words]

/-- A word begins, and what is left of it is passed over. -/
private theorem words_start (h : isWord c = true) (bytes : List UInt8) :
    words (c :: bytes) = words (bytes.dropWhile isWord) + 1 := by
  have hstart := Tokens.length_tokens_start (p := fun c => !isWord c)
    (show (!isWord c) = false by rw [h]; rfl) bytes
  simp only [Bool.not_not] at hstart
  exact hstart

/-- The words to come, when the last byte was white or not. -/
def wordsFrom (white : Bool) (bytes : List UInt8) : Nat :=
  words (if white then bytes else bytes.dropWhile isWord)

/-- A word begins where a character of one follows a blank. -/
private theorem wordsFrom_cons (white : Bool) (c : UInt8) (bytes : List UInt8) :
    wordsFrom white (c :: bytes) =
      (if white && isWord c then 1 else 0) + wordsFrom (!isWord c) bytes := by
  cases hc : isWord c with
  | true =>
    cases white with
    | true => simp [wordsFrom, words_start hc, Nat.add_comm]
    | false => simp [wordsFrom, hc]
  | false =>
    cases white with
    | true => simp [wordsFrom, words_gap hc]
    | false => simp [wordsFrom, hc, words_gap hc]

/-! ## The loops -/

/-- What is known of the counters behind bytes that were read. -/
structure Reads (s : Scan) (bytes : List UInt8) (t : Scan) : Prop where
  nline : t.nline = s.nline + UInt32.ofNat (bytes.count newline)
  nword : t.nword = s.nword + UInt32.ofNat (wordsFrom s.white bytes)
  ended : t.ended = (s.ended || bytes.contains newline)

/-- An ASCII character is counted. -/
private theorem count_ascii (s : Scan) (h : c < 0x80) : count s c = .ok
    { nline := s.nline + if c = newline then 1 else 0
      nword := s.nword + if s.white && isWord c then 1 else 0
      white := !isWord c
      ended := s.ended || c == newline } := by
  obtain ⟨nline, nword, white, ended⟩ := s
  have hline : countLine ⟨nline, nword, white, ended⟩ c =
      ⟨nline + (if c = newline then 1 else 0), nword, white, ended || c == newline⟩ := by
    rw [countLine]
    by_cases hc : c = newline
    · simp [hc]
    · simp [hc]
  rw [count]
  simp only [hline, chtypeAt_ascii h, Run.ok_bind]
  cases white <;> cases isWord c <;> simp <;> rfl

/-- Any other overruns the table. -/
private theorem count_high (s : Scan) (h : ¬ c < 0x80) : count s c = .error .outOfBounds := by
  rw [count]
  simp only [chtypeAt_high h, Run.error_bind, ite_self]

/-- The loop over ASCII bytes. -/
private theorem count_reads (h : ∀ c ∈ bytes, c < 0x80) (s : Scan) :
    ∃ t, bytes.foldlM count s = .ok t ∧ Reads s bytes t := by
  induction bytes generalizing s with
  | nil => exact ⟨s, rfl, by simp, by simp [wordsFrom, words, Tokens.tokens], by simp⟩
  | cons c bytes ih =>
    obtain ⟨hc, hbytes⟩ := List.forall_mem_cons.mp h
    obtain ⟨t, ht, hnline, hnword, hended⟩ := ih hbytes _
    refine ⟨t, ?_, ?_, ?_, ?_⟩
    · rw [List.foldlM_cons, count_ascii s hc, Run.ok_bind, ht]
    -- the counters wrap, and so do the sums
    · rw [hnline, List.count_cons]
      by_cases hc : c = newline
      · simp [hc, UInt32.add_assoc, UInt32.add_comm]
      · simp [hc]
    · rw [hnword, wordsFrom_cons, UInt32.ofNat_add, UInt32.add_assoc]
      split <;> rfl
    · rw [hended, List.contains_cons, Bool.or_assoc, BEq.comm (a := c)]

/-- Any other byte ends it. -/
private theorem count_fails (h : ¬ ∀ c ∈ bytes, c < 0x80) (s : Scan) :
    bytes.foldlM count s = .error .outOfBounds := by
  induction bytes generalizing s with
  | nil => exact absurd (fun c hc => absurd hc List.not_mem_nil) h
  | cons c bytes ih =>
    rw [List.foldlM_cons]
    by_cases hc : c < 0x80
    · rw [count_ascii s hc, Run.ok_bind]
      exact ih (fun hbytes => h (List.forall_mem_cons.mpr ⟨hc, hbytes⟩)) _
    · rw [count_high s hc, Run.error_bind]

/-- Where one chunk ends and the next begins makes no difference. -/
private theorem countChunks_eq (nbyte : UInt32) (s : Scan) (chunks : List Chunk) :
    countChunks nbyte s chunks = (stream chunks).foldlM count s >>= fun t =>
      .ok (nbyte + UInt32.ofNat (stream chunks).length, t) := by
  induction chunks generalizing nbyte s with
  | nil => simp [countChunks, stream, pure, Except.pure]
  | cons chunk chunks ih =>
    rw [countChunks, stream, List.flatMap_cons, List.foldlM_append, bind_assoc]
    congr 1
    funext t
    rw [ih, List.length_append, UInt32.ofNat_add, UInt32.add_assoc]
    rfl

/-- Pieces are not empty, so neither is their stream. -/
private theorem stream_eq_nil : stream chunks = [] ↔ chunks = [] := by
  cases chunks with
  | nil => exact iff_of_true rfl rfl
  | cons chunk chunks =>
    refine iff_of_false (fun h => ?_) (List.cons_ne_nil _ _)
    rw [stream, List.flatMap_cons] at h
    exact chunk.nonempty (List.append_eq_nil_iff.mp h).1

/-- `wc` as one loop over the stream. -/
private theorem wc_eq (chunks : List Chunk) : wc chunks 0 =
    (stream chunks).foldlM count ⟨0, 0, true, stream chunks = []⟩ >>= fun t => .ok
      ⟨if !t.ended then t.nline + 1 else t.nline, t.nword, UInt32.ofNat (stream chunks).length⟩ := by
  have hloop := countChunks_eq 0 ⟨0, 0, true, stream chunks = []⟩ chunks
  rw [UInt32.zero_add] at hloop
  simp only [stream_eq_nil] at hloop ⊢
  cases chunks with
  | nil =>
    rw [wc, if_neg (by decide)]
    rfl
  | cons chunk chunks =>
    -- `end` is false at first, as the first chunk has a byte
    have hpos := List.length_pos_iff.mpr chunk.nonempty
    have hended : decide ((chunk.bytes.length : Int) = 0) = decide (chunk :: chunks = []) := by
      rw [decide_eq_false (by omega), decide_eq_false (List.cons_ne_nil _ _)]
    rw [wc]
    simp only [if_neg (show ¬ (chunk.bytes.length : Int) < 0 by omega), hended]
    rw [hloop, bind_assoc]
    rfl

/-! ## The counts -/

/-- A newline that is not the last byte sets the flag for good. -/
def FlagRight (bytes : List UInt8) : Prop := newline ∈ bytes → bytes.getLast? = some newline

/-- The last byte is one of them. -/
private theorem getLast?_mem (h : bytes.getLast? = some c) : c ∈ bytes := by
  obtain ⟨init, rfl⟩ := List.getLast?_eq_some_iff.mp h
  simp

/-- The number of lines is right exactly when the flag is. -/
private theorem lines_eq_iff : (if !(decide (bytes = []) || bytes.contains newline) then
      UInt32.ofNat (bytes.count newline) + 1 else UInt32.ofNat (bytes.count newline)) =
    UInt32.ofNat (lines bytes) ↔ FlagRight bytes := by
  have hne : ∀ n : UInt32, n + 1 ≠ n := fun n h => by
    have hlt := n.toNat_lt
    have hsucc := congrArg UInt32.toNat h
    rw [UInt32.toNat_add, show (1 : UInt32).toNat = 1 from rfl] at hsucc
    omega
  rw [lines, FlagRight, UInt32.ofNat_add]
  by_cases hnil : bytes = []
  · simp [hnil]
  -- with a newline among the bytes the flag is set, and the last line is not counted
  by_cases hmem : newline ∈ bytes
  · by_cases hlast : bytes.getLast? = some newline
    · simp [hmem, hlast]
    · simp [hmem, hlast, hnil]
  · have hlast : bytes.getLast? ≠ some newline := fun h => hmem (getLast?_mem h)
    simp [hmem, hlast, hnil]

/-- So are all numbers, when the characters are ASCII. -/
private theorem counts_iff (chunks : List Chunk) : wc chunks 0 = .ok (expected (stream chunks)) ↔
    (∀ c ∈ stream chunks, c < 0x80) ∧ FlagRight (stream chunks) := by
  rw [wc_eq]
  by_cases hascii : ∀ c ∈ stream chunks, c < 0x80
  · obtain ⟨t, ht, hnline, hnword, hended⟩ := count_reads hascii ⟨0, 0, true, stream chunks = []⟩
    have hwords : wordsFrom true (stream chunks) = words (stream chunks) := rfl
    simp only [UInt32.zero_add] at hnline hnword
    rw [hwords] at hnword
    rw [ht, Run.ok_bind, Except.ok.injEq, expected, Counts.mk.injEq, hnline, hnword, hended,
      lines_eq_iff]
    exact ⟨fun h => ⟨hascii, h.1⟩, fun h => ⟨h.2, rfl, rfl⟩⟩
  · rw [count_fails hascii, Run.error_bind]
    exact iff_of_false nofun fun h => hascii h.1

/-- What `Printf` writes. -/
private theorem printf_counts (counts : Counts) (m : Mem) (buf : Nat) : ∃ fuel r,
    Printf.printf fuel m buf format counts.args = some (.ok r) ∧
      r.written = { fd := 1, bytes := counts.report } := by
  have hpieces : Printf.pieces format.chars =
      [.char tab, .conversion .u, .char tab, .conversion .u, .char tab, .conversion .u,
        .char newline] := rfl
  -- the three numbers are written with tabs in front of them
  have htext : Printf.expand (Printf.pieces format.chars) counts.args = counts.report := by
    rw [hpieces]
    simp [Counts.args, Printf.expand, Printf.Conversion.text, Counts.report]
  -- each has at most 24 digits
  have hlength : counts.report.length < 2 ^ 32 := by
    have hdigits : ∀ v : UInt32, (Printf.decimalText v.toNat).length ≤ 24 := fun v =>
      Printf.length_decimalText_le (Nat.lt_trans v.toNat_lt (by decide))
    have hnline := hdigits counts.nline
    have hnword := hdigits counts.nword
    have hnbyte := hdigits counts.nbyte
    simp only [Counts.report, List.length_append, List.length_cons, List.length_nil]
    omega
  obtain ⟨fuel, hrun⟩ := @Printf.sprintf_ends format counts.args (by decide)
    (by rw [hpieces]; exact ⟨trivial, trivial, trivial, trivial⟩) (by rw [htext]; exact hlength) m buf
  rw [htext] at hrun
  refine ⟨fuel, _, by rw [Printf.printf, hrun]; rfl, ?_⟩
  have hret : (UInt32.ofNat counts.report.length).toNat = counts.report.length :=
    UInt32.toNat_ofNat_of_lt' hlength
  rw [hret, Mem.read_write_left]

/-- The counts are those of the stream, for every splitting, if and only if the stream is
    ASCII and ends in a newline or has none. -/
theorem correct_iff (chunks : List Chunk) : Correct chunks ↔
    (∀ c ∈ stream chunks, c < 0x80) ∧
      (newline ∈ stream chunks → (stream chunks).getLast? = some newline) := by
  constructor
  · intro h
    exact (counts_iff chunks).mp h.counts
  · intro h
    exact ⟨(counts_iff chunks).mpr h, printf_counts _⟩

/-- `a`, a newline and `b` are two lines, and one is counted. -/
theorem open_line_not_counted : ¬ ∀ chunks, Correct chunks := by
  intro h
  have hcounts := (h [⟨[0x61, newline, 0x62], List.cons_ne_nil _ _, by decide⟩]).counts
  have hlast := ((counts_iff _).mp hcounts).2 (by decide)
  exact absurd hlast (by decide)

end Tlibc.Wc
