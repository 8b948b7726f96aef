import Tlibc.Native.Basic
import Tlibc.Spec.ShSegments

/-!
# The tables of `system_single`

The line that the tool reads is shorter than the buffer of the first job, and a token
takes one byte more than its characters. The jobs and their arguments are only counted.

* `inTables_iff`: on a line of up to 2047 characters exactly the segments of up to four
  stages and 63 words a stage are kept inside the tables
-/

namespace Tlibc.Sh

variable {cmd text : List UInt8} {stop : Nat} {ts : List (List UInt8)}

/-- What is taken of the arrays behind the tokens. -/
def Place.after (p : Place) (ts : List (List UInt8)) : Place := ts.foldl Place.next p

/-- The loop stores nothing outside its tables, and behind every token the index of the
    job, the number of its arguments and the offset of `cp` are in range. -/
structure InTables (cmd : List UInt8) (stop : Nat) : Prop where
  returns : ∃ s, scan .start (cmd.take stop) = .ok s
  tables : ∀ n s, ((segmentTokens cmd stop).take n).foldlM takeToken .start = .ok s →
    s.cur < 4 ∧ s.narg ≤ 63 ∧ s.buf.length < bufSize

/-- The tokens have at most three bars, and no stage has more than 63 words. -/
def Within (p : Place) (ts : List (List UInt8)) : Prop :=
  ∀ n, (p.after (ts.take n)).stage ≤ 3 ∧ (p.after (ts.take n)).words ≤ 63

/-! ## The buffer -/

/-- Each token takes its characters and a NUL. -/
private theorem Place.after_used (p : Place) (ts : List (List UInt8)) :
    (p.after ts).used = p.used + (ts.map fun t => t.length + 1).sum := by
  induction ts generalizing p with
  | nil => rfl
  | cons t ts ih =>
    rw [List.map_cons, List.sum_cons, ← Nat.add_assoc]
    exact ih (p.next t)

/-- The tokens of a line take one byte more than the line at most. -/
private theorem after_used_le (cmd : List UInt8) (stop n : Nat) :
    (Place.start.after ((segmentTokens cmd stop).take n)).used ≤ cmd.length + 1 := by
  have hsum := Tokens.sum_length_le (p := contains blank) (cmd.take stop)
  have hdrop : ((cmd.take stop).dropWhile (contains blank)).length ≤ cmd.length :=
    ((List.dropWhile_sublist _).trans (List.take_sublist _ _)).length_le
  have htake := List.sum_take_add_sum_drop ((segmentTokens cmd stop).map fun t => t.length + 1) n
  have hstart : Place.start.used = 0 := rfl
  rw [Place.after_used, hstart, List.map_take]
  rw [segmentTokens] at htake ⊢
  omega

/-- What is passed on is a part of the line without separators. -/
private theorem Passed.segment (h : Passed cmd text stop) :
    text.length ≤ cmd.length ∧ ∀ c ∈ text.take stop, contains eoc c = false := by
  induction h with
  | first h => exact ⟨Nat.le_refl _, segment_eoc _⟩
  | later h hret hexit hrest ih =>
    refine ⟨ih.1.trans ?_, ih.2⟩
    rw [List.length_drop]
    exact Nat.sub_le _ _

/-! ## The counters -/

/-- Tokens within the bounds fit, when the buffer has room for them. -/
private theorem Within.fits {p : Place} (h : Within p ts) (hused : (p.after ts).used < bufSize) :
    Fits p ts := by
  induction ts generalizing p with
  | nil => trivial
  | cons t ts ih =>
    have hrest : Within (p.next t) ts := fun n => h (n + 1)
    refine ⟨⟨?_, ?_⟩, ih hrest hused⟩
    · rw [Place.after_used, List.map_cons, List.sum_cons] at hused
      omega
    · -- the bounds in front of the token, and behind it
      obtain ⟨hstage, hwords⟩ := h 0
      obtain ⟨hstage', hwords'⟩ := h 1
      simp only [Place.after, List.take_zero, List.foldl_nil] at hstage hwords
      simp only [Place.after, List.take_succ_cons, List.take_zero, List.foldl_cons, List.foldl_nil,
        Place.next] at hstage'
      by_cases hbar : t = bar
      · -- a bar that is a target belongs to the next job
        rw [if_pos hbar] at hstage' ⊢
        split <;> omega
      · rw [if_neg hbar]
        split
        · exact fun _ => by omega
        · exact ⟨by omega, .inr (by omega)⟩

/-- The first of the tokens fit too. -/
private theorem Fits.take {p : Place} (h : Fits p ts) (n : Nat) : Fits p (ts.take n) := by
  induction ts generalizing p n with
  | nil => simp [Fits]
  | cons t ts ih =>
    cases n with
    | zero => trivial
    | succ n => exact ⟨h.1, ih h.2 n⟩

/-- The counters behind tokens that fit. -/
private theorem Tracks.after {p : Place} {exe : Option (List UInt8)} {s : Parse}
    (h : Tracks p exe s)
    (hts : ∀ t ∈ ts, t ≠ [] ∧ ∀ c ∈ t, c ∉ special) (hfits : Fits p ts) :
    ∃ s' exe', ts.foldlM takeToken s = .ok s' ∧ Tracks (p.after ts) exe' s' := by
  induction ts generalizing p exe s with
  | nil => exact ⟨s, exe, rfl, h⟩
  | cons t ts ih =>
    obtain ⟨ht, hts⟩ := List.forall_mem_cons.mp hts
    obtain ⟨exe₁, hstep, -, -⟩ := h.token ht.1 ht.2 ts
    obtain ⟨s₁, hs₁, htracks⟩ := hstep hfits.1
    obtain ⟨s₂, exe₂, hs₂, htracks₂⟩ := ih htracks hts hfits.2
    refine ⟨s₂, exe₂, ?_, htracks₂⟩
    rw [List.foldlM_cons, hs₁]
    exact hs₂

/-- The segments of a line that are kept inside the tables. -/
theorem inTables_iff (cmd : CString) (hlength : cmd.chars.length ≤ 2047)
    (hpassed : Passed cmd.chars text stop) :
    InTables text stop ↔ Within .start (segmentTokens text stop) := by
  have hplain := segmentTokens_plain hpassed.segment.2
  have hused : ∀ n, (Place.start.after ((segmentTokens text stop).take n)).used < bufSize := by
    intro n
    have hle := after_used_le text stop n
    have hshort := hpassed.segment.1
    rw [bufSize]
    omega
  constructor
  · intro h n
    -- the loop returns, so that all tokens fit
    obtain ⟨s, hs⟩ := h.returns
    rw [scan_eq] at hs
    have hfits : Fits .start (segmentTokens text stop) := by
      by_contra hnot
      rw [segmentTokens] at hnot hplain
      rw [(Tracks.start.run hplain).2 hnot] at hs
      cases hs
    obtain ⟨s', exe', hrun, htracks⟩ := Tracks.start.after
      (fun t ht => hplain t (List.mem_of_mem_take ht)) (hfits.take n)
    obtain ⟨hcur, hnarg, -⟩ := h.tables n s' hrun
    rw [← htracks.stage, ← htracks.words]
    exact ⟨Nat.le_of_lt_succ hcur, hnarg⟩
  · intro h
    have hall := hused (segmentTokens text stop).length
    rw [List.take_length] at hall
    have hfits := h.fits hall
    refine ⟨?_, fun n s hs => ?_⟩
    · obtain ⟨s, hs, -⟩ := (Tracks.start.run hplain).1 hfits
      exact ⟨s, by rw [scan_eq]; exact hs⟩
    · -- the state behind these tokens is the one that the counters are known of
      obtain ⟨s', exe', hrun, htracks⟩ := Tracks.start.after
        (fun t ht => hplain t (List.mem_of_mem_take ht)) (hfits.take n)
      obtain rfl := Except.ok.inj (hrun.symm.trans hs)
      obtain ⟨hstage, hwords⟩ := h n
      rw [htracks.stage, htracks.words, htracks.used]
      exact ⟨Nat.lt_succ_of_le hstage, hwords, hused n⟩

/-- `a | a` and the newline -/
def pipeLine : CString := ⟨[0x61, 0x20, 0x7c, 0x20, 0x61, 0x0a], by decide⟩

/-- Its tokens are two words and the bar between them. -/
private theorem pipeLine_tokens : segmentTokens pipeLine.chars 5 = [[0x61], bar, [0x61]] := by
  simp [segmentTokens, pipeLine, Tokens.tokens, Tokens.first, Tokens.rest, contains, blank, bar]

/-- Two stages of one word each. -/
theorem pipeLine_inTables : InTables pipeLine.chars 5 := by
  have hpassed : Passed pipeLine.chars pipeLine.chars 5 := .first (List.cons_ne_nil _ _)
  refine (inTables_iff pipeLine (by decide) hpassed).mpr ?_
  rw [pipeLine_tokens]
  intro n
  match n with
  | 0 => decide
  | 1 => decide
  | 2 => decide
  | n + 3 =>
    rw [List.take_of_length_le (Nat.le_add_left 3 n)]
    decide

/-- `a | a | a | a | a` and the newline -/
def longPipe : CString :=
  ⟨[0x61, 0x20, 0x7c, 0x20, 0x61, 0x20, 0x7c, 0x20, 0x61, 0x20, 0x7c, 0x20, 0x61, 0x20, 0x7c, 0x20,
    0x61, 0x0a], by decide⟩

/-- The fourth bar moves on to a fifth job. -/
theorem longPipe_overruns : ¬ ∀ (cmd : CString) (text : List UInt8) (stop : Nat),
    cmd.chars.length ≤ 2047 → Passed cmd.chars text stop → InTables text stop := by
  intro h
  have hpassed : Passed longPipe.chars longPipe.chars 17 := .first (List.cons_ne_nil _ _)
  have htokens : segmentTokens longPipe.chars 17 =
      [[0x61], bar, [0x61], bar, [0x61], bar, [0x61], bar, [0x61]] := by
    simp [segmentTokens, longPipe, Tokens.tokens, Tokens.first, Tokens.rest, contains, blank, bar]
  obtain ⟨s, hs⟩ := (h longPipe _ _ (by decide) hpassed).returns
  have hfull : ¬ Fits .start (segmentTokens longPipe.chars 17) := by
    rw [htokens]
    simp [Fits, Place.Fits, Place.next, Place.start, bar, isOperator, bufSize]
  rw [scan_eq] at hs
  have herror := (Tracks.start.run (segmentTokens_plain hpassed.segment.2)).2 hfull
  rw [segmentTokens] at herror
  rw [herror] at hs
  cases hs

end Tlibc.Sh
