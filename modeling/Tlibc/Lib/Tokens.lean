import Mathlib.Data.List.Basic
import Mathlib.Algebra.BigOperators.Group.List.Basic
import Mathlib.Algebra.GroupWithZero.Nat

/-!
# Tokens between blanks

The maximal runs of characters that are not blank, and the texts a list of tokens can be
written as.

* `tokens_renders`: a text that a list of tokens was written as has these tokens
-/

namespace Tokens

variable {α : Type} {p : α → Bool}

/-- The first token of a text. -/
def first (p : α → Bool) (text : List α) : List α := (text.dropWhile p).takeWhile fun c => !p c

/-- What is left behind it. -/
def rest (p : α → Bool) (text : List α) : List α := (text.dropWhile p).dropWhile fun c => !p c

/-- Behind a token there is less text. -/
theorem length_rest_lt {text : List α} (h : text ≠ []) : (rest p text).length < text.length := by
  obtain ⟨c, text, rfl⟩ := List.exists_cons_of_ne_nil h
  rw [rest]
  cases hc : p c with
  | true =>
    -- the blank is dropped
    rw [List.dropWhile_cons_of_pos hc]
    exact Nat.lt_succ_of_le (((List.dropWhile_sublist _).trans (List.dropWhile_sublist _)).length_le)
  | false =>
    rw [List.dropWhile_cons_of_neg (by rw [hc]; exact Bool.false_ne_true),
      List.dropWhile_cons_of_pos (by rw [hc]; rfl)]
    exact Nat.lt_succ_of_le (List.dropWhile_sublist _).length_le

/-- All tokens of a text. -/
def tokens (p : α → Bool) (text : List α) : List (List α) :=
  match text with
  | [] => []
  | c :: text =>
    if (first p (c :: text)).length > 0 then
      first p (c :: text) :: tokens p (rest p (c :: text))
    else
      tokens p (rest p (c :: text))
termination_by text.length
decreasing_by all_goals exact length_rest_lt (List.cons_ne_nil _ _)

/-- A blank in front makes no difference. -/
theorem tokens_gap {c : α} (hc : p c = true) (text : List α) :
    tokens p (c :: text) = tokens p text := by
  have hfirst : first p (c :: text) = first p text := by
    rw [first, first, List.dropWhile_cons_of_pos hc]
  have hrest : rest p (c :: text) = rest p text := by
    rw [rest, rest, List.dropWhile_cons_of_pos hc]
  rw [tokens, hfirst, hrest]
  cases text with
  | nil => simp [first, rest, tokens]
  | cons d text => rw [← tokens]

/-- A token begins with a character that is not blank. -/
theorem length_tokens_start {c : α} (hc : p c = false) (text : List α) :
    (tokens p (c :: text)).length = (tokens p (text.dropWhile fun c => !p c)).length + 1 := by
  have hdrop : (c :: text).dropWhile p = c :: text :=
    List.dropWhile_cons_of_neg (by rw [hc]; exact Bool.false_ne_true)
  have hfirst : first p (c :: text) = c :: text.takeWhile fun c => !p c := by
    rw [first, hdrop]
    simp [hc]
  have hrest : rest p (c :: text) = text.dropWhile fun c => !p c := by
    rw [rest, hdrop]
    simp [hc]
  rw [tokens, hfirst, hrest, if_pos (by simp), List.length_cons]

/-- What is left behind a token is nothing, or begins with a blank. -/
theorem rest_cases (text : List α) :
    rest p text = [] ∨ ∃ c cs, rest p text = c :: cs ∧ p c = true := by
  cases hrest : rest p text with
  | nil => exact .inl rfl
  | cons c cs =>
    have hhead := List.head?_dropWhile_not (fun c => !p c) (text.dropWhile p)
    rw [show (text.dropWhile p).dropWhile (fun c => !p c) = c :: cs from hrest] at hhead
    exact .inr ⟨c, cs, rfl, by simpa using hhead⟩

/-- The tokens with one character behind each take one more character than the text. -/
theorem sum_length_le (text : List α) :
    ((tokens p text).map fun t => t.length + 1).sum ≤ (text.dropWhile p).length + 1 := by
  induction text using tokens.induct p with
  | case1 =>
    rw [tokens]
    exact Nat.zero_le _
  | case2 c text hpos ih =>
    rw [tokens, if_pos hpos, List.map_cons, List.sum_cons]
    have hsplit : (first p (c :: text)).length + (rest p (c :: text)).length =
        ((c :: text).dropWhile p).length := by
      rw [← List.length_append, first, rest, List.takeWhile_append_dropWhile]
    rcases rest_cases (p := p) (c :: text) with hnil | ⟨d, cs, hcons, hd⟩
    · rw [hnil, tokens, List.map_nil, List.sum_nil]
      omega
    · -- the blank that ended the token makes up for its last character
      have hblank : (List.dropWhile p (rest p (c :: text))).length ≤ cs.length := by
        rw [hcons, List.dropWhile_cons_of_pos hd]
        exact (List.dropWhile_sublist _).length_le
      rw [hcons, List.length_cons] at hsplit
      omega
  | case3 c text hempty ih =>
    rw [tokens, if_neg hempty]
    have hle : (List.dropWhile p (rest p (c :: text))).length ≤ ((c :: text).dropWhile p).length :=
      ((List.dropWhile_sublist _).trans (List.dropWhile_sublist _)).length_le
    omega

/-- A token is not empty, and has no blanks. -/
theorem mem_tokens {text t : List α} (ht : t ∈ tokens p text) :
    t ≠ [] ∧ ∀ c ∈ t, p c = false ∧ c ∈ text := by
  -- what is left behind a token comes from the text
  have hsub : ∀ {l : List α} {c : α}, c ∈ rest p l → c ∈ l := fun hc =>
    (List.dropWhile_sublist _).subset ((List.dropWhile_sublist _).subset hc)
  -- along the tokens that are found
  induction text using tokens.induct p with
  | case1 =>
    rw [tokens] at ht
    exact absurd ht List.not_mem_nil
  | case2 c text hpos ih =>
    rw [tokens, if_pos hpos] at ht
    -- the token is the first one, or one of the others
    rcases List.mem_cons.mp ht with rfl | ht
    · refine ⟨List.length_pos_iff.mp hpos, fun d hd => ⟨?_, ?_⟩⟩
      · have hnot := List.all_eq_true.mp List.all_takeWhile d hd
        simpa using hnot
      · exact (List.dropWhile_sublist _).subset ((List.takeWhile_sublist _).subset hd)
    · obtain ⟨hne, hchars⟩ := ih ht
      exact ⟨hne, fun d hd => ⟨(hchars d hd).1, hsub (hchars d hd).2⟩⟩
  | case3 c text hempty ih =>
    rw [tokens, if_neg hempty] at ht
    obtain ⟨hne, hchars⟩ := ih ht
    exact ⟨hne, fun d hd => ⟨(hchars d hd).1, hsub (hchars d hd).2⟩⟩

/-! ## Writing tokens -/

/-- The tokens with one blank at least between them, and any behind the last. -/
inductive Spaced (gap : α → Prop) : List (List α) → List α → Prop where
  | last {t tail : List α} (htail : ∀ c ∈ tail, gap c) : Spaced gap [t] (t ++ tail)
  | cons {t blanks text : List α} {ts : List (List α)} (hne : blanks ≠ [])
    (hblanks : ∀ c ∈ blanks, gap c) (h : Spaced gap ts text) :
    Spaced gap (t :: ts) (t ++ (blanks ++ text))

/-- The same with any blanks in front. -/
inductive Renders (gap : α → Prop) : List (List α) → List α → Prop where
  | lead {blanks text : List α} {ts : List (List α)} (hblanks : ∀ c ∈ blanks, gap c)
    (h : Spaced gap ts text) : Renders gap ts (blanks ++ text)

variable {gap : α → Prop} {ts : List (List α)} {text : List α}

/-- A character of the text is in a gap or in a token. -/
theorem Spaced.mem (h : Spaced gap ts text) {c : α} (hc : c ∈ text) :
    gap c ∨ ∃ t ∈ ts, c ∈ t := by
  -- induction on the tokens of the text
  induction h with
  | @last t tail htail =>
    rcases List.mem_append.mp hc with hc | hc
    · exact .inr ⟨t, List.mem_singleton_self t, hc⟩
    · exact .inl (htail c hc)
  | @cons t blanks text ts _ hblanks _ ih =>
    rcases List.mem_append.mp hc with hc | hc
    · exact .inr ⟨t, List.mem_cons_self, hc⟩
    · rcases List.mem_append.mp hc with hc | hc
      · exact .inl (hblanks c hc)
      · rcases ih hc with hgap | ⟨u, hu, hc⟩
        · exact .inl hgap
        · exact .inr ⟨u, List.mem_cons_of_mem t hu, hc⟩

/-- A character of a text is a blank or in a token. -/
theorem Renders.mem (h : Renders gap ts text) {c : α} (hc : c ∈ text) :
    gap c ∨ ∃ t ∈ ts, c ∈ t := by
  cases h with
  | lead hblanks h =>
    rcases List.mem_append.mp hc with hc | hc
    · exact .inl (hblanks c hc)
    · exact h.mem hc

/-- The tokens, each with a NUL, take no more room than the text with one. -/
theorem Spaced.length_le (h : Spaced gap ts text) :
    (ts.map fun t => t.length + 1).sum ≤ text.length + 1 := by
  induction h with
  | last =>
    rw [List.map_singleton, List.sum_singleton, List.length_append]
    omega
  | cons hne _ _ ih =>
    have hpos := List.length_pos_iff.mpr hne
    rw [List.map_cons, List.sum_cons, List.length_append, List.length_append]
    omega

/-- With an end mark for each token a text gets longer by one character at most. -/
theorem Renders.length_le (h : Renders gap ts text) :
    (ts.map fun t => t.length + 1).sum ≤ text.length + 1 := by
  cases h with
  | lead _ h =>
    have := h.length_le
    rw [List.length_append]
    omega

/-! ## Reading them back -/

section Read

variable {t : List α}

/-- Blanks are skipped. -/
theorem dropWhile_blanks {blanks : List α} (hblanks : ∀ c ∈ blanks, p c = true) (text : List α) :
    (blanks ++ text).dropWhile p = text.dropWhile p := by
  induction blanks with
  | nil => rfl
  | cons c blanks ih =>
    rw [List.cons_append, List.dropWhile_cons_of_pos (hblanks c List.mem_cons_self)]
    exact ih fun d hd => hblanks d (List.mem_cons_of_mem c hd)

/-- A token is not. -/
theorem dropWhile_token (hne : t ≠ []) (ht : ∀ c ∈ t, p c = false) (text : List α) :
    (t ++ text).dropWhile p = t ++ text := by
  obtain ⟨c, t, rfl⟩ := List.exists_cons_of_ne_nil hne
  rw [List.cons_append, List.dropWhile_cons_of_neg (by
    rw [ht c List.mem_cons_self]
    exact Bool.false_ne_true)]

/-- A run of characters in front of another one, or of the end. -/
theorem span_append {q : α → Bool} (ht : ∀ c ∈ t, q c = true) {text : List α}
    (htext : ∀ c, text.head? = some c → q c = false) :
    (t ++ text).takeWhile q = t ∧ (t ++ text).dropWhile q = text := by
  -- induction on the front part, all of which is taken
  induction t with
  | nil =>
    cases text with
    | nil => exact ⟨rfl, rfl⟩
    | cons c text =>
      have hc : ¬ q c = true := by
        rw [htext c rfl]
        exact Bool.false_ne_true
      rw [List.nil_append, List.takeWhile_cons_of_neg hc, List.dropWhile_cons_of_neg hc]
      exact ⟨rfl, rfl⟩
  | cons c t ih =>
    obtain ⟨htake, hdrop⟩ := ih fun d hd => ht d (List.mem_cons_of_mem c hd)
    have hc := ht c List.mem_cons_self
    rw [List.cons_append, List.takeWhile_cons_of_pos hc, List.dropWhile_cons_of_pos hc, htake, hdrop]
    exact ⟨rfl, rfl⟩

/-- The token in front of a blank, or of the end. -/
theorem span_token (ht : ∀ c ∈ t, p c = false) {text : List α}
    (htext : ∀ c, text.head? = some c → p c = true) :
    ((t ++ text).takeWhile fun c => !p c) = t ∧ ((t ++ text).dropWhile fun c => !p c) = text :=
  span_append (fun c hc => by rw [ht c hc]; rfl) fun c hc => by rw [htext c hc]; rfl

/-- A text that begins with blanks and a token. -/
theorem tokens_append {blanks : List α} (hblanks : ∀ c ∈ blanks, p c = true) (hne : t ≠ [])
    (ht : ∀ c ∈ t, p c = false) {text : List α} (htext : ∀ c, text.head? = some c → p c = true) :
    tokens p (blanks ++ (t ++ text)) = t :: tokens p text := by
  -- the blanks are skipped, and then the token is taken
  have hdrop : (blanks ++ (t ++ text)).dropWhile p = t ++ text := by
    rw [dropWhile_blanks hblanks, dropWhile_token hne ht]
  have hfirst : first p (blanks ++ (t ++ text)) = t := by
    rw [first, hdrop, (span_token ht htext).1]
  have hrest : rest p (blanks ++ (t ++ text)) = text := by
    rw [rest, hdrop, (span_token ht htext).2]
  obtain ⟨c, tail, heq⟩ : ∃ c tail, blanks ++ (t ++ text) = c :: tail :=
    List.exists_cons_of_ne_nil
      (List.append_ne_nil_of_right_ne_nil _ (List.append_ne_nil_of_left_ne_nil hne _))
  -- the text is not empty, so that the definition unfolds
  rw [heq] at hfirst hrest ⊢
  rw [tokens, hfirst, hrest, if_pos (List.length_pos_iff.mpr hne)]

/-- A blank splits a text into two that are read apart. -/
theorem tokens_append_blank {c : α} (hc : p c = true) (text text' : List α) :
    tokens p (text ++ c :: text') = tokens p text ++ tokens p text' := by
  induction hlen : text.length using Nat.strongRecOn generalizing text with
  | _ n ih =>
    cases text with
    | nil => rw [List.nil_append, tokens_gap hc, tokens, List.nil_append]
    | cons d text =>
      by_cases hd : p d = true
      · rw [List.cons_append, tokens_gap hd, tokens_gap hd]
        exact ih text.length (by rw [← hlen, List.length_cons]; omega) text rfl
      · -- the token at the front, and what is behind it
        have hd : p d = false := Bool.eq_false_iff.mpr hd
        obtain ⟨t, hteq⟩ : ∃ t, t = (d :: text).takeWhile fun c => !p c := ⟨_, rfl⟩
        obtain ⟨r, hreq⟩ : ∃ r, r = (d :: text).dropWhile fun c => !p c := ⟨_, rfl⟩
        have hsplit : d :: text = [] ++ (t ++ r) := by
          rw [hteq, hreq, List.nil_append, List.takeWhile_append_dropWhile]
        have hne : t ≠ [] := by simp [hteq, hd]
        have ht : ∀ c ∈ t, p c = false := by
          intro c hmem
          rw [hteq] at hmem
          simpa using List.all_eq_true.mp List.all_takeWhile c hmem
        have hr : ∀ c, r.head? = some c → p c = true := by
          intro c hhead
          have hnot := List.head?_dropWhile_not (fun c => !p c) (d :: text)
          rw [← hreq, hhead] at hnot
          simpa using hnot
        have hr' : ∀ e, (r ++ c :: text').head? = some e → p e = true := by
          intro e he
          cases r with
          | nil =>
            cases he
            exact hc
          | cons f r => exact hr e he
        have hlt : r.length < n := by
          have := congrArg List.length hsplit
          have := List.length_pos_iff.mpr hne
          simp only [List.nil_append, List.length_append] at *
          omega
        rw [hsplit, List.append_assoc, List.append_assoc, tokens_append (by simp) hne ht hr',
          tokens_append (by simp) hne ht hr, ih r.length hlt r rfl, List.cons_append]

/-- Blanks have no token. -/
theorem tokens_blanks {blanks : List α} (hblanks : ∀ c ∈ blanks, p c = true) :
    tokens p blanks = [] := by
  have hdrop : blanks.dropWhile p = [] := by
    have := dropWhile_blanks hblanks []
    rwa [List.append_nil] at this
  cases blanks with
  | nil => rw [tokens]
  | cons c blanks =>
    rw [tokens, first, rest, hdrop, List.takeWhile_nil, List.dropWhile_nil,
      if_neg (show ¬ ([] : List α).length > 0 from Nat.lt_irrefl 0), tokens]

/-- The tokens of a text with gaps are found. -/
theorem tokens_spaced (hgap : ∀ c, gap c → p c = true)
    (hts : ∀ t ∈ ts, t ≠ [] ∧ ∀ c ∈ t, p c = false) {lead : List α}
    (hlead : ∀ c ∈ lead, p c = true) (h : Spaced gap ts text) : tokens p (lead ++ text) = ts := by
  -- induction on the tokens, with the blanks in front of the first one
  induction h generalizing lead with
  | @last t tail htail =>
    obtain ⟨hne, ht⟩ := hts t (List.mem_singleton_self t)
    have htail : ∀ c ∈ tail, p c = true := fun c hc => hgap c (htail c hc)
    rw [tokens_append hlead hne ht fun c hc => htail c (List.mem_of_head? hc), tokens_blanks htail]
  | @cons t blanks text ts hbne hblanks _ ih =>
    obtain ⟨hne, ht⟩ := hts t List.mem_cons_self
    have hblanks : ∀ c ∈ blanks, p c = true := fun c hc => hgap c (hblanks c hc)
    obtain ⟨b, blanks, rfl⟩ := List.exists_cons_of_ne_nil hbne
    rw [tokens_append hlead hne ht fun c hc => by
      cases hc
      exact hblanks _ List.mem_cons_self, ih (fun u hu => hts u (List.mem_cons_of_mem t hu)) hblanks]

/-- The tokens a text was written from are read back. -/
theorem tokens_renders (hgap : ∀ c, gap c → p c = true)
    (hts : ∀ t ∈ ts, t ≠ [] ∧ ∀ c ∈ t, p c = false) (h : Renders gap ts text) :
    tokens p text = ts := by
  cases h with
  | lead hblanks h => exact tokens_spaced hgap hts (fun c hc => hgap c (hblanks c hc)) h

end Read

end Tokens
