import Mathlib.Data.List.DropRight
import Mathlib.Data.List.GetD
import Tlibc.Lib.Run
import Tlibc.Native.Mkdir

/-!
# The directories a run of `mkdir` creates

`buf` keeps the end of a longer path that was there before, and at the last level it is
not terminated. So what is opened and created there is the path with that end behind it.

* `mkdir_spec`: what one call creates, whatever `buf` holds
* `runs_correct_iff`: after each of the paths all is as it should be, if and only if no path
  met an end that does harm
-/

namespace Tlibc.Mkdir

open Directory

/-! ## `buf` -/

/-- The buffer that holds `t` and then zeros. -/
def content (t : List UInt8) : Mem := fun i => t.getD i 0

/-- A character stored behind the first `done.length` ones takes the place of the old one. -/
private theorem store_content {done : List UInt8} (h : done.length < 256) (u : List UInt8)
    (c : UInt8) :
    store (content (done ++ u)) done.length c = .ok (content (done ++ c :: u.tail)) := by
  rw [store, if_pos h]
  refine congrArg _ (funext fun a => ?_)
  rcases Nat.lt_trichotomy a done.length with ha | rfl | ha
  · rw [Mem.write_apply_out (.inl ha), content, content, List.getD_append _ _ _ _ ha,
      List.getD_append _ _ _ _ ha]
  · have hin := @Mem.write_apply_in (content (done ++ u)) done.length 0 [c] (by simp)
    rw [Nat.add_zero] at hin
    rw [hin, content, List.getD_append_right _ _ _ _ (Nat.le_refl _), Nat.sub_self]
    rfl
  · obtain ⟨k, rfl⟩ := Nat.exists_eq_add_of_lt ha
    have hsub : done.length + k + 1 - done.length = k + 1 := by omega
    rw [Mem.write_apply_out (.inr (by simp)), content, content,
      List.getD_append_right _ _ _ _ (by omega), List.getD_append_right _ _ _ _ (by omega), hsub]
    cases u <;> rfl

/-- The string at `buf` ends where the first 0 is. -/
private theorem text_cut {t : List UInt8} (hnul : (0 : UInt8) ∉ t) (hlen : t.length < 256)
    (u : List UInt8) : text (content (t ++ 0 :: u)) = t := by
  obtain ⟨k, hk⟩ := Nat.exists_eq_add_of_lt hlen
  have hk : 256 = t.length + (1 + k) := by omega
  have hread : (content (t ++ 0 :: u)).read 0 t.length = t := by
    refine List.ext_getElem (Mem.length_read _ _ _) fun i h₁ h₂ => ?_
    rw [Mem.getElem_read, Nat.zero_add, content, List.getD_append _ _ _ _ h₂, List.getD_eq_getElem]
  have hzero : (content (t ++ 0 :: u)).read (0 + t.length) 1 = [0] := by
    show [(content (t ++ 0 :: u)) (0 + t.length + 0)] = [0]
    rw [Nat.zero_add, Nat.add_zero, content, List.getD_append_right _ _ _ _ (Nat.le_refl _),
      Nat.sub_self]
    rfl
  have hall : ∀ c ∈ t, (c ≠ 0 : Bool) = true := by
    intro c hc
    simpa using fun heq : c = 0 => hnul (heq ▸ hc)
  rw [text, hk, Mem.read_add, Mem.read_add, hread, hzero, List.takeWhile_append_of_pos hall,
    List.singleton_append, List.takeWhile_cons_of_neg (by simp), List.append_nil]

/-- A string is read back from the buffer that holds it. -/
private theorem text_content {t : List UInt8} (hnul : (0 : UInt8) ∉ t) (hlen : t.length < 256) :
    text (content t) = t := by
  have hsame : content t = content (t ++ [0]) := by
    funext a
    rcases Nat.lt_trichotomy a t.length with ha | rfl | ha
    · rw [content, content, List.getD_append _ _ _ _ ha]
    · simp [content]
    · rw [content, content, List.getD_eq_default _ _ (Nat.le_of_lt ha),
        List.getD_eq_default _ _ (by simp; omega)]
  rw [hsame, text_cut hnul hlen]

/-! ## Paths -/

/-- A path up to and with its last slash. -/
def base (path : List UInt8) : List UInt8 := path.rdropWhile (· ≠ slash)

/-- A path has a last level when it does not end with a slash. -/
def LastLevel (path : List UInt8) : Prop := ∃ c, path.getLast? = some c ∧ c ≠ slash

/-- Up to its last slash, a path that ends with one is the whole path. -/
private theorem base_concat_slash (path : List UInt8) : base (path ++ [slash]) = path ++ [slash] :=
  List.rdropWhile_concat_neg _ _ _ (by simp)

/-- A character that is no slash does not change where the last slash is. -/
private theorem base_concat {c : UInt8} (hc : c ≠ slash) (path : List UInt8) :
    base (path ++ [c]) = base path :=
  List.rdropWhile_concat_pos _ _ _ (by simpa using hc)

/-- The components before and behind a slash. -/
private theorem components_slash (path rest : List UInt8) :
    components (path ++ slash :: rest) = components path ++ components rest := by
  rw [components, Tokens.tokens_append_blank (by simp), List.map_append]
  rfl

/-- The empty path has no components. -/
private theorem components_nil : components [] = [] := by
  rw [components, Tokens.tokens]
  rfl

/-- A slash at the end adds no component. -/
private theorem components_concat_slash (path : List UInt8) :
    components (path ++ [slash]) = components path := by
  rw [components_slash, components_nil, List.append_nil]

/-- The base of a path is empty, or ends with the last slash. -/
private theorem base_cases (path : List UInt8) :
    base path = [] ∨ ∃ q, base path = q ++ [slash] := by
  induction path using List.reverseRecOn with
  | nil => exact .inl (List.rdropWhile_nil _)
  | append_singleton path c ih =>
    by_cases hc : c = slash
    · rw [hc, base_concat_slash]
      exact .inr ⟨path, rfl⟩
    · rw [base_concat hc]
      exact ih

/-- Whether the last component is a level depends on the last character. -/
private theorem lastLevel_concat {path : List UInt8} {c : UInt8} :
    LastLevel (path ++ [c]) ↔ c ≠ slash := by
  simp [LastLevel]

/-- A name without slashes is one component. -/
private theorem components_name {name : List UInt8} (hne : name ≠ []) (h : slash ∉ name) :
    components name = [component name] := by
  have hname : ∀ c ∈ name, decide (c = slash) = false := by
    intro c hc
    simpa using fun heq : c = slash => h (heq ▸ hc)
  have htokens := @Tokens.tokens_append _ (fun c => decide (c = slash)) name [] (by simp) hne hname
    [] (by simp)
  rw [List.nil_append, List.append_nil] at htokens
  rw [components, htokens, Tokens.tokens]
  rfl

/-- The last level of a path is one component behind those of the base. -/
private theorem components_lastLevel {path : List UInt8} (h : LastLevel path) :
    ∃ s, components path = components (base path) ++ [s] := by
  obtain ⟨name, hname⟩ : ∃ name, name = path.rtakeWhile (· ≠ slash) := ⟨_, rfl⟩
  -- a path is its base and the name behind the last slash
  have hsplit : base path ++ name = path := by
    rw [hname]
    exact List.rdropWhile_append_rtakeWhile
  have hslash : slash ∉ name := by
    intro hin
    rw [hname] at hin
    simpa using List.mem_rtakeWhile_imp hin
  -- the last level has a name, for the path does not end with a slash
  have hne : name ≠ [] := by
    intro hnil
    obtain ⟨c, hlast, hc⟩ := h
    rw [hnil, List.append_nil] at hsplit
    rcases base_cases path with hb | ⟨q, hb⟩
    · rw [← hsplit, hb] at hlast
      cases hlast
    · rw [← hsplit, hb, List.getLast?_concat] at hlast
      exact hc (Option.some.inj hlast).symm
  refine ⟨component name, ?_⟩
  -- the name is the one component that the base does not have
  conv => lhs; rw [← hsplit]
  rcases base_cases path with hb | ⟨q, hb⟩
  · rw [hb, List.nil_append, components_name hne hslash, components_nil, List.nil_append]
  · rw [hb, List.append_assoc, List.singleton_append, components_slash, components_name hne hslash,
      components_concat_slash]

/-- Without a last level the base has all components. -/
private theorem components_not_lastLevel {path : List UInt8} (h : ¬ LastLevel path) :
    components (base path) = components path := by
  rcases List.eq_nil_or_concat' path with rfl | ⟨q, c, rfl⟩
  · rfl
  · rw [lastLevel_concat, not_not] at h
    rw [h, base_concat_slash]

/-- The components up to the last slash are the first ones of the path. -/
private theorem components_base_isPrefix (path : List UInt8) :
    components (base path) <+: components path := by
  by_cases h : LastLevel path
  · obtain ⟨s, hs⟩ := components_lastLevel h
    rw [hs]
    exact List.prefix_append _ _
  · rw [components_not_lastLevel h]

/-- A longer path has more of them. -/
private theorem components_base_mono (done rest : List UInt8) :
    components (base done) <+: components (base (done ++ rest)) := by
  induction rest using List.reverseRecOn with
  | nil => rw [List.append_nil]
  | append_singleton rest c ih =>
    rw [← List.append_assoc]
    by_cases hc : c = slash
    · rw [hc, base_concat_slash, components_concat_slash]
      exact ih.trans (components_base_isPrefix _)
    · rw [base_concat hc]
      exact ih

/-! ## One call -/

/-- The directories that a path leads to or through. -/
def along (d : Dir Name) (ss : List (Step Name)) : Set (Dir Name) :=
  {e | ∃ pre, pre <+: ss ∧ e = target d pre}

/-- A path and its ancestors. -/
def Filesystem.named (fs : Filesystem) (path : List UInt8) : Set (Dir Name) :=
  along (fs.start path) (components path)

/-- The ancestors of a path that are followed by a slash. -/
def Filesystem.ancestors (fs : Filesystem) (path : List UInt8) : Set (Dir Name) :=
  along (fs.start path) (components (base path))

/-- What is missing of the path in the buffer is made, and nothing else changes. -/
private theorem createMissing_eq (s : Scan) : (createMissing s).buf = s.buf ∧
    (createMissing s).isEnd = s.isEnd ∧ (createMissing s).fs.cwd = s.fs.cwd ∧
    (createMissing s).fs.tree =
      s.fs.tree.ensure (s.fs.start (text s.buf)) (components (text s.buf)) := by
  unfold createMissing Tree.ensure
  by_cases hopen : sysOpen s.fs (text s.buf) = true
  · rw [if_pos hopen, if_pos (show (s.fs.tree.walk _ _).isSome = true from hopen)]
    exact ⟨rfl, rfl, rfl, rfl⟩
  · rw [if_neg hopen, if_neg (show ¬ (s.fs.tree.walk _ _).isSome = true from hopen)]
    refine ⟨rfl, rfl, ?_⟩
    show (sysMkdir s.fs (text s.buf)).2.cwd = _ ∧ (sysMkdir s.fs (text s.buf)).2.tree = _
    unfold sysMkdir
    split
    next tree h => exact ⟨rfl, (congrArg (Option.getD · s.fs.tree) h).symm⟩
    next h => exact ⟨rfl, (congrArg (Option.getD · s.fs.tree) h).symm⟩

/-- The directories of a file system. -/
def Filesystem.dirs (fs : Filesystem) : Set (Dir Name) := fs.tree.dirs

/-- What is opened, and created if it is missing, adds what it leads to. -/
private theorem createMissing_dirs {s : Scan} {q : List UInt8} (hq : text s.buf = q) :
    (createMissing s).fs.dirs = s.fs.dirs ∪
      {e | Resolves s.fs.dirs (s.fs.start q) (components q).dropLast ∧
        e = target (s.fs.start q) (components q)} := by
  rw [Filesystem.dirs, (createMissing_eq s).2.2.2, Tree.dirs_ensure, hq]
  rfl

/-- A longer path leads along more directories. -/
private theorem along_mono {d : Dir Name} {ss ts : List (Step Name)} (h : ss <+: ts) :
    along d ss ⊆ along d ts := by
  rintro e ⟨pre, hpre, rfl⟩
  exact ⟨pre, hpre.trans h, rfl⟩

/-- A path resolves when the directories along it exist. -/
private theorem resolves_iff_along {S : Set (Dir Name)} {d : Dir Name} {ss : List (Step Name)} :
    Resolves S d ss ↔ along d ss ⊆ S := by
  constructor
  · rintro h e ⟨pre, hpre, rfl⟩
    exact h pre hpre
  · intro h pre hpre
    exact h ⟨pre, hpre, rfl⟩

/-- Where a path starts, by its first character. -/
private theorem start_append {fs : Filesystem} {done : List UInt8} (hne : done ≠ [])
    (rest : List UInt8) :
    fs.start (done ++ rest) = fs.start done := by
  obtain ⟨c, done, rfl⟩ := List.exists_cons_of_ne_nil hne
  rfl

/-- Where a path starts does not depend on its last character. -/
private theorem start_concat (fs : Filesystem) (path : List UInt8) {c : UInt8} (hc : c ≠ slash) :
    fs.start (path ++ [c]) = fs.start path := by
  by_cases hne : path = []
  · rw [hne]
    exact if_neg fun h => hc (Option.some.inj h)
  · exact start_append hne [c]

/-- Nor do the directories above its last component. -/
private theorem ancestors_concat (fs : Filesystem) (path : List UInt8) {c : UInt8}
    (hc : c ≠ slash) :
    fs.ancestors (path ++ [c]) = fs.ancestors path := by
  unfold Filesystem.ancestors
  rw [start_concat fs path hc, base_concat hc]

/-- A longer path has more directories above its last component. -/
private theorem ancestors_mono {fs : Filesystem} {done : List UInt8} (hne : done ≠ [])
    (rest : List UInt8) :
    fs.ancestors done ⊆ fs.ancestors (done ++ rest) := by
  unfold Filesystem.ancestors
  rw [start_append hne]
  exact along_mono (components_base_mono done rest)

/-- A file system in the same directory gives the paths the same meaning. -/
private theorem ancestors_congr {fs fs' : Filesystem} (h : fs'.cwd = fs.cwd) (path : List UInt8) :
    fs'.ancestors path = fs.ancestors path := by
  unfold Filesystem.ancestors Filesystem.start
  rw [h]

/-- Where the ancestors of a path exist, what is above it resolves. -/
private theorem resolves_above {fs : Filesystem} {S : Set (Dir Name)} {path : List UInt8}
    (h : fs.ancestors path ⊆ S) : Resolves S (fs.start path) (components path).dropLast := by
  have hbase := resolves_iff_along.mpr h
  by_cases hlevel : LastLevel path
  · obtain ⟨c, hc⟩ := components_lastLevel hlevel
    rw [hc, List.dropLast_concat]
    exact hbase
  · rw [← components_not_lastLevel hlevel]
    exact hbase.dropLast

/-- At a slash, the path up to it is created if it is missing. -/
private theorem createMissing_slash {s : Scan} {done : List UInt8} (hne : done ≠ [])
    (htext : text s.buf = done) (hdone : s.fs.ancestors done ⊆ s.fs.dirs) :
    (createMissing s).fs.dirs = s.fs.dirs ∪ s.fs.ancestors (done ++ [slash]) := by
  have hup := resolves_above hdone
  -- with the slash, the components are those of the path in front of it
  have hall : s.fs.ancestors (done ++ [slash]) = along (s.fs.start done) (components done) := by
    unfold Filesystem.ancestors
    rw [start_append hne, base_concat_slash, components_concat_slash]
  rw [hall]
  -- nothing else is created, and every level of the path is
  apply Set.Subset.antisymm
  · rw [createMissing_dirs htext]
    apply Set.union_subset_union_right
    intro e he
    exact ⟨components done, List.prefix_refl _, he.2⟩
  · apply Set.union_subset
    · rw [createMissing_dirs htext]
      exact Set.subset_union_left
    · rw [Filesystem.dirs, (createMissing_eq s).2.2.2, htext]
      exact resolves_iff_along.mp (s.fs.tree.resolves_ensure hup)

/-- The loop creates the ancestors that a slash ends, and leaves the path in front of what
    else is in `buf`. -/
structure Scanned (s s' : Scan) (path old : List UInt8) : Prop where
  buf : s'.buf = content (path ++ old.drop path.length)
  cwd : s'.fs.cwd = s.fs.cwd
  isEnd : s'.isEnd = true ↔ ¬ LastLevel path
  dirs : s'.fs.dirs = s.fs.dirs ∪ s.fs.ancestors path

/-- The buffer with one character more. -/
private theorem content_concat (done old : List UInt8) (c : UInt8) :
    content (done ++ c :: (old.drop done.length).tail) =
      content ((done ++ [c]) ++ old.drop (done ++ [c]).length) := by
  rw [List.tail_drop, List.length_append, List.length_singleton, List.append_assoc]
  rfl

/-- What a slash does: the path up to it is opened, and created if it is missing. -/
private theorem scan_slash (rest : List UInt8) {s : Scan} {done old : List UInt8} (hne : done ≠ [])
    (hbuf : s.buf = content (done ++ old.drop done.length)) (hnul : (0 : UInt8) ∉ done)
    (hlt : done.length < 256) (hdone : s.fs.ancestors done ⊆ s.fs.dirs) :
    ∃ s₁, scan (slash :: rest) done.length s = scan rest (done ++ [slash]).length s₁ ∧
      Scanned s s₁ (done ++ [slash]) old := by
  obtain ⟨s₀, hs₀⟩ : ∃ s₀ : Scan, s₀ =
    { s with buf := content (done ++ 0 :: (old.drop done.length).tail) } := ⟨_, rfl⟩
  -- the path is cut off where the slash was
  have htext : text s₀.buf = done := by
    rw [hs₀]
    exact text_cut hnul hlt (old.drop done.length).tail
  -- the levels up to the slash are created
  have hcreate : (createMissing s₀).fs.dirs = s.fs.dirs ∪ s.fs.ancestors (done ++ [slash]) := by
    have h := createMissing_slash hne htext (by rw [hs₀]; exact hdone)
    rw [hs₀] at h ⊢
    exact h
  have hcwd : (createMissing s₀).fs.cwd = s.fs.cwd := by
    rw [(createMissing_eq s₀).2.2.1, hs₀]
  -- then the slash is put back in its place
  have hstore : store (createMissing s₀).buf done.length slash =
      .ok (content (done ++ slash :: (old.drop done.length).tail)) := by
    rw [(createMissing_eq s₀).1, hs₀]
    exact store_content hlt _ _
  refine ⟨{ createMissing s₀ with
    buf := content (done ++ slash :: (old.drop done.length).tail), isEnd := true }, ?_, ?_⟩
  · rw [scan, hbuf, store_content hlt, Run.ok_bind, if_pos rfl, store_content hlt, Run.ok_bind,
      List.tail_cons, ← hs₀, List.length_append, List.length_singleton]
    show (store (createMissing s₀).buf done.length slash >>= fun buf =>
      scan rest (done.length + 1) { createMissing s₀ with buf := buf, isEnd := true }) = _
    rw [hstore]
    rfl
  · exact ⟨content_concat done old slash, hcwd, by simp [lastLevel_concat], hcreate⟩

/-- Any other character is stored. -/
private theorem scan_other (rest : List UInt8) {s : Scan} {done old : List UInt8} {c : UInt8}
    (hc : c ≠ slash) (hbuf : s.buf = content (done ++ old.drop done.length))
    (hlt : done.length < 256) (hdone : s.fs.ancestors done ⊆ s.fs.dirs) :
    ∃ s₁, scan (c :: rest) done.length s = scan rest (done ++ [c]).length s₁ ∧
      Scanned s s₁ (done ++ [c]) old := by
  refine ⟨{ s with
    buf := content (done ++ c :: (old.drop done.length).tail), isEnd := false }, ?_, ?_⟩
  · rw [scan, hbuf, store_content hlt, Run.ok_bind, if_neg hc, List.length_append,
      List.length_singleton]
  · refine ⟨content_concat done old c, rfl, by simp [lastLevel_concat, hc], ?_⟩
    rw [ancestors_concat _ _ hc]
    exact (Set.union_eq_left.mpr hdone).symm

/-- What is created on the way to a path is among the ancestors of all of it. -/
private theorem Scanned.trans {s s₁ s' : Scan} {done rest old old' : List UInt8} (hne : done ≠ [])
    (h : Scanned s s₁ done old) (h' : Scanned s₁ s' (done ++ rest) old') :
    Scanned s s' (done ++ rest) old' where
  buf := h'.buf
  cwd := h'.cwd.trans h.cwd
  isEnd := h'.isEnd
  dirs := by
    rw [h'.dirs, h.dirs, ancestors_congr h.cwd, Set.union_assoc,
      Set.union_eq_right.mpr (ancestors_mono hne rest)]

/-- The loop, from behind `done` on. -/
private theorem scan_scanned (rest : List UInt8) {s : Scan} {done old : List UInt8}
    (hbuf : s.buf = content (done ++ old.drop done.length)) (hnul : (0 : UInt8) ∉ done ++ rest)
    (hlen : (done ++ rest).length < 256) (hstart : done ≠ [] ∨ rest.head? ≠ some slash)
    (hend : s.isEnd = true ↔ ¬ LastLevel done) (hdone : s.fs.ancestors done ⊆ s.fs.dirs) :
    ∃ s', scan rest done.length s = .ok s' ∧ Scanned s s' (done ++ rest) old := by
  induction rest generalizing s done with
  | nil =>
    rw [List.append_nil]
    exact ⟨s, rfl, hbuf, rfl, hend, (Set.union_eq_left.mpr hdone).symm⟩
  | cons c rest ih =>
    have hlt : done.length < 256 := by
      rw [List.length_append, List.length_cons] at hlen
      omega
    obtain ⟨s₁, hstep, hs₁⟩ : ∃ s₁,
        scan (c :: rest) done.length s = scan rest (done ++ [c]).length s₁ ∧
          Scanned s s₁ (done ++ [c]) old := by
      by_cases hc : c = slash
      · have hne : done ≠ [] := hstart.resolve_right fun h => h (by rw [hc]; rfl)
        have hdonenul : (0 : UInt8) ∉ done := fun hin => hnul (List.mem_append_left _ hin)
        rw [hc]
        exact scan_slash rest hne hbuf hdonenul hlt hdone
      · exact scan_other rest hc hbuf hlt hdone
    have hsplit : done ++ c :: rest = (done ++ [c]) ++ rest := by
      rw [List.append_assoc, List.singleton_append]
    have hne : done ++ [c] ≠ [] := by simp
    rw [hsplit] at hnul hlen ⊢
    -- what the ancestors need is there from the step
    have hdone₁ : s₁.fs.ancestors (done ++ [c]) ⊆ s₁.fs.dirs := by
      rw [ancestors_congr hs₁.cwd, hs₁.dirs]
      exact Set.subset_union_right
    obtain ⟨s', hs', hscanned⟩ := ih hs₁.buf hnul hlen (.inl hne) hs₁.isEnd hdone₁
    exact ⟨s', hstep.trans hs', hs₁.trans hne hscanned⟩

/-- What `buf` holds behind a call that found `old` in it. -/
def buffered (old path : List UInt8) : List UInt8 := path ++ old.drop path.length

/-- What the last level adds to the directories `S`. -/
def Filesystem.lastLevel (fs : Filesystem) (S : Set (Dir Name)) (old path : List UInt8) :
    Set (Dir Name) :=
  {e | LastLevel path ∧
    Resolves S (fs.start path) (components (buffered old path)).dropLast ∧
    e = target (fs.start path) (components (buffered old path))}

/-- What is left in the buffer has no NUL. -/
private theorem nul_notMem_buffered {old path : List UInt8} (hold : (0 : UInt8) ∉ old)
    (hpath : (0 : UInt8) ∉ path) : (0 : UInt8) ∉ buffered old path := by
  intro hin
  rcases List.mem_append.mp hin with hin | hin
  · exact hpath hin
  · exact hold (List.mem_of_mem_drop hin)

/-- It is shorter than the buffer. -/
private theorem length_buffered_lt {old path : List UInt8} (hold : old.length < 256)
    (hpath : path.length < 256) : (buffered old path).length < 256 := by
  rw [buffered, List.length_append, List.length_drop]
  omega

/-- The working directory and the root are not created. -/
private theorem ancestors_nil (fs : Filesystem) : fs.ancestors [] ⊆ fs.dirs := by
  have hbase : components (base []) = [] := components_nil
  unfold Filesystem.ancestors
  rw [hbase]
  exact resolves_iff_along.mp (resolves_nil.mpr fs.cwd_isDir)

/-- Above a slash there is the root, which exists. -/
private theorem ancestors_slash (fs : Filesystem) : fs.ancestors [slash] ⊆ fs.dirs := by
  have hbase : components (base [slash]) = [] :=
    (congrArg components (base_concat_slash [])).trans
      ((components_concat_slash []).trans components_nil)
  unfold Filesystem.ancestors
  rw [hbase]
  exact resolves_iff_along.mp (resolves_nil.mpr fs.tree.root)

/-- The loop of `mkdir`, from its first character on. -/
private theorem mkdir_scanned (fs : Filesystem) (old : List UInt8) (dir : CString)
    (hlen : dir.chars.length < 256) :
    ∃ s', Scanned { fs := fs, buf := content old, ret := false, isEnd := true } s' dir.chars old ∧
      mkdir fs (content old) dir = .ok (if s'.isEnd then s' else createMissing s') := by
  obtain ⟨path, hnul⟩ := dir
  -- the empty path is not scanned at all
  cases path with
  | nil =>
    have hlevel : ¬ LastLevel [] := fun ⟨c, hc, _⟩ => by cases hc
    exact ⟨_, ⟨rfl, rfl, by simp [hlevel], (Set.union_eq_left.mpr (ancestors_nil fs)).symm⟩, rfl⟩
  | cons c rest =>
    unfold mkdir
    by_cases hc : c = slash
    · -- the slash of the root is stored in front of the loop
      have hstore : store (content old) 0 c = .ok (content (c :: old.tail)) :=
        @store_content [] (by simp) old c
      obtain ⟨s', hs', hscanned⟩ := @scan_scanned rest
        { fs := fs, buf := content (c :: old.tail), ret := false, isEnd := true } [c] old
        (by simp) hnul hlen (.inl (by simp)) (by simp [LastLevel, hc]) (by
          rw [hc]
          exact ancestors_slash fs)
      refine ⟨s', ⟨hscanned.buf, hscanned.cwd, hscanned.isEnd, hscanned.dirs⟩, ?_⟩
      simp only [if_pos hc, hstore, Run.ok_bind]
      rw [show scan rest 1 _ = .ok s' from hs']
      rfl
    · -- a relative path is scanned from its first character
      have hlevel : ¬ LastLevel [] := fun ⟨c, hc, _⟩ => by cases hc
      obtain ⟨s', hs', hscanned⟩ := @scan_scanned (c :: rest)
        { fs := fs, buf := content old, ret := false, isEnd := true } [] old
        rfl hnul hlen (.inr fun h => hc (Option.some.inj h)) (by simp [hlevel]) (ancestors_nil fs)
      refine ⟨s', hscanned, ?_⟩
      simp only [if_neg hc]
      rw [show scan (c :: rest) 0 _ = .ok s' from hs']
      rfl

/-- What one call creates, whatever is in the buffer. -/
theorem mkdir_spec (fs : Filesystem) {old : List UInt8} (dir : CString)
    (hold : (0 : UInt8) ∉ old) (holdlen : old.length < 256) (hlen : dir.chars.length < 256) :
    ∃ s, mkdir fs (content old) dir = .ok s ∧ s.buf = content (buffered old dir.chars) ∧
      s.fs.cwd = fs.cwd ∧
      s.fs.dirs = fs.dirs ∪ fs.ancestors dir.chars ∪
        fs.lastLevel (fs.dirs ∪ fs.ancestors dir.chars) old dir.chars := by
  obtain ⟨s, hscanned, hs⟩ := mkdir_scanned fs old dir hlen
  refine ⟨_, hs, ?_⟩
  -- the levels in front of the last slash were created by the scan
  have hdirs : s.fs.dirs = fs.dirs ∪ fs.ancestors dir.chars := hscanned.dirs
  by_cases hlevel : LastLevel dir.chars
  · -- the last level is looked up with what the buffer holds behind it
    have hend : ¬ s.isEnd = true := fun h => hscanned.isEnd.mp h hlevel
    have htext : text s.buf = buffered old dir.chars := by
      rw [hscanned.buf]
      exact text_content (nul_notMem_buffered hold dir.nul_free) (length_buffered_lt holdlen hlen)
    have hne : dir.chars ≠ [] := by
      intro hnil
      obtain ⟨c, hc, -⟩ := hlevel
      rw [hnil] at hc
      cases hc
    have hstart : s.fs.start (buffered old dir.chars) = fs.start dir.chars := by
      rw [buffered, start_append hne, Filesystem.start, hscanned.cwd]
      rfl
    rw [if_neg hend, (createMissing_eq s).1, (createMissing_eq s).2.2.1, createMissing_dirs htext,
      hdirs, hstart]
    refine ⟨hscanned.buf, hscanned.cwd, congrArg _ (Set.ext fun e => ?_)⟩
    exact (and_iff_right hlevel).symm
  · -- a path that ends with a slash has no last level
    have hnone : fs.lastLevel (fs.dirs ∪ fs.ancestors dir.chars) old dir.chars = ∅ :=
      Set.eq_empty_of_forall_notMem fun e he => hlevel he.1
    rw [if_pos (hscanned.isEnd.mpr hlevel), hnone, Set.union_empty]
    exact ⟨hscanned.buf, hscanned.cwd, hdirs⟩

/-! ## A run -/

/-- What the directories and the buffer hold behind a path. -/
def Filesystem.next (fs : Filesystem) (s : Set (Dir Name) × List UInt8) (dir : CString) :
    Set (Dir Name) × List UInt8 :=
  (s.1 ∪ fs.ancestors dir.chars ∪ fs.lastLevel (s.1 ∪ fs.ancestors dir.chars) s.2 dir.chars,
    buffered s.2 dir.chars)

/-- What the buffer holds behind some paths. -/
def left (dirs : List CString) : List UInt8 :=
  dirs.foldl (fun old dir => buffered old dir.chars) []

/-- What is left in the buffer depends on the arguments only. -/
private theorem foldl_next_snd (fs : Filesystem) (s : Set (Dir Name) × List UInt8)
    (dirs : List CString) :
    (dirs.foldl fs.next s).2 = dirs.foldl (fun old dir => buffered old dir.chars) s.2 := by
  induction dirs generalizing s with
  | nil => rfl
  | cons dir dirs ih => exact ih (fs.next s dir)

/-- File systems in the same directory give every step the same meaning. -/
private theorem next_congr {fs fs' : Filesystem} (h : fs'.cwd = fs.cwd) : fs'.next = fs.next := by
  funext s dir
  unfold Filesystem.next Filesystem.lastLevel Filesystem.ancestors Filesystem.start
  rw [h]

/-- Every argument makes what `next` says, by induction on the arguments. -/
private theorem mkdirEach_spec {fs : Filesystem} {old : List UInt8} (ret : Bool)
    {dirs : List CString}
    (hold : (0 : UInt8) ∉ old) (holdlen : old.length < 256)
    (hlen : ∀ dir ∈ dirs, dir.chars.length < 256) :
    ∃ e, mkdirEach fs (content old) ret dirs = .ok e ∧ e.fs.cwd = fs.cwd ∧
      e.fs.dirs = (dirs.foldl fs.next (fs.dirs, old)).1 := by
  -- induction on the arguments, with what is left in the buffer as the state
  induction dirs generalizing fs old ret with
  | nil => exact ⟨_, rfl, rfl, rfl⟩
  | cons dir dirs ih =>
    have hdir := hlen dir List.mem_cons_self
    obtain ⟨s, hs, hbuf, hcwd, hdirs⟩ := mkdir_spec fs dir hold holdlen hdir
    obtain ⟨e, he, hecwd, hedirs⟩ := @ih s.fs _ (ret || s.ret)
      (nul_notMem_buffered hold dir.nul_free) (length_buffered_lt holdlen hdir)
      (fun d hd => hlen d (List.mem_cons_of_mem dir hd))
    refine ⟨e, ?_, hecwd.trans hcwd, ?_⟩
    · rw [mkdirEach, hs, Run.ok_bind, hbuf]
      exact he
    · rw [hedirs, hdirs, next_congr hcwd]
      rfl

/-- So does the whole run. -/
private theorem main_spec {fs : Filesystem} {dirs : List CString}
    (hlen : ∀ dir ∈ dirs, dir.chars.length < 256) :
    ∃ e, main fs dirs = .ok e ∧ e.fs.cwd = fs.cwd ∧
      e.fs.dirs = (dirs.foldl fs.next (fs.dirs, [])).1 := by
  unfold main
  by_cases hnil : dirs = []
  · rw [if_pos hnil, hnil]
    exact ⟨_, rfl, rfl, rfl⟩
  · rw [if_neg hnil]
    exact mkdirEach_spec false List.not_mem_nil (by simp) hlen

/-- Running `mkdir` once for each path, in a process of its own. -/
def separately (fs : Filesystem) : List CString → Except Fault Filesystem
  | [] => .ok fs
  | dir :: dirs => do
    let e ← main fs [dir]
    separately e.fs dirs

/-- What should be there afterwards: what was, and the paths and their ancestors. -/
def Filesystem.wanted (fs : Filesystem) (dirs : List CString) : Set (Dir Name) :=
  fs.dirs ∪ {d | ∃ dir ∈ dirs, d ∈ fs.named dir.chars}

/-- Without arguments nothing is wanted. -/
private theorem wanted_nil (fs : Filesystem) : fs.wanted [] = fs.dirs := by
  simp [Filesystem.wanted]

/-- What more arguments want is added. -/
private theorem wanted_append (fs : Filesystem) (done dirs : List CString) :
    fs.wanted (done ++ dirs) = fs.wanted done ∪ {d | ∃ dir ∈ dirs, d ∈ fs.named dir.chars} := by
  ext d
  simp [Filesystem.wanted, or_and_right, exists_or, or_assoc]

/-- So is what one more argument wants. -/
private theorem wanted_concat (fs : Filesystem) (done : List CString) (dir : CString) :
    fs.wanted (done ++ [dir]) = fs.wanted done ∪ fs.named dir.chars := by
  rw [wanted_append]
  simp

/-- A path is its ancestors in front of slashes, and its last level. -/
private theorem named_eq (fs : Filesystem) (path : List UInt8) :
    fs.named path = fs.ancestors path ∪
      {e | LastLevel path ∧ e = target (fs.start path) (components path)} := by
  apply Set.Subset.antisymm
  · -- a prefix of the components is the whole path, or one of the base
    intro e he
    obtain ⟨pre, hpre, rfl⟩ := he
    by_cases hlevel : LastLevel path
    · obtain ⟨c, hc⟩ := components_lastLevel hlevel
      rw [hc] at hpre ⊢
      rcases List.prefix_concat_iff.mp hpre with rfl | hpre
      · exact .inr ⟨hlevel, rfl⟩
      · exact .inl ⟨pre, hpre, rfl⟩
    · rw [← components_not_lastLevel hlevel] at hpre
      exact .inl ⟨pre, hpre, rfl⟩
  · -- both are prefixes of the components
    intro e he
    rcases he with ⟨pre, hpre, rfl⟩ | ⟨-, rfl⟩
    · exact ⟨pre, hpre.trans (components_base_isPrefix path), rfl⟩
    · exact ⟨components path, List.prefix_refl _, rfl⟩

/-- In a process of its own, a path is created as it should be. -/
private theorem next_alone (fs : Filesystem) (S : Set (Dir Name)) (dir : CString) :
    (fs.next (S, []) dir).1 = S ∪ fs.named dir.chars := by
  have hbuf : buffered [] dir.chars = dir.chars := by simp [buffered]
  have hup : Resolves (S ∪ fs.ancestors dir.chars) _ _ := resolves_above Set.subset_union_right
  unfold Filesystem.next Filesystem.lastLevel
  rw [named_eq, ← Set.union_assoc, hbuf]
  show S ∪ fs.ancestors dir.chars ∪ _ = _
  refine congrArg _ (Set.ext fun e => ?_)
  constructor
  · intro h
    exact ⟨h.1, h.2.2⟩
  · intro h
    exact ⟨h.1, hup, h.2⟩

/-- What is wanted after some arguments is what all of them want. -/
private theorem wanted_congr {fs fs' : Filesystem} (hcwd : fs'.cwd = fs.cwd) {done : List CString}
    (hdirs : fs'.dirs = fs.wanted done) (dirs : List CString) :
    fs'.wanted dirs = fs.wanted (done ++ dirs) := by
  rw [wanted_append, Filesystem.wanted, hdirs]
  unfold Filesystem.named Filesystem.start
  rw [hcwd]

/-- Run separately, the arguments make what they want. -/
private theorem separately_spec {fs : Filesystem} {dirs : List CString}
    (hlen : ∀ dir ∈ dirs, dir.chars.length < 256) :
    ∃ fs', separately fs dirs = .ok fs' ∧ fs'.cwd = fs.cwd ∧ fs'.dirs = fs.wanted dirs := by
  induction dirs generalizing fs with
  | nil => exact ⟨fs, rfl, rfl, (wanted_nil fs).symm⟩
  | cons dir dirs ih =>
    obtain ⟨e, he, hcwd, hdirs⟩ := @main_spec fs [dir] (by simpa using hlen dir List.mem_cons_self)
    obtain ⟨fs', hfs', hcwd', hdirs'⟩ := @ih e.fs fun d hd => hlen d (List.mem_cons_of_mem dir hd)
    have hfirst : e.fs.dirs = fs.wanted ([] ++ [dir]) := by
      rw [hdirs, wanted_concat, wanted_nil]
      exact next_alone fs fs.dirs dir
    refine ⟨fs', ?_, hcwd'.trans hcwd, ?_⟩
    · rw [separately, he, Run.ok_bind]
      exact hfs'
    · rw [hdirs', wanted_congr hcwd hfirst]
      rfl

/-! ## What a run should do -/

/-- Every path and every ancestor of one exists, nothing else was created, and a process for
    each path would have done the same. -/
structure CorrectEnd (fs : Filesystem) (dirs : List CString) (fs' : Filesystem) : Prop where
  there : ∀ dir ∈ dirs, Resolves fs'.dirs (fs.start dir.chars) (components dir.chars)
  only : ∀ d ∈ fs'.dirs, d ∈ fs.dirs ∨ ∃ dir ∈ dirs, d ∈ fs.named dir.chars
  separate : separately fs dirs = .ok fs'

/-- The run on `dirs` returns, and ends correctly. -/
def Correct (fs : Filesystem) (dirs : List CString) : Prop :=
  ∃ e, main fs dirs = .ok e ∧ CorrectEnd fs dirs e.fs

/-- The step for `dir`, behind `done`, does no harm: what `buf` holds at the last level names
    the same directory, or else the path is there and what `buf` holds creates nothing. -/
def Harmless (fs : Filesystem) (done : List CString) (dir : CString) : Prop :=
  let S := fs.wanted done ∪ fs.ancestors dir.chars
  let start := fs.start dir.chars
  let path := components dir.chars
  let seen := components (buffered (left done) dir.chars)
  LastLevel dir.chars →
    (Resolves S start seen.dropLast ∧ target start seen = target start path) ∨
    (target start path ∈ S ∧ (Resolves S start seen.dropLast → target start seen ∈ S))

/-- A file system is given by its current directory and its directories. -/
private theorem Filesystem.ext_dirs {fs fs' : Filesystem} (hcwd : fs'.cwd = fs.cwd)
    (hdirs : fs'.dirs = fs.dirs) : fs' = fs := by
  cases fs
  cases fs'
  cases hcwd
  cases Tree.ext_dirs hdirs
  rfl

/-- A run is correct when what it leaves is what is wanted. -/
private theorem correct_iff_dirs {fs : Filesystem} {dirs : List CString}
    (hlen : ∀ dir ∈ dirs, dir.chars.length < 256) :
    Correct fs dirs ↔ (dirs.foldl fs.next (fs.dirs, [])).1 = fs.wanted dirs := by
  obtain ⟨e, he, hcwd, hdirs⟩ := @main_spec fs dirs hlen
  obtain ⟨fs', hfs', hcwd', hdirs'⟩ := @separately_spec fs dirs hlen
  rw [← hdirs]
  constructor
  · -- both runs return, so their results are the only ones
    intro h
    obtain ⟨e', he', hend⟩ := h
    cases Except.ok.inj (he.symm.trans he')
    cases Except.ok.inj (hfs'.symm.trans hend.separate)
    exact hdirs'
  · -- the same directories and the same current directory are the same file system
    intro h
    have hsame : e.fs = fs' :=
      Filesystem.ext_dirs (hcwd.trans hcwd'.symm) (h.trans hdirs'.symm)
    refine ⟨e, he, ⟨fun dir hdir => ?_, fun d hd => ?_, by rw [hsame]; exact hfs'⟩⟩
    · rw [h]
      exact resolves_iff_along.mpr fun d hd => .inr ⟨dir, hdir, hd⟩
    · rw [h] at hd
      exact hd

/-- Two ways to add at most one directory. -/
private theorem union_eq_iff {S : Set (Dir Name)} {R : Prop} {p q : Dir Name} :
    S ∪ {e | R ∧ e = q} = S ∪ {p} ↔ (R ∧ q = p) ∨ (p ∈ S ∧ (R → q ∈ S)) := by
  constructor
  · -- `p` has to be there, already or as the one that is added
    intro h
    have hp : p ∈ S ∪ {e | R ∧ e = q} := by
      rw [h]
      exact .inr rfl
    -- it was there, so that nothing else may be added
    rcases hp with hp | ⟨hR, hp⟩
    · refine .inr ⟨hp, fun hR => ?_⟩
      have hq : q ∈ S ∪ {p} := by
        rw [← h]
        exact .inr ⟨hR, rfl⟩
      rcases hq with hq | rfl
      · exact hq
      · exact hp
    · exact .inl ⟨hR, hp.symm⟩
  · -- conversely, `p` is the one that is added, or both are there
    intro h
    rcases h with ⟨hR, rfl⟩ | ⟨hp, hq⟩
    · simp [hR]
    · rw [Set.union_eq_left.mpr (Set.singleton_subset_iff.mpr hp)]
      apply Set.union_eq_left.mpr
      rintro e ⟨hR, rfl⟩
      exact hq hR

/-- One more path does what it should exactly when its step does no harm. -/
private theorem harmless_iff (fs : Filesystem) (done : List CString) (dir : CString) :
    (fs.next (fs.wanted done, left done) dir).1 = fs.wanted (done ++ [dir]) ↔
      Harmless fs done dir := by
  rw [wanted_concat, named_eq, ← Set.union_assoc]
  unfold Filesystem.next Filesystem.lastLevel Harmless
  by_cases hlevel : LastLevel dir.chars
  · simp only [hlevel, true_and, forall_const, Set.ofPred_eq_eq_singleton]
    exact union_eq_iff
  · simp [hlevel]

/-- After a correct initial part, one more argument is correct exactly when it is harmless. -/
private theorem foldl_concat_iff {fs : Filesystem} {done : List CString} (dir : CString)
    (h : (done.foldl fs.next (fs.dirs, [])).1 = fs.wanted done) :
    ((done ++ [dir]).foldl fs.next (fs.dirs, [])).1 = fs.wanted (done ++ [dir]) ↔
      Harmless fs done dir := by
  have hstate : done.foldl fs.next (fs.dirs, []) = (fs.wanted done, left done) :=
    Prod.ext h (foldl_next_snd fs (fs.dirs, []) done)
  rw [List.foldl_append, hstate]
  exact harmless_iff fs done dir

/-- What is left in the buffer is no longer than the arguments. -/
private theorem length_left_le {done : List CString} {n : Nat}
    (h : ∀ d ∈ done, d.chars.length ≤ n) :
    (left done).length ≤ n := by
  induction done using List.reverseRecOn with
  | nil => exact Nat.zero_le n
  | append_singleton done d ih =>
    have hd := h d (by simp)
    have hdone := ih fun e he => h e (List.mem_append_left _ he)
    have hleft : left (done ++ [d]) = buffered (left done) d.chars := List.foldl_concat _ _ _ _
    rw [hleft, buffered, List.length_append, List.length_drop]
    omega

/-- No harm is done to a path that is as long as those before it. -/
private theorem harmless_of_length_le (fs : Filesystem) {done : List CString} {dir : CString}
    (h : ∀ d ∈ done, d.chars.length ≤ dir.chars.length) : Harmless fs done dir := by
  have hbuf : buffered (left done) dir.chars = dir.chars := by
    rw [buffered, List.drop_eq_nil_of_le (length_left_le h), List.append_nil]
  intro hlevel
  rw [hbuf]
  exact .inl ⟨resolves_above Set.subset_union_right, rfl⟩

/-- Every initial part of a run is correct exactly when every argument is harmless where it
    stands. -/
theorem runs_correct_iff (fs : Filesystem) (dirs : List CString)
    (hlen : ∀ dir ∈ dirs, dir.chars.length < 256) :
    (∀ done, done <+: dirs → Correct fs done) ↔
      ∀ done dir, done ++ [dir] <+: dirs → Harmless fs done dir := by
  have hshort : ∀ done, done <+: dirs → ∀ dir ∈ done, dir.chars.length < 256 :=
    fun done hdone dir hdir => hlen dir (hdone.subset hdir)
  constructor
  · -- up to `done` the run is correct, so that only the last argument is in question
    intro h done dir hdir
    have hdone : done <+: dirs := (List.prefix_append done [dir]).trans hdir
    exact (foldl_concat_iff dir ((correct_iff_dirs (hshort _ hdone)).mp (h done hdone))).mp
      ((correct_iff_dirs (hshort _ hdir)).mp (h _ hdir))
  · intro h done hdone
    -- induction on the prefix, from its end
    apply (correct_iff_dirs (hshort done hdone)).mpr
    induction done using List.reverseRecOn with
    | nil => exact (wanted_nil fs).symm
    | append_singleton done dir ih =>
      exact (foldl_concat_iff dir (ih ((List.prefix_append done [dir]).trans hdone))).mpr
        (h done dir hdone)

/-- A file system with nothing but a root. -/
def rootOnly : Filesystem where
  tree := { isDir := fun d => d.isEmpty, root := rfl, above := by simp }
  cwd := []
  cwd_isDir := rfl

/-- `"d"`. -/
def pathD : CString := ⟨[0x64], by decide⟩

/-- `"de"`. -/
def pathDe : CString := ⟨[0x64, 0x65], by decide⟩

/-- `d` and then `de`: the shorter path comes first, and the run is correct. -/
theorem correct_shorter_first : Correct rootOnly [pathD, pathDe] := by
  apply (runs_correct_iff rootOnly [pathD, pathDe] (by decide)).mpr
  · intro done dir hdir
    have hpair : [pathD, pathDe].Pairwise fun d e => d.chars.length ≤ e.chars.length := by decide
    apply harmless_of_length_le
    intro e he
    exact (List.pairwise_append.mp (hpair.sublist hdir.sublist)).2.2 e he dir (by simp)
  · exact List.prefix_refl _

/-- Behind `"de"`, the string at `buf` is `"de"` again, which exists, and `"d"` is not
    created. -/
theorem longer_first_incorrect : ¬ Correct rootOnly [pathDe, pathD] := by
  have hshort : ∀ dir ∈ [pathDe, pathD], dir.chars.length < 256 := by decide
  -- the first argument finds an empty buffer, and is correct
  have hfirst : (List.foldl rootOnly.next (rootOnly.dirs, []) [pathDe]).1 =
      rootOnly.wanted [pathDe] :=
    (next_alone rootOnly rootOnly.dirs pathDe).trans (by
      rw [← wanted_nil, ← wanted_concat]
      rfl)
  have hd : components pathD.chars = [.down [0x64]] := components_name (by decide) (by decide)
  have hde : components pathDe.chars = [.down [0x64, 0x65]] :=
    components_name (by decide) (by decide)
  -- behind it the buffer still holds `de`, of which only the first character is replaced
  have hseen : components (buffered (left [pathDe]) pathD.chars) = [.down [0x64, 0x65]] := hde
  have hbase : components (base pathD.chars) = [] := components_nil
  intro h
  have hharmless := (foldl_concat_iff pathD hfirst).mp ((correct_iff_dirs hshort).mp h)
  unfold Harmless Filesystem.wanted Filesystem.named Filesystem.ancestors at hharmless
  simp only [hseen, hd, hbase] at hharmless
  -- the wrong name would have to be the right one, or the right one there already
  rcases hharmless ⟨0x64, rfl, by decide⟩ with ⟨-, hsame⟩ | ⟨hthere, -⟩
  · exact absurd hsame (by decide)
  · rcases hthere with (hdir | ⟨dir, hdir, pre, hpre, heq⟩) | ⟨pre, hpre, heq⟩
    · exact Bool.false_ne_true hdir
    · rw [List.mem_singleton.mp hdir, hde] at hpre
      rw [List.mem_singleton.mp hdir] at heq
      rcases @List.prefix_concat_iff _ _ [] _ |>.mp hpre with rfl | hpre
      · exact absurd heq (by decide)
      · rw [List.prefix_nil.mp hpre] at heq
        exact absurd heq (by decide)
    · rw [List.prefix_nil.mp hpre] at heq
      exact absurd heq (by decide)

end Tlibc.Mkdir
