import Tlibc.Native.Ls
import Tlibc.Spec.Process

/-!
# What `ls` lists

A record that is read fits in the 40 bytes that are asked for, and the buffer has 32. So
names of 13 to 20 characters are stored beyond it, and longer ones are refused.

* `Calls.Documented`: `sys_getdents` as Linux documents it, and `Plain.documented`: a kernel that
  does so
* `Calls.Documented.one`: each call delivers one entry
* `pass_fits`: a pass prints the line of one entry
* `ls_lists`: what the program does with any directory
-/

namespace Tlibc.Ls

open Process
open Fueled (Ends Loops)

variable {m m' : Mem} {a buf di : Nat} {e : Entry} {es : List Entry} {c : Console}

/-! ## Records -/

/-- A record of up to 20 characters fits `count`. -/
private theorem Entry.reclen_le_count : e.reclen ≤ count ↔ e.name.chars.length ≤ 20 := by
  simp only [Entry.reclen, nameOff, count]
  omega

/-- One of up to 12 fits the buffer. -/
private theorem Entry.reclen_le_bufSize : e.reclen ≤ bufSize ↔ e.name.chars.length ≤ 12 := by
  simp only [Entry.reclen, nameOff, bufSize]
  omega

/-- A record takes 24 bytes at least. -/
private theorem Entry.reclen_ge (e : Entry) : 24 ≤ e.reclen := by
  simp only [Entry.reclen, nameOff]
  omega

/-- The members of a record that was stored. -/
structure RecordAt (m : Mem) (a : Nat) (e : Entry) : Prop where
  reclen : m.load (a + 16) 2 = e.reclen
  type : m (a + e.reclen - 1) = e.type
  name : Atoi.StringAt m (a + nameOff) e.name

/-- A record depends on its own bytes only. -/
private theorem RecordAt.congr (h : RecordAt m a e)
    (hsame : ∀ b, a ≤ b → b < a + e.reclen → m' b = m b) :
    RecordAt m' a e := by
  have hge := e.reclen_ge
  have hname : nameOff + e.name.chars.length + 2 ≤ e.reclen := by
    simp only [Entry.reclen]
    omega
  rw [nameOff] at hname
  refine ⟨?_, (hsame _ (by omega) (by omega)).trans h.type, ?_, ?_⟩
  · rw [← h.reclen]
    exact Mem.load_congr fun i hi => hsame _ (by omega) (by omega)
  · rw [← h.name.chars, Mem.length_read]
    exact Mem.read_congr fun i hi => hsame _ (by omega) (by rw [nameOff]; omega)
  · rw [← h.name.nul]
    exact hsame _ (by omega) (by rw [nameOff]; omega)

/-- Records one behind another. -/
def Records (m : Mem) (a : Nat) : List Entry → Prop
  | [] => True
  | e :: es => RecordAt m a e ∧ Records m (a + e.reclen) es

/-! ## `sys_getdents` -/

section Kernel

variable {δ : Type} {calls : Calls δ} {fd : Int32} {entries : δ → List Entry} {k : δ}

/-- `EINVAL`. -/
def einval : Int := 22

/-- `sys_getdents` on a directory whose states have these entries still to come: it returns 0
    behind the last one, fails when the first record is too long, and else stores the records
    of some entries, of which there is at least one, and returns their length. -/
structure Calls.Documented (calls : Calls δ) (fd : Int32) (entries : δ → List Entry) : Prop where
  ends : ∀ a n m k, entries k = [] → (calls.sysGetdents fd a n m k).ret = 0
  refuses : ∀ a n m k e es, entries k = e :: es → n < e.reclen →
    (calls.sysGetdents fd a n m k).ret = -einval
  delivers : ∀ a n m k e es, entries k = e :: es → e.reclen ≤ n →
    ∃ taken, taken ≠ [] ∧ (taken.map Entry.reclen).sum ≤ n ∧
      entries k = taken ++ entries (calls.sysGetdents fd a n m k).dir ∧
      (calls.sysGetdents fd a n m k).ret = ((taken.map Entry.reclen).sum : Nat) ∧
      Records (calls.sysGetdents fd a n m k).mem a taken

/-- Two records never fit together, so each call delivers one entry. -/
theorem Calls.Documented.one (h : calls.Documented fd entries) (a : Nat) (m : Mem)
    (hk : entries k = e :: es) (hname : e.name.chars.length ≤ 20) :
    (calls.sysGetdents fd a count m k).ret = e.reclen ∧
      RecordAt (calls.sysGetdents fd a count m k).mem a e ∧
      entries (calls.sysGetdents fd a count m k).dir = es := by
  obtain ⟨taken, hne, hsum, hentries, hret, hrecords⟩ :=
    h.delivers a count m k e es hk (Entry.reclen_le_count.mpr hname)
  rw [hk] at hentries
  rcases taken with _ | ⟨e₁, _ | ⟨e₂, taken⟩⟩
  · exact absurd rfl hne
  · obtain ⟨rfl, hrest⟩ := List.cons.inj hentries
    exact ⟨by simpa using hret, hrecords.1, hrest.symm⟩
  · -- 24 bytes each
    have hge₁ := e₁.reclen_ge
    have hge₂ := e₂.reclen_ge
    simp only [List.map_cons, List.sum_cons, count] at hsum
    omega

/-- A name that is too long makes `getdents` fail. -/
private theorem Calls.Documented.long (h : calls.Documented fd entries) (a : Nat) (m : Mem)
    (hk : entries k = e :: es) (hname : 20 < e.name.chars.length) :
    (calls.sysGetdents fd a count m k).ret = -einval :=
  h.refuses a count m k e es hk
    (Nat.not_le.mp (mt Entry.reclen_le_count.mp (Nat.not_le.mpr hname)))

end Kernel

/-! ## Lines -/

/-- What is printed for a type. -/
def typeText (type : UInt8) : CString := (ftype.getD type.toNat none).getD unknown

/-- The line of an entry. -/
def line (e : Entry) : List UInt8 := e.name.chars ++ 0x20 :: ((typeText e.type).chars ++ [0x0a])

/-- The record fits `buf`, and `ftype` has an element for the type. -/
def Entry.Listed (e : Entry) : Prop := e.name.chars.length ≤ 12 ∧ e.type.toNat < ftype.length

/-- The name of a type that the table has. -/
private theorem ftypeAt_listed {type : UInt8} (h : type.toNat < ftype.length) :
    ftypeAt type = .ok (ftype.getD type.toNat none) := by
  have hlt : type.toNat < 13 := h
  have hint : type.toInt8.toInt = type.toNat := by
    show type.toBitVec.toInt = _
    rw [BitVec.toInt_eq_toNat_of_lt (by
      show 2 * type.toNat < 2 ^ 8
      omega)]
    rfl
  simp only [ftypeAt, hint, Int.toNat_natCast]
  exact if_pos ⟨by omega, by omega⟩

/-- From 0x80 on the index is negative. -/
private theorem ftypeAt_other {type : UInt8} (h : ¬ type.toNat < ftype.length) :
    ftypeAt type = .error .outOfBounds := by
  have hge : ¬ type.toNat < 13 := h
  have hlt := type.toNat_lt
  have hint : type.toInt8.toInt = if 2 * type.toNat < 2 ^ 8 then (type.toNat : Int) else
      (type.toNat : Int) - (2 ^ 8 : Nat) := BitVec.toInt_eq_toNat_cond _
  have hout : ¬ (0 ≤ type.toInt8.toInt ∧ type.toInt8.toInt < (13 : Nat)) := by
    rw [hint]
    split <;> omega
  exact if_neg hout

/-- The name of a type has at most 16 characters. -/
private theorem typeText_length (type : UInt8) : (typeText type).chars.length ≤ 16 := by
  have hall : ∀ t ∈ ftype, (t.getD unknown).chars.length ≤ 16 := by decide
  rw [typeText, List.getD_eq_getElem?_getD]
  cases hget : ftype[type.toNat]? with
  | none => decide
  | some t => exact hall t (List.mem_of_getElem? hget)

/-! ## The inner loop -/

/-- A line is written in one call. -/
private theorem printf_line (c : Console) (hname : e.name.chars.length ≤ 12) :
    Ends (printf buf c format [.string (some e.name), .string (some (typeText e.type))]) (.ok
      { mem := c.mem.write buf (line e ++ [0])
        written := c.written ++ [{ fd := 1, bytes := line e }] }) := by
  have hpieces : Printf.pieces format.chars =
      [.conversion .s, .char 0x20, .conversion .s, .char 0x0a] := rfl
  have htype := typeText_length e.type
  refine printf_ends c (by decide) ?_ ?_ ?_
  · rw [hpieces]
    exact ⟨trivial, trivial, trivial⟩
  · rw [hpieces]
    simp [Printf.expand, Printf.Conversion.text, line]
  · simp only [line, List.length_append, List.length_cons, List.length_nil, printfSize]
    omega

/-- The pass over the one record. -/
private theorem walk_record (h : RecordAt c.mem di e) (hlisted : e.Listed) :
    ∃ c' : Console, c'.written = c.written ++ stdout [line e] ∧
      Loops (walk buf di e.reclen) { pos := di, console := c } (.ok c') := by
  have hge := e.reclen_ge
  let c' : Console :=
    { mem := c.mem.write buf (line e ++ [0])
      written := c.written ++ [{ fd := 1, bytes := line e }] }
  have hpass : Ends (walk buf di e.reclen { pos := di, console := c })
      (.ok (.again { pos := di + e.reclen, console := c' })) := by
    rw [walk, if_pos (by show di < di + e.reclen; omega)]
    simp only [h.reclen, h.type, ftypeAt_listed hlisted.2]
    refine (Fueled.ends_ofExcept _).bind ?_
    refine (stringOf_ends h.name).bind ?_
    have hor : (ftype.getD e.type.toNat none).or (some unknown) = some (typeText e.type) := by
      rw [typeText]
      cases ftype.getD e.type.toNat none <;> rfl
    rw [hor]
    exact (printf_line c hlisted.1).bind (Fueled.ends_pure _)
  -- the record is the only one, and nothing is behind it
  refine ⟨c', rfl, .again hpass (.done ?_)⟩
  rw [walk, if_neg (by show ¬ di + e.reclen < di + e.reclen; omega)]
  exact Fueled.ends_pure _

/-- A type outside `ftype`. -/
private theorem walk_outOfBounds (h : RecordAt c.mem di e) (htype : ¬ e.type.toNat < ftype.length) :
    Loops (walk buf di e.reclen) { pos := di, console := c } (.error .outOfBounds) := by
  have hge := e.reclen_ge
  refine .fault ?_
  rw [walk, if_pos (by show di < di + e.reclen; omega)]
  simp only [h.reclen, h.type, ftypeAt_other htype]
  exact (Fueled.ends_ofExcept _).bind_error

/-! ## The loop -/

section Loop

variable {δ : Type} {calls : Calls δ} {fd : Int32} {entries : δ → List Entry} {k : δ}

/-- At the end of the directory the loop ends. -/
private theorem pass_nil (h : calls.Documented fd entries) (hk : entries k = []) (c : Console) :
    ∃ c' : Console, c'.written = c.written ∧
      Ends (pass calls fd buf di { dir := k, console := c }) (.ok (.done (0, c'))) := by
  refine ⟨{ c with mem := (calls.sysGetdents fd di count c.mem k).mem }, rfl, ?_⟩
  simp only [pass]
  rw [if_pos (h.ends di count c.mem k hk)]
  exact Fueled.ends_pure _

/-- An entry that fits is written. -/
theorem pass_fits (h : calls.Documented fd entries) (hk : entries k = e :: es) (hlisted : e.Listed)
    (c : Console) :
    ∃ (c' : Console) (k' : δ), c'.written = c.written ++ stdout [line e] ∧ entries k' = es ∧
      Ends (pass calls fd buf di { dir := k, console := c })
        (.ok (.again { dir := k', console := c' })) := by
  have hge := e.reclen_ge
  have hle := Entry.reclen_le_bufSize.mpr hlisted.1
  obtain ⟨hret, hrecord, hrest⟩ := h.one di c.mem hk (Nat.le_trans hlisted.1 (by decide))
  obtain ⟨c', hwritten, hloops⟩ := @walk_record buf di e
    { c with mem := (calls.sysGetdents fd di count c.mem k).mem } hrecord hlisted
  refine ⟨c', _, hwritten, hrest, ?_⟩
  simp only [pass, hret, Int.toNat_natCast]
  rw [if_neg (by omega), if_neg (by omega), if_pos (by omega)]
  exact hloops.ends.bind (Fueled.ends_pure _)

/-- A name that is too long ends the loop. -/
private theorem pass_long (h : calls.Documented fd entries) (hk : entries k = e :: es)
    (hname : 20 < e.name.chars.length) (c : Console) :
    ∃ c' : Console, c'.written = c.written ++ stdout [tooLong] ∧
      Ends (pass calls fd buf di { dir := k, console := c }) (.ok (.done (1, c'))) := by
  refine ⟨Console.write { c with mem := (calls.sysGetdents fd di count c.mem k).mem } 1 tooLong,
    rfl, ?_⟩
  simp only [pass, h.long di c.mem hk hname]
  rw [if_neg (by decide), if_pos (by decide)]
  exact Fueled.ends_pure _

/-- Any other entry faults: its record is longer than the buffer, or its type is outside of the
    table. -/
private theorem pass_outOfBounds (h : calls.Documented fd entries) (hk : entries k = e :: es)
    (hname : e.name.chars.length ≤ 20) (hother : ¬ e.Listed) (c : Console) :
    Ends (pass calls fd buf di { dir := k, console := c }) (.error .outOfBounds) := by
  have hge := e.reclen_ge
  obtain ⟨hret, hrecord, -⟩ := h.one di c.mem hk hname
  simp only [pass, hret, Int.toNat_natCast]
  rw [if_neg (by omega), if_neg (by omega)]
  by_cases hshort : e.name.chars.length ≤ 12
  · have hle := Entry.reclen_le_bufSize.mpr hshort
    rw [if_pos (by omega)]
    have htype : ¬ e.type.toNat < ftype.length := fun htype => hother ⟨hshort, htype⟩
    exact (walk_outOfBounds hrecord htype).ends.bind_error
  · -- 40 bytes are stored in 32
    have hgt := mt Entry.reclen_le_bufSize.mp hshort
    rw [if_neg (by omega)]
    exact Fueled.ends_ofExcept _

/-- Behind entries that are listed the loop goes on with the others. -/
private theorem loops_append (h : calls.Documented fd entries) {pre rest : List Entry}
    (hk : entries k = pre ++ rest) (hpre : ∀ e ∈ pre, e.Listed) (c : Console) :
    ∃ (c' : Console) (k' : δ), c'.written = c.written ++ stdout (pre.map line) ∧
      entries k' = rest ∧
      ∀ r, Loops (pass calls fd buf di) { dir := k', console := c' } r →
        Loops (pass calls fd buf di) { dir := k, console := c } r := by
  induction pre generalizing c k with
  | nil => exact ⟨c, k, by simp [stdout], hk, fun r h => h⟩
  | cons e pre ih =>
    obtain ⟨he, hpre⟩ := List.forall_mem_cons.mp hpre
    obtain ⟨c₁, k₁, hwritten₁, hk₁, hpass⟩ := @pass_fits buf di e _ δ calls fd entries k h hk he c
    obtain ⟨c₂, k₂, hwritten₂, hk₂, hloops⟩ := ih hk₁ hpre c₁
    refine ⟨c₂, k₂, ?_, hk₂, fun r h => .again hpass (hloops r h)⟩
    rw [hwritten₂, hwritten₁]
    simp [stdout]

end Loop

/-! ## `main` -/

/-- The path that is listed. -/
def pathGiven : List CString → CString
  | _ :: path :: _ => path
  | _ => here

/-- The path is the second argument, or the current directory. -/
private theorem pathOf_ends {lo : Nat} {args env : List CString} {argc : Int32} {argv envp : UInt64}
    (h : Given lo args env argc argv envp m) :
    Ends (pathOf argc argv m) (.ok (some (pathGiven args))) := by
  have hlt : argc < 2 ↔ args.length < 2 := h.argc_lt_iff (n := 2) rfl
  -- without a path the current directory is listed
  by_cases hshort : args.length < 2
  · rw [pathOf, if_pos (hlt.mpr hshort)]
    have hpath : pathGiven args = here := by
      rcases args with _ | ⟨name, _ | ⟨path, args⟩⟩
      · rfl
      · rfl
      · exact absurd hshort (by simp)
    rw [hpath]
    exact Fueled.ends_pure _
  · rw [pathOf, if_neg (mt hlt.mp hshort)]
    rcases args with _ | ⟨name, _ | ⟨path, args⟩⟩
    · exact absurd (by simp) hshort
    · exact absurd (by simp) hshort
    · exact (h.argv.get (i := 1) (n := 1) rfl rfl).2

/-- `ls` ends with status 1 when the directory cannot be opened. Else it makes one `sys_write`
    call, of a line, for each entry and ends with status 0, if all names have at most 12
    characters and all types are known. An entry with a name of more than 20 characters ends
    the list with status 1, and behind any other entry it stores or reads outside an array. -/
theorem ls_lists {t : Machine.State} {args env : List CString}
    (h : Image t.mem (t.regs .rsp) args env) (hlow : 8 ≤ (t.regs .rsp).toNat) {δ : Type}
    (calls : Calls δ) {fd : Int32} {dir : δ}
    (hopened : calls.sysOpen (some (pathGiven args)) = (fd, dir)) (buf di : Nat) (back : UInt64) :
    (fd < 0 → Exits (process (main calls buf di) back t) 1 [{ fd := 2, bytes := badDescriptor }]) ∧
    (¬ fd < 0 → ∀ entries, calls.Documented fd entries →
      ((∀ e ∈ entries dir, e.Listed) →
        Writes (process (main calls buf di) back t) ((entries dir).map line)) ∧
      (∀ pre e rest, entries dir = pre ++ e :: rest → (∀ e ∈ pre, e.Listed) → ¬ e.Listed →
        (20 < e.name.chars.length →
          Exits (process (main calls buf di) back t) 1 (stdout (pre.map line ++ [tooLong]))) ∧
        (¬ 20 < e.name.chars.length →
          Ends (process (main calls buf di) back t) (.error .outOfBounds)))) := by
  obtain ⟨argc, argv, envp, m, hgiven, hmain⟩ := process_eq h hlow back
  have hpath := pathOf_ends hgiven
  rw [hmain]
  -- behind the call that opens the directory there is the loop
  have hopen : ∀ {r}, ¬ fd < 0 →
      Loops (pass calls fd buf di) { dir := dir, console := ⟨m, []⟩ } r →
      Ends (main calls buf di argc argv envp ⟨m, []⟩) r := by
    intro r hfd hloops
    refine hpath.bind ?_
    simp only [hopened]
    rw [if_neg hfd]
    exact hloops.ends
  refine ⟨fun hfd => ?_, fun hfd entries hdoc => ⟨fun hall => ?_,
    fun pre e rest hentries hpre hother => ⟨fun hlong => ?_, fun hshort => ?_⟩⟩⟩
  · -- the directory could not be opened
    refine ⟨Console.write ⟨m, []⟩ 2 badDescriptor, hpath.bind ?_, rfl⟩
    simp only [hopened]
    rw [if_pos hfd]
    exact Fueled.ends_pure _
  · -- the entries are written one after another, until none is left
    obtain ⟨c, k, hwritten, hk, hloops⟩ :=
      @loops_append buf di δ calls fd entries dir hdoc _ [] (List.append_nil _).symm hall ⟨m, []⟩
    obtain ⟨c', hwritten', hdone⟩ := @pass_nil buf di δ calls fd entries k hdoc hk c
    exact ⟨c', hopen hfd (hloops _ (.done hdone)), hwritten'.trans hwritten⟩
  · -- up to the name that is too long, where the loop ends
    obtain ⟨c, k, hwritten, hk, hloops⟩ :=
      @loops_append buf di δ calls fd entries dir hdoc _ _ hentries hpre ⟨m, []⟩
    obtain ⟨c', hwritten', hdone⟩ := @pass_long buf di e rest δ calls fd entries k hdoc hk hlong c
    refine ⟨c', hopen hfd (hloops _ (.done hdone)), ?_⟩
    simp [hwritten', hwritten, stdout]
  · -- up to the entry that does not fit the buffer, or whose type is not in the table
    obtain ⟨c, k, hwritten, hk, hloops⟩ :=
      @loops_append buf di δ calls fd entries dir hdoc _ _ hentries hpre ⟨m, []⟩
    exact hopen hfd (hloops _ (.fault (pass_outOfBounds hdoc hk (Nat.not_lt.mp hshort) hother c)))

/-! ## A kernel -/

/-- The members of `struct linux_dirent`, and the type in the last byte. -/
def Entry.stores (e : Entry) : List (Nat × List UInt8) :=
  [(0, Mem.leBytes 8 e.ino.toNat),
    (8, Mem.leBytes 8 e.off.toNat),
    (16, Mem.leBytes 2 e.reclen),
    (nameOff, e.name.chars ++ [0]),
    (e.reclen - 1, [e.type])]

/-- The fields of a record do not overlap. -/
private theorem Entry.stores_ascending (e : Entry) : Mem.Ascending e.reclen 0 e.stores := by
  simp only [Entry.stores, Mem.Ascending, Mem.length_leBytes, List.length_append,
    List.length_singleton, Entry.reclen, nameOff]
  omega

/-- The record is where it was stored. -/
private theorem recordAt_stored (m : Mem) (a : Nat) (e : Entry) :
    RecordAt (m.writeAll a e.stores) a e where
  reclen := by
    -- the number is small enough for its two bytes
    have hload := @Mem.load_writeAll m a 16 2 e.reclen _ e.stores_ascending.apart
      (by simp [Entry.stores])
    have hlt : e.reclen < 256 ^ 2 := by
      have hname := e.name_le
      simp only [Entry.reclen, nameOff]
      omega
    rw [hload, Nat.mod_eq_of_lt hlt]
  type := by
    -- the type is the last byte of the record
    have hread := @Mem.read_writeAll m a _ e.stores_ascending.apart (e.reclen - 1, [e.type])
      (by simp [Entry.stores])
    have hge := e.reclen_ge
    have haddr : a + (e.reclen - 1) = a + e.reclen - 1 := by omega
    simpa [Mem.read, haddr] using hread
  name := by
    have hread := @Mem.read_writeAll m a _ e.stores_ascending.apart (nameOff, e.name.chars ++ [0])
      (by simp [Entry.stores])
    simp only [List.length_append, List.length_singleton, Mem.read_add] at hread
    -- behind the name there is its NUL
    obtain ⟨hchars, hnul⟩ := List.append_inj hread (by simp)
    exact ⟨hchars, by simpa [Mem.read] using hnul⟩

namespace Plain

/-- The entries whose records fit in `n` bytes, and the others. -/
def fit (n : Nat) : List Entry → List Entry × List Entry
  | [] => ([], [])
  | e :: es =>
    if e.reclen ≤ n then
      let (taken, rest) := fit (n - e.reclen) es
      (e :: taken, rest)
    else
      ([], e :: es)

/-- The records, one behind another. -/
def storeRecords (m : Mem) (a : Nat) : List Entry → Mem
  | [] => m
  | e :: es => storeRecords (m.writeAll a e.stores) (a + e.reclen) es

/-- As many records as fit are stored. -/
def getdents (a n : Nat) (m : Mem) (es : List Entry) : Got (List Entry) :=
  let (taken, rest) := fit n es
  if es ≠ [] ∧ taken = [] then
    { ret := -einval, mem := m, dir := es }
  else
    { ret := (taken.map Entry.reclen).sum, mem := storeRecords m a taken, dir := rest }

/-- A kernel with one directory. -/
def calls (fd : Int32) (es : List Entry) : Calls (List Entry) where
  sysOpen _ := (fd, es)
  sysGetdents _ := getdents

/-- An entry that fits is delivered. -/
private theorem fit_cons_of_le {n : Nat} (h : e.reclen ≤ n) (es : List Entry) :
    fit n (e :: es) = (e :: (fit (n - e.reclen) es).1, (fit (n - e.reclen) es).2) := by
  rw [fit, if_pos h]

/-- What is delivered and what is left are all entries. -/
private theorem fit_append (n : Nat) (es : List Entry) : (fit n es).1 ++ (fit n es).2 = es := by
  induction es generalizing n with
  | nil => rfl
  | cons e es ih =>
    by_cases h : e.reclen ≤ n
    · rw [fit_cons_of_le h, List.cons_append, ih]
    · rw [fit, if_neg h]
      rfl

/-- What is delivered fits. -/
private theorem fit_sum_le (n : Nat) (es : List Entry) :
    ((fit n es).1.map Entry.reclen).sum ≤ n := by
  induction es generalizing n with
  | nil => exact Nat.zero_le n
  | cons e es ih =>
    by_cases h : e.reclen ≤ n
    · have hrest := ih (n - e.reclen)
      rw [fit_cons_of_le h, List.map_cons, List.sum_cons]
      omega
    · rw [fit, if_neg h]
      exact Nat.zero_le n

/-- Nothing is stored below. -/
private theorem storeRecords_below {b : Nat} (hb : b < a) : storeRecords m a es b = m b := by
  induction es generalizing m a with
  | nil => rfl
  | cons e es ih =>
    rw [storeRecords, ih (by omega)]
    have hframe := @Mem.frame_writeAll m a _ _ _ fun s hs => e.stores_ascending.bounds hs
    apply hframe.apply
    rintro ⟨hge, -⟩
    omega

/-- The records are where they were stored. -/
private theorem records_stored (m : Mem) (a : Nat) (es : List Entry) :
    Records (storeRecords m a es) a es := by
  induction es generalizing m a with
  | nil => trivial
  | cons e es ih =>
    -- the records behind the first one are apart from it
    exact ⟨(recordAt_stored m a e).congr fun b _ hb => storeRecords_below hb, ih _ _⟩

/-- The kernel behaves as documented. -/
theorem documented (fd : Int32) (es : List Entry) : (calls fd es).Documented fd id where
  ends := by
    rintro a n m k rfl
    simp [calls, getdents, fit]
  refuses := by
    rintro a n m k e es rfl hlt
    simp [calls, getdents, fit, Nat.not_le.mpr hlt]
  delivers := by
    rintro a n m k e es rfl hle
    have hfit := fit_cons_of_le hle es
    refine ⟨(fit n (e :: es)).1, by simp [hfit], fit_sum_le _ _, ?_, ?_, ?_⟩
    · simp [calls, getdents, hfit, fit_append]
    · simp [calls, getdents, hfit]
    · have hrecords := records_stored m a (fit n (e :: es)).1
      simpa [calls, getdents, hfit] using hrecords

end Plain

/-- `"notes"`. -/
def fileName : CString where
  chars := [0x6e, 0x6f, 0x74, 0x65, 0x73]
  nul_free := by decide

/-- `"src"`. -/
def dirName : CString where
  chars := [0x73, 0x72, 0x63]
  nul_free := by decide

/-- A file and a directory. -/
def someEntries : List Entry :=
  [⟨11, 24, fileName, 8, Nat.le_of_ble_eq_true rfl⟩, ⟨12, 48, dirName, 4, Nat.le_of_ble_eq_true rfl⟩]

theorem ls_lists_some :
    Writes (process (main (Plain.calls 3 someEntries) 0x1000 0x2000) 0 threeState)
      [[0x6e, 0x6f, 0x74, 0x65, 0x73, 0x20, 0x66, 0x69, 0x6c, 0x65, 0x0a],
        [0x73, 0x72, 0x63, 0x20, 0x64, 0x69, 0x72, 0x65, 0x63, 0x74, 0x6f, 0x72, 0x79, 0x0a]] := by
  obtain ⟨-, hopen⟩ :=
    ls_lists threeState_image (by decide) (Plain.calls 3 someEntries) rfl 0x1000 0x2000 0
  obtain ⟨hlisted, -⟩ := hopen (by decide) id (Plain.documented 3 someEntries)
  refine hlisted fun e he => ?_
  rcases List.mem_cons.mp he with rfl | he
  · exact ⟨by decide, by decide⟩
  · obtain rfl := List.mem_singleton.mp he
    exact ⟨by decide, by decide⟩

end Tlibc.Ls
