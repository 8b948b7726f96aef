import Tlibc.Spec.Sh
import Tlibc.Spec.Tools

/-!
# How `kill` reads its arguments

The arguments are items: a `-h`, a `-s` with a number, or a process. The loop passes over one
item in each pass.

* `exists_reads`: any arguments are items, with a `-s` behind them or not
* `loops`: the loop sets what the items set
* `kill_reads`: the call of `sys_kill` that is made
-/

namespace Tlibc.Kill

open Process
open Fueled (Ends Loops)

variable {lo : Nat} {args env : List CString} {argc : Int32} {argv envp : UInt64}

/-- What an argument, or two of them, is read as. -/
inductive Item where
  | help
  | signo (s : CString)
  | pid (s : CString)

/-- The arguments of an item. -/
def Item.words : Item → List (List UInt8)
  | help => [helpFlag]
  | signo s => [signoFlag, s.chars]
  | pid s => [s.chars]

/-- A flag is not read as a process. -/
def Item.Proper : Item → Prop
  | help => True
  | signo _ => True
  | pid s => s.chars ≠ helpFlag ∧ s.chars ≠ signoFlag

/-- What an item sets. -/
def Item.set (opts : Options) : Item → Except Atoi.Fault Options
  | help => .ok { opts with h := true }
  | signo s => (Atoi.atoi s).map fun v => { opts with signo := v }
  | pid s => (Atoi.atoi s).map fun v => { opts with pid := v }

/-- The arguments are those of the items, and there may be a `-s` behind them. -/
structure Reads (words : List (List UInt8)) (items : List Item) (dangling : Bool) : Prop where
  proper : ∀ x ∈ items, x.Proper
  words : words = items.flatMap Item.words ++ if dangling then [signoFlag] else []

/-- One item more, in front. -/
private theorem Reads.cons {words : List (List UInt8)} {items : List Item} {dangling : Bool}
    (h : Reads words items dangling) {x : Item} (hx : x.Proper) :
    Reads (x.words ++ words) (x :: items) dangling where
  proper := List.forall_mem_cons.mpr ⟨hx, h.proper⟩
  words := by rw [h.words, List.flatMap_cons, List.append_assoc]

/-- Any arguments can be read in this way. -/
theorem exists_reads : ∀ args : List CString,
    ∃ items dangling, Reads (args.map CString.chars) items dangling
  | [] => ⟨[], false, ⟨nofun, rfl⟩⟩
  | [s] => by
    by_cases hhelp : s.chars = helpFlag
    · exact ⟨[.help], false, ⟨by simp [Item.Proper], by simp [Item.words, hhelp]⟩⟩
    · by_cases hsigno : s.chars = signoFlag
      · exact ⟨[], true, ⟨nofun, by simp [hsigno]⟩⟩
      · exact ⟨[.pid s], false, ⟨by simp [Item.Proper, hhelp, hsigno], by simp [Item.words]⟩⟩
  | s :: v :: rest => by
    obtain ⟨items, dangling, htail⟩ := exists_reads (v :: rest)
    obtain ⟨items', dangling', hrest⟩ := exists_reads rest
    by_cases hhelp : s.chars = helpFlag
    · have hreads := htail.cons (x := .help) trivial
      rw [Item.words, ← hhelp] at hreads
      exact ⟨_, _, hreads⟩
    · by_cases hsigno : s.chars = signoFlag
      · have hreads := hrest.cons (x := .signo v) trivial
        rw [Item.words, ← hsigno] at hreads
        exact ⟨_, _, hreads⟩
      · exact ⟨_, _, htail.cons (x := .pid s) ⟨hhelp, hsigno⟩⟩

/-! ## A pass -/

section Pass

variable {m : Mem} {i : Int32} {n : Nat} {s v : CString} {opts : Options}

/-- `Strcmp` finds a flag that has no NUL. -/
private theorem strcmp_flag (s : CString) {flag : List UInt8} (hflag : ∀ c ∈ flag, c ≠ 0) :
    Sh.strcmp s.chars flag = 0 ↔ s.chars = flag :=
  Sh.strcmp_eq_zero (fun _ hc hzero => s.nul_free (hzero ▸ hc)) hflag

/-- `Strcmp` finds `-h`. -/
private theorem strcmp_help (s : CString) : Sh.strcmp s.chars helpFlag = 0 ↔ s.chars = helpFlag :=
  strcmp_flag s (by simp [helpFlag])

/-- `Strcmp` finds `-s`. -/
private theorem strcmp_signo (s : CString) :
    Sh.strcmp s.chars signoFlag = 0 ↔ s.chars = signoFlag :=
  strcmp_flag s (by simp [signoFlag])

/-- Behind the arguments the loop ends. -/
private theorem pass_done (h : Given lo args env argc argv envp m) (hi : i.toInt = args.length)
    (opts : Options) :
    Ends (pass m argc argv { i := i, opts := opts }) (.ok (.done opts)) := by
  rw [pass, if_neg (mt (h.lt_argc_iff hi).mp (Nat.lt_irrefl _))]
  exact Fueled.ends_pure _

/-- `-h`. -/
private theorem pass_help (h : Given lo args env argc argv envp m) (hlen : args.length < 2 ^ 31)
    (hi : i.toInt = n) (hs : args[n]? = some s) (hhelp : s.chars = helpFlag) (opts : Options) :
    ∃ j : Int32, j.toInt = (n + 1 : Nat) ∧ Ends (pass m argc argv { i := i, opts := opts })
      (.ok (.again { i := j, opts := { opts with h := true } })) := by
  have hn := (List.getElem?_eq_some_iff.mp hs).1
  obtain ⟨j, hj, hnext⟩ := @increment_ends i (by omega)
  refine ⟨j, by omega, ?_⟩
  rw [pass, if_pos ((h.lt_argc_iff hi).mpr (by omega))]
  refine (h.argv.get hi hs).2.bind ((Fueled.ends_pure s).bind ?_)
  rw [if_pos ((strcmp_help s).mpr hhelp)]
  exact hnext.bind (Fueled.ends_pure _)

/-- `-s` and a number. -/
private theorem pass_signo (h : Given lo args env argc argv envp m) (hlen : args.length < 2 ^ 31)
    (hi : i.toInt = n) (hs : args[n]? = some s) (hsigno : s.chars = signoFlag)
    (hv : args[n + 1]? = some v) (opts : Options) :
    (∀ signo, Atoi.atoi v = .ok signo → ∃ j : Int32, j.toInt = (n + 2 : Nat) ∧
      Ends (pass m argc argv { i := i, opts := opts })
        (.ok (.again { i := j, opts := { opts with signo := signo } }))) ∧
    (∀ f, Atoi.atoi v = .error f →
      Ends (pass m argc argv { i := i, opts := opts }) (.error .overflow)) := by
  have hn := (List.getElem?_eq_some_iff.mp hv).1
  obtain ⟨j, hj, hnext⟩ := @increment_ends i (by omega)
  obtain ⟨k, hk, hlast⟩ := @increment_ends j (by omega)
  have hnot : ¬ Sh.strcmp s.chars helpFlag = 0 := by
    rw [strcmp_help, hsigno]
    decide
  -- the argument behind `-s` is read as a number
  have hatoi := atoi_ends (h.argv.get (i := j) (n := n + 1) (by omega) hv).2
  have hbody : ∀ r, Ends (Process.atoi m (pointerAt m argv j) >>= fun signo => do
        let i ← increment j
        return .again { i := i, opts := { opts with signo := signo } }) r →
      Ends (pass m argc argv { i := i, opts := opts }) r := by
    intro r hr
    -- the pass reads the argument, and finds the option
    rw [pass, if_pos ((h.lt_argc_iff hi).mpr (by omega))]
    refine (h.argv.get hi hs).2.bind ((Fueled.ends_pure s).bind ?_)
    rw [if_neg hnot, if_pos ((strcmp_signo s).mpr hsigno)]
    exact hnext.bind hr
  -- then it goes on behind both, or `atoi` has overflowed
  constructor
  · intro signo hok
    rw [hok] at hatoi
    exact ⟨k, by omega, hbody _ (hatoi.bind (hlast.bind (Fueled.ends_pure _)))⟩
  · intro f herror
    rw [herror] at hatoi
    exact hbody _ hatoi.bind_error

/-- `-s` behind all others. -/
private theorem pass_dangling (h : Given lo args env argc argv envp m) (hlen : args.length < 2 ^ 31)
    (hi : i.toInt = n) (hs : args[n]? = some s) (hsigno : s.chars = signoFlag)
    (hn : n + 1 = args.length) (opts : Options) :
    Ends (pass m argc argv { i := i, opts := opts }) (.error .nullPointer) := by
  obtain ⟨j, hj, hnext⟩ := @increment_ends i (by omega)
  have hnot : ¬ Sh.strcmp s.chars helpFlag = 0 := by
    rw [strcmp_help, hsigno]
    decide
  -- behind the last argument there is the null pointer
  have hnull : pointerAt m argv j = 0 := by
    have hat := h.argv.at (i := j) (n := n + 1) (by omega) (by omega)
    rw [List.drop_eq_nil_of_le (by omega)] at hat
    exact hat.2
  rw [pass, if_pos ((h.lt_argc_iff hi).mpr (by omega))]
  refine (h.argv.get hi hs).2.bind ((Fueled.ends_pure s).bind ?_)
  rw [if_neg hnot, if_pos ((strcmp_signo s).mpr hsigno)]
  refine hnext.bind (Ends.bind_error ?_)
  -- which `atoi` is given
  rw [hnull]
  exact (stringAt_null m).bind (Ends.bind_error (Fueled.ends_ofExcept _))

/-- Any other argument. -/
private theorem pass_pid (h : Given lo args env argc argv envp m) (hlen : args.length < 2 ^ 31)
    (hi : i.toInt = n) (hs : args[n]? = some s) (hproper : (Item.pid s).Proper) (opts : Options) :
    (∀ pid, Atoi.atoi s = .ok pid → ∃ j : Int32, j.toInt = (n + 1 : Nat) ∧
      Ends (pass m argc argv { i := i, opts := opts })
        (.ok (.again { i := j, opts := { opts with pid := pid } }))) ∧
    (∀ f, Atoi.atoi s = .error f →
      Ends (pass m argc argv { i := i, opts := opts }) (.error .overflow)) := by
  have hn := (List.getElem?_eq_some_iff.mp hs).1
  obtain ⟨j, hj, hnext⟩ := @increment_ends i (by omega)
  have hstring := (h.argv.get hi hs).2
  have hatoi := atoi_ends hstring
  -- an argument that is no option is a process number
  have hbody : ∀ r, Ends (Process.atoi m (pointerAt m argv i) >>= fun pid => do
        let i ← increment i
        return .again { i := i, opts := { opts with pid := pid } }) r →
      Ends (pass m argc argv { i := i, opts := opts }) r := by
    intro r hr
    rw [pass, if_pos ((h.lt_argc_iff hi).mpr (by omega))]
    refine hstring.bind ((Fueled.ends_pure s).bind ?_)
    rw [if_neg (mt (strcmp_help s).mp hproper.1), if_neg (mt (strcmp_signo s).mp hproper.2)]
    exact hr
  -- the pass goes on behind it, or `atoi` has overflowed
  constructor
  · intro pid hok
    rw [hok] at hatoi
    exact ⟨j, by omega, hbody _ (hatoi.bind (hnext.bind (Fueled.ends_pure _)))⟩
  · intro f herror
    rw [herror] at hatoi
    exact hbody _ hatoi.bind_error

end Pass

/-! ## The loop -/

/-- What the loop comes to: a number that does not fit an `int`, or a `-s` without one, or the
    options of all items. -/
def outcome (items : List Item) (dangling : Bool) (opts : Options) : Except Crash Options :=
  match items.foldlM Item.set opts with
  | .error _ => .error .overflow
  | .ok opts => if dangling then .error .nullPointer else .ok opts

/-- The first item is set before the others. -/
private theorem outcome_cons_ok {x : Item} {items : List Item} {dangling : Bool}
    {opts opts' : Options}
    (h : x.set opts = .ok opts') :
    outcome (x :: items) dangling opts = outcome items dangling opts' := by
  rw [outcome, outcome, List.foldlM_cons, h]
  rfl

/-- A number that does not fit ends the loop. -/
private theorem outcome_cons_error {x : Item} {items : List Item} {dangling : Bool} {opts : Options}
    {f : Atoi.Fault} (h : x.set opts = .error f) :
    outcome (x :: items) dangling opts = .error .overflow := by
  rw [outcome, List.foldlM_cons, h]
  rfl

/-- The first of the arguments that are left. -/
private theorem drop_cons {n : Nat} {s : CString} {rest : List CString}
    (h : args.drop n = s :: rest) :
    args[n]? = some s ∧ args.drop (n + 1) = rest := by
  constructor
  · rw [← List.head?_drop, h, List.head?_cons]
  · rw [← List.tail_drop, h, List.tail_cons]

/-- A pass takes the arguments of an item and sets what it sets, or its number overflows. -/
private theorem pass_item {m : Mem} (h : Given lo args env argc argv envp m)
    (hlen : args.length < 2 ^ 31) {i : Int32} {n : Nat} (hi : i.toInt = n) {x : Item} (hx : x.Proper)
    {rest : List (List UInt8)} (hwords : (args.drop n).map CString.chars = x.words ++ rest)
    (opts : Options) :
    ∃ n' ≤ args.length, (args.drop n').map CString.chars = rest ∧
      (∀ opts', x.set opts = .ok opts' → ∃ j : Int32, j.toInt = n' ∧
        Ends (pass m argc argv { i := i, opts := opts }) (.ok (.again { i := j, opts := opts' }))) ∧
      (∀ f, x.set opts = .error f →
        Ends (pass m argc argv { i := i, opts := opts }) (.error .overflow)) := by
  cases x with
  | help =>
    obtain ⟨s, left, hdrop, hs, hleft⟩ := List.map_eq_cons_iff.mp hwords
    obtain ⟨hget, hnext⟩ := drop_cons hdrop
    have hlt := (List.getElem?_eq_some_iff.mp hget).1
    refine ⟨n + 1, hlt, by rw [hnext, hleft]; rfl, fun opts' hset => ?_, nofun⟩
    obtain rfl := Except.ok.inj hset
    exact pass_help h hlen hi hget hs opts
  | signo v =>
    obtain ⟨s, left, hdrop, hs, hleft⟩ := List.map_eq_cons_iff.mp hwords
    obtain ⟨w, left', rfl, hw, hleft'⟩ := List.map_eq_cons_iff.mp hleft
    obtain ⟨hget, hnext⟩ := drop_cons hdrop
    obtain ⟨hget', hnext'⟩ := drop_cons hnext
    have hlt := (List.getElem?_eq_some_iff.mp hget').1
    -- the pass takes both arguments, unless the number does not fit
    obtain ⟨hok, herror⟩ := pass_signo h hlen hi hget hs hget' opts
    have hsame : Atoi.atoi v = Atoi.atoi w := by rw [Atoi.atoi, Atoi.atoi, hw]
    rw [Item.set, hsame]
    refine ⟨n + 2, by omega, by rw [hnext', hleft']; rfl, fun opts' hset => ?_, fun f hset => ?_⟩
    · obtain ⟨signo, hatoi, rfl⟩ := Run.map_eq_ok.mp hset
      exact hok signo hatoi
    · exact herror f (Run.map_eq_error.mp hset)
  | pid v =>
    obtain ⟨s, left, hdrop, hs, hleft⟩ := List.map_eq_cons_iff.mp hwords
    obtain ⟨hget, hnext⟩ := drop_cons hdrop
    have hlt := (List.getElem?_eq_some_iff.mp hget).1
    obtain ⟨hok, herror⟩ := pass_pid h hlen hi hget (by rw [Item.Proper, hs]; exact hx) opts
    have hsame : Atoi.atoi v = Atoi.atoi s := by rw [Atoi.atoi, Atoi.atoi, hs]
    rw [Item.set, hsame]
    refine ⟨n + 1, hlt, by rw [hnext, hleft]; rfl, fun opts' hset => ?_, fun f hset => ?_⟩
    · obtain ⟨pid, hatoi, rfl⟩ := Run.map_eq_ok.mp hset
      exact hok pid hatoi
    · exact herror f (Run.map_eq_error.mp hset)

/-- The loop, by the items that are left. -/
theorem loops {m : Mem} (h : Given lo args env argc argv envp m) (hlen : args.length < 2 ^ 31)
    {items : List Item} {dangling : Bool} {i : Int32} {n : Nat} (hi : i.toInt = n)
    (hn : n ≤ args.length) (hreads : Reads ((args.drop n).map CString.chars) items dangling)
    (opts : Options) :
    Loops (pass m argc argv) { i := i, opts := opts } (outcome items dangling opts) := by
  induction items generalizing i n opts with
  | nil =>
    have hwords := hreads.words
    cases dangling with
    | false =>
      have hempty : args.drop n = [] := List.map_eq_nil_iff.mp hwords
      have hend : args.length ≤ n := List.drop_eq_nil_iff.mp hempty
      exact .done (pass_done h (by omega) opts)
    | true =>
      -- `argv[i]` behind the `-s` is the null pointer
      obtain ⟨s, rest, hdrop, hs, hrest⟩ := List.map_eq_cons_iff.mp hwords
      obtain ⟨hget, hnext⟩ := drop_cons hdrop
      rw [List.map_eq_nil_iff.mp hrest] at hnext
      have hlt := (List.getElem?_eq_some_iff.mp hget).1
      have hend := List.drop_eq_nil_iff.mp hnext
      exact .fault (pass_dangling h hlen hi hget hs (by omega) opts)
  | cons x items ih =>
    obtain ⟨hproper, hitems⟩ := List.forall_mem_cons.mp hreads.proper
    have hwords := hreads.words
    rw [List.flatMap_cons, List.append_assoc] at hwords
    obtain ⟨n', hn', hrest, hok, herror⟩ := pass_item h hlen hi hproper hwords opts
    -- one pass for the item, and the others are left
    cases hset : x.set opts with
    | error f =>
      rw [outcome_cons_error hset]
      exact .fault (herror f hset)
    | ok opts' =>
      obtain ⟨j, hj, hpass⟩ := hok opts' hset
      rw [outcome_cons_ok hset]
      exact .again hpass (ih hj hn' ⟨hitems, hrest⟩ opts')

/-! ## `main` -/

/-- A process ends with a status, and has made these `sys_write` and `sys_kill` calls. -/
def Leaves (x : Fueled Crash (Int32 × Ended)) (status : Int32) (written : List Printf.Written)
    (signals : List Signal) : Prop :=
  ∃ e, Ends x (.ok (status, e)) ∧ e.console.written = written ∧ e.signals = signals

/-- With fewer than two words nothing is read. -/
private theorem main_few {m : Mem} (h : Given lo args env argc argv envp m) (hfew : args.length < 2)
    (sysKill : Signal → Int32) :
    Leaves (main sysKill argc argv envp ⟨m, []⟩) 1 [{ fd := 2, bytes := help }] [] := by
  have hlt : argc < 2 := (h.argc_lt_iff (n := 2) rfl).mpr hfew
  refine ⟨⟨Console.write ⟨m, []⟩ 2 help, []⟩, ?_, rfl, rfl⟩
  rw [main, if_pos hlt]
  exact Fueled.ends_pure _

/-- With two words or more the loop runs from the first argument on. -/
private theorem main_loop {m : Mem} (h : Given lo args env argc argv envp m)
    (hlen : args.length < 2 ^ 31)
    (hfew : ¬ args.length < 2) {items : List Item} {dangling : Bool}
    (hreads : Reads (args.tail.map CString.chars) items dangling) :
    ¬ argc < 2 ∧
      Ends (Fueled.loop (pass m argc argv) { i := 1, opts := .start })
        (outcome items dangling .start) := by
  have hge : ¬ argc < 2 := mt (h.argc_lt_iff (n := 2) rfl).mp hfew
  rw [← List.drop_one] at hreads
  exact ⟨hge, (loops h hlen (i := 1) (n := 1) rfl (by omega) hreads .start).ends⟩

/-- From `_start` on, `kill` reads its arguments as items, of which `-h` wins and of the others
    the last one of each kind, and makes one call with what they set, or none. A `-s` behind all
    others is a read through a null pointer. -/
theorem kill_reads {t : Machine.State} (h : Image t.mem (t.regs .rsp) args env)
    (hlow : 8 ≤ (t.regs .rsp).toNat) (sysKill : Signal → Int32) (back : UInt64) :
    (args.length < 2 → Leaves (process (main sysKill) back t) 1 [{ fd := 2, bytes := help }] []) ∧
    (∃ items dangling, Reads (args.tail.map CString.chars) items dangling) ∧
    (¬ args.length < 2 → ∀ items dangling, Reads (args.tail.map CString.chars) items dangling →
      (∀ crash, outcome items dangling .start = .error crash →
        Ends (process (main sysKill) back t) (.error crash)) ∧
      (∀ opts, outcome items dangling .start = .ok opts → opts.h = true →
        Leaves (process (main sysKill) back t) 0 (stdout [help]) []) ∧
      (∀ opts, outcome items dangling .start = .ok opts → opts.h = false →
        Leaves (process (main sysKill) back t) (sysKill ⟨opts.pid, opts.signo⟩) []
          [⟨opts.pid, opts.signo⟩])) := by
  obtain ⟨argc, argv, envp, m, hgiven, hmain⟩ := process_eq h hlow back
  rw [hmain]
  -- too few arguments, and then the loop: its fault, the help it asks for, or the call
  refine ⟨fun hfew => main_few hgiven hfew sysKill, exists_reads _,
    fun hfew items dangling hreads => ?_⟩
  obtain ⟨hargc, hloop⟩ := main_loop hgiven h.args_lt hfew hreads
  rw [main, if_neg hargc]
  refine ⟨fun crash hcrash => ?_, fun opts hopts hh => ?_, fun opts hopts hh => ?_⟩
  · rw [hcrash] at hloop
    exact hloop.bind_error
  · rw [hopts] at hloop
    refine ⟨⟨Console.write ⟨m, []⟩ 1 help, []⟩, hloop.bind ?_, rfl, rfl⟩
    rw [if_pos hh]
    exact Fueled.ends_pure _
  · rw [hopts] at hloop
    refine ⟨⟨⟨m, []⟩, [⟨opts.pid, opts.signo⟩]⟩, hloop.bind ?_, rfl, rfl⟩
    rw [if_neg (by rw [hh]; exact Bool.false_ne_true)]
    exact Fueled.ends_pure _

/-- `kill 3`. -/
theorem kill_reads_three :
    Leaves (process (main fun s => s.pid + s.signo) 0 threeState) 12 [] [⟨3, 9⟩] := by
  obtain ⟨-, -, hreads⟩ := kill_reads threeState_image (by decide) (fun s => s.pid + s.signo) 0
  have hitems : Reads ([toolName, threeText].tail.map CString.chars) [.pid threeText] false :=
    ⟨by simp [Item.Proper, threeText, helpFlag, signoFlag], rfl⟩
  obtain ⟨-, -, hkill⟩ := hreads (by decide) _ _ hitems
  exact hkill { Options.start with pid := 3 } (by decide) rfl

end Tlibc.Kill
