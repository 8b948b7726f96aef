import Tlibc.Native.Arguments
import Mathlib.Data.List.Induction

/-!
# The arguments of the installer

An argument that is no option leaves the index of the loop where it is, so that the loop
meets it again.

* `parse_iff`: the loop reads nothing beyond `argv[argc]`, and it returns with the last
  argument of every option exactly when it meets no unknown argument and no `-s` at the end
-/

namespace Tlibc.Arguments

variable {atoi : CString → Int32} {argv args rest : List CString} {s : CString} {i : Nat}
  {o : Options}

/-! ## What the arguments say -/

/-- The options that take an argument. -/
inductive Flag where
  | kernel
  | dst
  | size
  | busybox
  deriving DecidableEq

/-- The text of a flag. -/
def Flag.text : Flag → List UInt8
  | kernel => kernelFlag
  | dst => dstFlag
  | size => sizeFlag
  | busybox => busyboxFlag

/-- The flag that a string is. -/
def Flag.ofString (s : CString) : Option Flag :=
  [kernel, dst, size, busybox].find? fun f => s.chars = f.text

/-- The string asks for help. -/
abbrev IsHelp (s : CString) : Prop := s.chars = shortHelp ∨ s.chars = longHelp

/-- What a place of the arguments says. An option that is the last of them has no
    argument. -/
inductive Item where
  | help
  | set (f : Flag) (arg : Option CString)
  | unknown

/-- The items up to the first that asks for help. An unknown argument is skipped. -/
def items : List CString → List Item
  | [] => []
  | s :: rest =>
    if IsHelp s then
      [.help]
    else
      match Flag.ofString s with
      | some f => .set f rest.head? :: items rest.tail
      | none => .unknown :: items rest
termination_by args => args.length
decreasing_by all_goals simp only [List.length_tail, List.length_cons]; omega

/-- The argument of the last occurrence of an option. -/
def lastArg (f : Flag) (is : List Item) : Option CString :=
  (is.filterMap fun
    | .set g arg => if g = f then some arg else none
    | _ => none).getLast?.join

/-- The variables hold the last argument of every option, and those of the options that
    do not occur hold what they held before the loop. -/
structure Holds (atoi : CString → Int32) (is : List Item) (o : Options) : Prop where
  pathBzimage : o.pathBzimage = lastArg .kernel is
  pathBusybox : o.pathBusybox = lastArg .busybox is
  dst : o.dst = lastArg .dst is
  bootSize : o.bootSize = ((lastArg .size is).map fun s => Installer.bootSizeOf (atoi s)).getD 64
  printHelp : o.printHelp = true ↔ .help ∈ is

/-- The loop returns, and the variables hold what the arguments say. -/
def Parsed (atoi : CString → Int32) (argv : List CString) : Prop :=
  ∃ fuel o, parse fuel atoi argv = some (.ok o) ∧ Holds atoi (items argv.tail) o

/-- A known option, and an argument behind it if it is `-s`. -/
def Item.Known : Item → Prop
  | help => True
  | set f arg => f = .size → arg ≠ none
  | unknown => False

/-! ## A pass -/

/-- What the loop does with an item. -/
def Item.apply (atoi : CString → Int32) (o : Options) : Item → Options
  | help => { o with printHelp := true }
  | set .kernel arg => { o with pathBzimage := arg }
  | set .dst arg => { o with dst := arg }
  | set .size arg => { o with bootSize := (arg.map fun s => Installer.bootSizeOf (atoi s)).getD 64 }
  | set .busybox arg => { o with pathBusybox := arg }
  | unknown => o

/-- The reads at an argument and behind it. -/
private theorem argAt_eq (hargs : argv.drop i = s :: rest) :
    i < argv.length ∧ argAt argv i = .ok (some s) ∧ argAt argv (i + 1) = .ok rest.head? := by
  have hlt : i < argv.length := by
    have hlen := congrArg List.length hargs
    simp only [List.length_drop, List.length_cons] at hlen
    omega
  have hat : argv[i]? = some s := by
    rw [← List.head?_drop, hargs, List.head?_cons]
  have hnext : argv[i + 1]? = rest.head? := by
    rw [← List.head?_drop, ← List.tail_drop, hargs, List.tail_cons]
  refine ⟨hlt, ?_, ?_⟩
  · rw [argAt, if_pos (Nat.le_of_lt hlt), hat]
  · rw [argAt, if_pos (Nat.succ_le_of_lt hlt), hnext]

/-- The arguments behind a flag and its value. -/
private theorem drop_add_two (hargs : argv.drop i = s :: rest) : argv.drop (i + 2) = rest.tail := by
  rw [← List.tail_drop, ← List.tail_drop, hargs, List.tail_cons]

/-- Behind the last argument the loop ends. -/
private theorem pass_end (h : argv.drop i = []) :
    pass atoi argv { i := i, opts := o } = .ok (.done o) := by
  have hle : argv.length ≤ i := List.drop_eq_nil_iff.mp h
  rw [pass, if_neg (Nat.not_lt.mpr hle)]
  rfl

/-- A string that asks for help ends it, too. -/
private theorem pass_help (hargs : argv.drop i = s :: rest) (hs : IsHelp s) :
    pass atoi argv { i := i, opts := o } = .ok (.done (Item.help.apply atoi o)) := by
  obtain ⟨hlt, hat, -⟩ := argAt_eq hargs
  rw [pass, if_pos hlt]
  simp only [hat, Run.ok_bind, deref]
  rw [if_pos hs]
  rfl

/-- The strings of the options. -/
private theorem Flag.ofString_eq_some {f : Flag} (h : Flag.ofString s = some f) :
    s.chars = f.text := by
  have hfind := List.find?_some h
  exact of_decide_eq_true hfind

/-- A string that is no flag. -/
private theorem Flag.ofString_eq_none (h : Flag.ofString s = none) (f : Flag) :
    s.chars ≠ f.text := by
  have hfind := List.find?_eq_none.mp h f (by cases f <;> simp)
  simpa using hfind

/-- A flag sets its option and takes the argument behind it. -/
private theorem pass_set {f : Flag} (hargs : argv.drop i = s :: rest) (hs : ¬ IsHelp s)
    (hf : Flag.ofString s = some f) (hknown : (Item.set f rest.head?).Known) :
    pass atoi argv { i := i, opts := o } =
      .ok (.again { i := i + 2, opts := (Item.set f rest.head?).apply atoi o }) := by
  obtain ⟨hlt, hat, hnext⟩ := argAt_eq hargs
  have hchars := Flag.ofString_eq_some hf
  rw [pass, if_pos hlt]
  simp only [hat, Run.ok_bind, deref]
  rw [if_neg hs, hchars]
  -- the flags in the order of the source
  cases f with
  | kernel =>
    rw [if_pos (by decide), hnext]
    rfl
  | dst =>
    rw [if_neg (by decide), if_pos (by decide), hnext]
    rfl
  | busybox =>
    rw [if_neg (by decide), if_neg (by decide), if_neg (by decide), if_pos (by decide), hnext]
    rfl
  | size =>
    rw [if_neg (by decide), if_neg (by decide), if_pos (by decide), hnext]
    -- the argument of `-s` has to be there
    cases harg : rest.head? with
    | none => exact absurd harg (hknown rfl)
    | some arg => rfl

/-- `-s` at the end: `atoi` is called with the null pointer. -/
private theorem pass_size (hargs : argv.drop i = [s]) (hs : ¬ IsHelp s)
    (hf : Flag.ofString s = some .size) :
    pass atoi argv { i := i, opts := o } = .error .nullPointer := by
  obtain ⟨hlt, hat, hnext⟩ := argAt_eq hargs
  have hchars : s.chars = sizeFlag := Flag.ofString_eq_some hf
  rw [pass, if_pos hlt]
  simp only [hat, Run.ok_bind, deref]
  rw [if_neg hs, hchars, if_neg (by decide), if_neg (by decide), if_pos rfl, hnext]
  rfl

/-- An argument that is not known is looked at again. -/
private theorem pass_unknown (hargs : argv.drop i = s :: rest) (hs : ¬ IsHelp s)
    (hf : Flag.ofString s = none) :
    pass atoi argv { i := i, opts := o } = .ok (.again { i := i, opts := o }) := by
  obtain ⟨hlt, hat, -⟩ := argAt_eq hargs
  have hkernel : s.chars ≠ kernelFlag := Flag.ofString_eq_none hf .kernel
  have hdst : s.chars ≠ dstFlag := Flag.ofString_eq_none hf .dst
  have hsize : s.chars ≠ sizeFlag := Flag.ofString_eq_none hf .size
  have hbusybox : s.chars ≠ busyboxFlag := Flag.ofString_eq_none hf .busybox
  rw [pass, if_pos hlt]
  simp only [hat, Run.ok_bind, deref]
  rw [if_neg hs, if_neg hkernel, if_neg hdst, if_neg hsize, if_neg hbusybox]
  rfl

/-! ## The loop -/

/-- The arguments behind one that asks for help are not read. -/
private theorem items_help (hs : IsHelp s) : items (s :: rest) = [.help] := by
  rw [items, if_pos hs]

/-- A flag and the argument behind it are one item. -/
private theorem items_set {f : Flag} (hs : ¬ IsHelp s) (hf : Flag.ofString s = some f) :
    items (s :: rest) = .set f rest.head? :: items rest.tail := by
  rw [items, if_neg hs]
  simp only [hf]

/-- An argument that is not known is an item of its own. -/
private theorem items_unknown (hs : ¬ IsHelp s) (hf : Flag.ofString s = none) :
    items (s :: rest) = .unknown :: items rest := by
  rw [items, if_neg hs]
  simp only [hf]

/-- Known items are done one after another. -/
private theorem ends_of_known (atoi : CString → Int32) (o : Options) (hargs : argv.drop i = args)
    (hknown : ∀ it ∈ items args, it.Known) :
    While.Ends (pass atoi argv) { i := i, opts := o }
      (.ok ((items args).foldl (Item.apply atoi) o)) := by
  induction args using items.induct generalizing i o with
  -- behind the last argument
  | case1 =>
    rw [items, List.foldl_nil]
    exact (While.ends_done (pass_end hargs)).mpr rfl
  | case2 s rest hs =>
    rw [items_help hs]
    exact (While.ends_done (pass_help hargs hs)).mpr rfl
  | case3 s rest hs f hf ih =>
    rw [items_set hs hf] at hknown ⊢
    -- this item is known, and so are the others
    have hfirst := hknown _ List.mem_cons_self
    rw [While.ends_again (pass_set hargs hs hf hfirst), List.foldl_cons]
    exact ih _ (drop_add_two hargs) fun it hit => hknown it (List.mem_cons_of_mem _ hit)
  | case4 s rest hs hf ih =>
    rw [items_unknown hs hf] at hknown
    -- an unknown item is none of the known ones
    exact absurd (hknown _ List.mem_cons_self) id

/-- At an item that is not known the loop fails, or never ends. -/
private theorem ends_of_not_known (hargs : argv.drop i = args) {it : Item} (hit : it ∈ items args)
    (hknown : ¬ it.Known) {r : Except Fault Options}
    (h : While.Ends (pass atoi argv) { i := i, opts := o } r) : r = .error .nullPointer := by
  induction args using items.induct generalizing i o with
  | case1 =>
    rw [items] at hit
    cases hit
  | case2 s rest hs =>
    rw [items_help hs, List.mem_singleton] at hit
    rw [hit] at hknown
    exact absurd trivial hknown
  | case3 s rest hs f hf ih =>
    rw [items_set hs hf, List.mem_cons] at hit
    -- an item that is known is passed
    by_cases hfirst : (Item.set f rest.head?).Known
    · rw [While.ends_again (pass_set hargs hs hf hfirst)] at h
      obtain rfl | hit := hit
      · exact absurd hfirst hknown
      · exact ih (drop_add_two hargs) hit h
    · -- it is `-s` without an argument, where the null pointer is read
      simp only [Item.Known, ne_eq, Classical.not_imp, not_not] at hfirst
      obtain ⟨rfl, hnone⟩ := hfirst
      rw [List.head?_eq_none_iff.mp hnone] at hargs
      exact (While.ends_error (pass_size hargs hs hf)).mp h
  -- or an unknown argument, which is looked at forever
  | case4 s rest hs hf ih => exact absurd h (While.not_ends_of_again (pass_unknown hargs hs hf))

/-! ## The last argument -/

/-- The last setting of a flag counts. -/
private theorem lastArg_set (f g : Flag) (is : List Item) (arg : Option CString) :
    lastArg f (is ++ [.set g arg]) = if g = f then arg else lastArg f is := by
  by_cases h : g = f <;> simp [lastArg, h]

/-- Asking for help sets no flag. -/
private theorem lastArg_help (f : Flag) (is : List Item) :
    lastArg f (is ++ [.help]) = lastArg f is := by
  simp [lastArg]

/-- Nor does an unknown argument. -/
private theorem lastArg_unknown (f : Flag) (is : List Item) :
    lastArg f (is ++ [.unknown]) = lastArg f is := by
  simp [lastArg]

/-- What is done with an item keeps the variables at the last arguments. -/
private theorem Holds.apply {is : List Item} (h : Holds atoi is o) (it : Item) :
    Holds atoi (is ++ [it]) (it.apply atoi o) := by
  obtain ⟨hkernel, hbusybox, hdst, hsize, hhelp⟩ := h
  cases it with
  | help => constructor <;> simp [Item.apply, lastArg_help, hkernel, hbusybox, hdst, hsize]
  | unknown =>
    constructor <;> simp [Item.apply, lastArg_unknown, hkernel, hbusybox, hdst, hsize, hhelp]
  | set f arg =>
    cases f <;> constructor <;>
      simp [Item.apply, lastArg_set, hkernel, hbusybox, hdst, hsize, hhelp]

/-- The options hold what the items say, by induction on the items. -/
private theorem holds_foldl (atoi : CString → Int32) (is : List Item) :
    Holds atoi is (is.foldl (Item.apply atoi) .start) := by
  induction is using List.reverseRecOn with
  | nil => exact ⟨rfl, rfl, rfl, rfl, by simp [Options.start]⟩
  | append_singleton is it ih =>
    rw [List.foldl_append]
    exact ih.apply it

/-- The loop never reads beyond `argv[argc]`. It returns, and the variables hold the last
    argument of every option, exactly when it meets no unknown argument and no `-s` at the
    end. -/
theorem parse_iff (atoi : CString → Int32) (argv : List CString) :
    (∀ fuel, parse fuel atoi argv ≠ some (.error .pastEnd)) ∧
      (Parsed atoi argv ↔ ∀ it ∈ items argv.tail, it.Known) := by
  have hargs : argv.drop 1 = argv.tail := List.drop_one
  by_cases hknown : ∀ it ∈ items argv.tail, it.Known
  · have hends := ends_of_known atoi .start hargs hknown
    refine ⟨fun fuel hrun => ?_, fun _ => hknown, fun _ => ?_⟩
    · exact absurd (While.Ends.unique ⟨fuel, hrun⟩ hends) (by simp)
    · obtain ⟨fuel, hrun⟩ := hends
      exact ⟨fuel, _, hrun, holds_foldl atoi _⟩
  · simp only [not_forall] at hknown
    obtain ⟨it, hit, hnot⟩ := hknown
    refine ⟨fun fuel hrun => ?_, fun h => ?_, fun h => absurd (h it hit) hnot⟩
    · exact absurd (ends_of_not_known hargs hit hnot ⟨fuel, hrun⟩) (by simp)
    · obtain ⟨fuel, o, hrun, -⟩ := h
      exact absurd (ends_of_not_known hargs hit hnot ⟨fuel, hrun⟩) (by simp)

/-- `-v` -/
def versionArg : CString where
  chars := [0x2d, 0x76]
  nul_free := by decide

/-- With the argument `-v` the loop never ends. -/
theorem version_not_parsed : ¬ ∀ (atoi : CString → Int32) (argv : List CString),
    Parsed atoi argv := by
  intro h
  obtain ⟨fuel, o, hrun, -⟩ := h (fun _ => 0) [versionArg, versionArg]
  have hpass : pass (fun _ => 0) [versionArg, versionArg] { i := 1, opts := .start } =
      .ok (.again { i := 1, opts := .start }) :=
    pass_unknown rfl (by decide) (by decide)
  exact While.not_ends_of_again hpass ⟨fuel, hrun⟩

end Tlibc.Arguments
