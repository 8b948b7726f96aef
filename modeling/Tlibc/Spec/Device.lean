import Tlibc.Native.Device
import Mathlib.Algebra.Order.BigOperators.Group.List
import Mathlib.Algebra.GroupWithZero.Nat
import Mathlib.Algebra.Order.Group.Nat

/-!
# The devices of loaded modules

Neither `my_exit` unregisters what `my_init` registered.

* `run_accounted_iff`: a run keeps one device for each loaded module and none for the
  others exactly as long as no loaded module is unloaded
-/

namespace Tlibc.Device

variable {api : ChrdevApi} {k : Kernel} {d : Driver}

/-- The devices that point to the `file_operations` table of a module. -/
def Kernel.devicesOf (k : Kernel) (d : Driver) : List Chrdev :=
  k.chrdevs.filter fun c => c.fops = d

/-- A module has one device if it is loaded, and none otherwise. -/
def Kernel.Accounted (k : Kernel) : Prop :=
  ∀ d, (k.devicesOf d).length = if (k.modules d).isSome then 1 else 0

/-- Nothing is registered before the first module. -/
private theorem boot_accounted : Kernel.boot.Accounted := fun _ => rfl

/-! ## One action -/

/-- `my_init` of either module registers one device and succeeds. -/
private theorem init_registers (api : ChrdevApi) (d : Driver) (devs : List Chrdev) (old : Int) :
    ∃ (major : Nat) (name : String), 0 < major ∧
      d.init api devs old = ⟨0, major, ⟨major, name, d⟩ :: devs⟩ := by
  cases d with
  | zero =>
    obtain ⟨major, hpos, -, hreg⟩ := api.register_fresh devs Zero.deviceName .zero
    refine ⟨major, Zero.deviceName, hpos, ?_⟩
    have hnot : ¬ (major : Int) < 0 := Int.not_lt.mpr (Int.natCast_nonneg major)
    simp only [Driver.init, Zero.myInit, Zero.registerDevice, hreg, if_neg hnot]
  | null =>
    obtain ⟨major, hpos, -, hreg⟩ := api.register_fresh devs Null.deviceName .null
    refine ⟨major, Null.deviceName, hpos, ?_⟩
    have hnot : ¬ (major : Int) < 0 := Int.not_lt.mpr (Int.natCast_nonneg major)
    simp only [Driver.init, Null.myInit, hreg, if_neg hnot]

/-- `my_exit` of either module leaves the devices alone. -/
private theorem exit_eq (d : Driver) (devs : List Chrdev) : d.exit devs = devs := by
  cases d with
  | zero => rfl
  | null => rfl

/-- A module that is loaded is not loaded again. -/
private theorem load_loaded {old : Int} (h : k.modules d = some old) : k.load api d = k := by
  rw [Kernel.load, h]

/-- A module that is not loaded is not unloaded. -/
private theorem unload_absent (h : k.modules d = none) : k.unload d = k := by
  rw [Kernel.unload, h]

/-- A module that is loaded registers a device of its own. -/
private theorem load_absent (h : k.modules d = none) :
    ∃ (major : Nat) (name : String), k.load api d =
      ⟨⟨major, name, d⟩ :: k.chrdevs, fun e => if e = d then some (major : Int) else k.modules e⟩ := by
  obtain ⟨major, name, -, hinit⟩ := init_registers api d k.chrdevs 0
  refine ⟨major, name, ?_⟩
  rw [Kernel.load, h]
  simp only [hinit]
  rfl

/-- A module that is unloaded leaves the devices as they are. -/
private theorem unload_loaded {old : Int} (h : k.modules d = some old) :
    k.unload d = ⟨k.chrdevs, fun e => if e = d then none else k.modules e⟩ := by
  rw [Kernel.unload, h]
  simp only [exit_eq]

/-- Loading a module keeps the account. -/
private theorem Kernel.Accounted.load (hk : k.Accounted) : (k.load api d).Accounted := by
  -- a module that is loaded already is not loaded again
  cases hloaded : k.modules d with
  | some old =>
    rw [load_loaded hloaded]
    exact hk
  | none =>
    obtain ⟨major, name, heq⟩ := @load_absent api k d hloaded
    -- the new device is counted for its own module, and for no other one
    intro e
    have he := hk e
    rw [heq]
    simp only [Kernel.devicesOf, List.filter_cons, decide_eq_true_eq] at he ⊢
    by_cases hde : d = e
    · subst hde
      rw [hloaded] at he
      have hzero : (k.chrdevs.filter fun c => c.fops = d).length = 0 := he
      simp only [if_true, List.length_cons, hzero, Option.isSome_some]
    · simp only [if_neg hde, if_neg (Ne.symm hde), he]

/-- Unloading a loaded module leaves its device behind. -/
private theorem Kernel.Accounted.unload_loaded {old : Int} (hk : k.Accounted)
    (h : k.modules d = some old) : ¬ (k.unload d).Accounted := by
  intro hafter
  have hone := hk d
  have hnone := hafter d
  rw [Device.unload_loaded h] at hnone
  rw [h] at hone
  simp only [Kernel.devicesOf, if_true] at hone hnone
  rw [hone, Option.isSome_some, Option.isSome_none, if_pos rfl] at hnone
  exact absurd hnone (by decide)

/-! ## Runs -/

/-- One action more is one step more. -/
private theorem run_take_succ {actions : List Action} {i : Nat} {a : Action}
    (h : actions[i]? = some a) :
    k.run api (actions.take (i + 1)) = (k.run api (actions.take i)).step api a := by
  rw [List.take_add_one, h, Kernel.run, Kernel.run, List.foldl_append]
  rfl

/-- In every run, all states reached are accounted for exactly when no module is
    unloaded while it is loaded. -/
theorem run_accounted_iff (api : ChrdevApi) (actions : List Action) :
    (∀ i, i ≤ actions.length → (Kernel.boot.run api (actions.take i)).Accounted) ↔
      ∀ i d, actions[i]? = some (.unload d) →
        (Kernel.boot.run api (actions.take i)).modules d = none := by
  constructor
  · -- when a module is unloaded that was there, its device stays behind
    intro hall i d hget
    have hi := (List.getElem?_eq_some_iff.mp hget).1
    have hafter := hall (i + 1) hi
    rw [run_take_succ hget] at hafter
    cases hloaded : (Kernel.boot.run api (actions.take i)).modules d with
    | none => rfl
    | some old => exact absurd hafter ((hall i (Nat.le_of_lt hi)).unload_loaded hloaded)
  · intro hnone i hi
    -- induction on the actions so far
    induction i with
    | zero => exact boot_accounted
    | succ i ih =>
      have hget := List.getElem?_eq_getElem (show i < actions.length from hi)
      rw [run_take_succ hget]
      have hbefore := ih (Nat.le_of_lt hi)
      cases ha : actions[i] with
      | load d => exact hbefore.load
      -- unloading a module that is not there changes nothing
      | unload d =>
        rw [ha] at hget
        show ((Kernel.boot.run api (actions.take i)).unload d).Accounted
        rw [unload_absent (hnone i d hget)]
        exact hbefore

/-- A kernel that gives out the sum of the numbers in use, plus one. -/
def sumApi : ChrdevApi where
  registerChrdev devs _ name fops :=
    let major := (devs.map Chrdev.major).sum + 1
    ((major : Int), ⟨major, name, fops⟩ :: devs)
  unregisterChrdev devs major _ := devs.filter fun d => (d.major : Int) ≠ major
  register_fresh devs name fops := by
    refine ⟨_, Nat.succ_pos _, fun d hd heq => ?_, rfl⟩
    have hle : d.major ≤ (devs.map Chrdev.major).sum :=
      List.le_sum_of_mem (List.mem_map_of_mem hd)
    omega
  unregister_removes devs major name := by
    simp only [ne_eq, Int.natCast_inj]

/-- After `zero` was loaded and unloaded its device is still registered. -/
theorem zero_stays_registered :
    (Kernel.boot.run sumApi [.load .zero, .unload .zero]).modules .zero = none ∧
      (Kernel.boot.run sumApi [.load .zero, .unload .zero]).devicesOf .zero = [⟨1, "zero", .zero⟩] ∧
      ¬ (Kernel.boot.run sumApi [.load .zero, .unload .zero]).Accounted := by
  refine ⟨by decide, by decide, fun haccounted => ?_⟩
  exact absurd (haccounted .zero) (by decide)

end Tlibc.Device
