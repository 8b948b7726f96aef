/-!
# `device/zero/init.c` and `device/null/init.c`

Two kernel modules, each with one character device. What the kernel itself does for
them (`register_chrdev` and `unregister_chrdev`, loading and unloading a module) is
taken as documented; the messages they print are left out. So is `copy_to_user`, which
`zero` reads with.
-/

namespace Tlibc.Device

/-- The modules `zero` and `null`. -/
inductive Driver where
  | zero
  | null
  deriving DecidableEq, Repr

/-- A registered character device. `fops` is the module whose `file_operations` table
    it points to. -/
structure Chrdev where
  major : Nat
  name : String
  fops : Driver
  deriving DecidableEq, Repr

/-- The two functions of the kernel. Asked for major number 0, `register_chrdev`
    registers the device under a number of its own choice. -/
structure ChrdevApi where
  registerChrdev : List Chrdev → Nat → String → Driver → Int × List Chrdev
  unregisterChrdev : List Chrdev → Int → String → List Chrdev
  register_fresh : ∀ devs name fops, ∃ major : Nat, 0 < major ∧ (∀ d ∈ devs, d.major ≠ major) ∧
    registerChrdev devs 0 name fops = ((major : Int), ⟨major, name, fops⟩ :: devs)
  unregister_removes : ∀ devs (major : Nat) name,
    unregisterChrdev devs major name = devs.filter fun d => d.major ≠ major

/-- What a function of a module leaves behind: its result, `device_file_major_number`
    and the registered devices. -/
structure Result where
  ret : Int
  deviceFileMajorNumber : Int
  chrdevs : List Chrdev

namespace Zero

/-- `device_name`. -/
def deviceName : String := "zero"

/-- `register_device`. -/
def registerDevice (api : ChrdevApi) (devs : List Chrdev) (deviceFileMajorNumber : Int) :
    Result :=
  let (result, devs) := api.registerChrdev devs 0 deviceName .zero
  if result < 0 then
    ⟨result, deviceFileMajorNumber, devs⟩
  else
    ⟨0, result, devs⟩

/-- `unregister_device`. No function of the module calls it. -/
def unregisterDevice (api : ChrdevApi) (devs : List Chrdev) (deviceFileMajorNumber : Int) :
    List Chrdev :=
  if deviceFileMajorNumber ≠ 0 then
    api.unregisterChrdev devs deviceFileMajorNumber deviceName
  else
    devs

/-- `my_init`. -/
def myInit (api : ChrdevApi) (devs : List Chrdev) (deviceFileMajorNumber : Int) : Result :=
  { registerDevice api devs deviceFileMajorNumber with ret := 0 }

/-- `my_exit`. -/
def myExit (devs : List Chrdev) : List Chrdev := devs

end Zero

namespace Null

/-- `device_name`. -/
def deviceName : String := "null"

/-- `my_init`. -/
def myInit (api : ChrdevApi) (devs : List Chrdev) (deviceFileMajorNumber : Int) : Result :=
  let (result, devs) := api.registerChrdev devs 0 deviceName .null
  if result < 0 then
    ⟨result, deviceFileMajorNumber, devs⟩
  else
    ⟨0, result, devs⟩

/-- `my_exit`. -/
def myExit (devs : List Chrdev) : List Chrdev := devs

end Null

/-! ## Reading -/

/-- The memory of the process that reads. -/
abbrev UserMem := UInt64 → UInt8

/-- `copy_to_user`: how many bytes could not be copied, and the memory it leaves. It may
    fault at any of them. -/
structure CopyToUser where
  copy : UserMem → UInt64 → List UInt8 → UInt64 × UserMem
  copy_all : ∀ m dst bytes, (copy m dst bytes).1 = 0 → ∀ i, (hi : i < bytes.length) →
    (copy m dst bytes).2 (dst + UInt64.ofNat i) = bytes[i]
  copy_frame : ∀ m dst bytes a, (∀ i, i < bytes.length → a ≠ dst + UInt64.ofNat i) →
    (copy m dst bytes).2 a = m a

namespace Zero

/-- `buf`. -/
def buf : List UInt8 := List.replicate 512 0

/-- `EFAULT`. -/
def efault : Int64 := 14

/-- `bread`. -/
def breadOf (count : UInt64) : UInt64 := if 512 > count then count else 512

theorem toNat_breadOf (count : UInt64) : (breadOf count).toNat = min 512 count.toNat := by
  rw [breadOf]
  split
  · next h =>
    have hlt : count.toNat < 512 := UInt64.lt_iff_toNat_lt.mp h
    omega
  · next h =>
    have hnlt : ¬ count.toNat < 512 := fun hlt => h (UInt64.lt_iff_toNat_lt.mpr hlt)
    show 512 = _
    omega

theorem toNat_sub_breadOf (count : UInt64) :
    (count - breadOf count).toNat = count.toNat - (breadOf count).toNat := by
  refine UInt64.toNat_sub_of_le _ _ (UInt64.le_iff_toNat_le.mpr ?_)
  rw [toNat_breadOf]
  exact Nat.min_le_right _ _

/-- The loop of `device_file_read`: the memory it leaves, with `tread` or, where the
    function returns from the loop, without. -/
def readLoop (api : CopyToUser) (m : UserMem) (userBuffer count tread : UInt64) :
    Option UInt64 × UserMem :=
  if _hend : count = 0 then
    (some tread, m)
  else
    let bread := breadOf count
    let (left, m) := api.copy m userBuffer (buf.take bread.toNat)
    if left ≠ 0 then
      (none, m)
    else
      readLoop api m (userBuffer + bread) (count - bread) (tread + bread)
termination_by count.toNat
decreasing_by
  have hpos : count.toNat ≠ 0 := fun h0 => _hend (UInt64.toNat_inj.mp h0)
  rw [toNat_sub_breadOf, toNat_breadOf]
  omega

/-- What a read leaves: its result, `*position` and the memory. -/
structure ReadResult where
  ret : Int64
  position : Int64
  mem : UserMem

/-- `device_file_read`. -/
def deviceFileRead (api : CopyToUser) (m : UserMem) (userBuffer count : UInt64)
    (position : Int64) : ReadResult :=
  match readLoop api m userBuffer count 0 with
  | (none, m) => { ret := -efault, position := position, mem := m }
  | (some tread, m) =>
    { ret := tread.toInt64, position := position + tread.toInt64, mem := m }

end Zero

/-! ## Loading and unloading -/

/-- `module_init`. -/
def Driver.init (d : Driver) : ChrdevApi → List Chrdev → Int → Result :=
  match d with
  | zero => Zero.myInit
  | null => Null.myInit

/-- `module_exit`. -/
def Driver.exit (d : Driver) : List Chrdev → List Chrdev :=
  match d with
  | zero => Zero.myExit
  | null => Null.myExit

/-- The registered devices, and for each module that is loaded its
    `device_file_major_number`. -/
structure Kernel where
  chrdevs : List Chrdev
  modules : Driver → Option Int

/-- A kernel without the modules. The devices of other drivers are left out. -/
def Kernel.boot : Kernel := ⟨[], fun _ => none⟩

/-- A module that is there is not loaded again; one whose `module_init` fails is not
    loaded. -/
def Kernel.load (api : ChrdevApi) (k : Kernel) (d : Driver) : Kernel :=
  match k.modules d with
  | some _ => k
  | none =>
    let r := d.init api k.chrdevs 0
    if r.ret < 0 then
      { k with chrdevs := r.chrdevs }
    else
      ⟨r.chrdevs, fun e => if e = d then some r.deviceFileMajorNumber else k.modules e⟩

def Kernel.unload (k : Kernel) (d : Driver) : Kernel :=
  match k.modules d with
  | none => k
  | some _ => ⟨d.exit k.chrdevs, fun e => if e = d then none else k.modules e⟩

inductive Action where
  | load (d : Driver)
  | unload (d : Driver)
  deriving DecidableEq, Repr

def Kernel.step (api : ChrdevApi) (k : Kernel) : Action → Kernel
  | .load d => k.load api d
  | .unload d => k.unload d

/-- The kernel after the actions, one after another. -/
def Kernel.run (api : ChrdevApi) (k : Kernel) (actions : List Action) : Kernel :=
  actions.foldl (Kernel.step api) k

end Tlibc.Device
