import Tlibc.Native.Process

/-!
# `tlibc/ls.c`

What the system calls do is a parameter. The static `buf` of `ls` is at `di`.
-/

namespace Tlibc.Ls

open Process

/-! ## Directories -/

/-- An entry of a directory, with a name of at most `NAME_MAX` characters. -/
structure Entry where
  ino : UInt64
  off : UInt64
  name : CString
  type : UInt8
  name_le : name.chars.length ≤ 255

/-- `offsetof(struct linux_dirent, d_name)`. -/
def nameOff : Nat := 18

/-- `d_reclen`: the name, its NUL and the type, up to a multiple of 8. -/
def Entry.reclen (e : Entry) : Nat := (nameOff + e.name.chars.length + 2 + 7) / 8 * 8

/-- What a `sys_getdents` leaves: its result, the memory, and the state of the directory. -/
structure Got (δ : Type) where
  ret : Int
  mem : Mem
  dir : δ

/-- What the system calls do, on the states that an open directory can be in. -/
structure Calls (δ : Type) where
  /-- `sys_open(path, O_RDONLY | O_DIRECTORY)` -/
  sysOpen : Option CString → Int32 × δ
  /-- `sys_getdents(fd, dirp, count)` -/
  sysGetdents : Int32 → Nat → Nat → Mem → δ → Got δ

/-! ## `main` -/

/-- `sizeof(buf)`. -/
def bufSize : Nat := 32

/-- `sizeof(struct linux_dirent) + 16`. -/
def count : Nat := 24 + 16

/-- `"???"`. -/
def unknown : CString where
  chars := [0x3f, 0x3f, 0x3f]
  nul_free := by decide

/-- `ftype`, of which the elements that are not set are null pointers. -/
def ftype : List (Option CString) :=
  [some unknown,
    -- "pipe"
    some ⟨[0x70, 0x69, 0x70, 0x65], by decide⟩,
    -- "character device"
    some ⟨[0x63, 0x68, 0x61, 0x72, 0x61, 0x63, 0x74, 0x65, 0x72, 0x20, 0x64, 0x65, 0x76, 0x69,
      0x63, 0x65], by decide⟩,
    none,
    -- "directory"
    some ⟨[0x64, 0x69, 0x72, 0x65, 0x63, 0x74, 0x6f, 0x72, 0x79], by decide⟩,
    none,
    -- "block device"
    some ⟨[0x62, 0x6c, 0x6f, 0x63, 0x6b, 0x20, 0x64, 0x65, 0x76, 0x69, 0x63, 0x65], by decide⟩,
    none,
    -- "file"
    some ⟨[0x66, 0x69, 0x6c, 0x65], by decide⟩,
    none,
    -- "symbolic link"
    some ⟨[0x73, 0x79, 0x6d, 0x62, 0x6f, 0x6c, 0x69, 0x63, 0x20, 0x6c, 0x69, 0x6e, 0x6b], by decide⟩,
    none,
    -- "domain socket"
    some ⟨[0x64, 0x6f, 0x6d, 0x61, 0x69, 0x6e, 0x20, 0x73, 0x6f, 0x63, 0x6b, 0x65, 0x74], by decide⟩]

/-- `ftype[c]`, of a signed `char`. -/
def ftypeAt (c : UInt8) : Except Crash (Option CString) :=
  let i := c.toInt8.toInt
  if 0 ≤ i ∧ i < ftype.length then .ok (ftype.getD i.toNat none) else .error .outOfBounds

/-- `"%s %s\n"`. -/
def format : CString where
  chars := [0x25, 0x73, 0x20, 0x25, 0x73, 0x0a]
  nul_free := by decide

/-- `"Bad file descriptor\n"`, with its NUL. -/
def badDescriptor : List UInt8 :=
  [0x42, 0x61, 0x64, 0x20, 0x66, 0x69, 0x6c, 0x65, 0x20, 0x64, 0x65, 0x73, 0x63, 0x72, 0x69, 0x70,
    0x74, 0x6f, 0x72, 0x0a, 0x00]

/-- `"<too long> ??\n"`. -/
def tooLong : List UInt8 :=
  [0x3c, 0x74, 0x6f, 0x6f, 0x20, 0x6c, 0x6f, 0x6e, 0x67, 0x3e, 0x20, 0x3f, 0x3f, 0x0a]

/-- The variables of the inner loop. -/
structure Walk where
  pos : Nat
  console : Console

/-- A pass of the inner loop, over the record at `it`. -/
def walk (buf di nread : Nat) (s : Walk) : Fueled Crash (While.Next Walk Console) :=
  if s.pos < di + nread then do
    let m := s.console.mem
    let reclen := m.load (s.pos + 16) 2
    let typename ← Fueled.ofExcept (ftypeAt (m (s.pos + reclen - 1)))
    let filename ← stringOf m (s.pos + nameOff)
    let typename := typename.or (some unknown)
    let c ← printf buf s.console format [.string (some filename), .string typename]
    return .again { pos := s.pos + reclen, console := c }
  else
    return .done s.console

/-- The variables of the loop. -/
structure Listing (δ : Type) where
  dir : δ
  console : Console

/-- A pass of the loop. What `sys_getdents` stores may not fit `buf`. -/
def pass {δ : Type} (calls : Calls δ) (fd : Int32) (buf di : Nat) (s : Listing δ) :
    Fueled Crash (While.Next (Listing δ) (Int32 × Console)) :=
  let got := calls.sysGetdents fd di count s.console.mem s.dir
  let c := { s.console with mem := got.mem }
  if got.ret = 0 then
    return .done (0, c)
  else if got.ret < 0 then
    return .done (1, c.write 1 tooLong)
  else if got.ret ≤ bufSize then do
    let c ← Fueled.loop (walk buf di got.ret.toNat) { pos := di, console := c }
    return .again { dir := got.dir, console := c }
  else
    Fueled.ofExcept (.error .outOfBounds)

/-- `"."`. -/
def here : CString where
  chars := [0x2e]
  nul_free := by decide

/-- `argc < 2 ? "." : argv[1]`. -/
def pathOf (argc : Int32) (argv : UInt64) (m : Mem) : Fueled Crash (Option CString) :=
  if argc < 2 then return some here else stringAt m (pointerAt m argv 1)

/-- `main`. -/
def main {δ : Type} (calls : Calls δ) (buf di : Nat) : Program := fun argc argv _ c => do
  let path ← pathOf argc argv c.mem
  let (fd, dir) := calls.sysOpen path
  if fd < 0 then
    return (1, c.write 2 badDescriptor)
  else
    Fueled.loop (pass calls fd buf di) { dir := dir, console := c }

end Tlibc.Ls
