import Tlibc.Lib.Mem

/-!
# The machine the tools run on

What the C sources under `gpt/` rely on and do not define: the byte order of the
host, C strings, open files, and the ways a call can end other than by
returning.
-/

namespace Tlibc

/-- The byte order of the host. -/
inductive Host where
  | little
  | big
  deriving DecidableEq, Repr

namespace Host

/-- The object representation of the `n`-byte unsigned integer `v`. -/
def bytesOf (h : Host) (n v : Nat) : List UInt8 :=
  match h with
  | little => Mem.leBytes n v
  | big => (Mem.leBytes n v).reverse

/-- The unsigned integer whose object representation is `bs`. -/
def valueOf (h : Host) (bs : List UInt8) : Nat :=
  match h with
  | little => Mem.leNat bs
  | big => Mem.leNat bs.reverse

/-- The assignment `*(uintN_t *) dst = v` of an `n`-byte integer. -/
def put (h : Host) (m : Mem) (dst n v : Nat) : Mem := m.write dst (h.bytesOf n v)

@[simp] theorem length_bytesOf (h : Host) (n v : Nat) : (h.bytesOf n v).length = n := by
  cases h <;> simp [bytesOf]

@[simp] theorem bytesOf_little (n v : Nat) : little.bytesOf n v = Mem.leBytes n v := rfl

end Host

/-- A C string: the characters before its terminating NUL. -/
structure CString where
  chars : List UInt8
  nul_free : (0 : UInt8) ∉ chars

/-- The assertions of `fat.c`, each under the message or the variable it checks. -/
inductive Assertion where
  /-- `numClusterOnDisk > 2 && "too few clusters"` -/
  | tooFewClusters
  /-- `sb.maxCluster >= nextFree && "incorrect fs"` -/
  | incorrectFs
  /-- `nextFree > 2u` -/
  | nextFree
  /-- `entry->name[0] == 0` -/
  | entryUnused
  /-- `cluster < sb->maxCluster && "read out of bound"` -/
  | readOutOfBound
  /-- `cluster < sb->maxCluster && "write out of bound"` -/
  | writeOutOfBound
  /-- `cluster >= 1 && "entry 0 cannot be modified"` -/
  | entryZero
  /-- `freeCount >= allocCluster` -/
  | freeCount
  deriving DecidableEq, Repr

/-- The ways a call ends without returning. -/
inductive Fault where
  /-- a failed `assert` -/
  | assert (a : Assertion)
  /-- an integer division by zero -/
  | divByZero
  /-- an access through a null pointer -/
  | nullPointer
  /-- a store outside an array -/
  | outOfBounds
  /-- a loop that never ends -/
  | diverges
  deriving DecidableEq, Repr

/-- What the system calls of one run do on an open file. `read` may store fewer
    bytes than asked for, but a count it returns is the number of bytes it
    stored. -/
structure Fd where
  /-- `st_size` as `fstat` reports it, or the `errno` of its failure -/
  fstat : Except Int UInt64
  /-- the value of `lseek(fd, SEEK_SET, 0)` -/
  lseek : Int
  /-- the bytes `read` stores when asked for `n` -/
  data : Nat → List UInt8
  /-- the value `read` returns when asked for `n` -/
  readRet : Nat → Int
  /-- `errno` after a failed `lseek` or `read` -/
  errno : Int
  data_le : ∀ n, (data n).length ≤ n
  readRet_data : ∀ n, 0 ≤ readRet n → readRet n = (data n).length

/-- A file that holds `bytes` and whose system calls all succeed. -/
def Fd.ofBytes (bytes : List UInt8) : Fd where
  fstat := .ok (UInt64.ofNat bytes.length)
  lseek := 0
  data n := bytes.take n
  readRet n := (bytes.take n).length
  errno := 0
  data_le n := by simp
  readRet_data n _ := rfl

end Tlibc
