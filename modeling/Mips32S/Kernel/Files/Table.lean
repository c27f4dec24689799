import Mips32S.Kernel.Sfs.File

open Function

namespace ucore

def E_MAX_OPEN : ℤ := 22

def NO_FD : ℤ := -0x9527

def O_RDONLY : BitVec 32 := 0
def O_WRONLY : BitVec 32 := 1
def O_RDWR : BitVec 32 := 2
def O_CREAT : BitVec 32 := 0x4
def O_TRUNC : BitVec 32 := 0x10
def O_APPEND : BitVec 32 := 0x20
def O_ACCMODE : BitVec 32 := 3

/-- A page holds a `files_struct` of 24 bytes and the array of its files, 28 bytes each. -/
def FILES_STRUCT_NENTRY : ℕ := (PGSIZE - 24) / 28

inductive fd_status
  | FD_NONE
  | FD_INIT
  | FD_OPENED
  | FD_CLOSED
  deriving DecidableEq

open fd_status

structure file where
  status : fd_status
  readable : Bool
  writable : Bool
  fd : ℤ
  pos : BitVec 32
  node : Option ℕ
  open_count : ℕ

/-- A slot: the table it belongs to and its index there. -/
abbrev FileSlot := ℕ × ℕ

/-- What happens to the open count of an inode on behalf of a slot: `vop_open_inc`, the
`vop_open_dec` of a `vfs_open` that fails after it, and `vfs_close`. -/
inductive Event
  | opened (k : FileSlot) (node : ℕ)
  | refused (k : FileSlot) (node : ℕ)
  | closed (k : FileSlot) (node : ℕ)
  deriving DecidableEq

/-- The operations that hold a slot while they wait for the inode. -/
inductive Access
  | read
  | write
  | seek (pos : BitVec 32)
  | other

/-- What follows when a slot has been freed. -/
inductive Next
  | ret (r : ℤ)
  | closeall
  | destroy

/-- Where a process is. It sleeps in `vfs_open` before and after `vop_open_inc`, in the `vop_fstat`
of an open for appending, while the inode of a failed open is given back, in an operation on an
open file, and in the `vfs_close` of `fd_array_free`. -/
inductive Place
  | idle
  | lookup (fd : ℕ) (flags : BitVec 32)
  | truncate (fd : ℕ) (flags : BitVec 32) (node : ℕ)
  | fstat (fd : ℕ) (flags : BitVec 32) (node : ℕ)
  | abandon (fd : ℕ) (ret : ℤ)
  | inside (fd : ℕ) (access : Access)
  | freeing (fd : ℕ) (next : Next)
  | destroying

structure Files where
  tables : Finset ℕ
  files_count : ℕ → ℕ
  fd_array : FileSlot → file
  open_count : ℕ → ℕ
  pids : Finset ℕ
  filesp : ℕ → ℕ
  place : ℕ → Place
  ret : ℕ → ℤ
  log : List Event

namespace Files

def set (k : FileSlot) (f : file) (s : Files) : Files :=
  { s with fd_array := update s.fd_array k f }

def goto (p : ℕ) (l : Place) (s : Files) : Files :=
  { s with place := update s.place p l }

def returns (p : ℕ) (r : ℤ) (s : Files) : Files :=
  { s.goto p .idle with ret := update s.ret p r }

def record (e : Event) (s : Files) : Files :=
  { s with log := s.log ++ [e] }

def vop_open_inc (node : ℕ) (s : Files) : Files :=
  { s with open_count := update s.open_count node (s.open_count node + 1) }

def vop_open_dec (node : ℕ) (s : Files) : Option Files :=
  if 0 < s.open_count node then
    some { s with open_count := update s.open_count node (s.open_count node - 1) }
  else none

def vfs_close (k : FileSlot) (node : Option ℕ) (s : Files) : Option Files :=
  match node with
  | none => none
  | some n => (s.vop_open_dec n).map (record (.closed k n))

def testfd (fd : ℤ) : Prop := 0 ≤ fd ∧ fd < FILES_STRUCT_NENTRY

instance (fd : ℤ) : Decidable (testfd fd) := inferInstanceAs (Decidable (_ ∧ _))

/-- The table of a process, which it must be counted in. -/
def get_fd_array (p : ℕ) (s : Files) : Option ℕ :=
  if s.filesp p ∈ s.tables ∧ 0 < s.files_count (s.filesp p) then some (s.filesp p) else none

def found (t fd : ℕ) (s : Files) : Option (Except ℤ ℕ × Files) :=
  if (s.fd_array (t, fd)).open_count = 0 then
    some (.ok fd, s.set (t, fd) { s.fd_array (t, fd) with status := FD_INIT, node := none })
  else none

def fd_array_alloc (fd : ℤ) (p : ℕ) (s : Files) : Option (Except ℤ ℕ × Files) :=
  (s.get_fd_array p).bind fun t =>
    if fd = NO_FD then
      match (List.range FILES_STRUCT_NENTRY).find?
        fun fd => (s.fd_array (t, fd)).status = FD_NONE with
      | some fd => s.found t fd
      | none => some (.error (-E_MAX_OPEN), s)
    else if testfd fd then
      if (s.fd_array (t, fd.toNat)).status = FD_NONE then s.found t fd.toNat
      else some (.error (-E_BUSY), s)
    else some (.error (-E_INVAL), s)

/-- Frees a slot that nobody uses, up to the `vfs_close` of its inode: the result says whether
there is one to wait for before the slot is marked free. -/
def fd_array_free (k : FileSlot) (s : Files) : Option (Bool × Files) :=
  if (s.fd_array k).open_count ≠ 0 then none
  else
    match (s.fd_array k).status with
    | FD_CLOSED => (s.vfs_close k (s.fd_array k).node).map fun s => (true, s)
    | FD_INIT => some (false, s.set k { s.fd_array k with status := FD_NONE })
    | _ => none

def fd_array_acquire (k : FileSlot) (s : Files) : Option Files :=
  if (s.fd_array k).status = FD_OPENED then
    some (s.set k { s.fd_array k with open_count := (s.fd_array k).open_count + 1 })
  else none

def drop (k : FileSlot) (s : Files) : Option (Bool × Files) :=
  if (s.fd_array k).open_count = 0 then none
  else
    let s := s.set k { s.fd_array k with open_count := (s.fd_array k).open_count - 1 }
    if (s.fd_array k).open_count = 0 then s.fd_array_free k else some (false, s)

def fd_array_release (k : FileSlot) (s : Files) : Option (Bool × Files) :=
  if (s.fd_array k).status = FD_OPENED ∨ (s.fd_array k).status = FD_CLOSED then s.drop k else none

def fd_array_open (k : FileSlot) (s : Files) : Option Files :=
  if (s.fd_array k).status = FD_INIT ∧ (s.fd_array k).node ≠ none then
    some (s.set k
      { s.fd_array k with status := FD_OPENED, open_count := (s.fd_array k).open_count + 1 })
  else none

def fd_array_close (k : FileSlot) (s : Files) : Option (Bool × Files) :=
  if (s.fd_array k).status = FD_OPENED then
    (s.set k { s.fd_array k with status := FD_CLOSED }).drop k
  else none

def fd_array_dup (dst src : FileSlot) (s : Files) : Option Files :=
  if (s.fd_array dst).status = FD_INIT ∧ (s.fd_array src).status = FD_OPENED then
    match (s.fd_array src).node with
    | none => none
    | some n =>
      let s := (s.vop_open_inc n).record (.opened dst n)
      (s.set dst { s.fd_array dst with
        pos := (s.fd_array src).pos
        readable := (s.fd_array src).readable
        writable := (s.fd_array src).writable
        node := some n }).fd_array_open dst
  else none

def fd2file (fd : ℤ) (p : ℕ) (s : Files) : Option (Except ℤ ℕ) :=
  if testfd fd then
    (s.get_fd_array p).map fun t =>
      if (s.fd_array (t, fd.toNat)).status = FD_OPENED ∧ (s.fd_array (t, fd.toNat)).fd = fd then
        .ok fd.toNat
      else .error (-E_INVAL)
  else some (.error (-E_INVAL))

end Files

end ucore
