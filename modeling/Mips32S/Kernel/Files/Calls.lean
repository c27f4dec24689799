import Mips32S.Kernel.Files.Table

open Function

namespace ucore

open fd_status

def CLONE_FS : BitVec 32 := 0x800

def LSEEK_SET : ℤ := 0
def LSEEK_CUR : ℤ := 1
def LSEEK_END : ℤ := 2

/-- Whether an open file may be read and written. -/
def accmode (flags : BitVec 32) : Option (Bool × Bool) :=
  if flags &&& O_ACCMODE = O_RDONLY then some (true, false)
  else if flags &&& O_ACCMODE = O_WRONLY then some (false, true)
  else if flags &&& O_ACCMODE = O_RDWR then some (true, true)
  else none

/-- The position after the inode has answered with `r` and, for a transfer, `copied` bytes. -/
def Access.pos (r : ℤ) (copied : BitVec 32) (f : file) : Access → BitVec 32
  | .read | .write => if f.status = FD_OPENED then f.pos + copied else f.pos
  | .seek pos => if r = 0 then pos else f.pos
  | .other => f.pos

namespace Files

/-- A call that has freed its slot returns, or waits for the `vfs_close` that comes first. -/
def leave (p fd : ℕ) (r : ℤ) : Bool × Files → Files
  | (true, s) => s.goto p (.freeing fd (.ret r))
  | (false, s) => s.returns p r

def file_open_failed (p fd : ℕ) (r : ℤ) (s : Files) : Option Files :=
  (s.fd_array_free (s.filesp p, fd)).map (leave p fd r)

def file_opened (p fd : ℕ) (flags : BitVec 32) (node : ℕ) (s : Files) : Option Files :=
  let k := (s.filesp p, fd)
  let mode := (accmode flags).getD (false, false)
  ((s.set k { s.fd_array k with
    node := some node
    readable := mode.1
    writable := mode.2 }).fd_array_open k).map fun s => s.returns p (s.fd_array k).fd

/-- The rest of `file_open` after a `vfs_open` that succeeds. -/
def vfs_opened (p fd : ℕ) (flags : BitVec 32) (node : ℕ) (s : Files) : Option Files :=
  let k := (s.filesp p, fd)
  let s := s.set k { s.fd_array k with pos := 0 }
  if flags &&& O_APPEND ≠ 0 then some (s.goto p (.fstat fd flags node))
  else s.file_opened p fd flags node

def file_open (flags : BitVec 32) (p : ℕ) (s : Files) : Option Files :=
  match accmode flags with
  | none => some (s.returns p (-E_INVAL))
  | some (_, can_write) =>
    match s.fd_array_alloc NO_FD p with
    | none => none
    | some (.error e, s) => some (s.returns p e)
    | some (.ok fd, s) =>
      let s := s.goto p (.lookup fd flags)
      if flags &&& O_TRUNC ≠ 0 ∧ !can_write then s.file_open_failed p fd (-E_INVAL) else some s

/-- `vfs_open` knows the inode, or why there is none: `vfs_lookup`, `vop_create` and `vop_open`
have answered. -/
def vfs_open_lookup (fd : ℕ) (flags : BitVec 32) (answer : Except ℤ ℕ) (p : ℕ) (s : Files) :
    Option Files :=
  match answer with
  | .error e => s.file_open_failed p fd e
  | .ok node =>
    let s := ((s.vop_open_inc node).record (.opened (s.filesp p, fd) node)).goto p
      (.truncate fd flags node)
    if flags &&& O_TRUNC ≠ 0 ∨ flags &&& O_CREAT ≠ 0 then some s
    else s.vfs_opened p fd flags node

def vfs_open_truncate (fd : ℕ) (flags : BitVec 32) (node : ℕ) (r : ℤ) (p : ℕ) (s : Files) :
    Option Files :=
  let k := (s.filesp p, fd)
  if r ≠ 0 then
    (s.vop_open_dec node).map fun s => (s.record (.refused k node)).goto p (.abandon fd r)
  else s.vfs_opened p fd flags node

def file_open_fstat (fd : ℕ) (flags : BitVec 32) (node : ℕ) (stat : Except ℤ (BitVec 32)) (p : ℕ)
    (s : Files) : Option Files :=
  let k := (s.filesp p, fd)
  match stat with
  | .error e => (s.vfs_close k (some node)).map (goto p (.abandon fd e))
  | .ok st_size => (s.set k { s.fd_array k with pos := st_size }).file_opened p fd flags node

def file_close (fd : ℤ) (p : ℕ) (s : Files) : Option Files :=
  (s.fd2file fd p).bind fun
    | .error e => some (s.returns p e)
    | .ok i => (s.fd_array_close (s.filesp p, i)).map (leave p i 0)

/-- An operation on an open file takes hold of the slot before it asks the inode. -/
def start (allowed : file → Bool) (access : Access) (fd : ℤ) (p : ℕ) (s : Files) : Option Files :=
  (s.fd2file fd p).bind fun
    | .error e => some (s.returns p e)
    | .ok i =>
      if allowed (s.fd_array (s.filesp p, i)) then
        (s.fd_array_acquire (s.filesp p, i)).map (goto p (.inside i access))
      else some (s.returns p (-E_INVAL))

def file_read : ℤ → ℕ → Files → Option Files := start file.readable .read

def file_write : ℤ → ℕ → Files → Option Files := start file.writable .write

def file_fstat : ℤ → ℕ → Files → Option Files := start (fun _ => true) .other

def file_fsync : ℤ → ℕ → Files → Option Files := start (fun _ => true) .other

def file_getdirentry : ℤ → ℕ → Files → Option Files := start (fun _ => true) .other

/-- The position that a seek asks for; `stat` is the answer of `vop_fstat`. -/
def seek_target (pos : BitVec 32) (whence : ℤ) (stat : Except ℤ (BitVec 32)) (f : file) :
    Except ℤ (BitVec 32) :=
  if whence = LSEEK_SET then .ok pos
  else if whence = LSEEK_CUR then .ok (pos + f.pos)
  else if whence = LSEEK_END then stat.map (pos + ·)
  else .error (-E_INVAL)

def file_seek (fd : ℤ) (pos : BitVec 32) (whence : ℤ) (stat : Except ℤ (BitVec 32)) (p : ℕ)
    (s : Files) : Option Files :=
  (s.fd2file fd p).bind fun
    | .error e => some (s.returns p e)
    | .ok i =>
      (s.fd_array_acquire (s.filesp p, i)).bind fun s =>
        match seek_target pos whence stat (s.fd_array (s.filesp p, i)) with
        | .ok pos => some (s.goto p (.inside i (.seek pos)))
        | .error e =>
          ((s.goto p (.inside i .other)).fd_array_release (s.filesp p, i)).map (leave p i e)

def finish (i : ℕ) (access : Access) (r : ℤ) (copied : BitVec 32) (p : ℕ) (s : Files) :
    Option Files :=
  let k := (s.filesp p, i)
  let pos := access.pos r copied (s.fd_array k)
  ((s.set k { s.fd_array k with pos := pos }).fd_array_release k).map (leave p i r)

def file_dup (fd1 fd2 : ℤ) (p : ℕ) (s : Files) : Option Files :=
  (s.fd2file fd1 p).bind fun
    | .error e => some (s.returns p e)
    | .ok i => (s.fd_array_alloc fd2 p).bind fun
      | (.error e, s) => some (s.returns p e)
      | (.ok j, s) => (s.fd_array_dup (s.filesp p, j) (s.filesp p, i)).map fun s =>
          s.returns p (s.fd_array (s.filesp p, j)).fd

/-- `files_closeall` on the slots that are left. -/
def files_closeall_from (p : ℕ) : List ℕ → Files → Option Files
  | [], s => some (s.returns p 0)
  | fd :: fds, s =>
    if (s.fd_array (s.filesp p, fd)).status = FD_OPENED then
      (s.fd_array_close (s.filesp p, fd)).bind fun
        | (true, s) => some (s.goto p (.freeing fd .closeall))
        | (false, s) => s.files_closeall_from p fds
    else s.files_closeall_from p fds

/-- Standard input and output stay open. -/
def files_closeall (p : ℕ) (s : Files) : Option Files :=
  (s.get_fd_array p).bind fun _ => s.files_closeall_from p ((List.range FILES_STRUCT_NENTRY).drop 2)

/-- `files_destroy` on the slots that are left; the process then has no table. -/
def files_destroy_from (p : ℕ) : List ℕ → Files → Option Files
  | [], s => some { s with tables := s.tables.erase (s.filesp p), pids := s.pids.erase p }
  | fd :: fds, s =>
    if (s.fd_array (s.filesp p, fd)).status = FD_OPENED then
      (s.fd_array_close (s.filesp p, fd)).bind fun
        | (true, s) => some (s.goto p (.freeing fd .destroy))
        | (false, s) =>
          if (s.fd_array (s.filesp p, fd)).status = FD_NONE then s.files_destroy_from p fds
          else none
    else if (s.fd_array (s.filesp p, fd)).status = FD_NONE then s.files_destroy_from p fds
    else none

def files_destroy (p : ℕ) (s : Files) : Option Files :=
  if s.files_count (s.filesp p) = 0 then
    s.files_destroy_from p (List.range FILES_STRUCT_NENTRY)
  else none

/-- The slot whose inode has been closed is free, and the caller of `fd_array_free` goes on. -/
def freed (fd : ℕ) (next : Next) (p : ℕ) (s : Files) : Option Files :=
  let k := (s.filesp p, fd)
  let s := s.set k { s.fd_array k with status := FD_NONE }
  match next with
  | .ret r => some (s.returns p r)
  | .closeall =>
    (s.goto p .idle).files_closeall_from p ((List.range FILES_STRUCT_NENTRY).drop (fd + 1))
  | .destroy =>
    (s.goto p .destroying).files_destroy_from p ((List.range FILES_STRUCT_NENTRY).drop (fd + 1))

def fd_array_init (t : ℕ) (s : Files) : Files :=
  { s with fd_array := fun k =>
      if k.1 = t then ⟨FD_NONE, false, false, k.2, 0, none, 0⟩ else s.fd_array k }

/-- The allocator gives room for a new table, or none. -/
def files_create (room : Option ℕ) (s : Files) : Option (ℕ × Files) :=
  match room with
  | none => none
  | some t =>
    if t ∈ s.tables then none
    else some (t, { s with
      tables := insert t s.tables
      files_count := update s.files_count t 0 }.fd_array_init t)

def dup_files_from (dst src : ℕ) : List ℕ → Files → Option Files
  | [], s => some s
  | i :: is, s =>
    if (s.fd_array (src, i)).status = FD_OPENED then
      ((s.set (dst, i) { s.fd_array (dst, i) with status := FD_INIT }).fd_array_dup (dst, i)
        (src, i)).bind fun s => s.dup_files_from dst src is
    else s.dup_files_from dst src is

def dup_files (dst src : ℕ) (s : Files) : Option Files :=
  if s.files_count dst = 0 ∧ 0 < s.files_count src then
    s.dup_files_from dst src (List.range FILES_STRUCT_NENTRY)
  else none

def join (t child : ℕ) (s : Files) : Files :=
  { s with
    files_count := update s.files_count t (s.files_count t + 1)
    pids := insert child s.pids
    filesp := update s.filesp child t
    place := update s.place child .idle }

/-- The files of a child. `dup_files` always succeeds, so there is no table to destroy here. A fork
that fails later gives the child's table back with `put_files`, as an exit of the child does. -/
def copy_files (flags : BitVec 32) (room : Option ℕ) (child p : ℕ) (s : Files) : Option Files :=
  if s.filesp p ∉ s.tables then none
  else if flags &&& CLONE_FS ≠ 0 then some ((s.join (s.filesp p) child).returns p child)
  else
    match s.files_create room with
    | none => some (s.returns p (-E_NO_MEM))
    | some (t, s) => (s.dup_files t (s.filesp p)).map fun s => (s.join t child).returns p child

def put_files (p : ℕ) (s : Files) : Option Files :=
  let t := s.filesp p
  let s := { s with files_count := update s.files_count t (s.files_count t - 1) }
  if s.files_count t = 0 then (s.goto p .destroying).files_destroy p
  else some { s with pids := s.pids.erase p }

/-- What a process does next: a call, or what it is told when it wakes up. -/
inductive Action
  | file_open (flags : BitVec 32)
  | vfs_open_lookup (answer : Except ℤ ℕ)
  | vfs_open_truncate (r : ℤ)
  | file_open_fstat (stat : Except ℤ (BitVec 32))
  | file_open_failed
  | file_close (fd : ℤ)
  | file_read (fd : ℤ)
  | file_write (fd : ℤ)
  | file_seek (fd : ℤ) (pos : BitVec 32) (whence : ℤ) (stat : Except ℤ (BitVec 32))
  | file_fstat (fd : ℤ)
  | file_fsync (fd : ℤ)
  | file_getdirentry (fd : ℤ)
  | finish (r : ℤ) (copied : BitVec 32)
  | freed
  | file_dup (fd1 fd2 : ℤ)
  | files_closeall
  | copy_files (flags : BitVec 32) (room : Option ℕ) (child : ℕ)
  | put_files

/-- The call of a process that is not inside one. It runs until it may sleep; the answers of the
file system and of the allocator are given to the step. -/
def call (p : ℕ) (s : Files) : Action → Option Files
  | .file_open flags => s.file_open flags p
  | .file_close fd => s.file_close fd p
  | .file_read fd => s.file_read fd p
  | .file_write fd => s.file_write fd p
  | .file_seek fd pos whence stat => s.file_seek fd pos whence stat p
  | .file_fstat fd => s.file_fstat fd p
  | .file_fsync fd => s.file_fsync fd p
  | .file_getdirentry fd => s.file_getdirentry fd p
  | .file_dup fd1 fd2 => s.file_dup fd1 fd2 p
  | .files_closeall => s.files_closeall p
  | .copy_files flags room child =>
    if child ∈ s.pids then some s else s.copy_files flags room child p
  | .put_files => s.put_files p
  | _ => some s

/-- An action that does not fit the place of its process does nothing. -/
def step (p : ℕ) (a : Action) (s : Files) : Option Files :=
  if p ∉ s.pids then some s
  else
    match s.place p, a with
    | .idle, a => s.call p a
    | .lookup fd flags, .vfs_open_lookup answer => s.vfs_open_lookup fd flags answer p
    | .truncate fd flags node, .vfs_open_truncate r => s.vfs_open_truncate fd flags node r p
    | .fstat fd flags node, .file_open_fstat stat => s.file_open_fstat fd flags node stat p
    | .abandon fd r, .file_open_failed => s.file_open_failed p fd r
    | .inside fd access, .finish r copied => s.finish fd access r copied p
    | .freeing fd next, .freed => s.freed fd next p
    | _, _ => some s

def run : List (ℕ × Action) → Files → Option Files
  | [], s => some s
  | (p, a) :: as, s => (s.step p a).bind (run as)

/-- `idleproc` has the first table. -/
def boot : Files :=
  { tables := {0}
    files_count := fun _ => 1
    fd_array := fun k => ⟨FD_NONE, false, false, k.2, 0, none, 0⟩
    open_count := fun _ => 0
    pids := {0}
    filesp := fun _ => 0
    place := fun _ => .idle
    ret := fun _ => 0
    log := [] }

end Files

end ucore
