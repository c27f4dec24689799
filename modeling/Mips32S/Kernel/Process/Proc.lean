import Mathlib.Data.BitVec

open Function

namespace ucore

def MAX_PROCESS : ℤ := 4096

def MAX_PID : ℤ := MAX_PROCESS * 2

def HASH_SHIFT : ℕ := 10

def GOLDEN_RATIO_PRIME_32 : BitVec 32 := 0x9e370001#32

def hash32 (val : BitVec 32) (bits : ℕ) : BitVec 32 :=
  (val * GOLDEN_RATIO_PRIME_32) >>> (32 - bits)

def pid_hashfn (pid : ℤ) : ℕ := (hash32 (BitVec.ofInt 32 pid) HASH_SHIFT).toNat

/-- The fields of a process that relate it to others. A process is named by the address of its
`proc_struct`. -/
@[ext]
structure proc_links where
  pid : ℤ
  parent : Option ℕ
  cptr : Option ℕ
  yptr : Option ℕ
  optr : Option ℕ

/-- The process table. `alive` are the processes that exist, from `set_links` until their
`proc_struct` is freed; `last_pid` and `next_safe` are the static variables of `get_pid`. -/
structure Family where
  links : ℕ → proc_links
  alive : Finset ℕ
  proc_list : List ℕ
  hash_list : ℕ → List ℕ
  nr_process : ℤ
  last_pid : ℤ
  next_safe : ℤ

namespace Family

def modify (proc : ℕ) (g : proc_links → proc_links) (f : Family) : Family :=
  { f with links := update f.links proc (g (f.links proc)) }

/-- The relations of a new `proc_struct`, made by the process `current`. -/
def alloc_proc (current : Option ℕ) (proc : ℕ) (f : Family) : Family :=
  { f with links := update f.links proc ⟨-1, current, none, none, none⟩ }

/-- The `proc_struct` of a process is freed; one that is not allocated must not be. -/
def kfree (proc : ℕ) (f : Family) : Option Family :=
  if proc ∈ f.alive then some { f with alive := f.alive.erase proc } else none

/-- `proc` becomes the first child of `parent`, the same in `set_links` and `do_exit`. -/
def link (parent proc : ℕ) (f : Family) : Family :=
  let older := (f.links parent).cptr
  let f := f.modify proc fun x => { x with yptr := none, optr := older }
  let f := older.elim f fun o => f.modify o fun x => { x with yptr := some proc }
  f.modify parent fun x => { x with cptr := some proc }

def set_links (proc : ℕ) (f : Family) : Option Family := do
  let parent ← (f.links proc).parent
  let f := link parent proc { f with proc_list := proc :: f.proc_list }
  return { f with nr_process := f.nr_process + 1, alive := insert proc f.alive }

/-- The siblings of `proc` are linked past it. -/
def unlink (parent proc : ℕ) (f : Family) : Family :=
  let x := f.links proc
  let f := x.optr.elim f fun o => f.modify o fun y => { y with yptr := x.yptr }
  x.yptr.elim (f.modify parent fun y => { y with cptr := x.optr })
    fun y => f.modify y fun z => { z with optr := x.optr }

def remove_links (proc : ℕ) (f : Family) : Option Family := do
  let parent ← (f.links proc).parent
  let f := unlink parent proc { f with proc_list := f.proc_list.erase proc }
  return { f with nr_process := f.nr_process - 1 }

/-- One round of the loop of `do_exit`: `proc`, the first child of `current`, becomes a child
of `initproc`. -/
def adopt (initproc current proc : ℕ) (f : Family) : Family :=
  let f := f.modify current fun x => { x with cptr := (f.links proc).optr }
  (f.link initproc proc).modify proc fun x => { x with parent := some initproc }

def hash_proc (proc : ℕ) (f : Family) : Family :=
  let h := pid_hashfn (f.links proc).pid
  { f with hash_list := update f.hash_list h (proc :: f.hash_list h) }

def unhash_proc (proc : ℕ) (f : Family) : Family :=
  let h := pid_hashfn (f.links proc).pid
  { f with hash_list := update f.hash_list h ((f.hash_list h).erase proc) }

def find_proc (pid : ℤ) (f : Family) : Option ℕ :=
  if 0 < pid ∧ pid < MAX_PID then
    (f.hash_list (pid_hashfn pid)).find? fun proc => (f.links proc).pid = pid
  else none

/-- The end of a pass over the processes in `get_pid`: the pass is complete, or it starts again
with another number. -/
inductive Scan where
  | complete (last_pid next_safe : ℤ)
  | again (last_pid : ℤ)

def get_pid.scan : List ℤ → ℤ → ℤ → Scan
  | [], last_pid, next_safe => .complete last_pid next_safe
  | pid :: rest, last_pid, next_safe =>
    if pid = last_pid then
      if last_pid + 1 ≥ next_safe then
        .again (if last_pid + 1 ≥ MAX_PID then 1 else last_pid + 1)
      else scan rest (last_pid + 1) next_safe
    else if pid > last_pid ∧ next_safe > pid then scan rest last_pid pid
    else scan rest last_pid next_safe

/-- Passes from `repeat` on, at most `fuel` of them. -/
def get_pid.search (pids : List ℤ) : ℕ → ℤ → Option (ℤ × ℤ)
  | 0, _ => none
  | fuel + 1, last_pid =>
    match get_pid.scan pids last_pid MAX_PID with
    | .complete last_pid next_safe => some (last_pid, next_safe)
    | .again last_pid => search pids fuel last_pid

def get_pid (f : Family) : Option (ℤ × Family) :=
  let pids := f.proc_list.map fun proc => (f.links proc).pid
  let last_pid := if f.last_pid + 1 ≥ MAX_PID then 1 else f.last_pid + 1
  if f.last_pid + 1 ≥ MAX_PID ∨ f.last_pid + 1 ≥ f.next_safe then do
    let (last_pid, next_safe) ← get_pid.search pids MAX_PID.toNat last_pid
    return (last_pid, { f with last_pid, next_safe })
  else some (last_pid, { f with last_pid })

/-- The end of `do_fork`: the new process gets its number and its place in the lists. -/
def enroll (proc : ℕ) (f : Family) : Option (ℤ × Family) := do
  let (pid, f) ← f.get_pid
  let f := (f.modify proc fun x => { x with pid }).hash_proc proc
  let f ← f.set_links proc
  return (pid, f)

/-- The end of `do_wait`: a process leaves the lists and is freed. -/
def release (proc : ℕ) (f : Family) : Option Family := do
  let f ← (f.unhash_proc proc).remove_links proc
  f.kfree proc

end Family

end ucore
