import Mips32S.Kernel.Process.Proc
import Mips32S.Kernel.Process.Sched
import Mips32S.Kernel.Vma.Vmm
import Mips32S.Lib.Linked

open linked Function

namespace ucore

def E_BAD_PROC : ℤ := 2

def E_NO_FREE_PROC : ℤ := 5

def E_KILLED : ℤ := 9

/-- The processes and the scheduler, with the places where the kernel goes on: the current
process comes to its call of `schedule` when one is `due`, and a process inside `do_fork` has
allocated the `proc_struct` `forking`. What a process does between two calls of `schedule` is
interleaved with interrupts only. A panic is `none`. -/
structure Kernel where
  family : Family
  sched : Sched
  point : ℕ → Point
  due : Bool
  forking : ℕ → Option ℕ

/-- What a system call returns, and what it stores for its caller. -/
structure Reply where
  ret : ℤ
  code_store : Option ℤ
  deriving DecidableEq

namespace Kernel

variable (k : Kernel)

def current : ℕ := k.sched.current

def proc (p : ℕ) : proc_struct := k.sched.procs p

def setPoint (place : Point) : Kernel :=
  { k with point := update k.point k.current place }

/-- The beginning of `do_fork`, with the result of `kmalloc`. -/
def do_fork (alloc : Option ℕ) : Option (Option Reply × Kernel) :=
  if k.family.nr_process ≥ MAX_PROCESS then some (some ⟨-E_NO_FREE_PROC, none⟩, k)
  else match alloc with
    | none => some (some ⟨-E_NO_MEM, none⟩, k)
    | some proc => do
      guard ((k.proc k.current).wait_state = 0)
      return (none, { k with
        family := k.family.alloc_proc (some k.current) proc
        sched := k.sched.alloc_proc proc
        point := update k.point proc .free
        forking := update k.forking k.current (some proc) })

/-- The end of `do_fork`: the kernel stack, the files and the memory have been `copied`, or the
new `proc_struct` is given back. -/
def do_fork.finish (copied : Bool) : Option (Option Reply × Kernel) := do
  let proc ← k.forking k.current
  let k := { k with forking := update k.forking k.current none }
  if copied then
    let (pid, family) ← k.family.enroll proc
    let sched ← k.sched.wakeup_proc proc
    return (some ⟨pid, none⟩, { k with family, sched })
  else return (some ⟨-E_NO_MEM, none⟩, k)

/-- A parent that waits for its children is woken up. -/
def do_exit.wakeup (parent : ℕ) (s : Sched) : Option Sched :=
  if (s.procs parent).wait_state = WT_CHILD then s.wakeup_proc parent else some s

/-- `initproc` is woken up for a child that has exited. -/
def do_exit.inherit (proc : ℕ) (s : Sched) : Option Sched :=
  if (s.procs proc).state = .ZOMBIE then do_exit.wakeup s.initproc s else some s

/-- The loop of `do_exit` that gives the children to `initproc`. -/
def do_exit.reparent : ℕ → Family → Sched → Option (Family × Sched)
  | 0, f, s => if (f.links s.current).cptr = none then some (f, s) else none
  | fuel + 1, f, s =>
    match (f.links s.current).cptr with
    | none => some (f, s)
    | some proc => do
      let f := f.adopt s.initproc s.current proc
      let s ← do_exit.inherit proc s
      reparent fuel f s

def do_exit (error_code : ℤ) : Option Kernel := do
  guard (k.current ≠ k.sched.idleproc)
  guard (k.current ≠ k.sched.initproc)
  let sched := k.sched.modify k.current fun x => { x with state := .ZOMBIE, exit_code := error_code }
  let parent ← (k.family.links k.current).parent
  let sched ← do_exit.wakeup parent sched
  let (family, sched) ← do_exit.reparent k.family.alive.card k.family sched
  return { k.setPoint .exit with family, sched, due := true }

/-- Whether there is a child to wait for, and such a child that has exited. -/
def do_wait.search (pid : ℤ) : Option (Bool × Option ℕ) :=
  let zombie proc := decide ((k.proc proc).state = .ZOMBIE)
  if pid ≠ 0 then
    match k.family.find_proc pid with
    | some proc =>
      if (k.family.links proc).parent = some k.current then
        some (true, if zombie proc then some proc else none)
      else some (false, none)
    | none => some (false, none)
  else do
    let cptr := (k.family.links k.current).cptr
    let found ← walk (fun p => (k.family.links p).optr) zombie k.family.alive.card cptr
    return (cptr.isSome, found)

/-- `do_wait` from `repeat` to the call of `schedule` or to the end. -/
def do_wait.round (pid : ℤ) (store : Bool) : Option (Option Reply × Kernel) := do
  let (haskid, found) ← do_wait.search k pid
  match found with
  | some proc =>
    guard (proc ≠ k.sched.idleproc ∧ proc ≠ k.sched.initproc)
    let family ← k.family.release proc
    return (some ⟨0, if store then some (k.proc proc).exit_code else none⟩,
      { k.setPoint .free with family })
  | none =>
    if haskid then
      let sched := k.sched.modify k.current fun x =>
        { x with state := .SLEEPING, wait_state := WT_CHILD }
      return (none, { k.setPoint (.wait pid store) with sched, due := true })
    else return (some ⟨-E_BAD_PROC, none⟩, k.setPoint .free)

/-- `store` says whether the caller wants the exit code, and `checked` whether it may be stored
there. -/
def do_wait (pid : ℤ) (store checked : Bool) : Option (Option Reply × Kernel) :=
  if store ∧ ¬checked then some (some ⟨-E_INVAL, none⟩, k) else do_wait.round k pid store

def do_kill (pid : ℤ) : Option (Option Reply × Kernel) :=
  match k.family.find_proc pid with
  | some proc =>
    if (k.proc proc).flags &&& PF_EXITING = 0 then do
      let sched := k.sched.modify proc fun x => { x with flags := x.flags ||| PF_EXITING }
      let sched ← if (k.proc proc).wait_state &&& WT_INTERRUPTED ≠ 0 then sched.wakeup_proc proc
        else some sched
      return (some ⟨0, none⟩, { k with sched })
    else some (some ⟨-E_KILLED, none⟩, k)
  | none => some (some ⟨-E_INVAL, none⟩, k)

def do_yield : Kernel :=
  { k with sched := k.sched.modify k.current fun x => { x with need_resched := true } }

/-- The timer is a variable of `do_sleep`: a process has only one. -/
def do_sleep (time : ℕ) : Option (Option Reply × Kernel) :=
  if time = 0 then some (some ⟨0, none⟩, k) else do
    let sched := k.sched.modify k.current fun x =>
      { x with state := .SLEEPING, wait_state := WT_TIMER }
    let sched ← sched.add_timer ⟨k.current, time, k.current⟩
    return (none, { k.setPoint .sleep with sched, due := true })

/-- The current process goes on behind its call of `schedule`. -/
def resume : Option (Option Reply × Kernel) :=
  match k.point k.current with
  | .wait pid store =>
    if (k.proc k.current).flags &&& PF_EXITING ≠ 0 then do
      let k ← k.do_exit (-E_KILLED)
      return (none, k)
    else do_wait.round k pid store
  | .sleep =>
    some (some ⟨0, none⟩, { k.setPoint .free with sched := k.sched.del_timer k.current })
  | .queue queue => do
    let sched ← k.sched.wait_current_del queue
    return (none, { k.setPoint .free with sched })
  | .free | .exit => none

/-- What can happen next: an action of the current process, or an interrupt. -/
inductive Action where
  | do_fork (alloc : Option ℕ)
  | fork_finish (copied : Bool)
  | do_exit (error_code : ℤ)
  | do_wait (pid : ℤ) (store checked : Bool)
  | do_kill (pid : ℤ)
  | do_yield
  | do_sleep (time : ℕ)
  | wait_current_set (queue : ℕ) (wait_state : BitVec 32)
  | resume
  | schedule
  | run_timer_list
  | wakeup_first (queue : ℕ) (del : Bool)
  | wakeup_queue (queue : ℕ) (del : Bool)
  deriving DecidableEq

def exec : Action → Option (Option Reply × Kernel)
  | .do_fork alloc => k.do_fork alloc
  | .fork_finish copied => do_fork.finish k copied
  | .do_exit error_code => (k.do_exit error_code).map (none, ·)
  | .do_wait pid store checked => k.do_wait pid store checked
  | .do_kill pid => k.do_kill pid
  | .do_yield => some (some ⟨0, none⟩, k.do_yield)
  | .do_sleep time => k.do_sleep time
  | .wait_current_set queue wait_state =>
    some (none, { k.setPoint (.queue queue) with
      sched := k.sched.wait_current_set queue wait_state, due := true })
  | .resume => k.resume
  | .schedule => k.sched.schedule.map fun sched => (none, { k with sched, due := false })
  | .run_timer_list => k.sched.run_timer_list.map fun sched => (none, { k with sched })
  | .wakeup_first queue del =>
    (k.sched.wakeup_first queue del).map fun sched => (none, { k with sched })
  | .wakeup_queue queue del =>
    (k.sched.wakeup_queue queue del).map fun sched => (none, { k with sched })

/-- The current process runs and chooses what it does. -/
def Free : Prop :=
  k.due = false ∧ k.current ≠ k.sched.idleproc ∧ k.point k.current = .free

/-- Who can do what when. A process that copies for `do_fork` may only sleep, and `idleproc`
only waits for its turn to end. -/
def Allowed : Action → Prop
  | .do_fork alloc => k.Free ∧ k.forking k.current = none ∧
      ∀ proc ∈ alloc, proc ∉ k.family.alive ∧ ∀ p ∈ k.family.alive, k.forking p ≠ some proc
  | .fork_finish _ => k.Free ∧ k.forking k.current ≠ none
  | .do_exit _ | .do_wait _ _ _ | .do_kill _ | .do_yield | .do_sleep _ =>
    k.Free ∧ k.forking k.current = none
  | .wait_current_set _ wait_state => k.Free ∧ (wait_state = WT_KBD ∨ wait_state = WT_KSEM)
  | .resume => k.due = false ∧ k.point k.current ≠ .free
  | .schedule => k.due = true ∨
      k.point k.current = .free ∧ (k.current = k.sched.idleproc → (k.proc k.current).need_resched)
  | .run_timer_list | .wakeup_first _ _ | .wakeup_queue _ _ => True

instance : Decidable k.Free := inferInstanceAs (Decidable (_ ∧ _))

instance : (a : Action) → Decidable (k.Allowed a)
  | .do_fork _ => inferInstanceAs (Decidable (_ ∧ _ ∧ _))
  | .fork_finish _ | .do_exit _ | .do_wait _ _ _ | .do_kill _ | .do_yield | .do_sleep _
  | .wait_current_set _ _ | .resume => inferInstanceAs (Decidable (_ ∧ _))
  | .schedule => inferInstanceAs (Decidable (_ ∨ _))
  | .run_timer_list | .wakeup_first _ _ | .wakeup_queue _ _ => inferInstanceAs (Decidable True)

/-- One step of the kernel. -/
def Step (a : Action) (r : Option Reply) (k k' : Kernel) : Prop :=
  k.Allowed a ∧ k.exec a = some (r, k')

def run (k : Kernel) : List Action → Option Kernel
  | [] => some k
  | a :: rest => if k.Allowed a then (k.exec a).bind fun next => next.2.run rest else none

end Kernel

def proc_init (idleproc initproc : ℕ) : Option Kernel := do
  let family := Family.alloc_proc none idleproc
    ⟨fun _ => ⟨0, none, none, none, none⟩, {idleproc}, [], fun _ => [], 0, MAX_PID, MAX_PID⟩
  let family := { family.modify idleproc fun x => { x with pid := 0 } with nr_process := 1 }
  let sched := Sched.alloc_proc idleproc
    ⟨fun _ => ⟨.UNINIT, false, 0, 0, 0, false, 0⟩, idleproc, idleproc, 0, [], 0, [], fun _ => []⟩
  let sched := sched.modify idleproc fun x => { x with state := .RUNNABLE, need_resched := true }
  let (_, k) ← Kernel.do_fork ⟨family, sched, fun _ => .free, false, fun _ => none⟩ (some initproc)
  let (reply, k) ← Kernel.do_fork.finish k true
  let reply ← reply
  guard (reply.ret > 0)
  let initproc ← k.family.find_proc reply.ret
  guard ((k.family.links idleproc).pid = 0 ∧ (k.family.links initproc).pid = 1)
  return { k with sched := { k.sched with initproc } }

end ucore
