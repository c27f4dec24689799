import Mathlib.Data.BitVec

namespace ucore

inductive proc_state where
  | UNINIT
  | SLEEPING
  | RUNNABLE
  | ZOMBIE
  deriving DecidableEq

def PF_EXITING : BitVec 32 := 0x00000001#32

def WT_INTERRUPTED : BitVec 32 := 0x80000000#32

def WT_CHILD : BitVec 32 := 0x00000001#32 ||| WT_INTERRUPTED

def WT_KSEM : BitVec 32 := 0x00000100#32

def WT_TIMER : BitVec 32 := 0x00000002#32 ||| WT_INTERRUPTED

def WT_KBD : BitVec 32 := 0x00000004#32 ||| WT_INTERRUPTED

def MAX_TIME_SLICE : ℕ := 5

/-- The fields of a process that the scheduler uses. `rq` says whether the process has been in
the run queue. -/
structure proc_struct where
  state : proc_state
  need_resched : Bool
  flags : BitVec 32
  exit_code : ℤ
  wait_state : BitVec 32
  rq : Bool
  time_slice : ℕ
  deriving DecidableEq

/-- Where the kernel goes on with a process when it runs again: behind its call of `schedule` in
`do_wait`, in `do_sleep` or after `wait_current_set`, never again after `do_exit`, or anywhere
else. -/
inductive Point where
  | free
  | wait (pid : ℤ) (store : Bool)
  | sleep
  | queue (queue : ℕ)
  | exit
  deriving DecidableEq

/-- A timer is named by its address. -/
structure timer where
  addr : ℕ
  expires : ℕ
  proc : ℕ
  deriving DecidableEq

/-- The state of the scheduler. The run queue, the timers and the wait queues are lists in the
order of their links; a link is empty when its process is in no list. A failed assertion is
`none`. -/
structure Sched where
  procs : ℕ → proc_struct
  current : ℕ
  idleproc : ℕ
  initproc : ℕ
  run_list : List ℕ
  proc_num : ℕ
  timer_list : List timer
  wait_queues : ℕ → List ℕ

namespace Sched

def modify (proc : ℕ) (g : proc_struct → proc_struct) (s : Sched) : Sched :=
  { s with procs := Function.update s.procs proc (g (s.procs proc)) }

/-- The fields that `alloc_proc` sets; `exit_code` is not among them. -/
def alloc_proc (proc : ℕ) (s : Sched) : Sched :=
  s.modify proc fun x => ⟨.UNINIT, false, 0, x.exit_code, 0, false, 0⟩

def RR_enqueue (proc : ℕ) (s : Sched) : Option Sched := do
  guard (proc ∉ s.run_list)
  let s := s.modify proc fun x => { x with
    time_slice := if x.time_slice = 0 ∨ x.time_slice > MAX_TIME_SLICE then MAX_TIME_SLICE
      else x.time_slice
    rq := true }
  return { s with run_list := s.run_list ++ [proc], proc_num := s.proc_num + 1 }

def RR_dequeue (proc : ℕ) (s : Sched) : Option Sched := do
  guard (proc ∈ s.run_list ∧ (s.procs proc).rq)
  return { s with run_list := s.run_list.erase proc, proc_num := s.proc_num - 1 }

def RR_pick_next (s : Sched) : Option ℕ := s.run_list.head?

def RR_proc_tick (proc : ℕ) (s : Sched) : Sched :=
  s.modify proc fun x => { x with
    time_slice := x.time_slice - 1
    need_resched := if x.time_slice - 1 = 0 then true else x.need_resched }

def sched_class_enqueue (proc : ℕ) (s : Sched) : Option Sched :=
  if proc ≠ s.idleproc then s.RR_enqueue proc else some s

def sched_class_proc_tick (proc : ℕ) (s : Sched) : Sched :=
  if proc ≠ s.idleproc then s.RR_proc_tick proc
  else s.modify proc fun x => { x with need_resched := true }

/-- A runnable process is left as it is, with a warning. -/
def wakeup_proc (proc : ℕ) (s : Sched) : Option Sched := do
  guard ((s.procs proc).state ≠ .ZOMBIE)
  if (s.procs proc).state ≠ .RUNNABLE then
    let s := s.modify proc fun x => { x with state := .RUNNABLE, wait_state := 0 }
    if proc ≠ s.current then s.sched_class_enqueue proc else some s
  else some s

/-- The beginning of `schedule`: the current process goes to the end of the queue unless it
sleeps or has exited. -/
def requeue (s : Sched) : Option Sched :=
  let s := s.modify s.current fun x => { x with need_resched := false }
  if (s.procs s.current).state = .RUNNABLE then s.sched_class_enqueue s.current else some s

def schedule (s : Sched) : Option Sched := do
  let s ← s.requeue
  match s.RR_pick_next with
  | some next =>
    let s ← s.RR_dequeue next
    return { s with current := next }
  | none => return { s with current := s.idleproc }

/-- The expiry of a timer is counted from that of the timer before it. -/
def add_timer.insert (t : timer) : List timer → List timer
  | [] => [t]
  | next :: rest =>
    if t.expires < next.expires then
      t :: { next with expires := next.expires - t.expires } :: rest
    else next :: insert { t with expires := t.expires - next.expires } rest

def add_timer (t : timer) (s : Sched) : Option Sched := do
  guard (t.expires > 0)
  guard (t.addr ∉ s.timer_list.map (·.addr))
  return { s with timer_list := add_timer.insert t s.timer_list }

def del_timer.remove (addr : ℕ) : List timer → List timer
  | [] => []
  | t :: rest =>
    if t.addr = addr then
      match rest with
      | [] => []
      | next :: rest => { next with expires := next.expires + t.expires } :: rest
    else t :: remove addr rest

/-- The timer is taken out of the list if it is there. -/
def del_timer (addr : ℕ) (s : Sched) : Sched :=
  { s with timer_list := del_timer.remove addr s.timer_list }

/-- The loop of `run_timer_list` over the timers that have expired. -/
def run_timer_list.expire : List timer → Sched → Option Sched
  | [], s => some s
  | t :: rest, s =>
    if t.expires = 0 then do
      let wait_state := (s.procs t.proc).wait_state
      guard (wait_state ≠ 0 → wait_state &&& WT_INTERRUPTED ≠ 0)
      let s ← s.wakeup_proc t.proc
      expire rest (s.del_timer t.addr)
    else some s

def run_timer_list (s : Sched) : Option Sched := do
  let s ← match s.timer_list with
    | [] => some s
    | t :: rest => do
      guard (t.expires ≠ 0)
      let timers := { t with expires := t.expires - 1 } :: rest
      run_timer_list.expire timers { s with timer_list := timers }
  return s.sched_class_proc_tick s.current

/-- The current process goes to sleep at the end of a wait queue. -/
def wait_current_set (queue : ℕ) (wait_state : BitVec 32) (s : Sched) : Sched :=
  let s := s.modify s.current fun x => { x with state := .SLEEPING, wait_state }
  { s with
    wait_queues := Function.update s.wait_queues queue (s.wait_queues queue ++ [s.current]) }

def wait_queue_del (queue proc : ℕ) (s : Sched) : Option Sched := do
  guard (proc ∈ s.wait_queues queue)
  return { s with
    wait_queues := Function.update s.wait_queues queue ((s.wait_queues queue).erase proc) }

def wait_current_del (queue : ℕ) (s : Sched) : Option Sched :=
  if s.current ∈ s.wait_queues queue then s.wait_queue_del queue s.current else some s

def wakeup_wait (queue proc : ℕ) (del : Bool) (s : Sched) : Option Sched := do
  let s ← if del then s.wait_queue_del queue proc else some s
  s.wakeup_proc proc

def wakeup_first (queue : ℕ) (del : Bool) (s : Sched) : Option Sched :=
  match s.wait_queues queue with
  | [] => some s
  | proc :: _ => s.wakeup_wait queue proc del

/-- Every process of the queue is woken up, in the order of the queue. -/
def wakeup_queue (queue : ℕ) (del : Bool) (s : Sched) : Option Sched :=
  (s.wait_queues queue).foldlM (fun s proc => s.wakeup_wait queue proc del) s

end Sched

end ucore
