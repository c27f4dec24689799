import Mips32S.Kernel.Paging.Space

namespace ucore

def EX_IRQ : BitVec 5 := 0#5

def EX_TLBL : BitVec 5 := 2#5

def EX_TLBS : BitVec 5 := 3#5

def EX_ADEL : BitVec 5 := 4#5

def EX_ADES : BitVec 5 := 5#5

def EX_SYS : BitVec 5 := 8#5

def EX_RI : BitVec 5 := 10#5

def EX_CPU : BitVec 5 := 11#5

def EX_OVF : BitVec 5 := 12#5

def KSU_USER : BitVec 32 := 0x00000010#32

def CAUSEB_IP : ℕ := 8

def TIMER0_IRQ : ℕ := 7

def COM1_IRQ : ℕ := 4

def SYSCALL_BASE : BitVec 32 := 0x80#32

/-- The saved registers that the dispatch reads. -/
structure trapframe where
  tf_vaddr : BitVec 32
  tf_status : BitVec 32
  tf_cause : BitVec 32
  tf_epc : BitVec 32
  v0 : BitVec 32
  a0 : BitVec 32
  a1 : BitVec 32
  a2 : BitVec 32
  a3 : BitVec 32

def GET_CAUSE_EXCODE (x : BitVec 32) : BitVec 5 := x.extractLsb' 2 5

def trap_in_kernel (tf : trapframe) : Bool := tf.tf_status &&& KSU_USER == 0#32

/-- The interrupts that have a handler. -/
inductive Irq where
  | timer
  | serial
  deriving DecidableEq

/-- The handlers that the loop of `interrupt_handler` calls, from the lines `i` on. -/
def interrupt_handler.serve (tf : trapframe) : List ℕ → Option (List Irq)
  | [] => some []
  | i :: rest =>
    if tf.tf_cause &&& tf.tf_status &&& 1#32 <<< (CAUSEB_IP + i) ≠ 0#32 then
      if i = TIMER0_IRQ then (serve tf rest).map (.timer :: ·)
      else if i = COM1_IRQ then (serve tf rest).map (.serial :: ·)
      else none
    else serve tf rest

def interrupt_handler (tf : trapframe) : Option (List Irq) :=
  interrupt_handler.serve tf (List.range 8)

/-- The functions behind the system calls. -/
inductive Sys where
  | exit | fork | wait | exec | yield | sleep | kill | gettime | getpid | putc | pgdir
  | open | close | read | write | seek | fstat | fsync | getcwd | getdirentry | dup
  deriving DecidableEq

/-- The table of the system calls; the numbers without an entry have the pointer NULL. -/
def syscalls : ℕ → Option Sys
  | 1 => some .exit
  | 2 => some .fork
  | 3 => some .wait
  | 4 => some .exec
  | 10 => some .yield
  | 11 => some .sleep
  | 12 => some .kill
  | 17 => some .gettime
  | 18 => some .getpid
  | 30 => some .putc
  | 31 => some .pgdir
  | 100 => some .open
  | 101 => some .close
  | 102 => some .read
  | 103 => some .write
  | 104 => some .seek
  | 110 => some .fstat
  | 111 => some .fsync
  | 121 => some .getcwd
  | 128 => some .getdirentry
  | 130 => some .dup
  | _ => none

def NUM_SYSCALLS : ℕ := 131

/-- A call of one of the functions behind the system calls, with its arguments. -/
structure SysCall where
  sys : Sys
  arg : List (BitVec 32)
  deriving DecidableEq

def syscall (tf : trapframe) : Option SysCall := do
  let num := tf.v0 - SYSCALL_BASE
  guard (0 ≤ num.toInt ∧ num.toInt < NUM_SYSCALLS)
  let sys ← syscalls num.toNat
  return ⟨sys, [tf.a0, tf.a1, tf.a2, tf.a3]⟩

/-- What the dispatch of a trap comes to, if not to a panic. -/
inductive Dispatched where
  | ended (how : TrapEnd)
  | interrupts (irqs : List Irq)
  | called (call : SysCall) (epc : BitVec 32)
  deriving DecidableEq

/-- The exceptions that a user program does not survive and the kernel must not raise. -/
def dieUnlessKernel (tf : trapframe) : Option TrapEnd :=
  if trap_in_kernel tf then none else some .kill

variable {σ : Type} (A : runs.Allocator σ ℤ)

/-- A trap while `mm` is the address space of the current process. -/
def trap_dispatch (random : BitVec 4) (tf : trapframe) (current_pgdir : ℕ)
    (mm : Option mm_struct) (s : Vm σ) : Option (Dispatched × Option mm_struct × Vm σ) :=
  let code := GET_CAUSE_EXCODE tf.tf_cause
  if code = EX_IRQ then (interrupt_handler tf).map fun irqs => (.interrupts irqs, mm, s)
  else if code = EX_TLBL then tlbmiss false
  else if code = EX_TLBS then tlbmiss true
  else if code = EX_RI ∨ code = EX_CPU ∨ code = EX_OVF then die
  else if code = EX_SYS then (syscall tf).map fun call => (.called call (tf.tf_epc + 4#32), mm, s)
  else if code = EX_ADEL ∨ code = EX_ADES then die
  else none
where
  tlbmiss (write : Bool) : Option (Dispatched × Option mm_struct × Vm σ) :=
    (handle_tlbmiss A random (trap_in_kernel tf) write tf.tf_vaddr current_pgdir mm s).map
      fun (how, mm, s) => (.ended how, mm, s)
  die : Option (Dispatched × Option mm_struct × Vm σ) :=
    (dieUnlessKernel tf).map fun how => (.ended how, mm, s)

end ucore
