import Mips32S.Kernel.Paging.RefCount
import Mips32S.Kernel.Paging.Space

open mips32s.Isa

namespace ucore

variable {σ : Type} (A : runs.Allocator σ ℤ)

def USTACKTOP : BitVec 32 := USERTOP

def USTACKSIZE : BitVec 32 := BitVec.ofNat 32 (16 * PGSIZE)

/-- The fields of a process that concern its memory; `loading` is the `mm_struct` that
`load_icode` builds before it becomes that of the process. -/
structure Task where
  mm : Option mm_struct
  cr3 : ℕ
  loading : Option mm_struct

/-- The machine with its processes. The pages that hold page directories are kept in `dirs`. A
user process shares its `mm_struct` with no other, so its reference count is 1. -/
structure Machine (σ : Type) where
  vm : Vm σ
  tasks : ℕ → Option Task
  current : ℕ
  current_pgdir : ℕ
  boot_pgdir : ℕ
  dirs : Finset ℕ

namespace Machine

def setTask (m : Machine σ) (pid : ℕ) (task : Task) : Machine σ :=
  { m with tasks := Function.update m.tasks pid (some task) }

def lcr3 (m : Machine σ) (cr3 : ℕ) : Machine σ := { m with current_pgdir := cr3 }

def proc_run (m : Machine σ) (next : ℕ) : Option (Machine σ) := do
  let task ← m.tasks next
  if next ≠ m.current then
    return { m.lcr3 task.cr3 with current := next, vm := m.vm.tlb_invalidate_all }
  else return m

/-- The child of `do_fork`, of a kernel thread or with a copy of the address space. -/
def do_fork (kmalloc : σ → Option (Bool × σ)) (m : Machine σ) (child : ℕ) :
    Option (Machine σ) := do
  let task ← m.tasks m.current
  match task.mm with
  | none => return m.setTask child ⟨none, m.boot_pgdir, none⟩
  | some oldmm =>
    let (_, new, vm) ← copy_mm A kmalloc m.boot_pgdir oldmm m.vm
    match new with
    | none => return { m with vm }
    | some mm =>
      let pgdir ← mm.pgdir
      return { m.setTask child ⟨some mm, pgdir, none⟩ with vm, dirs := insert pgdir m.dirs }

/-- The address space of the current process is given up, by `do_exit` and `do_execve`. -/
def release_mm (m : Machine σ) : Option (Machine σ) := do
  let task ← m.tasks m.current
  match task.mm with
  | none => return m
  | some mm =>
    let m := m.lcr3 m.boot_pgdir
    let vm ← exit_mmap A mm m.vm
    let vm ← put_pgdir A mm vm
    let pgdir ← mm.pgdir
    return { m.setTask m.current { task with mm := none } with vm, dirs := m.dirs.erase pgdir }

/-- The first part of `load_icode`: a new directory. -/
def load_icode.start (kmalloc : σ → Option (Bool × σ)) (m : Machine σ) : Option (Machine σ) := do
  let task ← m.tasks m.current
  guard (task.mm = none)
  let (fresh, vm) ← m.vm.kmalloc kmalloc
  if fresh then
    let (ret, mm, vm) ← setup_pgdir A m.boot_pgdir mm_create vm
    if ret = 0 then
      let pgdir ← mm.pgdir
      return { m.setTask m.current { task with loading := some mm } with
        vm, dirs := insert pgdir m.dirs }
    else return { m with vm }
  else return { m with vm }

/-- A new area for a segment of the program. -/
def load_icode.map (kmalloc : σ → Option (Bool × σ)) (addr len vm_flags : BitVec 32)
    (m : Machine σ) : Option (Machine σ) := do
  let task ← m.tasks m.current
  let mm ← task.loading
  let (fresh, vm) ← m.vm.kmalloc kmalloc
  let (_, mm) ← mm_map mm addr len vm_flags fresh
  return { m.setTask m.current { task with loading := some mm } with vm }

/-- The asserted allocation of a page at the end of the user stack. -/
def load_icode.stackPage (pgdir : ℕ) (vm : Vm σ) (k : ℕ) : Option (Vm σ) := do
  let (page, vm) ← pgdir_alloc_page A pgdir (USTACKTOP - BitVec.ofNat 32 (k * PGSIZE)) PTE_USER vm
  guard page.isSome
  return vm

def load_icode.stack (pgdir : ℕ) (vm : Vm σ) : Option (Vm σ) :=
  [1, 2, 3, 4].foldlM (load_icode.stackPage A pgdir) vm

/-- The last part of `load_icode`: the stack, and the switch to the new directory. -/
def load_icode.finish (kmalloc : σ → Option (Bool × σ)) (m : Machine σ) :
    Option (Machine σ) := do
  let task ← m.tasks m.current
  let mm ← task.loading
  let (fresh, vm) ← m.vm.kmalloc kmalloc
  let (ret, mm) ← mm_map mm (USTACKTOP - USTACKSIZE) USTACKSIZE (VM_READ ||| VM_WRITE ||| VM_STACK)
    fresh
  guard (ret = 0)
  let pgdir ← mm.pgdir
  let vm ← load_icode.stack A pgdir vm
  return { (m.setTask m.current ⟨some mm, pgdir, none⟩).lcr3 pgdir with vm }

/-- The exits of `load_icode` with an error; the areas are unmapped unless none is there. -/
def load_icode.fail (unmap : Bool) (m : Machine σ) : Option (Machine σ) := do
  let task ← m.tasks m.current
  let mm ← task.loading
  let vm ← bif unmap then exit_mmap A mm m.vm else some m.vm
  let vm ← put_pgdir A mm vm
  let pgdir ← mm.pgdir
  return { m.setTask m.current { task with loading := none } with vm, dirs := m.dirs.erase pgdir }

/-- A miss of the current process in the TLB; a process that is killed gives up its address
space. -/
def tlbmiss (random : BitVec 4) (in_kernel write : Bool) (va : BitVec 32) (m : Machine σ) :
    Option (Machine σ) := do
  let task ← m.tasks m.current
  let (how, mm, vm) ← handle_tlbmiss A random in_kernel write va m.current_pgdir task.mm m.vm
  let m := { m.setTask m.current { task with mm } with vm }
  match how with
  | .resume => return m
  | .kill => release_mm A m

end Machine

variable {A} (S : runs.Spec A) (kmalloc : σ → Option (Bool × σ))

/-- One step of the kernel or of a user program. After the boot the kernel maps nothing in the
boot directory, and it accesses user addresses only for a process that has an address space. -/
inductive Machine.Step (m : Machine σ) : Machine σ → Prop where
  | alloc_pages {page pmm} {n : ℕ} : 0 < n → n ≤ S.limit →
      A.alloc n m.vm.pmm = some (page, pmm) → Step m { m with vm := { m.vm with pmm } }
  | free_pages {r pmm} {p n : ℕ} : r ∈ S.live m.vm.pmm → 0 < n → r.1 ≤ p → p + n ≤ r.1 + r.2 →
      (∀ q ∈ Finset.Ico p (p + n), IsData S m.dirs m.vm q ∧ count m.dirs m.vm q = 0) →
      A.free p n m.vm.pmm = some pmm → Step m { m with vm := { m.vm with pmm } }
  | store {p : ℕ} (i : ℕ) (w : BitVec 32) : IsData S m.dirs m.vm p →
      Step m { m with vm := m.vm.write (p, i) w }
  | user_store {task mm page} {va : BitVec 32} (w : BitVec 32) : m.tasks m.current = some task →
      task.mm = some mm → va < USERTOP → lookup m.vm.tlb.tlb va = some page → page.v = true →
      page.d = true → Step m { m with vm := m.vm.write (page.pfn.toNat, va.toNat % PGSIZE / 4) w }
  | call {vm} (c : Call) : c.Allowed S m.dirs m.vm → c.pgdir ≠ m.boot_pgdir →
      c.run A m.vm = some vm → Step m { m with vm }
  | tlbmiss {m' task mm} {random : BitVec 4} {in_kernel write : Bool} {va : BitVec 32} :
      m.tasks m.current = some task → task.mm = some mm →
      (lookup m.vm.tlb.tlb va).any mips32s.Isa.Page.v = false →
      m.tlbmiss A random in_kernel write va = some m' → Step m m'
  | fork {m'} {child : ℕ} : m.tasks child = none → m.do_fork A kmalloc child = some m' → Step m m'
  | release_mm {m'} : m.release_mm A = some m' → Step m m'
  | load_start {m' task} : m.tasks m.current = some task → task.loading = none →
      Machine.load_icode.start A kmalloc m = some m' → Step m m'
  | load_map {m'} {addr len vm_flags : BitVec 32} :
      Machine.load_icode.map kmalloc addr len vm_flags m = some m' → Step m m'
  | load_finish {m'} : Machine.load_icode.finish A kmalloc m = some m' → Step m m'
  | load_fail {m'} {unmap : Bool} : Machine.load_icode.fail A unmap m = some m' → Step m m'
  | proc_run {m'} {next : ℕ} : m.proc_run next = some m' → Step m m'
  | reap {pid : ℕ} {task} : m.tasks pid = some task → task.mm = none → task.loading = none →
      pid ≠ m.current → Step m { m with tasks := Function.update m.tasks pid none }

/-- The machine after the boot: one directory, without tables, and no address space yet. -/
structure Machine.Booted (m : Machine σ) : Prop where
  inv : S.Inv m.vm.pmm
  boot_owned : m.boot_pgdir ∈ S.owned m.vm.pmm
  ref_nonneg : ∀ p ∈ S.owned m.vm.pmm, 0 ≤ A.get m.vm.pmm p
  bare : Bare m.boot_pgdir m.vm
  dirs : m.dirs = {m.boot_pgdir}
  tasks : ∀ pid task, m.tasks pid = some task → task.mm = none ∧ task.loading = none

/-- The states that the machine reaches. -/
inductive Machine.Reach : Machine σ → Prop where
  | boot {m} : m.Booted S → Reach m
  | step {m m'} : Reach m → m.Step S kmalloc m' → Reach m'

end ucore
