import Mips32S.Kernel.Paging.Range

namespace ucore

variable {σ : Type} (A : runs.Allocator σ ℤ)

def exit_mmap (mm : mm_struct) (s : Vm σ) : Option (Vm σ) := do
  let pgdir ← mm.pgdir
  let s ← mm.mmap_list.foldlM
    (fun s vma => unmap_range A pgdir vma.vm_start vma.vm_end s) s
  mm.mmap_list.foldlM (fun s vma => exit_range A pgdir vma.vm_start vma.vm_end s) s

def setup_pgdir (boot_pgdir : ℕ) (mm : mm_struct) (s : Vm σ) :
    Option (ℤ × mm_struct × Vm σ) := do
  let (page, s) ← alloc_page A s
  match page with
  | none => return (-E_NO_MEM, mm, s)
  | some page =>
    let pgdir ← KADDR A.size (page2pa page)
    return (0, { mm with pgdir := some pgdir }, s.memcpy pgdir boot_pgdir)

def put_pgdir (mm : mm_struct) (s : Vm σ) : Option (Vm σ) := do
  let pgdir ← mm.pgdir
  free_page A pgdir s

/-- A call of `kmalloc` succeeds or not, and may take pages from the allocator. -/
def Vm.kmalloc (kmalloc : σ → Option (Bool × σ)) (s : Vm σ) : Option (Bool × Vm σ) := do
  let (ok, pmm) ← kmalloc s.pmm
  return (ok, { s with pmm })

/-- The loop of `dup_mmap` with the page tables: `source` is the directory that is copied, and
`kmalloc` what `vma_create` allocates with. -/
def Vm.dupAreas (kmalloc : σ → Option (Bool × σ)) (source : ℕ) :
    mm_struct → List vma_struct → Vm σ → Option (ℤ × mm_struct × Vm σ)
  | target, [], s => some (0, target, s)
  | target, vma :: rest, s => do
    let (fresh, s) ← s.kmalloc kmalloc
    if fresh then
      let target ← insert_vma_struct target vma
      let pgdir ← target.pgdir
      let (ret, s) ← copy_range A pgdir source vma.vm_start vma.vm_end s
      if ret = 0 then Vm.dupAreas kmalloc source target rest s
      else return (-E_NO_MEM, target, s)
    else return (-E_NO_MEM, target, s)

/-- The copy of the address space `oldmm` of a process that forks. The memory of an `mm_struct`
and of areas that are given up is left to later steps. -/
def copy_mm (kmalloc : σ → Option (Bool × σ)) (boot_pgdir : ℕ) (oldmm : mm_struct) (s : Vm σ) :
    Option (ℤ × Option mm_struct × Vm σ) := do
  let (fresh, s) ← s.kmalloc kmalloc
  if fresh then
    let (ret, mm, s) ← setup_pgdir A boot_pgdir mm_create s
    if ret ≠ 0 then return (-E_NO_MEM, none, s)
    else
      let source ← oldmm.pgdir
      let (ret, mm, s) ← Vm.dupAreas A kmalloc source mm oldmm.mmap_list.reverse s
      if ret ≠ 0 then
        let s ← exit_mmap A mm s
        let s ← put_pgdir A mm s
        return (ret, none, s)
      else return (0, some mm, s)
  else return (-E_NO_MEM, none, s)

/-- The accesses that the flags of an area allow, by the bits of the error code: 1 for a
present page, 2 for a write. -/
def pgfault_allowed (error_code vm_flags : BitVec 32) : Bool :=
  if error_code &&& 3#32 = 0#32 then vm_flags &&& (VM_READ ||| VM_EXEC) != 0#32
  else if error_code &&& 3#32 = 1#32 then false
  else vm_flags &&& VM_WRITE != 0#32

/-- Mapping a page for an area of the address space. -/
def do_pgfault.map (pgdir : ℕ) (addr vm_flags : BitVec 32) (s : Vm σ) : Option (ℤ × Vm σ) := do
  let perm := if vm_flags &&& VM_WRITE ≠ 0#32 then PTE_U ||| PTE_W else PTE_U
  let addr := ROUNDDOWN_2N addr PGSHIFT
  let (ptep, s) ← get_pte A pgdir addr true s
  match ptep with
  | none => return (-E_NO_MEM, s)
  | some ptep =>
    if s.read ptep = 0#32 then
      let (page, s) ← pgdir_alloc_page A pgdir addr perm s
      return (if page.isNone then -E_NO_MEM else 0, s)
    else return (-E_NO_MEM, s)

def do_pgfault (mm : Option mm_struct) (error_code addr : BitVec 32) (s : Vm σ) :
    Option (ℤ × Option mm_struct × Vm σ) :=
  match mm with
  | none => some (-E_INVAL, none, s)
  | some mm =>
    match find_vma mm addr with
    | (none, mm) => some (-E_INVAL, some mm, s)
    | (some vma, mm) =>
      if addr < vma.vm_start ∨ ¬ pgfault_allowed error_code vma.vm_flags then
        some (-E_INVAL, some mm, s)
      else do
        let pgdir ← mm.pgdir
        let (ret, s) ← do_pgfault.map A pgdir addr vma.vm_flags s
        return (ret, some mm, s)

def get_error_code (write : Bool) (pte : Option (BitVec 32)) : BitVec 32 :=
  (if pte.any ptep_present then 1#32 else 0#32) ||| (if write then 2#32 else 0#32)

/-- How a trap ends, if not in a panic: the program goes on or is killed. -/
inductive TrapEnd where
  | resume
  | kill
  deriving DecidableEq

/-- The end of `handle_tlbmiss` for a value of `ret`. -/
def handle_tlbmiss.exit (in_kernel : Bool) (ret : ℤ) : Option TrapEnd :=
  if ret ≠ 0 then if in_kernel then none else some .kill
  else some .resume

/-- The TLB has no valid page for `vaddr`; `mm` is that of the current process. -/
def handle_tlbmiss (random : BitVec 4) (in_kernel write : Bool) (vaddr : BitVec 32)
    (current_pgdir : ℕ) (mm : Option mm_struct) (s : Vm σ) :
    Option (TrapEnd × Option mm_struct × Vm σ) := do
  let (ptep, s) ← get_pte A current_pgdir vaddr false s
  match ptep.filter fun ptep => !ptep_invalid (s.read ptep) with
  | none =>
    let (ret, mm, s) ← do_pgfault A mm (get_error_code write (ptep.map s.read)) vaddr s
    let how ← handle_tlbmiss.exit in_kernel ret
    return (how, mm, s)
  | some ptep =>
    if in_kernel then return (.resume, mm, tlb_refill random vaddr ptep s)
    else if !ptep_u_read (s.read ptep) then return (.kill, mm, s)
    else if write && !ptep_u_write (s.read ptep) then return (.kill, mm, s)
    else return (.resume, mm, tlb_refill random vaddr ptep s)

end ucore
