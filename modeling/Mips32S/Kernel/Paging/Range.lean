import Mips32S.Kernel.Paging.Coherence
import Mips32S.Kernel.Paging.Functions

namespace ucore

variable {σ τ : Type} (A : runs.Allocator σ ℤ)

def PTSHIFT : ℕ := 22

def PTSIZE : ℕ := 2 ^ PTSHIFT

/-- A loop `do { .. } while (start != 0 && start < end)` over page numbers. The body yields
the next page, or none to leave the loop. -/
def pageLoop (body : ℕ → τ → Option (Option ℕ × τ)) (stop n : ℕ) (s : τ) :
    Option (Bool × τ) := do
  let (next, s) ← body n s
  match next with
  | none => return (false, s)
  | some next =>
    if n < next ∧ next < stop then pageLoop body stop next s else return (true, s)
termination_by stop - n

def pageAddr (n : ℕ) : BitVec 32 := BitVec.ofNat 32 (n * PGSIZE)

/-- The asserts at the head of the functions on ranges. -/
def rangeLoop (body : ℕ → τ → Option (Option ℕ × τ)) (start stop : BitVec 32) (s : τ) :
    Option (Bool × τ) := do
  guard (start.toNat % PGSIZE = 0 ∧ stop.toNat % PGSIZE = 0)
  guard (USER_ACCESS start stop)
  pageLoop body (stop.toNat / PGSIZE) (start.toNat / PGSIZE) s

def unmap_range.body (pgdir n : ℕ) (s : Vm σ) : Option (Option ℕ × Vm σ) := do
  let (ptep, s) ← get_pte A pgdir (pageAddr n) false s
  match ptep with
  | none => return (some ((n * PGSIZE + PTSIZE) / PTSIZE * PTSIZE / PGSIZE), s)
  | some ptep =>
    (if s.read ptep ≠ 0#32 then page_remove_pte A ptep s else some s).map (some (n + 1), ·)

def unmap_range (pgdir : ℕ) (start stop : BitVec 32) (s : Vm σ) : Option (Vm σ) :=
  (rangeLoop (unmap_range.body A pgdir) start stop s).map Prod.snd

/-- Freeing the table of a directory entry. -/
def exit_range.free (pgdir pde_idx : ℕ) (s : Vm σ) : Option (Vm σ) :=
  if ptep_present (s.mem pgdir pde_idx) then do
    let page ← pa2page A.size (PTE_ADDR (s.mem pgdir pde_idx))
    let s ← free_page A page s
    return s.write (pgdir, pde_idx) 0#32
  else some s

def exit_range.body (pgdir n : ℕ) (s : Vm σ) : Option (Option ℕ × Vm σ) :=
  (exit_range.free A pgdir (PDX (pageAddr n)) s).map (some (n + PTSIZE / PGSIZE), ·)

def exit_range (pgdir : ℕ) (start stop : BitVec 32) (s : Vm σ) : Option (Vm σ) := do
  guard (start.toNat % PGSIZE = 0 ∧ stop.toNat % PGSIZE = 0)
  guard (USER_ACCESS start stop)
  let (_, s) ← pageLoop (exit_range.body A pgdir) (stop.toNat / PGSIZE)
    (start.toNat / PTSIZE * PTSIZE / PGSIZE) s
  return s

def Vm.memcpy (s : Vm σ) (dst src : ℕ) : Vm σ :=
  { s with mem := Function.update s.mem dst (s.mem src) }

/-- Copying the page of the entry `ptep` to `target`. A failure to allocate the copy fails an
assert, that to allocate a table for it is reported. -/
def copy_range.copy (target n : ℕ) (ptep : ℕ × ℕ) (s : Vm σ) : Option (Option ℕ × Vm σ) := do
  let (nptep, s) ← get_pte A target (pageAddr n) true s
  match nptep with
  | none => return (none, s)
  | some _ =>
    let perm := s.read ptep &&& PTE_USER
    let page ← pte2page A.size (s.read ptep)
    let (npage, s) ← alloc_page A s
    let npage ← npage
    let (ret, s) ← page_insert A target npage (pageAddr n) perm (s.memcpy npage page)
    guard (ret = 0)
    return (some (n + 1), s)

/-- Where there is no table the next address is a table further on; it is not rounded down to
the start of that table. -/
def copy_range.body (target source n : ℕ) (s : Vm σ) : Option (Option ℕ × Vm σ) := do
  let (ptep, s) ← get_pte A source (pageAddr n) false s
  match ptep with
  | none => return (some ((n * PGSIZE + PTSIZE) / PGSIZE), s)
  | some ptep =>
    if ptep_present (s.read ptep) then copy_range.copy A target n ptep s
    else return (some (n + 1), s)

def copy_range (target source : ℕ) (start stop : BitVec 32) (s : Vm σ) : Option (ℤ × Vm σ) := do
  let (done, s) ← rangeLoop (copy_range.body A target source) start stop s
  return (if done then 0 else -E_NO_MEM, s)

end ucore
