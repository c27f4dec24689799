import Mips32S.Kernel.Paging.Tlb
import Mips32S.Kernel.Vma.Vmm
import Mips32S.Lib.Allocator

namespace ucore

open mips32s.Isa
variable {σ : Type} (A : runs.Allocator σ ℤ)

/-- The state of the memory manager: the allocator, the words of the physical pages and the
TLB. -/
structure Vm (σ : Type) where
  pmm : σ
  mem : ℕ → ℕ → BitVec 32
  tlb : TlbUnit

namespace Vm

def read (s : Vm σ) (ptep : ℕ × ℕ) : BitVec 32 := s.mem ptep.1 ptep.2

def write (s : Vm σ) (ptep : ℕ × ℕ) (w : BitVec 32) : Vm σ :=
  { s with mem := Function.update s.mem ptep.1 (Function.update (s.mem ptep.1) ptep.2 w) }

def memset (s : Vm σ) (page : ℕ) : Vm σ :=
  { s with mem := Function.update s.mem page fun _ => 0#32 }

def tlb_invalidate_all (s : Vm σ) : Vm σ := { s with tlb := ucore.tlb_invalidate_all s.tlb }

end Vm

/-- Loading the pair of pages of `badaddr` into a random entry of the TLB. -/
def tlb_refill (random : BitVec 4) (badaddr : BitVec 32) (ptep : ℕ × ℕ) (s : Vm σ) : Vm σ :=
  let ptep := if badaddr &&& 1#32 <<< 12 ≠ 0#32 then (ptep.1, ptep.2 - 1) else ptep
  { s with
    tlb := tlb_replace_random random (badaddr &&& THUMIPS_TLB_ENTRYH_VPN2_MASK)
      (pte2tlblow (s.read ptep)) (pte2tlblow (s.read (ptep.1, ptep.2 + 1))) s.tlb }

def alloc_page (s : Vm σ) : Option (Option ℕ × Vm σ) := do
  let (page, pmm) ← A.alloc 1 s.pmm
  return (page, { s with pmm })

def free_page (page : ℕ) (s : Vm σ) : Option (Vm σ) := do
  let pmm ← A.free page 1 s.pmm
  return { s with pmm }

def page_ref (page : ℕ) (s : Vm σ) : ℤ := A.get s.pmm page

def set_page_ref (page : ℕ) (val : ℤ) (s : Vm σ) : Vm σ :=
  { s with pmm := A.set page val s.pmm }

def page_ref_inc (page : ℕ) (s : Vm σ) : Vm σ := set_page_ref A page (page_ref A page s + 1) s

def page_ref_dec (page : ℕ) (s : Vm σ) : Vm σ := set_page_ref A page (page_ref A page s - 1) s

/-- The entry of `la` in the table that its directory entry names. -/
def get_pte.entry (pgdir : ℕ) (la : BitVec 32) (s : Vm σ) :
    Option (Option (ℕ × ℕ) × Vm σ) := do
  let table ← KADDR A.size (s.mem pgdir (PDX la) &&& ~~~0xfff#32)
  return (some (table, PTX la), s)

/-- A pointer to a page table entry is the page of the table with the index in it. -/
def get_pte (pgdir : ℕ) (la : BitVec 32) (create : Bool) (s : Vm σ) :
    Option (Option (ℕ × ℕ) × Vm σ) :=
  if ptep_present (s.mem pgdir (PDX la)) then get_pte.entry A pgdir la s
  else if !create then some (none, s)
  else do
    let (page, s) ← alloc_page A s
    match page with
    | none => return (none, s)
    | some page =>
      let s := set_page_ref A page 1 s
      let pa := page2pa page
      let kva ← KADDR A.size pa
      let s := s.memset kva
      get_pte.entry A pgdir la (s.write (pgdir, PDX la) (pa ||| PTE_P ||| PTE_W ||| PTE_U))

/-- Taking one reference from a page, and freeing it with the last. -/
def page_remove_pte.drop (page : ℕ) (s : Vm σ) : Option (Vm σ) :=
  let s := page_ref_dec A page s
  if page_ref A page s = 0 then free_page A page s else some s

def page_remove_pte (ptep : ℕ × ℕ) (s : Vm σ) : Option (Vm σ) :=
  if ptep_present (s.read ptep) then do
    let page ← pte2page A.size (s.read ptep)
    let s ← page_remove_pte.drop A page s
    return (s.write ptep 0#32).tlb_invalidate_all
  else some s.tlb_invalidate_all

def page_remove (pgdir : ℕ) (la : BitVec 32) (s : Vm σ) : Option (Vm σ) := do
  let (ptep, s) ← get_pte A pgdir la false s
  match ptep with
  | none => return s
  | some ptep => page_remove_pte A ptep s

/-- Taking the old mapping of the entry out of the way. -/
def page_insert.replace (page : ℕ) (ptep : ℕ × ℕ) (s : Vm σ) : Option (Vm σ) :=
  if ptep_present (s.read ptep) then do
    let p ← pte2page A.size (s.read ptep)
    if p = page then return page_ref_dec A page s
    else page_remove_pte A ptep s
  else some s

def page_insert (pgdir page : ℕ) (la perm : BitVec 32) (s : Vm σ) : Option (ℤ × Vm σ) := do
  let (ptep, s) ← get_pte A pgdir la true s
  match ptep with
  | none => return (-E_NO_MEM, s)
  | some ptep =>
    let s ← page_insert.replace A page ptep (page_ref_inc A page s)
    return (0, (s.write ptep (page2pa page ||| PTE_P ||| perm)).tlb_invalidate_all)

/-- The kernel has no swapping: `swap_init_ok` stays 0. -/
def pgdir_alloc_page (pgdir : ℕ) (la perm : BitVec 32) (s : Vm σ) :
    Option (Option ℕ × Vm σ) := do
  let (page, s) ← alloc_page A s
  match page with
  | none => return (none, s)
  | some page =>
    let (ret, s) ← page_insert A pgdir page la perm s
    if ret ≠ 0 then
      let s ← free_page A page s
      return (none, s)
    else return (some page, s)

end ucore
