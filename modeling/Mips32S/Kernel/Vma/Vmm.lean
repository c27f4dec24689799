import Mathlib.Data.BitVec

namespace ucore

def PGSHIFT : ℕ := 12

def PGSIZE : ℕ := 2 ^ PGSHIFT

def USERBASE : BitVec 32 := 0x10000000#32

def USERTOP : BitVec 32 := 0x80000000#32

def E_INVAL : ℤ := 3

def E_NO_MEM : ℤ := 4

def E_NOENT : ℤ := 16

def ROUNDDOWN_2N (a : BitVec 32) (n : ℕ) : BitVec 32 := (a >>> n) <<< n

def ROUNDUP_2N (a : BitVec 32) (n : ℕ) : BitVec 32 := ROUNDDOWN_2N (a + 1#32 <<< n - 1#32) n

def USER_ACCESS (start stop : BitVec 32) : Prop := USERBASE ≤ start ∧ start < stop ∧ stop ≤ USERTOP

instance (start stop : BitVec 32) : Decidable (USER_ACCESS start stop) :=
  inferInstanceAs (Decidable (_ ∧ _))

def VM_READ : BitVec 32 := 0x00000001#32

def VM_WRITE : BitVec 32 := 0x00000002#32

def VM_EXEC : BitVec 32 := 0x00000004#32

def VM_STACK : BitVec 32 := 0x00000008#32

structure vma_struct where
  vm_start : BitVec 32
  vm_end : BitVec 32
  vm_flags : BitVec 32
  deriving DecidableEq

/-- The areas are in the order of their links; a failed `assert` is `none`. -/
structure mm_struct where
  mmap_list : List vma_struct
  mmap_cache : Option vma_struct
  /-- The page that holds the page directory. -/
  pgdir : Option ℕ
  map_count : ℤ
  deriving DecidableEq

def mm_create : mm_struct := ⟨[], none, none, 0⟩

/-- The first area that ends behind `addr`, through the cache. -/
def find_vma (mm : mm_struct) (addr : BitVec 32) : Option vma_struct × mm_struct :=
  let vma := match mm.mmap_cache with
    | some vma =>
      if vma.vm_start ≤ addr ∧ addr < vma.vm_end then some vma
      else mm.mmap_list.find? (addr < ·.vm_end)
    | none => mm.mmap_list.find? (addr < ·.vm_end)
  (vma, { mm with mmap_cache := vma.or mm.mmap_cache })

/-- The assertions of `check_vma_overlap`. -/
def check_vma_overlap (prev next : vma_struct) : Bool :=
  prev.vm_start < prev.vm_end ∧ prev.vm_end ≤ next.vm_start ∧ next.vm_start < next.vm_end

def insert_vma_struct (mm : mm_struct) (vma : vma_struct) : Option mm_struct := do
  guard (vma.vm_start < vma.vm_end)
  let before := mm.mmap_list.takeWhile (·.vm_start ≤ vma.vm_start)
  let after := mm.mmap_list.dropWhile (·.vm_start ≤ vma.vm_start)
  guard (before.getLast?.all (check_vma_overlap · vma))
  guard (after.head?.all (check_vma_overlap vma ·))
  return { mm with mmap_list := before ++ vma :: after, map_count := mm.map_count + 1 }

/-- `fresh` tells whether `vma_create` obtains memory. -/
def mm_map (mm : mm_struct) (addr len vm_flags : BitVec 32) (fresh : Bool) :
    Option (ℤ × mm_struct) :=
  let start := ROUNDDOWN_2N addr PGSHIFT
  let stop := ROUNDUP_2N (addr + len) PGSHIFT
  if USER_ACCESS start stop then
    match find_vma mm start with
    | (some vma, mm) =>
      if vma.vm_start < stop then some (-E_INVAL, mm) else create mm start stop
    | (none, mm) => create mm start stop
  else some (-E_INVAL, mm)
where
  create (mm : mm_struct) (start stop : BitVec 32) : Option (ℤ × mm_struct) :=
    if fresh then do
      let mm ← insert_vma_struct mm ⟨start, stop, vm_flags⟩
      return (0, mm)
    else some (-E_NO_MEM, mm)

/-- The loop of `dup_mmap` over the areas of the source from the last one; `fresh` tells for
which areas `vma_create` obtains memory and `copied` for which `copy_range` succeeds. -/
def dupAreas (fresh copied : vma_struct → Bool) :
    mm_struct → List vma_struct → Option (ℤ × mm_struct)
  | target, [] => some (0, target)
  | target, vma :: rest =>
    if fresh vma then do
      let target ← insert_vma_struct target vma
      if copied vma then dupAreas fresh copied target rest else return (-E_NO_MEM, target)
    else some (-E_NO_MEM, target)

def dup_mmap (fresh copied : vma_struct → Bool) (target source : mm_struct) :
    Option (ℤ × mm_struct) :=
  dupAreas fresh copied target source.mmap_list.reverse

end ucore
