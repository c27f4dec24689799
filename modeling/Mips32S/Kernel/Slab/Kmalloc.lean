import Mips32S.Kernel.Vma.Vmm
import Mips32S.Lib.Allocator

open Function

namespace ucore

def BUFCTL_END : ℕ := 0xFFFFFFFF

def SLAB_LIMIT : ℕ := 0xFFFFFFFE

def MIN_SIZE_ORDER : ℕ := 5

def MAX_SIZE_ORDER : ℕ := 17

def SLAB_CACHE_NUM : ℕ := MAX_SIZE_ORDER - MIN_SIZE_ORDER + 1

def ALIGN_SHIFT : ℕ := 4

def KMALLOC_MAX_ORDER : ℕ := 10

/-- `sizeof(slab_t)`: two links, a pointer and three numbers. -/
def sizeof_slab_t : ℕ := 24

def sizeof_kmem_bufctl_t : ℕ := 4

/-- A cache of objects of one size. `slab_cachep` is the number of the cache for the management
blocks. -/
structure kmem_cache where
  objsize : ℕ
  objsize_shift : ℕ
  num : ℕ
  offset : ℕ
  off_slab : Bool
  page_order : ℕ
  slab_cachep : ℕ
  deriving DecidableEq

def slab_mgmt_size (num : ℕ) : ℕ :=
  (sizeof_slab_t + num * sizeof_kmem_bufctl_t + (2 ^ ALIGN_SHIFT - 1)) / 2 ^ ALIGN_SHIFT *
    2 ^ ALIGN_SHIFT

/-- The table has a row for the order 0 only. -/
def slab_div_table : List (List ℕ) := [[113, 59, 30, 15, 0, 0, 0, 0]]

def cache_estimate.fit (objsize slab_size : ℕ) : ℕ → ℕ
  | 0 => 0
  | nr_objs + 1 =>
    if slab_mgmt_size (nr_objs + 1) + (nr_objs + 1) * objsize > slab_size then
      fit objsize slab_size nr_objs
    else nr_objs + 1

/-- The space that is left over and the number of objects. -/
def cache_estimate (order objsize_shift : ℕ) (off_slab : Bool) : Option (ℕ × ℕ) :=
  let slab_size := PGSIZE <<< order
  let objsize := 1 <<< objsize_shift
  if off_slab then
    let nr_objs := min (slab_size >>> objsize_shift) SLAB_LIMIT
    some (slab_size - nr_objs * objsize, nr_objs)
  else do
    let row ← slab_div_table[order]?
    let nr_objs ← row[objsize_shift - 5]?
    let nr_objs := min (cache_estimate.fit objsize slab_size nr_objs) SLAB_LIMIT
    return (slab_size - nr_objs * objsize - slab_mgmt_size nr_objs, nr_objs)

/-- The loop of `calculate_slab_order` from `order` on: the number of objects, the order and the
space that is left over. -/
def calculate_slab_order.search (objsize_shift : ℕ) (off_slab : Bool) :
    ℕ → ℕ → Option (ℕ × ℕ × ℕ)
  | 0, _ => none
  | fuel + 1, order => do
    let (remainder, num) ← cache_estimate order objsize_shift off_slab
    if num ≠ 0 then
      if off_slab ∧ num > (1 <<< objsize_shift - sizeof_slab_t) / sizeof_kmem_bufctl_t then none
      else if remainder * 8 ≤ PGSIZE <<< order then some (num, order, remainder)
      else search objsize_shift off_slab fuel (order + 1)
    else search objsize_shift off_slab fuel (order + 1)

def calculate_slab_order (objsize_shift : ℕ) (off_slab : Bool) : Option (ℕ × ℕ × ℕ) :=
  calculate_slab_order.search objsize_shift off_slab (KMALLOC_MAX_ORDER + 1) 0

def kmalloc.getorder.search (n : ℕ) : ℕ → ℕ → Option ℕ
  | 0, _ => none
  | fuel + 1, order => if n ≤ 1 <<< order then some order else search n fuel (order + 1)

/-- The order of the objects for `n` bytes. -/
def kmalloc.getorder (n : ℕ) : Option ℕ := kmalloc.getorder.search n SLAB_CACHE_NUM MIN_SIZE_ORDER

def init_kmem_cache (objsize : ℕ) : Option kmem_cache := do
  let objsize := (objsize + (2 ^ ALIGN_SHIFT - 1)) / 2 ^ ALIGN_SHIFT * 2 ^ ALIGN_SHIFT
  let off_slab := decide (objsize ≥ PGSIZE >>> 3)
  let objsize_shift ← kmalloc.getorder objsize
  let (num, page_order, left_over) ← calculate_slab_order objsize_shift off_slab
  guard (num > 0)
  let mgmt_size := slab_mgmt_size num
  let off_slab := if off_slab ∧ left_over ≥ mgmt_size then false else off_slab
  if off_slab then
    let order ← kmalloc.getorder mgmt_size
    return ⟨objsize, objsize_shift, num, 0, true, page_order, order - MIN_SIZE_ORDER⟩
  else return ⟨objsize, objsize_shift, num, mgmt_size, false, page_order, 0⟩

/-- The caches that `slab_init` sets up. -/
def slab_init : Option (List kmem_cache) :=
  (List.range SLAB_CACHE_NUM).mapM fun i => init_kmem_cache (1 <<< (i + MIN_SIZE_ORDER))

/-- A slab, with the list of its free objects behind it. -/
structure slab_t where
  s_mem : ℕ
  inuse : ℕ
  offset : ℕ
  free : ℕ
  bufctl : ℕ → ℕ

/-- The state of the allocator: the pages, the lists of each cache, the slabs by their addresses,
and what the descriptor of a page says about its slab. An address is counted from `KERNBASE`, so
that the page `p` begins at `p * PGSIZE`. A panic is `none`. -/
structure Heap (σ : Type) where
  pmm : σ
  slabs_full : ℕ → List ℕ
  slabs_notfull : ℕ → List ℕ
  slab : ℕ → slab_t
  PageSlab : ℕ → Bool
  page_cache : ℕ → ℕ
  page_slab : ℕ → ℕ

def page2kva (page : ℕ) : ℕ := page * PGSIZE

def kva2page (kva : ℕ) : ℕ := kva / PGSIZE

namespace Heap

variable {σ δ : Type} (A : runs.Allocator σ δ) (C : ℕ → kmem_cache)

def modifySlab (slabp : ℕ) (f : slab_t → slab_t) (h : Heap σ) : Heap σ :=
  { h with slab := update h.slab slabp (f (h.slab slabp)) }

/-- `list_del` of the link of a slab, from whichever list it is in. -/
def list_del (cachep slabp : ℕ) (h : Heap σ) : Heap σ :=
  { h with
    slabs_full := update h.slabs_full cachep ((h.slabs_full cachep).erase slabp)
    slabs_notfull := update h.slabs_notfull cachep ((h.slabs_notfull cachep).erase slabp) }

def add_full (cachep slabp : ℕ) (h : Heap σ) : Heap σ :=
  { h with slabs_full := update h.slabs_full cachep (slabp :: h.slabs_full cachep) }

def add_notfull (cachep slabp : ℕ) (h : Heap σ) : Heap σ :=
  { h with
    slabs_notfull := update h.slabs_notfull cachep (slabp :: h.slabs_notfull cachep) }

/-- The slab for new pages, with its management block. -/
def kmem_cache_slabmgmt (alloc : ℕ → Heap σ → Option (Option ℕ × Heap σ)) (cachep page : ℕ)
    (h : Heap σ) : Option (Option ℕ × Heap σ) := do
  let (slabp, h) ← if (C cachep).off_slab then alloc (C cachep).slab_cachep h
    else some (some (page2kva page), h)
  match slabp with
  | none => return (none, h)
  | some slabp =>
    return (some slabp, h.modifySlab slabp fun x => { x with
      inuse := 0
      offset := (C cachep).offset
      s_mem := page2kva page + (C cachep).offset })

/-- The loop of `kmem_cache_grow` over the pages of the new slab. -/
def set_pages (cachep slabp page n : ℕ) (h : Heap σ) : Heap σ :=
  let new p := page ≤ p ∧ p < page + n
  { h with
    page_cache := fun p => if new p then cachep else h.page_cache p
    page_slab := fun p => if new p then slabp else h.page_slab p
    PageSlab := fun p => if new p then true else h.PageSlab p }

/-- The bufctls of a new slab. -/
def new_bufctl (num : ℕ) (bufctl : ℕ → ℕ) (i : ℕ) : ℕ :=
  if i = num - 1 then BUFCTL_END else if i < num then i + 1 else bufctl i

def kmem_cache_grow (alloc : ℕ → Heap σ → Option (Option ℕ × Heap σ)) (cachep : ℕ) (h : Heap σ) :
    Option (Bool × Heap σ) := do
  let n := 1 <<< (C cachep).page_order
  let (page, pmm) ← A.alloc n h.pmm
  match page with
  | none => return (false, { h with pmm })
  | some page =>
    let (slabp, h) ← kmem_cache_slabmgmt C alloc cachep page { h with pmm }
    match slabp with
    | none =>
      let pmm ← A.free page n h.pmm
      return (false, { h with pmm })
    | some slabp =>
      let h := (h.set_pages cachep slabp page n).modifySlab slabp fun x => { x with
        bufctl := new_bufctl (C cachep).num x.bufctl
        free := 0 }
      return (true, h.add_notfull cachep slabp)

def kmem_cache_alloc_one (cachep slabp : ℕ) (h : Heap σ) : ℕ × Heap σ :=
  let x := h.slab slabp
  let objp := x.s_mem + x.free * (C cachep).objsize
  let h := h.modifySlab slabp fun x => { x with inuse := x.inuse + 1, free := x.bufctl x.free }
  if x.bufctl x.free = BUFCTL_END then (objp, (h.list_del cachep slabp).add_full cachep slabp)
  else (objp, h)

/-- At most `fuel` slabs are made; the management block of a slab is an object of another. -/
def kmem_cache_alloc : ℕ → ℕ → Heap σ → Option (Option ℕ × Heap σ)
  | fuel, cachep, h =>
    match h.slabs_notfull cachep with
    | slabp :: _ =>
      let (objp, h) := kmem_cache_alloc_one C cachep slabp h
      some (some objp, h)
    | [] =>
      match fuel with
      | 0 => none
      | fuel + 1 => do
        let (grown, h) ← kmem_cache_grow A C (kmem_cache_alloc fuel) cachep h
        if grown then kmem_cache_alloc fuel cachep h else return (none, h)

def kmalloc (size : ℕ) (h : Heap σ) : Option (Option ℕ × Heap σ) := do
  guard (size > 0)
  let order ← ucore.kmalloc.getorder size
  if order > MAX_SIZE_ORDER then return (none, h)
  else kmem_cache_alloc A C SLAB_CACHE_NUM (order - MIN_SIZE_ORDER) h

/-- The loop of `kmem_slab_destroy` over the pages of the slab. -/
def clear_pages : ℕ → ℕ → Heap σ → Option (Heap σ)
  | 0, _, h => some h
  | n + 1, page, h =>
    if h.PageSlab page then
      clear_pages n (page + 1) { h with PageSlab := update h.PageSlab page false }
    else none

def kmem_slab_destroy (free : ℕ → ℕ → Heap σ → Option (Heap σ)) (cachep slabp : ℕ) (h : Heap σ) :
    Option (Heap σ) := do
  let x := h.slab slabp
  let page := kva2page (x.s_mem - x.offset)
  let n := 1 <<< (C cachep).page_order
  let h ← h.clear_pages n page
  let pmm ← A.free page n h.pmm
  let h := { h with pmm }
  if (C cachep).off_slab then free (C cachep).slab_cachep slabp h else return h

def kmem_cache_free_one (free : ℕ → ℕ → Heap σ → Option (Heap σ)) (cachep slabp objp : ℕ)
    (h : Heap σ) : Option (Heap σ) :=
  let objnr := (objp - (h.slab slabp).s_mem) >>> (C cachep).objsize_shift
  let h := h.modifySlab slabp fun x => { x with
    bufctl := update x.bufctl objnr x.free
    free := objnr
    inuse := x.inuse - 1 }
  if (h.slab slabp).inuse = 0 then
    kmem_slab_destroy A C free cachep slabp (h.list_del cachep slabp)
  else if (h.slab slabp).inuse = (C cachep).num - 1 then
    some ((h.list_del cachep slabp).add_notfull cachep slabp)
  else some h

/-- At most `fuel` slabs are given back. -/
def kmem_cache_free : ℕ → ℕ → ℕ → Heap σ → Option (Heap σ)
  | 0, _, _, _ => none
  | fuel + 1, cachep, objp, h =>
    let page := kva2page objp
    if h.PageSlab page then
      kmem_cache_free_one A C (kmem_cache_free fuel) cachep (h.page_slab page) objp h
    else none

def kfree (objp : ℕ) (h : Heap σ) : Option (Heap σ) :=
  kmem_cache_free A C SLAB_CACHE_NUM (h.page_cache (kva2page objp)) objp h

end Heap

end ucore
