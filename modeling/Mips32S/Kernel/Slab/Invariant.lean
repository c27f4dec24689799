import Mips32S.Kernel.Slab.Kmalloc
import Mips32S.Lib.FreeList

open freelist Function List

namespace ucore

/-- What `slab_init` makes sure of: the objects fit into the pages of a slab behind its
management area, and a management block outside the slab is an object of a cache that keeps its
own inside. -/
structure Caches (C : ℕ → kmem_cache) : Prop where
  size : ∀ i < SLAB_CACHE_NUM, (C i).objsize = 2 ^ (C i).objsize_shift ∧
    (C i).objsize_shift = i + MIN_SIZE_ORDER
  num : ∀ i < SLAB_CACHE_NUM, 0 < (C i).num ∧ (C i).num ≤ BUFCTL_END
  fits : ∀ i < SLAB_CACHE_NUM,
    (C i).offset + (C i).num * (C i).objsize ≤ PGSIZE * 2 ^ (C i).page_order
  order : ∀ i < SLAB_CACHE_NUM, (C i).page_order ≤ 5
  inside : ∀ i < SLAB_CACHE_NUM, (C i).off_slab = false → slab_mgmt_size (C i).num ≤ (C i).offset
  outside : ∀ i < SLAB_CACHE_NUM, (C i).off_slab = true → (C i).offset = 0 ∧
    (C i).slab_cachep < SLAB_CACHE_NUM ∧ (C (C i).slab_cachep).off_slab = false ∧
    slab_mgmt_size (C i).num ≤ (C (C i).slab_cachep).objsize

/-- The cache number `i`. -/
def cacheOf (l : List kmem_cache) (i : ℕ) : kmem_cache := l.getD i ⟨0, 0, 0, 0, false, 0, 0⟩

theorem slab_init_caches : ∃ l, slab_init = some l ∧ Caches (cacheOf l) := by
  refine ⟨[⟨32, 5, 113, 480, false, 0, 0⟩, ⟨64, 6, 59, 272, false, 0, 0⟩,
    ⟨128, 7, 30, 144, false, 0, 0⟩, ⟨256, 8, 15, 96, false, 0, 0⟩, ⟨512, 9, 8, 0, true, 0, 1⟩,
    ⟨1024, 10, 4, 0, true, 0, 1⟩, ⟨2048, 11, 2, 0, true, 0, 0⟩, ⟨4096, 12, 1, 0, true, 0, 0⟩,
    ⟨8192, 13, 1, 0, true, 1, 0⟩, ⟨16384, 14, 1, 0, true, 2, 0⟩, ⟨32768, 15, 1, 0, true, 3, 0⟩,
    ⟨65536, 16, 1, 0, true, 4, 0⟩, ⟨131072, 17, 1, 0, true, 5, 0⟩], by decide, ?_⟩
  constructor <;> decide

theorem slab_mgmt_size_pos (num : ℕ) : 0 < slab_mgmt_size num := by
  simp only [slab_mgmt_size, sizeof_slab_t, sizeof_kmem_bufctl_t, ALIGN_SHIFT]
  omega

namespace Heap

variable {σ δ : Type} {A : runs.Allocator σ δ} (S : runs.Spec A) (C : ℕ → kmem_cache)
  (free : ℕ → List ℕ) (page : ℕ → ℕ) (L : Set (ℕ × ℕ)) (h : Heap σ)

/-- The slabs of a cache. -/
def slabs (i : ℕ) : List ℕ := h.slabs_notfull i ++ h.slabs_full i

/-- The address of an object of a slab. -/
def object (i a x : ℕ) : ℕ := (h.slab a).s_mem + x * (C i).objsize

/-- A slab of the cache `i` with its management block at `a`, its pages from `b` on, and the free
objects `l` in the order of their list. -/
structure SlabOk (i a b : ℕ) (l : List ℕ) : Prop where
  offset : (h.slab a).offset = (C i).offset
  s_mem : (h.slab a).s_mem = page2kva b + (C i).offset
  pages : ∀ p, b ≤ p → p < b + 2 ^ (C i).page_order →
    h.PageSlab p ∧ h.page_cache p = i ∧ h.page_slab p = a
  home : (C i).off_slab = false → a = page2kva b
  chain : Chain (h.slab a).bufctl BUFCTL_END (h.slab a).free l
  nodup : l.Nodup
  bound : ∀ x ∈ l, x < (C i).num
  inuse : (h.slab a).inuse + l.length = (C i).num

/-- The object at `o` of the cache `i` is in use. -/
def Taken (i o : ℕ) : Prop :=
  ∃ a x, a ∈ h.slabs i ∧ x < (C i).num ∧ x ∉ free a ∧ o = h.object C i a x

/-- The object is in use as the management block of a slab. -/
def Mgmt (o : ℕ) : Prop := ∃ i, (C i).off_slab = true ∧ o ∈ h.slabs i

/-- The object is in use outside the allocator. -/
def Live (i o : ℕ) : Prop := h.Taken C free i o ∧ ¬h.Mgmt C o

/-- The invariant of the slabs. `L` are the runs of pages that others hold. -/
structure Inv : Prop where
  pmm : S.Inv h.pmm
  cache : ∀ i a, a ∈ h.slabs i → i < SLAB_CACHE_NUM
  slab : ∀ i a, a ∈ h.slabs i → h.SlabOk C i a (page a) (free a)
  nodup : ∀ i, (h.slabs i).Nodup
  notfull : ∀ i, ∀ a ∈ h.slabs_notfull i, free a ≠ []
  full : ∀ i, ∀ a ∈ h.slabs_full i, free a = []
  live : S.live h.pmm = L ∪ {r | ∃ i a, a ∈ h.slabs i ∧ r = (page a, 2 ^ (C i).page_order)}
  others : ∀ i a, a ∈ h.slabs i → (page a, 2 ^ (C i).page_order) ∉ L
  mgmt : ∀ i a, a ∈ h.slabs i → (C i).off_slab = true → h.Taken C free (C i).slab_cachep a

/-- Every slab has an object in use. -/
def Busy : Prop := ∀ i, ∀ a ∈ h.slabs i, (free a).length < (C i).num

variable {S C free page L h} {i j a a' b o x y p : ℕ} {l : List ℕ}

section
variable (hC : Caches C)
include hC

section
variable (hs : h.SlabOk C i a b l) (hi : i < SLAB_CACHE_NUM) (hx : x < (C i).num)
include hs hi hx

theorem SlabOk.object_page :
    b ≤ kva2page (h.object C i a x) ∧ kva2page (h.object C i a x) < b + 2 ^ (C i).page_order := by
  have hfits := hC.fits i hi
  have hpos : 0 < (C i).objsize := by
    rw [(hC.size i hi).1]
    exact Nat.two_pow_pos _
  have hmul : (x + 1) * (C i).objsize ≤ (C i).num * (C i).objsize := Nat.mul_le_mul_right _ hx
  rw [Nat.add_mul, Nat.one_mul] at hmul
  have hpg : 0 < PGSIZE := by decide
  unfold object kva2page
  rw [hs.s_mem, page2kva]
  constructor
  · rw [Nat.le_div_iff_mul_le hpg]
    omega
  · rw [Nat.div_lt_iff_lt_mul hpg, Nat.add_mul, Nat.mul_comm (2 ^ _)]
    omega

theorem SlabOk.object_slab :
    h.PageSlab (kva2page (h.object C i a x)) ∧ h.page_cache (kva2page (h.object C i a x)) = i ∧
      h.page_slab (kva2page (h.object C i a x)) = a := by
  obtain ⟨hlo, hhi⟩ := hs.object_page hC hi hx
  exact hs.pages _ hlo hhi

end

theorem object_inj (hi : i < SLAB_CACHE_NUM)
    (heq : h.object C i a x = h.object C i a y) : x = y := by
  have hpos : 0 < (C i).objsize := by
    rw [(hC.size i hi).1]
    exact Nat.two_pow_pos _
  unfold object at heq
  exact Nat.eq_of_mul_eq_mul_right hpos (by omega)

end

namespace Inv

variable (hC : Caches C)
include hC

theorem object_unique (hinv : h.Inv S C free page L) (ha : a ∈ h.slabs i) (ha' : a' ∈ h.slabs j)
    (hx : x < (C i).num) (hy : y < (C j).num) (heq : h.object C i a x = h.object C j a' y) :
    i = j ∧ a = a' ∧ x = y := by
  have hs := hinv.slab i a ha
  have hs' := hinv.slab j a' ha'
  obtain ⟨-, hcache, hslab⟩ := hs.object_slab hC (hinv.cache i a ha) hx
  obtain ⟨-, hcache', hslab'⟩ := hs'.object_slab hC (hinv.cache j a' ha') hy
  rw [heq] at hcache hslab
  obtain rfl := hcache.symm.trans hcache'
  obtain rfl := hslab.symm.trans hslab'
  exact ⟨rfl, rfl, object_inj hC (hinv.cache i a ha) heq⟩

omit hC in
theorem slab_unique (hinv : h.Inv S C free page L) (ha : a ∈ h.slabs i) (ha' : a ∈ h.slabs j) :
    i = j := by
  have hs := hinv.slab i a ha
  have hs' := hinv.slab j a ha'
  have hpos : ∀ n, page a < page a + 2 ^ n := fun n => Nat.lt_add_of_pos_right (Nat.two_pow_pos n)
  exact (hs.pages _ (le_refl _) (hpos _)).2.1.symm.trans (hs'.pages _ (le_refl _) (hpos _)).2.1

theorem not_taken_of_inside (hinv : h.Inv S C free page L) (ha : a ∈ h.slabs i)
    (hoff : (C i).off_slab = false) : ¬h.Taken C free j a := by
  rintro ⟨a', x, ha', hx, -, heq⟩
  have hs := hinv.slab i a ha
  have hs' := hinv.slab j a' ha'
  have hi := hinv.cache i a ha
  have hhome := hs.home hoff
  have hpg : 0 < PGSIZE := by decide
  -- the block is at the beginning of the pages of the slab, which are no other's
  have hpage : kva2page a = page a := (congrArg kva2page hhome).trans (Nat.mul_div_cancel _ hpg)
  obtain ⟨-, hcache, hslab⟩ := hs.pages (page a) (le_refl _)
    (Nat.lt_add_of_pos_right (Nat.two_pow_pos _))
  obtain ⟨-, hcache', hslab'⟩ := hs'.object_slab hC (hinv.cache j a' ha') hx
  rw [← heq, hpage] at hcache' hslab'
  obtain rfl := hcache.symm.trans hcache'
  obtain rfl := hslab.symm.trans hslab'
  have hmgmt := hC.inside i hi hoff
  have hpos := slab_mgmt_size_pos (C i).num
  rw [object, hs.s_mem, ← hhome] at heq
  omega

end Inv

theorem mem_slabs : a ∈ h.slabs i ↔ a ∈ h.slabs_notfull i ∨ a ∈ h.slabs_full i := mem_append

theorem list_del_slabs (hnodup : (h.slabs i).Nodup) :
    (h.list_del i a).slabs i = (h.slabs i).erase a := by
  simp only [slabs, list_del, update_self, erase_append]
  split
  · rename_i hmem
    have hnot : a ∉ h.slabs_full i := fun hfull => disjoint_of_nodup_append hnodup hmem hfull
    rw [erase_of_not_mem hnot]
  · rename_i hnot
    rw [erase_of_not_mem hnot]

theorem list_del_slabs_of_ne (hj : j ≠ i) : (h.list_del i a).slabs j = h.slabs j := by
  simp [slabs, list_del, hj]

theorem add_full_perm : ((h.add_full i a).slabs i).Perm (a :: h.slabs i) := by
  simp [slabs, add_full]

theorem add_notfull_slabs : (h.add_notfull i a).slabs i = a :: h.slabs i := by
  simp [slabs, add_notfull]

theorem moved (hnodup : ∀ j, (h.slabs j).Nodup) (ha : a ∈ h.slabs i) {h' : Heap σ}
    (hself : (h'.slabs i).Perm (a :: (h.list_del i a).slabs i))
    (hother : ∀ j ≠ i, h'.slabs j = h.slabs j) :
    (∀ j a', a' ∈ h'.slabs j ↔ a' ∈ h.slabs j) ∧ ∀ j, (h'.slabs j).Nodup := by
  have hperm : ∀ j, (h'.slabs j).Perm (h.slabs j) := fun j => by
    rcases eq_or_ne j i with rfl | hj
    · rw [list_del_slabs (hnodup j)] at hself
      exact hself.trans (perm_cons_erase ha).symm
    · rw [hother j hj]
  exact ⟨fun j a' => (hperm j).mem_iff, fun j => (hperm j).nodup_iff.mpr (hnodup j)⟩

theorem move_mem {p : ℕ → List ℕ} (q : ℕ → List ℕ) (hp : (p i).Nodup) :
    (∀ j, ∀ a' ∈ update p i ((p i).erase a) j, a' ∈ p j ∧ ¬(j = i ∧ a' = a)) ∧
    ∀ j, ∀ a' ∈ update q i (a :: (q i).erase a) j, a' ∈ q j ∨ a' = a := by
  refine ⟨fun j a' ha' => ?_, fun j a' ha' => ?_⟩
  · rcases eq_or_ne j i with rfl | hj
    · rw [update_self, hp.mem_erase_iff] at ha'
      exact ⟨ha'.2, fun hand => ha'.1 hand.2⟩
    · rw [update_of_ne hj] at ha'
      exact ⟨ha', fun hand => hj hand.1⟩
  · rcases eq_or_ne j i with rfl | hj
    · rw [update_self, mem_cons] at ha'
      exact ha'.symm.imp_left mem_of_mem_erase
    · rw [update_of_ne hj] at ha'
      exact .inl ha'

section
variable (hnodup : ∀ j, (h.slabs j).Nodup) (ha : a ∈ h.slabs i)
include hnodup ha

theorem move_full : let h' := (h.list_del i a).add_full i a
    ((∀ j a', a' ∈ h'.slabs j ↔ a' ∈ h.slabs j) ∧ ∀ j, (h'.slabs j).Nodup) ∧
    (∀ j, ∀ a' ∈ h'.slabs_notfull j, a' ∈ h.slabs_notfull j ∧ ¬(j = i ∧ a' = a)) ∧
    ∀ j, ∀ a' ∈ h'.slabs_full j, a' ∈ h.slabs_full j ∨ a' = a := by
  refine ⟨moved hnodup ha add_full_perm fun j hj => ?_, ?_⟩
  · simp [slabs, add_full, list_del, hj]
  · simp only [add_full, list_del, update_self, update_idem]
    exact move_mem _ (nodup_append.mp (hnodup i)).1

theorem move_notfull : let h' := (h.list_del i a).add_notfull i a
    ((∀ j a', a' ∈ h'.slabs j ↔ a' ∈ h.slabs j) ∧ ∀ j, (h'.slabs j).Nodup) ∧
    (∀ j, ∀ a' ∈ h'.slabs_full j, a' ∈ h.slabs_full j ∧ ¬(j = i ∧ a' = a)) ∧
    ∀ j, ∀ a' ∈ h'.slabs_notfull j, a' ∈ h.slabs_notfull j ∨ a' = a := by
  refine ⟨moved hnodup ha (add_notfull_slabs ▸ .refl _) fun j hj => ?_, ?_⟩
  · simp [slabs, add_notfull, list_del, hj]
  · simp only [add_notfull, list_del, update_self, update_idem]
    exact move_mem _ (nodup_append.mp (hnodup i)).2.1

end

/-- The slab `y` can take the place of the one at `a`, with the free objects `l`. -/
structure Refills (C : ℕ → kmem_cache) (i a : ℕ) (l : List ℕ) (h : Heap σ) (y : slab_t) : Prop where
  s_mem : y.s_mem = (h.slab a).s_mem
  offset : y.offset = (h.slab a).offset
  chain : Chain y.bufctl BUFCTL_END y.free l
  nodup : l.Nodup
  bound : ∀ x ∈ l, x < (C i).num
  inuse : y.inuse + l.length = (C i).num

/-- In `h'` only the slab at `a` has changed, and its place in the lists. -/
structure Changes (free : ℕ → List ℕ) (a : ℕ) (l : List ℕ) (y : slab_t) (h h' : Heap σ) : Prop where
  pmm : h'.pmm = h.pmm
  PageSlab : h'.PageSlab = h.PageSlab
  page_cache : h'.page_cache = h.page_cache
  page_slab : h'.page_slab = h.page_slab
  slab : h'.slab = update h.slab a y
  mem : ∀ j a', a' ∈ h'.slabs j ↔ a' ∈ h.slabs j
  slabs_nodup : ∀ j, (h'.slabs j).Nodup
  notfull : ∀ j, ∀ a' ∈ h'.slabs_notfull j, update free a l a' ≠ []
  full : ∀ j, ∀ a' ∈ h'.slabs_full j, update free a l a' = []

namespace Changes

variable {h' : Heap σ} {y : slab_t}
variable (hch : Changes free a l y h h')
include hch

theorem object (hy : Refills C i a l h y) (j a' x : ℕ) :
    h'.object C j a' x = h.object C j a' x := by
  unfold Heap.object
  rw [hch.slab]
  rcases eq_or_ne a' a with rfl | hne
  · rw [update_self, hy.s_mem]
  · rw [update_of_ne hne]

theorem taken_iff (hy : Refills C i a l h y) :
    h'.Taken C (update free a l) j o ↔ ∃ a' x, a' ∈ h.slabs j ∧ x < (C j).num ∧
      x ∉ update free a l a' ∧ o = h.object C j a' x := by
  simp only [Taken, hch.mem, hch.object hy]

theorem mgmt_iff : h'.Mgmt C o ↔ h.Mgmt C o := by
  simp only [Mgmt, hch.mem]

theorem inv (hy : Refills C i a l h y) (hinv : h.Inv S C free page L) (ha : a ∈ h.slabs i)
    (hmgmt : ∀ j a', a' ∈ h.slabs j → (C j).off_slab = true →
      h'.Taken C (update free a l) (C j).slab_cachep a') :
    h'.Inv S C (update free a l) page L := by
  refine ⟨hch.pmm ▸ hinv.pmm, fun j a' ha' => hinv.cache j a' ((hch.mem j a').mp ha'),
    fun j a' ha' => ?_, hch.slabs_nodup, hch.notfull, hch.full, ?_, fun j a' ha' =>
    hinv.others j a' ((hch.mem j a').mp ha'), fun j a' ha' => hmgmt j a' ((hch.mem j a').mp ha')⟩
  · have hs := hinv.slab j a' ((hch.mem j a').mp ha')
    have hpages := hs.pages
    rw [← hch.PageSlab, ← hch.page_cache, ← hch.page_slab] at hpages
    rcases eq_or_ne a' a with rfl | hne
    · obtain rfl := hinv.slab_unique ha ((hch.mem j a').mp ha')
      have hself : h'.slab a' = y := by rw [hch.slab, update_self]
      rw [update_self]
      exact ⟨hself ▸ hy.offset.trans hs.offset, hself ▸ hy.s_mem.trans hs.s_mem, hpages, hs.home,
        hself ▸ hy.chain, hy.nodup, hy.bound, hself ▸ hy.inuse⟩
    · have hsame : h'.slab a' = h.slab a' := by rw [hch.slab, update_of_ne hne]
      rw [update_of_ne hne]
      exact ⟨hsame ▸ hs.offset, hsame ▸ hs.s_mem, hpages, hs.home, hsame ▸ hs.chain, hs.nodup,
        hs.bound, hsame ▸ hs.inuse⟩
  · simp only [hch.pmm, hch.mem]
    exact hinv.live

end Changes

end Heap

end ucore
