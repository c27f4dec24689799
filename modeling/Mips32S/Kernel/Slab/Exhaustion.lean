import Mips32S.Kernel.Slab.Integrity

open dyadic Option List

namespace ucore

/-- The pages of the blocks on the free lists. -/
def Buddy.freeSet (s : Buddy) : Set ℕ := {p | ∃ k q, q ∈ s.free_list k ∧ p ∈ block k q}

theorem Buddy.Valid.freeSet_eq {s : Buddy} {zs rs : List Run} (h : s.Valid zs rs) :
    s.freeSet = freePages zs rs := Set.ext fun _ => h.inv.mem_iff.symm

theorem getorder_eq_none {n : ℕ} (hn : 1024 < n) : getorder n = none := by
  refine find?_eq_none.mpr fun k hk => ?_
  have hle : k ≤ 10 := Nat.le_of_lt_succ (mem_range.mp hk)
  have hpow : 2 ^ k ≤ 2 ^ 10 := Nat.pow_le_pow_right (by decide) hle
  simp only [decide_eq_true_eq]
  omega

theorem buddy_alloc_pages_panics {n : ℕ} {s : Buddy} (hn : 1024 < n) :
    buddy_alloc_pages n s = none := by
  simp [buddy_alloc_pages, getorder_eq_none hn]

theorem kmalloc.getorder_eq_none {size : ℕ} (hsize : 2 ^ MAX_SIZE_ORDER < size) :
    kmalloc.getorder size = none := by
  cases horder : kmalloc.getorder size with
  | none => rfl
  | some order =>
    obtain ⟨-, hlt, hle⟩ := getorder_search horder
    have hpow : 2 ^ order ≤ 2 ^ MAX_SIZE_ORDER :=
      Nat.pow_le_pow_right (by decide) (Nat.le_of_lt_succ hlt)
    omega

namespace Heap

section
variable {σ δ : Type} (A : runs.Allocator σ δ)

def alloc_pages (n : ℕ) (h : Heap σ) : Option (Option ℕ × Heap σ) := do
  let (page, pmm) ← A.alloc n h.pmm
  return (page, { h with pmm })

def free_pages (base n : ℕ) (h : Heap σ) : Option (Heap σ) := do
  let pmm ← A.free base n h.pmm
  return { h with pmm }

end

section
variable {σ δ : Type} {A : runs.Allocator σ δ} {S : runs.Spec A} {C : ℕ → kmem_cache}
  {h h' : Heap σ} {i size fuel a : ℕ}

theorem kmem_cache_grow_cases {alloc : ℕ → Heap σ → Option (Option ℕ × Heap σ)} {grown : Bool}
    (heq : kmem_cache_grow A C alloc i h = some (grown, h')) :
    grown = true ∧ h'.slabs_notfull i ≠ [] ∨
    grown = false ∧ ((∃ pmm, A.alloc (1 <<< (C i).page_order) h.pmm = some (none, pmm) ∧
        h' = { h with pmm }) ∨
      ∃ b pmm h2 pmm', A.alloc (1 <<< (C i).page_order) h.pmm = some (some b, pmm) ∧
        (C i).off_slab = true ∧ alloc (C i).slab_cachep { h with pmm } = some (none, h2) ∧
        A.free b (1 <<< (C i).page_order) h2.pmm = some pmm' ∧ h' = { h2 with pmm := pmm' }) := by
  unfold kmem_cache_grow at heq
  obtain ⟨⟨page, pmm⟩, halloc, heq⟩ := bind_eq_some_iff.mp heq
  cases page with
  | none =>
    cases heq
    exact .inr ⟨rfl, .inl ⟨pmm, halloc, rfl⟩⟩
  | some b =>
    obtain ⟨⟨slabp, h2⟩, hmgmt, heq⟩ := bind_eq_some_iff.mp heq
    cases slabp with
    | none =>
      obtain ⟨pmm', hfree, heq⟩ := bind_eq_some_iff.mp heq
      cases heq
      unfold kmem_cache_slabmgmt at hmgmt
      split at hmgmt
      · rename_i hoff
        obtain ⟨⟨slabp, h3⟩, hinner, hret⟩ := bind_eq_some_iff.mp hmgmt
        cases slabp with
        | some a => cases hret
        | none =>
          cases hret
          exact .inr ⟨rfl, .inr ⟨b, pmm, _, pmm', halloc, hoff, hinner, hfree, rfl⟩⟩
      · cases hmgmt
    | some a =>
      cases heq
      exact .inl ⟨rfl, by simp [add_notfull]⟩

theorem kmem_cache_alloc_notfull {l : List ℕ} (hlist : h.slabs_notfull i = a :: l) :
    kmem_cache_alloc A C fuel i h ≠ some (none, h') := by
  unfold kmem_cache_alloc
  rw [hlist]
  rintro ⟨⟩

variable (hC : Caches C) (hlimit : 32 ≤ S.limit) (hinv : S.Inv h.pmm)
include hC hlimit hinv

/-- An allocation that returns no object has changed nothing but the pages, and has given those
back. -/
theorem kmem_cache_alloc_none (hi : i < SLAB_CACHE_NUM)
    (heq : kmem_cache_alloc A C fuel i h = some (none, h')) :
    S.Restores h.pmm h'.pmm ∧ h' = { h with pmm := h'.pmm } := by
  induction fuel generalizing i h h' with
  | zero =>
    cases hlist : h.slabs_notfull i with
    | cons a l => exact absurd heq (kmem_cache_alloc_notfull hlist)
    | nil =>
      unfold kmem_cache_alloc at heq
      rw [hlist] at heq
      cases heq
  | succ fuel ih =>
    cases hlist : h.slabs_notfull i with
    | cons a l => exact absurd heq (kmem_cache_alloc_notfull hlist)
    | nil =>
      unfold kmem_cache_alloc at heq
      rw [hlist] at heq
      obtain ⟨⟨grown, h1⟩, hgrow, heq⟩ := bind_eq_some_iff.mp heq
      have hpos : 0 < 1 <<< (C i).page_order := by
        rw [Nat.one_shiftLeft]
        exact Nat.two_pow_pos _
      have hle : 1 <<< (C i).page_order ≤ S.limit := by
        rw [Nat.one_shiftLeft]
        exact (Nat.pow_le_pow_right (by decide) (hC.order i hi)).trans hlimit
      rcases kmem_cache_grow_cases hgrow with ⟨rfl, hne⟩ |
        ⟨rfl, ⟨pmm, halloc, rfl⟩ | ⟨b, pmm, h2, pmm', halloc, hoff, hmgmt, hfree, rfl⟩⟩
      · -- after a new slab the list is not empty, so the second attempt finds an object
        obtain ⟨a, l, hcons⟩ := exists_cons_of_ne_nil hne
        exact absurd heq (kmem_cache_alloc_notfull hcons)
      · cases heq
        rcases S.alloc_cases _ hinv hpos hle with hnone | ⟨p, s', hsome, -⟩
        · cases hnone.symm.trans halloc
          exact ⟨.refl, rfl⟩
        · cases hsome.symm.trans halloc
      · cases heq
        rcases S.alloc_cases _ hinv hpos hle with hnone | ⟨p, s', hsome, hinv', -⟩
        · cases hnone.symm.trans halloc
        cases hsome.symm.trans halloc
        obtain ⟨hrestores, hsame⟩ := ih hinv' (hC.outside i hi hoff).2.1 hmgmt
        refine ⟨.nest hpos hle halloc hrestores hfree, ?_⟩
        rw [hsame]

theorem kmalloc_none (heq : h.kmalloc A C size = some (none, h')) :
    S.Restores h.pmm h'.pmm ∧ h' = { h with pmm := h'.pmm } := by
  unfold Heap.kmalloc at heq
  obtain ⟨-, -, heq⟩ := bind_eq_some_iff.mp heq
  obtain ⟨order, horder, heq⟩ := bind_eq_some_iff.mp heq
  obtain ⟨hlo, hhi, -⟩ := kmalloc.getorder_search horder
  have hmax : MIN_SIZE_ORDER + SLAB_CACHE_NUM = MAX_SIZE_ORDER + 1 := by decide
  rw [if_neg (show ¬order > MAX_SIZE_ORDER by omega)] at heq
  exact kmem_cache_alloc_none hC hlimit hinv (by omega) heq

end

/-- The states that requests for pages and for objects lead to, with the runs of pages that are
held outside the slabs and the live objects. Only parts of such runs and live objects are freed. -/
inductive Serves (npage : ℕ) (C : ℕ → kmem_cache) :
    Set (ℕ × ℕ) → List (ℕ × ℕ) → Heap Pages → Prop
  | boot {buddy : Buddy} {zones : List Run} : Boot buddy zones → buddy.npage = npage →
    Serves npage C ∅ [] (booted ⟨buddy, zones, []⟩)
  | alloc_pages {held live h h'} {page : Option ℕ} {n : ℕ} : Serves npage C held live h →
    0 < n → h.alloc_pages (buddyAllocator npage) n = some (page, h') →
    Serves npage C ({r | page = some r.1 ∧ r.2 = n} ∪ held) live h'
  | free_pages {held live h h'} {r : ℕ × ℕ} {base n : ℕ} : Serves npage C held live h →
    r ∈ held → 0 < n → r.1 ≤ base → base + n ≤ r.1 + r.2 →
    h.free_pages (buddyAllocator npage) base n = some h' →
    Serves npage C (runs.without r base n ∪ held \ {r}) live h'
  | kmalloc {held live h h'} {objp : Option ℕ} (size : ℕ) : Serves npage C held live h →
    h.kmalloc (buddyAllocator npage) C size = some (objp, h') →
    Serves npage C held ((objp.map fun o => (o, size)).toList ++ live) h'
  | kfree {held live h h'} {o size : ℕ} : Serves npage C held live h → (o, size) ∈ live →
    h.kfree (buddyAllocator npage) C o = some h' →
    Serves npage C held (live.filter fun p => p.1 ≠ o) h'

/-- A request for pages returns: with pages that were free, and only those are not any more, or
with none, and then nothing has changed. -/
def ReportsPages (npage n : ℕ) (h : Heap Pages) : Prop :=
  ∃ page h', h.alloc_pages (buddyAllocator npage) n = some (page, h') ∧
    (page = none → h' = h) ∧
    ∀ base, page = some base → ↑(Run.mk base n).pages ⊆ h.pmm.buddy.freeSet ∧
      h'.pmm.buddy.freeSet = h.pmm.buddy.freeSet \ (Run.mk base n).pages ∧
      h' = { h with pmm := h'.pmm }

/-- A request for an object returns: with one that is as large and apart from all the others, or
with none, and then the slabs have not changed and the same pages are free. -/
def ReportsObject (npage : ℕ) (C : ℕ → kmem_cache) (held : Set (ℕ × ℕ)) (live : List (ℕ × ℕ))
    (size : ℕ) (h : Heap Pages) : Prop :=
  ∃ objp h', h.kmalloc (buddyAllocator npage) C size = some (objp, h') ∧
    (objp = none → h' = { h with pmm := h'.pmm } ∧
      h'.pmm.buddy.freeSet = h.pmm.buddy.freeSet) ∧
    ∀ o, objp = some o → Integrity (buddySpec npage) C held ((o, size) :: live) h'

variable {npage size n : ℕ} {C : ℕ → kmem_cache} {held : Set (ℕ × ℕ)} {live : List (ℕ × ℕ)}
  {h h' : Heap Pages}

section
variable {s s' : Pages} (hr : (buddySpec npage).Restores s s')
include hr

theorem Pages.restores_zones : s'.zones = s.zones := by
  induction hr with
  | refl => rfl
  | nest _ _ halloc _ hfree ih =>
    obtain ⟨⟨page, b⟩, -, heq⟩ := bind_eq_some_iff.mp halloc
    obtain ⟨b', -, heq'⟩ := bind_eq_some_iff.mp hfree
    cases heq
    cases heq'
    exact ih

theorem Pages.restores_freeSet (hinv : (buddySpec npage).Inv s) :
    s'.buddy.freeSet = s.buddy.freeSet := by
  obtain ⟨hinv', hlive⟩ := hr.live_eq hinv
  have hrun : ∀ r, r ∈ s'.runs ↔ r ∈ s.runs := fun r => Set.ext_iff.mp hlive (r.base, r.n)
  rw [hinv.1.freeSet_eq, hinv'.1.freeSet_eq, Pages.restores_zones hr]
  congr 1
  ext p
  simp only [mem_freePages, hrun]

end

theorem Serves.inv (hC : Caches C) (hs : Serves npage C held live h) :
    ∃ free page, h.Inv (buddySpec npage) C free page held ∧ h.Busy C free ∧
      Tracks C free live h := by
  induction hs with
  | @boot buddy zones hboot hnpage =>
    have hlive : (buddySpec npage).live ⟨buddy, zones, []⟩ = ∅ := by simp [buddySpec]
    have hinv : (buddySpec npage).Inv (booted ⟨buddy, zones, []⟩).pmm := ⟨hboot.valid, hnpage⟩
    exact ⟨_, _, hlive ▸ inv_of_empty hinv fun _ => rfl⟩
  | @alloc_pages held live h h' page n _ hpos heq ih =>
    obtain ⟨free, pages, hinv, hbusy, htracks⟩ := ih
    obtain ⟨⟨page', pmm⟩, halloc, heq⟩ := bind_eq_some_iff.mp heq
    cases heq
    have hn : n ≤ 1024 := by
      by_contra hgt
      have hpanic := buddy_alloc_pages_panics (s := h.pmm.buddy) (not_le.mp hgt)
      simp [buddyAllocator, hpanic] at halloc
    rcases (buddySpec npage).alloc_cases n hinv.pmm hpos hn with
      hnone | ⟨b, s', hsome, hpmm, hlive, hdisj, -, -⟩
    · cases hnone.symm.trans halloc
      refine ⟨free, pages, ?_, hbusy, htracks⟩
      simpa using hinv
    · cases hsome.symm.trans halloc
      have hrun : {r : ℕ × ℕ | some b = some r.1 ∧ r.2 = n} ∪ held = insert (b, n) held := by
        ext r
        simp [Prod.ext_iff, eq_comm]
      rw [hrun]
      exact ⟨free, pages, (hinv.with_run hpos hpmm hlive hdisj).1, hbusy, htracks.nodup,
        htracks.live_iff, htracks.size⟩
  | @free_pages held live h h' r base n _ hr hpos hlo hhi heq ih =>
    obtain ⟨free, page, hinv, hbusy, htracks⟩ := ih
    obtain ⟨pmm, hfree, heq⟩ := bind_eq_some_iff.mp heq
    cases heq
    have hmem : r ∈ (buddySpec npage).live h.pmm := hinv.live.symm ▸ .inl hr
    obtain ⟨s', hsome, hpmm, hlive, -⟩ := (buddySpec npage).free_eq hinv.pmm hmem hpos hlo hhi
    cases hsome.symm.trans hfree
    exact ⟨free, page, hinv.without_part hr hlo hhi hpmm hlive, hbusy, htracks.nodup,
      htracks.live_iff, htracks.size⟩
  | kmalloc size _ heq ih =>
    obtain ⟨free, page, hinv, hbusy, htracks⟩ := ih
    exact hinv.kmalloc_tracks hC (show 32 ≤ 1024 by decide) hbusy htracks heq
  | kfree _ hmem heq ih =>
    obtain ⟨free, page, hinv, hbusy, htracks⟩ := ih
    exact hinv.kfree_tracks hC hbusy htracks hmem heq

theorem reportsPages_iff (hinv : (buddySpec npage).Inv h.pmm) (hpos : 0 < n) :
    h.ReportsPages npage n ↔ n ≤ 1024 := by
  constructor
  · rintro ⟨page, h', heq, -⟩
    by_contra hgt
    have hpanic := buddy_alloc_pages_panics (s := h.pmm.buddy) (not_le.mp hgt)
    simp [Heap.alloc_pages, buddyAllocator, hpanic] at heq
  · intro hn
    rcases hinv.1.alloc_spec hpos hn with hnone | ⟨base, b, heq, hfree, hvalid, -, -⟩
    · exact ⟨none, h, by simp [Heap.alloc_pages, buddyAllocator, hnone], fun _ => rfl, nofun⟩
    · refine ⟨some base, { h with pmm := ⟨b, h.pmm.zones, ⟨base, n⟩ :: h.pmm.runs⟩ },
        by simp [Heap.alloc_pages, buddyAllocator, heq], nofun, ?_⟩
      rintro _ ⟨rfl⟩
      rw [hinv.1.freeSet_eq, hvalid.freeSet_eq, freePages_cons, Finset.coe_sdiff]
      exact ⟨hfree, rfl, rfl⟩

/-- Over any history a request is answered exactly if it is for at most 1024 pages, or for at most
`2 ^ MAX_SIZE_ORDER` bytes: then a failure is reported and nothing is lost. A larger one
panics in `getorder`. -/
theorem allocation_failure {caches : List kmem_cache} (hinit : slab_init = some caches)
    (hs : Serves npage (cacheOf caches) held live h) :
    (∀ n, 0 < n → (h.ReportsPages npage n ↔ n ≤ 1024)) ∧
    ∀ size, 0 < size →
      (h.ReportsObject npage (cacheOf caches) held live size ↔ size ≤ 2 ^ MAX_SIZE_ORDER) := by
  obtain ⟨l, hl, hC⟩ := slab_init_caches
  cases hinit.symm.trans hl
  have hlimit : 32 ≤ (buddySpec npage).limit := show 32 ≤ 1024 by decide
  obtain ⟨free, page, hinv, hbusy, htracks⟩ := hs.inv hC
  refine ⟨fun n hpos => reportsPages_iff hinv.pmm hpos, fun size hpos => ⟨?_, fun hle => ?_⟩⟩
  · rintro ⟨objp, h', heq, -⟩
    by_contra hgt
    have hpanic := kmalloc.getorder_eq_none (not_le.mp hgt)
    simp [Heap.kmalloc, hpanic] at heq
  · obtain ⟨order, horder⟩ : ∃ order, kmalloc.getorder size = some order :=
      kmalloc.getorder_search_isSome hle
    obtain ⟨i, -, objp, h', -, -, heq, -⟩ := hinv.kmalloc_spec hC hlimit hbusy hpos horder
    refine ⟨objp, h', heq, ?_, ?_⟩
    · rintro rfl
      obtain ⟨hrestores, hsame⟩ := kmalloc_none hC hlimit hinv.pmm heq
      exact ⟨hsame, Pages.restores_freeSet hrestores hinv.pmm⟩
    · rintro o rfl
      obtain ⟨free', page', hinv', hbusy', htracks'⟩ :=
        hinv.kmalloc_tracks hC hlimit hbusy htracks heq
      exact hinv'.integrity hC hlimit hbusy' htracks'

/-- With one page there is room for a slab but not for its management block: the page is free
again. -/
theorem allocation_failure_oops : ∃ caches h h', slab_init = some caches ∧
    Serves 1 (cacheOf caches) ∅ [] h ∧ h.pmm.buddy.freeSet = {0} ∧
    h.kmalloc (buddyAllocator 1) (cacheOf caches) 600 = some (none, h') ∧
    h'.pmm.buddy.freeSet = {0} := by
  have hrun : (slab_init.bind fun caches => (Pages.boot 1).bind fun pmm =>
      ((booted pmm).kmalloc (buddyAllocator 1) (cacheOf caches) 600).bind fun r =>
      guard (r.1 = none)).isSome := by
    decide +kernel
  obtain ⟨_, hrun⟩ := isSome_iff_exists.mp hrun
  simp only [bind_eq_some_iff] at hrun
  obtain ⟨caches, hinit, pmm, hpmm, ⟨objp, h'⟩, hkmalloc, hrun⟩ := hrun
  obtain rfl : objp = none := (guard_eq_some' _).mp hrun
  obtain ⟨buddy, hbuddy, hboot, hnpage⟩ := Boot.exists_one_zone Nat.one_pos
  rw [Pages.boot, hbuddy] at hpmm
  cases hpmm
  have hs : Serves 1 (cacheOf caches) ∅ [] (booted ⟨buddy, [⟨0, 1⟩], []⟩) := .boot hboot hnpage
  have hfree : buddy.freeSet = {0} := by
    rw [hboot.valid.freeSet_eq]
    ext p
    simp [mem_freePages, Run.mem_pages]
  obtain ⟨objp, h'', heq, hnone, -⟩ :=
    ((allocation_failure hinit hs).2 600 (by decide)).mpr (by decide)
  cases hkmalloc.symm.trans heq
  exact ⟨caches, _, h', hinit, hs, hfree, hkmalloc, (hnone rfl).2.trans hfree⟩

/-- One page more than a block has, and one byte more than an object. -/
theorem allocation_panics : ∃ caches h, slab_init = some caches ∧
    Serves 64 (cacheOf caches) ∅ [] h ∧ ¬h.ReportsPages 64 1025 ∧
    ¬h.ReportsObject 64 (cacheOf caches) ∅ [] 131073 := by
  obtain ⟨caches, hinit, -⟩ := slab_init_caches
  obtain ⟨buddy, -, hboot, hnpage⟩ := Boot.exists_one_zone (n := 64) (by decide)
  refine ⟨caches, _, hinit, .boot hboot hnpage, ?_, ?_⟩
  · rintro ⟨page, h', heq, -⟩
    have hpanic := buddy_alloc_pages_panics (n := 1025) (s := buddy) (by decide)
    simp [Heap.alloc_pages, buddyAllocator, booted, hpanic] at heq
  · rintro ⟨objp, h', heq, -⟩
    have hpanic : kmalloc.getorder 131073 = none := kmalloc.getorder_eq_none (by decide)
    simp [Heap.kmalloc, hpanic] at heq

end Heap

end ucore
