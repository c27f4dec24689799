import Mathlib.Data.Set.Card
import Mips32S.Kernel.Buddy.Allocator
import Mips32S.Kernel.Slab.Free

open freelist Finset

namespace ucore

theorem kmalloc.getorder_search {n order fuel k : ℕ}
    (h : kmalloc.getorder.search n fuel k = some order) :
    k ≤ order ∧ order < k + fuel ∧ n ≤ 2 ^ order := by
  induction fuel generalizing k with
  | zero => cases h
  | succ fuel ih =>
    rw [getorder.search] at h
    split at h
    · rename_i hn
      cases h
      rw [Nat.one_shiftLeft] at hn
      exact ⟨le_refl _, by omega, hn⟩
    · obtain ⟨hlo, hhi, hn⟩ := ih h
      exact ⟨by omega, by omega, hn⟩

theorem kmalloc.getorder_search_isSome {n fuel k : ℕ} (hn : n ≤ 2 ^ (k + fuel)) :
    ∃ order, kmalloc.getorder.search n (fuel + 1) k = some order := by
  induction fuel generalizing k with
  | zero => exact ⟨k, by rw [getorder.search, if_pos (by rwa [Nat.one_shiftLeft])]⟩
  | succ fuel ih =>
    rw [getorder.search]
    split
    · exact ⟨k, rfl⟩
    · exact ih (by rwa [Nat.add_right_comm])

namespace Heap

variable {σ δ : Type} {A : runs.Allocator σ δ} {S : runs.Spec A} {C : ℕ → kmem_cache}
  {free : ℕ → List ℕ} {page : ℕ → ℕ} {L : Set (ℕ × ℕ)} {h h0 h' : Heap σ}
  {i j a a' b o x y size order o' : ℕ} {live : List (ℕ × ℕ)} {l : List ℕ}

section

/-- The bytes of an object; the page tells the cache it comes from. -/
def area (C : ℕ → kmem_cache) (h : Heap σ) (o : ℕ) : Finset ℕ :=
  Ico o (o + (C (h.page_cache (kva2page o))).objsize)

/-- The bytes of the management area of a slab. -/
def mgmtArea (C : ℕ → kmem_cache) (i a : ℕ) : Finset ℕ :=
  Ico a (a + slab_mgmt_size (C i).num)

/-- The bytes of the pages of a slab. -/
def slabArea (C : ℕ → kmem_cache) (h : Heap σ) (i a : ℕ) : Finset ℕ :=
  let b := kva2page ((h.slab a).s_mem - (h.slab a).offset)
  Ico (page2kva b) (page2kva (b + 2 ^ (C i).page_order))

variable (hC : Caches C)
include hC

theorem SlabOk.object_bytes (hs : h.SlabOk C i a b l) (hi : i < SLAB_CACHE_NUM)
    (hx : x < (C i).num) : page2kva b + (C i).offset ≤ h.object C i a x ∧
      h.object C i a x + (C i).objsize ≤ page2kva (b + 2 ^ (C i).page_order) := by
  have hfits := hC.fits i hi
  have hmul : (x + 1) * (C i).objsize ≤ (C i).num * (C i).objsize := Nat.mul_le_mul_right _ hx
  rw [Nat.add_mul, Nat.one_mul] at hmul
  rw [object, hs.s_mem, page2kva, page2kva, Nat.add_mul, Nat.mul_comm (2 ^ _)]
  constructor <;> omega

variable (hinv : h.Inv S C free page L)
include hinv
omit hC in
theorem Inv.bytes_page (ha : a ∈ h.slabs i) (hlo : page2kva (page a) ≤ y)
    (hhi : y < page2kva (page a + 2 ^ (C i).page_order)) : h.page_slab (kva2page y) = a := by
  have hpg : 0 < PGSIZE := by decide
  have hlo' : page a ≤ kva2page y := (Nat.le_div_iff_mul_le hpg).mpr hlo
  have hhi' : kva2page y < page a + 2 ^ (C i).page_order := (Nat.div_lt_iff_lt_mul hpg).mpr hhi
  exact ((hinv.slab i a ha).pages _ hlo' hhi').2.2

theorem Inv.objects_disjoint (ha : a ∈ h.slabs i) (ha' : a' ∈ h.slabs j) (hx : x < (C i).num)
    (hy : y < (C j).num) (hne : h.object C i a x ≠ h.object C j a' y) :
    Disjoint (Ico (h.object C i a x) (h.object C i a x + (C i).objsize))
      (Ico (h.object C j a' y) (h.object C j a' y + (C j).objsize)) := by
  rw [disjoint_left]
  intro z hz hz'
  rw [mem_Ico] at hz hz'
  obtain ⟨hlo, hhi⟩ := (hinv.slab i a ha).object_bytes hC (hinv.cache i a ha) hx
  obtain ⟨hlo', hhi'⟩ := (hinv.slab j a' ha').object_bytes hC (hinv.cache j a' ha') hy
  have hslab := hinv.bytes_page ha (y := z) (by omega) (by omega)
  obtain rfl := hslab.symm.trans (hinv.bytes_page ha' (by omega) (by omega))
  obtain rfl := hinv.slab_unique ha ha'
  -- in one slab the objects lie one behind the other
  unfold object at hz hz' hne
  rcases lt_trichotomy x y with hlt | rfl | hlt
  · have hmul : (x + 1) * (C i).objsize ≤ y * (C i).objsize := Nat.mul_le_mul_right _ hlt
    rw [Nat.add_mul, Nat.one_mul] at hmul
    omega
  · exact hne rfl
  · have hmul : (y + 1) * (C i).objsize ≤ x * (C i).objsize := Nat.mul_le_mul_right _ hlt
    rw [Nat.add_mul, Nat.one_mul] at hmul
    omega

theorem Inv.area_eq (ha : a ∈ h.slabs i) (hx : x < (C i).num) :
    h.area C (h.object C i a x) =
      Ico (h.object C i a x) (h.object C i a x + (C i).objsize) := by
  rw [area, ((hinv.slab i a ha).object_slab hC (hinv.cache i a ha) hx).2.1]

theorem Inv.taken_disjoint (ho : h.Taken C free i o) (ho' : h.Taken C free j o') (hne : o ≠ o') :
    Disjoint (h.area C o) (h.area C o') := by
  obtain ⟨a, x, ha, hx, -, rfl⟩ := ho
  obtain ⟨a', y, ha', hy, -, rfl⟩ := ho'
  rw [hinv.area_eq hC ha hx, hinv.area_eq hC ha' hy]
  exact hinv.objects_disjoint hC ha ha' hx hy hne

variable (ha : a ∈ h.slabs i)
include ha

theorem Inv.mgmtArea_outside (hoff : (C i).off_slab = true) : mgmtArea C i a ⊆ h.area C a := by
  obtain ⟨-, -, -, hsize⟩ := hC.outside i (hinv.cache i a ha) hoff
  obtain ⟨a', x, ha', hx, -, heq⟩ := hinv.mgmt i a ha hoff
  rw [heq, hinv.area_eq hC ha' hx, mgmtArea]
  exact Ico_subset_Ico (le_refl _) (by omega)

theorem Inv.mgmtArea_inside (hoff : (C i).off_slab = false) (hy : y ∈ mgmtArea C i a) :
    h.page_slab (kva2page y) = a ∧ y < (h.slab a).s_mem := by
  have hi := hinv.cache i a ha
  have hs := hinv.slab i a ha
  have hhome := hs.home hoff
  have hinside := hC.inside i hi hoff
  have hfits := hC.fits i hi
  rw [mgmtArea, mem_Ico] at hy
  have hlt : y < (h.slab a).s_mem := by
    rw [hs.s_mem, ← hhome]
    omega
  refine ⟨hinv.bytes_page ha (by omega) ?_, hlt⟩
  rw [hs.s_mem] at hlt
  rw [page2kva, Nat.add_mul, Nat.mul_comm (2 ^ _)]
  rw [page2kva] at hlt
  omega

theorem Inv.mgmtArea_object (ho : h.Taken C free j o) (hne : (C i).off_slab = true → o ≠ a) :
    Disjoint (mgmtArea C i a) (h.area C o) := by
  cases hoff : (C i).off_slab with
  | true =>
    have htaken := hinv.taken_disjoint hC (hinv.mgmt i a ha hoff) ho (hne hoff).symm
    exact disjoint_of_subset_left (hinv.mgmtArea_outside hC ha hoff) htaken
  | false =>
    obtain ⟨a', x, ha', hx, -, rfl⟩ := ho
    rw [hinv.area_eq hC ha' hx, disjoint_left]
    intro y hy hy'
    obtain ⟨hslab, hlt⟩ := hinv.mgmtArea_inside hC ha hoff hy
    obtain ⟨hlo, hhi⟩ := (hinv.slab j a' ha').object_bytes hC (hinv.cache j a' ha') hx
    rw [mem_Ico] at hy'
    obtain rfl := hslab.symm.trans (hinv.bytes_page ha' (by omega) (by omega))
    unfold object at hy'
    omega

theorem Inv.mgmtArea_disjoint (ha' : a' ∈ h.slabs j) (hne : a ≠ a') :
    Disjoint (mgmtArea C i a) (mgmtArea C j a') := by
  cases hoff' : (C j).off_slab with
  | true =>
    exact disjoint_of_subset_right (hinv.mgmtArea_outside hC ha' hoff')
      (hinv.mgmtArea_object hC ha (hinv.mgmt j a' ha' hoff') fun _ => hne.symm)
  | false =>
    cases hoff : (C i).off_slab with
    | true =>
      exact (disjoint_of_subset_right (hinv.mgmtArea_outside hC ha hoff)
        (hinv.mgmtArea_object hC ha' (hinv.mgmt i a ha hoff) fun _ => hne)).symm
    | false =>
      rw [disjoint_left]
      intro y hy hy'
      exact hne ((hinv.mgmtArea_inside hC ha hoff hy).1.symm.trans
        (hinv.mgmtArea_inside hC ha' hoff' hy').1)

end

section

/-- The states that `kmalloc` and `kfree` lead to from `h0`, with the live objects and the sizes
that were asked for. Only a live object is given to `kfree`. -/
inductive Reach (A : runs.Allocator σ δ) (C : ℕ → kmem_cache) (h0 : Heap σ) :
    List (ℕ × ℕ) → Heap σ → Prop
  | init : Reach A C h0 [] h0
  | kmalloc {live : List (ℕ × ℕ)} {h h' : Heap σ} {objp : Option ℕ} (size : ℕ) :
      Reach A C h0 live h →
    h.kmalloc A C size = some (objp, h') →
    Reach A C h0 ((objp.map fun o => (o, size)).toList ++ live) h'
  | kfree {live : List (ℕ × ℕ)} {h h' : Heap σ} {o size : ℕ} : Reach A C h0 live h →
    (o, size) ∈ live → h.kfree A C o = some h' → Reach A C h0 (live.filter fun p => p.1 ≠ o) h'

/-- The object is live or the management block of a slab. -/
def InUse (C : ℕ → kmem_cache) (live : List (ℕ × ℕ)) (h : Heap σ) (o : ℕ) : Prop :=
  o ∈ live.map Prod.fst ∨ h.Mgmt C o

/-- What holds of the live objects and the slabs between the operations. `held` are the runs of
pages that the others hold. -/
structure Integrity (S : runs.Spec A) (C : ℕ → kmem_cache) (held : Set (ℕ × ℕ))
    (live : List (ℕ × ℕ)) (h : Heap σ) : Prop where
  objects_disjoint : live.Pairwise fun p q => Disjoint (h.area C p.1) (h.area C q.1)
  objects_inside : ∀ p ∈ live, ∃ i, ∃ a ∈ h.slabs i, ∃ x < (C i).num, p.1 = h.object C i a x ∧
    h.page_cache (kva2page p.1) = i ∧ p.2 ≤ (C i).objsize ∧ h.area C p.1 ⊆ h.slabArea C i a ∧
    ((C i).off_slab = false → mgmtArea C i a ⊆ h.slabArea C i a ∧
      ∀ y ∈ mgmtArea C i a, y < p.1)
  mgmt_disjoint : ∀ i, ∀ a ∈ h.slabs i, (∀ p ∈ live, Disjoint (mgmtArea C i a) (h.area C p.1)) ∧
    ∀ j, ∀ a' ∈ h.slabs j, a ≠ a' → Disjoint (mgmtArea C i a) (mgmtArea C j a')
  slab_chain : ∀ i, ∀ a ∈ h.slabs i, ∃ l,
    Chain (h.slab a).bufctl BUFCTL_END (h.slab a).free l ∧ l.Nodup ∧
    (∀ x, x ∈ l ↔ x < (C i).num ∧ ¬h.InUse C live (h.object C i a x)) ∧
    (h.slab a).inuse = {x | x < (C i).num ∧ h.InUse C live (h.object C i a x)}.ncard ∧
    (a ∈ h.slabs_full i ↔ l = []) ∧ (a ∈ h.slabs_notfull i ↔ l ≠ [])
  listed_once : ∀ i, (h.slabs i).Nodup
  pages : S.live h.pmm = held ∪
    {r | ∃ i, ∃ a ∈ h.slabs i, r = (kva2page ((h.slab a).s_mem - (h.slab a).offset),
      2 ^ (C i).page_order)}
  none_left : live = [] → (∀ i, h.slabs i = []) ∧ S.live h.pmm = held
  kmalloc_returns : ∀ size, 0 < size → size ≤ 2 ^ MAX_SIZE_ORDER → ∃ r, h.kmalloc A C size = some r
  kfree_returns : ∀ p ∈ live, ∃ h', h.kfree A C p.1 = some h'

/-- The live objects are those the invariant has in use. -/
structure Tracks (C : ℕ → kmem_cache) (free : ℕ → List ℕ) (live : List (ℕ × ℕ)) (h : Heap σ) :
    Prop where
  nodup : (live.map Prod.fst).Nodup
  live_iff : ∀ o, (∃ i, h.Live C free i o) ↔ o ∈ live.map Prod.fst
  size : ∀ p ∈ live, ∃ i, h.Live C free i p.1 ∧ p.2 ≤ (C i).objsize

variable (hC : Caches C) (hlimit : 32 ≤ S.limit)
include hC hlimit

theorem Inv.kmalloc_spec (hinv : h.Inv S C free page L) (hbusy : h.Busy C free) (hsize : 0 < size)
    (horder : kmalloc.getorder size = some order) :
    ∃ i, size ≤ (C i).objsize ∧ AllocSpec S C free L h i (h.kmalloc A C size) := by
  obtain ⟨hlo, hhi, hn⟩ := kmalloc.getorder_search horder
  have hmax : MIN_SIZE_ORDER + SLAB_CACHE_NUM = MAX_SIZE_ORDER + 1 := by decide
  have hi : order - MIN_SIZE_ORDER < SLAB_CACHE_NUM := by omega
  refine ⟨order - MIN_SIZE_ORDER, ?_, ?_⟩
  · obtain ⟨hobj, hshift⟩ := hC.size _ hi
    rwa [hobj, hshift, Nat.sub_add_cancel hlo]
  · have heq : h.kmalloc A C size =
        kmem_cache_alloc A C SLAB_CACHE_NUM (order - MIN_SIZE_ORDER) h := by
      have hle : ¬order > MAX_SIZE_ORDER := by omega
      simp only [Heap.kmalloc, guard, gt_iff_lt, if_pos hsize, horder, Option.pure_def,
        Option.bind_eq_bind, Option.bind_some, if_neg hle]
    rw [heq]
    exact hinv.kmem_cache_alloc_spec hC hlimit hbusy hi 11

theorem Inv.kmalloc_tracks {objp : Option ℕ} (hinv : h.Inv S C free page L)
    (hbusy : h.Busy C free) (htracks : Tracks C free live h)
    (heq : h.kmalloc A C size = some (objp, h')) :
    ∃ free' page', h'.Inv S C free' page' L ∧ h'.Busy C free' ∧
      Tracks C free' ((objp.map fun o => (o, size)).toList ++ live) h' := by
  obtain ⟨hpos, order, horder⟩ : 0 < size ∧ ∃ order, kmalloc.getorder size = some order := by
    obtain ⟨_, hguard, hrest⟩ := Option.bind_eq_some_iff.mp heq
    obtain ⟨order, horder, -⟩ := Option.bind_eq_some_iff.mp hrest
    exact ⟨(Option.guard_eq_some' _).mp hguard, order, horder⟩
  obtain ⟨i, hsize, objp', h'', free', page', hres, hinv', hbusy', hnew, hiff⟩ :=
    hinv.kmalloc_spec hC hlimit hbusy hpos horder
  rw [heq] at hres
  cases hres
  refine ⟨free', page', hinv', hbusy', ?_⟩
  cases objp with
  | none =>
    have hsame : ∀ j o, h'.Live C free' j o ↔ h.Live C free j o := fun j o => by
      rw [hiff]
      simp
    refine ⟨htracks.nodup, fun o => ?_, fun p hp => ?_⟩
    · simp only [hsame]
      exact htracks.live_iff o
    · simp only [hsame]
      exact htracks.size p hp
  | some o =>
    have hfresh : o ∉ live.map Prod.fst := fun hmem => by
      obtain ⟨j, hlive⟩ := (htracks.live_iff o).mpr hmem
      exact hnew o rfl j hlive
    refine ⟨List.nodup_cons.mpr ⟨hfresh, htracks.nodup⟩, fun o' => ?_, fun p hp => ?_⟩
    · simp only [hiff, exists_or, exists_eq_left, Option.some_inj]
      rw [htracks.live_iff, or_comm, eq_comm]
      exact List.mem_cons.symm
    · rcases List.mem_cons.mp hp with rfl | hp'
      · exact ⟨i, (hiff _ _).mpr (.inr ⟨rfl, rfl⟩), hsize⟩
      · obtain ⟨j, hlive, hle⟩ := htracks.size p hp'
        exact ⟨j, (hiff _ _).mpr (.inl hlive), hle⟩

omit hlimit in
theorem Inv.kfree_tracks (hinv : h.Inv S C free page L) (hbusy : h.Busy C free)
    (htracks : Tracks C free live h) (hmem : (o, size) ∈ live)
    (heq : h.kfree A C o = some h') :
    ∃ free' page', h'.Inv S C free' page' L ∧ h'.Busy C free' ∧
      Tracks C free' (live.filter fun p => p.1 ≠ o) h' := by
  obtain ⟨i, hlive⟩ := (htracks.live_iff o).mpr (List.mem_map_of_mem hmem)
  obtain ⟨h'', free', page', hres, hinv', hbusy', hiff⟩ := hinv.kfree_spec hC hbusy hlive
  rw [heq] at hres
  cases hres
  refine ⟨free', page', hinv', hbusy', ?_, fun o' => ?_, fun p hp => ?_⟩
  · exact htracks.nodup.sublist (List.filter_sublist.map _)
  · simp only [hiff, exists_and_right, htracks.live_iff, List.mem_map, List.mem_filter,
      decide_eq_true_eq]
    constructor
    · rintro ⟨⟨p, hp, rfl⟩, hne⟩
      exact ⟨p, ⟨hp, hne⟩, rfl⟩
    · rintro ⟨p, ⟨hp, hne⟩, rfl⟩
      exact ⟨⟨p, hp, rfl⟩, hne⟩
  · obtain ⟨hp', hne⟩ := List.mem_filter.mp hp
    obtain ⟨j, hlive', hle⟩ := htracks.size p hp'
    exact ⟨j, (hiff _ _).mpr ⟨hlive', of_decide_eq_true hne⟩, hle⟩

omit hC hlimit in
theorem inv_of_empty (hinv : S.Inv h0.pmm) (hempty : ∀ i, h0.slabs i = []) :
    h0.Inv S C (fun _ => []) (fun _ => 0) (S.live h0.pmm) ∧ h0.Busy C (fun _ => []) ∧
      Tracks C (fun _ => []) [] h0 := by
  have hnone : ∀ {i a}, a ∉ h0.slabs i := fun ha => by simp [hempty] at ha
  have hlist : ∀ i, h0.slabs_notfull i = [] ∧ h0.slabs_full i = [] := fun i =>
    List.append_eq_nil_iff.mp (hempty i)
  refine ⟨⟨hinv, fun i a ha => absurd ha hnone,
    fun i a ha => absurd ha hnone, fun i => hempty i ▸ List.nodup_nil, fun i a ha => ?_,
    fun i a ha => rfl, ?_, fun i a ha => absurd ha hnone, fun i a ha => absurd ha hnone⟩,
    fun i a ha => absurd ha hnone, List.nodup_nil, fun o => ?_, fun p hp => ?_⟩
  · rw [(hlist i).1] at ha
    cases ha
  · refine (Set.union_eq_left.mpr ?_).symm
    rintro r ⟨i, a, ha, -⟩
    exact absurd ha hnone
  · refine iff_of_false ?_ List.not_mem_nil
    rintro ⟨i, ⟨a, x, ha, -⟩, -⟩
    exact hnone ha
  · cases hp

/-- Every sequence keeps the invariant, and what is live is in use. -/
theorem Reach.tracks (hinv : S.Inv h0.pmm) (hempty : ∀ i, h0.slabs i = [])
    (hreach : Reach A C h0 live h) : ∃ free page, h.Inv S C free page (S.live h0.pmm) ∧
      h.Busy C free ∧ Tracks C free live h := by
  induction hreach with
  | init => exact ⟨_, _, inv_of_empty hinv hempty⟩
  | kmalloc size _ heq ih =>
    obtain ⟨free, page, hinv, hbusy, htracks⟩ := ih
    exact hinv.kmalloc_tracks hC hlimit hbusy htracks heq
  | kfree _ hmem heq ih =>
    obtain ⟨free, page, hinv, hbusy, htracks⟩ := ih
    exact hinv.kfree_tracks hC hbusy htracks hmem heq

end

section

theorem SlabOk.page_eq (hs : h.SlabOk C i a b l) :
    kva2page ((h.slab a).s_mem - (h.slab a).offset) = b := by
  rw [hs.s_mem, hs.offset, Nat.add_sub_cancel]
  exact Nat.mul_div_cancel b (by decide)

theorem SlabOk.slabArea_eq (hs : h.SlabOk C i a b l) :
    h.slabArea C i a = Ico (page2kva b) (page2kva (b + 2 ^ (C i).page_order)) := by
  rw [slabArea, hs.page_eq]

theorem Busy.exists_taken (hbusy : h.Busy C free) (ha : a ∈ h.slabs i) :
    ∃ x < (C i).num, x ∉ free a := by
  by_contra hnone
  push Not at hnone
  have hlt := hbusy i a ha
  have hle := (List.nodup_range.subperm fun x hx => hnone x (List.mem_range.mp hx)).length_le
  rw [List.length_range] at hle
  omega

variable (hC : Caches C)
include hC

section
variable (hinv : h.Inv S C free page L)
include hinv

/-- Among the objects in use there is a live one: a management block is not an object of a cache
that has its management blocks elsewhere. -/
theorem Inv.exists_live (hbusy : h.Busy C free) (ha : a ∈ h.slabs i) :
    ∃ j o, h.Live C free j o := by
  have houter : ∀ {i a}, a ∈ h.slabs i → (C i).off_slab = true → ∃ j o, h.Live C free j o := by
    intro i a ha hoff
    obtain ⟨x, hx, hout⟩ := hbusy.exists_taken ha
    refine ⟨i, h.object C i a x, ⟨a, x, ha, hx, hout, rfl⟩, ?_⟩
    rintro ⟨j, hoffj, hmem⟩
    obtain ⟨-, -, hinner, -⟩ := hC.outside j (hinv.cache j _ hmem) hoffj
    obtain ⟨a', y, ha', hy, -, heq⟩ := hinv.mgmt j _ hmem hoffj
    obtain ⟨rfl, -, -⟩ := hinv.object_unique hC ha ha' hx hy heq
    cases hoff.symm.trans hinner
  obtain ⟨x, hx, hout⟩ := hbusy.exists_taken ha
  by_cases hm : h.Mgmt C (h.object C i a x)
  · obtain ⟨j, hoff, hmem⟩ := hm
    exact houter hmem hoff
  · exact ⟨i, _, ⟨a, x, ha, hx, hout, rfl⟩, hm⟩

theorem Inv.mem_free_iff (htracks : Tracks C free live h) (ha : a ∈ h.slabs i)
    (hx : x < (C i).num) : x ∈ free a ↔ ¬h.InUse C live (h.object C i a x) := by
  have hfree : ∀ {j}, h.Taken C free j (h.object C i a x) → x ∉ free a := by
    rintro j ⟨a', y, ha', hy, hout, heq⟩
    obtain ⟨-, rfl, rfl⟩ := hinv.object_unique hC ha ha' hx hy heq
    exact hout
  constructor
  · rintro hmem (hlive | ⟨j, hoff, hm⟩)
    · obtain ⟨j, htaken, -⟩ := (htracks.live_iff _).mpr hlive
      exact hfree htaken hmem
    · exact hfree (hinv.mgmt j _ hm hoff) hmem
  · intro hnot
    by_contra hout
    refine hnot ?_
    by_cases hm : h.Mgmt C (h.object C i a x)
    · exact .inr hm
    · exact .inl ((htracks.live_iff _).mp ⟨i, ⟨a, x, ha, hx, hout, rfl⟩, hm⟩)

theorem Inv.slab_chain (htracks : Tracks C free live h) (ha : a ∈ h.slabs i) :
    ∃ l, Chain (h.slab a).bufctl BUFCTL_END (h.slab a).free l ∧ l.Nodup ∧
      (∀ x, x ∈ l ↔ x < (C i).num ∧ ¬h.InUse C live (h.object C i a x)) ∧
      (h.slab a).inuse = {x | x < (C i).num ∧ h.InUse C live (h.object C i a x)}.ncard ∧
      (a ∈ h.slabs_full i ↔ l = []) ∧ (a ∈ h.slabs_notfull i ↔ l ≠ []) := by
  have hs := hinv.slab i a ha
  have hiff := fun {x} (hx : x < (C i).num) => hinv.mem_free_iff hC htracks ha hx
  refine ⟨free a, hs.chain, hs.nodup, fun x => ?_, ?_, ⟨hinv.full i a, fun hnil => ?_⟩,
    ⟨hinv.notfull i a, fun hne => ?_⟩⟩
  · exact ⟨fun hx => ⟨hs.bound x hx, (hiff (hs.bound x hx)).mp hx⟩, fun hx => (hiff hx.1).mpr hx.2⟩
  · have hset : {x | x < (C i).num ∧ h.InUse C live (h.object C i a x)} =
        ↑(range (C i).num \ (free a).toFinset) := by
      ext x
      simp only [Set.mem_ofPred_eq, coe_sdiff, Set.mem_sdiff, mem_coe, mem_range, List.mem_toFinset]
      exact and_congr_right fun hx => by rw [hiff hx, not_not]
    have hsub : (free a).toFinset ⊆ range (C i).num := fun x hx =>
      mem_range.mpr (hs.bound x (List.mem_toFinset.mp hx))
    rw [hset, Set.ncard_coe_finset, card_sdiff_of_subset hsub, card_range,
      List.toFinset_card_of_nodup hs.nodup]
    exact Nat.eq_sub_of_add_eq hs.inuse
  · exact (mem_slabs.mp ha).resolve_left fun hold => hinv.notfull i a hold hnil
  · exact (mem_slabs.mp ha).resolve_right fun hold => hne (hinv.full i a hold)

theorem Inv.object_inside (ha : a ∈ h.slabs i) (hx : x < (C i).num) :
    h.area C (h.object C i a x) ⊆ h.slabArea C i a ∧
      ((C i).off_slab = false → mgmtArea C i a ⊆ h.slabArea C i a ∧
        ∀ y ∈ mgmtArea C i a, y < h.object C i a x) := by
  have hi := hinv.cache i a ha
  have hs := hinv.slab i a ha
  obtain ⟨hlo, hhi⟩ := hs.object_bytes hC hi hx
  rw [hinv.area_eq hC ha hx, hs.slabArea_eq]
  refine ⟨Ico_subset_Ico (by omega) hhi, fun hoff => ?_⟩
  have hhome := hs.home hoff
  have hinside := hC.inside i hi hoff
  refine ⟨Ico_subset_Ico hhome.ge (by omega), fun y hy => ?_⟩
  rw [mgmtArea, mem_Ico] at hy
  omega

end

theorem Inv.integrity (hlimit : 32 ≤ S.limit) (hinv : h.Inv S C free page L)
    (hbusy : h.Busy C free) (htracks : Tracks C free live h) : Integrity S C L live h := by
  have hlive : ∀ p ∈ live, ∃ i, h.Live C free i p.1 := fun p hp =>
    (htracks.live_iff p.1).mpr (List.mem_map_of_mem hp)
  have hempty : live = [] → ∀ i, h.slabs i = [] := fun hnil i => by
    refine List.eq_nil_iff_forall_not_mem.mpr fun a ha => ?_
    obtain ⟨j, o, ho⟩ := hinv.exists_live hC hbusy ha
    have hmem := (htracks.live_iff o).mp ⟨j, ho⟩
    rw [hnil] at hmem
    cases hmem
  have hpages : S.live h.pmm = L ∪ {r | ∃ i, ∃ a ∈ h.slabs i,
      r = (kva2page ((h.slab a).s_mem - (h.slab a).offset), 2 ^ (C i).page_order)} := by
    rw [hinv.live]
    congr 1
    ext r
    constructor
    · rintro ⟨i, a, ha, rfl⟩
      exact ⟨i, a, ha, by rw [(hinv.slab i a ha).page_eq]⟩
    · rintro ⟨i, a, ha, rfl⟩
      exact ⟨i, a, ha, by rw [(hinv.slab i a ha).page_eq]⟩
  refine ⟨?_, fun p hp => ?_, fun i a ha => ⟨fun p hp => ?_, fun j a' ha' hne => ?_⟩,
    fun i a ha => hinv.slab_chain hC htracks ha, hinv.nodup, hpages,
    fun hnil => ⟨hempty hnil, ?_⟩, fun size hpos hle => ?_, fun p hp => ?_⟩
  · have hpair := List.pairwise_map.mp htracks.nodup
    refine hpair.imp_of_mem fun {p q} hp hq hne => ?_
    obtain ⟨i, hi⟩ := hlive p hp
    obtain ⟨j, hj⟩ := hlive q hq
    exact hinv.taken_disjoint hC hi.1 hj.1 hne
  · obtain ⟨i, ⟨⟨a, x, ha, hx, -, heq⟩, -⟩, hsize⟩ := htracks.size p hp
    refine ⟨i, a, ha, x, hx, heq, ?_, hsize, ?_⟩
    · rw [heq]
      exact ((hinv.slab i a ha).object_slab hC (hinv.cache i a ha) hx).2.1
    · rw [heq]
      exact hinv.object_inside hC ha hx
  · obtain ⟨j, hj⟩ := hlive p hp
    exact hinv.mgmtArea_object hC ha hj.1 fun hoff heq => hj.2 (heq ▸ ⟨i, hoff, ha⟩)
  · exact hinv.mgmtArea_disjoint hC ha ha' hne
  · rw [hpages, Set.union_eq_left]
    rintro r ⟨i, a, ha, -⟩
    rw [hempty hnil i] at ha
    cases ha
  · obtain ⟨order, horder⟩ : ∃ order, kmalloc.getorder size = some order :=
      kmalloc.getorder_search_isSome hle
    obtain ⟨i, -, objp, h', -, -, heq, -⟩ := hinv.kmalloc_spec hC hlimit hbusy hpos horder
    exact ⟨_, heq⟩
  · obtain ⟨i, hi⟩ := hlive p hp
    obtain ⟨h', -, -, heq, -⟩ := hinv.kfree_spec hC hbusy hi
    exact ⟨h', heq⟩

end

/-- From the empty caches on, every sequence of `kmalloc` and `kfree` over a correct allocator of
pages keeps the live objects apart from each other and from the management areas, and the lists
of the slabs exact. When no object is live all pages are back. -/
theorem slab_integrity (S : runs.Spec A) (hlimit : 32 ≤ S.limit) {caches : List kmem_cache}
    (hinit : slab_init = some caches) (hinv : S.Inv h0.pmm) (hempty : ∀ i, h0.slabs i = [])
    (hreach : Reach A (cacheOf caches) h0 live h) :
    Integrity S (cacheOf caches) (S.live h0.pmm) live h := by
  obtain ⟨l, hl, hC⟩ := slab_init_caches
  rw [hinit] at hl
  cases hl
  obtain ⟨free, page, hinv', hbusy, htracks⟩ := hreach.tracks hC hlimit hinv hempty
  exact hinv'.integrity hC hlimit hbusy htracks

/-- The state at the end of `slab_init`. -/
def booted (pmm : σ) : Heap σ :=
  ⟨pmm, fun _ => [], fun _ => [], fun _ => ⟨0, 0, 0, 0, fun _ => 0⟩, fun _ => false, fun _ => 0,
    fun _ => 0⟩

theorem slab_integrity_off_slab : ∃ caches pmm o h, slab_init = some caches ∧
    Reach (buddyAllocator 64) (cacheOf caches) (booted pmm) [(o, 600)] h ∧
    (cacheOf caches 5).off_slab = true ∧ (∃ a, a ∈ h.slabs 5) ∧
    Integrity (buddySpec 64) (cacheOf caches) ((buddySpec 64).live pmm) [(o, 600)] h := by
  have hrun : (slab_init.bind fun caches => (Pages.boot 64).bind fun pmm =>
      ((booted pmm).kmalloc (buddyAllocator 64) (cacheOf caches) 600).bind fun r =>
      r.1.bind fun _ => guard ((cacheOf caches 5).off_slab = true ∧
        (r.2.slabs 5).head?.isSome)).isSome := by
    decide +kernel
  obtain ⟨_, hrun⟩ := Option.isSome_iff_exists.mp hrun
  simp only [Option.bind_eq_some_iff] at hrun
  obtain ⟨caches, hinit, pmm, hboot, ⟨objp, h⟩, hkmalloc, o, rfl, hrun⟩ := hrun
  obtain ⟨hoff, hhead⟩ := (Option.guard_eq_some' _).mp hrun
  obtain ⟨a, ha⟩ := Option.isSome_iff_exists.mp hhead
  have hreach : Reach (buddyAllocator 64) (cacheOf caches) (booted pmm) [(o, 600)] h :=
    .kmalloc 600 .init hkmalloc
  have hinv := (Pages.boot_inv (by decide) hboot).1
  exact ⟨caches, pmm, o, h, hinit, hreach, hoff, ⟨a, List.mem_of_mem_head? ha⟩,
    slab_integrity (buddySpec 64) (by decide) hinit hinv (fun _ => rfl) hreach⟩

end Heap

end ucore
