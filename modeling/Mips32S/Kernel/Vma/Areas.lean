import Mips32S.Kernel.Vma.Vmm

open Option List

namespace ucore

/-- A non-empty interval of whole pages of user space. -/
structure vma_struct.Valid (v : vma_struct) : Prop where
  user : USER_ACCESS v.vm_start v.vm_end
  start_aligned : v.vm_start.toNat % PGSIZE = 0
  end_aligned : v.vm_end.toNat % PGSIZE = 0

/-- The list is sorted without overlaps, and the cache points into it. -/
structure mm_struct.Searchable (mm : mm_struct) : Prop where
  sorted : mm.mmap_list.Pairwise fun v w => v.vm_end ≤ w.vm_start
  cache : ∀ v ∈ mm.mmap_cache, v ∈ mm.mmap_list

/-- The areas of a searchable list are intervals of pages of user space, and they are counted. -/
structure mm_struct.Ordered (mm : mm_struct) : Prop where
  valid : ∀ v ∈ mm.mmap_list, v.Valid
  sorted : mm.mmap_list.Pairwise fun v w => v.vm_end ≤ w.vm_start
  cache : ∀ v ∈ mm.mmap_cache, v ∈ mm.mmap_list
  count : mm.map_count = mm.mmap_list.length

/-- The area shares an address with an area of the list. -/
def mm_struct.Overlaps (mm : mm_struct) (start stop : BitVec 32) : Prop :=
  ∃ v ∈ mm.mmap_list, v.vm_start < stop ∧ start < v.vm_end

variable {mm : mm_struct} {v : vma_struct} {start stop addr : BitVec 32} {l : List vma_struct}

theorem vma_struct.Valid.lt (h : v.Valid) : v.vm_start < v.vm_end := h.user.2.1

theorem vma_struct.Valid.page_mem (hv : v.Valid) (hlo : v.vm_start ≤ addr)
    (hhi : addr < v.vm_end) : v.vm_start.toNat / PGSIZE ≤ addr.toNat / PGSIZE ∧
      addr.toNat / PGSIZE < v.vm_end.toNat / PGSIZE := by
  have hlo : v.vm_start.toNat ≤ addr.toNat := hlo
  have hhi : addr.toNat < v.vm_end.toNat := hhi
  have halign : v.vm_end.toNat % 4096 = 0 := hv.end_aligned
  change v.vm_start.toNat / 4096 ≤ addr.toNat / 4096 ∧ addr.toNat / 4096 < v.vm_end.toNat / 4096
  omega

theorem pairwise_find? (hs : l.Pairwise fun v w => v.vm_end ≤ w.vm_start) (hv : v ∈ l)
    (hlo : v.vm_start ≤ addr) (hhi : addr < v.vm_end) : l.find? (addr < ·.vm_end) = some v := by
  induction l with
  | nil => cases hv
  | cons w l ih =>
    rw [pairwise_cons] at hs
    rcases mem_cons.mp hv with rfl | hv
    · simp [hhi]
    · have hw := hs.1 v hv
      have hnot : ¬ addr < w.vm_end := by bv_omega
      simp [hnot, ih hs.2 hv]

theorem mm_struct.Searchable.find_vma_eq (h : mm.Searchable) (addr : BitVec 32) :
    (find_vma mm addr).1 = mm.mmap_list.find? (addr < ·.vm_end) := by
  unfold find_vma
  cases hc : mm.mmap_cache with
  | none => rfl
  | some v =>
    by_cases hin : v.vm_start ≤ addr ∧ addr < v.vm_end
    · simp [hin, pairwise_find? h.sorted (h.cache v hc) hin.1 hin.2]
    · simp [hin]

theorem mm_struct.Searchable.find_vma_searchable (h : mm.Searchable) (addr : BitVec 32) :
    (find_vma mm addr).2.Searchable := by
  refine ⟨h.sorted, fun v hv => ?_⟩
  have hcache : (find_vma mm addr).2.mmap_cache = (find_vma mm addr).1.or mm.mmap_cache := rfl
  rw [hcache, h.find_vma_eq, mem_def, or_eq_some_iff] at hv
  rcases hv with hv | ⟨-, hv⟩
  · exact mem_of_find?_eq_some hv
  · exact h.cache v hv

section
variable (h : mm.Ordered)
include h

theorem mm_struct.Ordered.searchable : mm.Searchable := ⟨h.sorted, h.cache⟩

theorem find_vma_eq (addr : BitVec 32) :
    (find_vma mm addr).1 = mm.mmap_list.find? (addr < ·.vm_end) :=
  h.searchable.find_vma_eq addr

theorem find_vma_ordered (addr : BitVec 32) :
    (find_vma mm addr).2.mmap_list = mm.mmap_list ∧ (find_vma mm addr).2.Ordered :=
  ⟨rfl, h.valid, h.sorted, (h.searchable.find_vma_searchable addr).cache, h.count⟩

/-- The one area that `mm_map` looks at decides whether the interval overlaps any. -/
theorem overlaps_iff (start stop : BitVec 32) :
    mm.Overlaps start stop ↔
      ∃ v, mm.mmap_list.find? (start < ·.vm_end) = some v ∧ v.vm_start < stop := by
  constructor
  · rintro ⟨w, hw, hws, hwe⟩
    have hsorted := h.sorted
    have hvalid := h.valid
    revert hw hsorted hvalid
    generalize mm.mmap_list = l
    intro hw hsorted hvalid
    induction l with
    | nil => cases hw
    | cons v l ih =>
      rw [pairwise_cons] at hsorted
      by_cases hv : start < v.vm_end
      · refine ⟨v, by simp [hv], ?_⟩
        rcases mem_cons.mp hw with rfl | hw
        · exact hws
        · have hvw := hsorted.1 w hw
          have hlt' := (hvalid v (by simp)).lt
          bv_omega
      · rcases mem_cons.mp hw with rfl | hw
        · exact absurd hwe hv
        · obtain ⟨u, hu, hus⟩ := ih hw hsorted.2 fun v hv => hvalid v (by simp [hv])
          exact ⟨u, by simpa [hv] using hu, hus⟩
  · rintro ⟨v, hf, hv⟩
    exact ⟨v, mem_of_find?_eq_some hf, hv, by simpa using find?_some hf⟩

end

theorem sorted_dropWhile (hs : l.Pairwise fun v w => v.vm_end ≤ w.vm_start)
    (hvalid : ∀ v ∈ l, v.Valid) : ∀ v ∈ l.dropWhile (·.vm_start ≤ start), start < v.vm_start := by
  induction l with
  | nil => simp
  | cons w l ih =>
    rw [pairwise_cons] at hs
    rw [dropWhile_cons]
    split
    · exact ih hs.2 fun v hv => hvalid v (by simp [hv])
    · rename_i hw
      have hw' : ¬ w.vm_start ≤ start := by simpa using hw
      intro v hv
      rcases mem_cons.mp hv with rfl | hv
      · bv_omega
      · have hwv := hs.1 v hv
        have hlt := (hvalid w (by simp)).lt
        bv_omega

/-- Inserting a valid area that overlaps no other one: no assertion fails and the list stays
ordered. -/
theorem insert_vma_struct_spec (h : mm.Ordered) (hv : v.Valid)
    (hover : ¬ mm.Overlaps v.vm_start v.vm_end) :
    ∃ before after mm', mm.mmap_list = before ++ after ∧
      insert_vma_struct mm v = some mm' ∧ mm'.mmap_list = before ++ v :: after ∧
      mm'.Ordered := by
  have hbefore : ∀ w ∈ mm.mmap_list.takeWhile (·.vm_start ≤ v.vm_start),
      w.vm_end ≤ v.vm_start ∧ w.Valid := by
    intro w hw
    have hmem := (takeWhile_sublist _).mem hw
    have hle : w.vm_start ≤ v.vm_start := by
      simpa using List.all_eq_true.mp all_takeWhile w hw
    refine ⟨?_, h.valid w hmem⟩
    by_contra hgt
    have hlt := hv.lt
    exact hover ⟨w, hmem, by bv_omega, by bv_omega⟩
  have hafter : ∀ w ∈ mm.mmap_list.dropWhile (·.vm_start ≤ v.vm_start),
      v.vm_end ≤ w.vm_start ∧ w.Valid := by
    intro w hw
    have hmem := (dropWhile_sublist _).mem hw
    have hgt := sorted_dropWhile h.sorted h.valid w hw
    refine ⟨?_, h.valid w hmem⟩
    by_contra hlt
    have hw' := (h.valid w hmem).lt
    exact hover ⟨w, hmem, by bv_omega, by bv_omega⟩
  have hsplit : mm.mmap_list.takeWhile (·.vm_start ≤ v.vm_start) ++
      mm.mmap_list.dropWhile (·.vm_start ≤ v.vm_start) = mm.mmap_list :=
    takeWhile_append_dropWhile
  revert hbefore hafter hsplit
  unfold insert_vma_struct
  generalize mm.mmap_list.takeWhile (·.vm_start ≤ v.vm_start) = before
  generalize mm.mmap_list.dropWhile (·.vm_start ≤ v.vm_start) = after
  intro hbefore hafter hsplit
  have hlast : before.getLast?.all (check_vma_overlap · v) = true := by
    rw [Option.all_eq_true]
    intro w hw
    obtain ⟨hle, hw⟩ := hbefore w (mem_of_getLast? hw)
    simp [check_vma_overlap, hle, hw.lt, hv.lt]
  have hhead : after.head?.all (check_vma_overlap v ·) = true := by
    rw [Option.all_eq_true]
    intro w hw
    obtain ⟨hle, hw⟩ := hafter w (mem_of_mem_head? hw)
    simp [check_vma_overlap, hle, hw.lt, hv.lt]
  have hsorted := h.sorted
  rw [← hsplit, pairwise_append] at hsorted
  refine ⟨before, after, _, hsplit.symm, by simp [hv.lt, hlast, hhead]; rfl, rfl, ?_, ?_, ?_, ?_⟩
  · intro w hw
    rcases mem_append.mp hw with hw | hw
    · exact (hbefore w hw).2
    · rcases mem_cons.mp hw with rfl | hw
      · exact hv
      · exact (hafter w hw).2
  · rw [pairwise_append, pairwise_cons]
    refine ⟨hsorted.1, ⟨fun w hw => (hafter w hw).1, hsorted.2.1⟩, fun w hw u hu => ?_⟩
    rcases mem_cons.mp hu with rfl | hu
    · exact (hbefore w hw).1
    · exact hsorted.2.2 w hw u hu
  · intro w hw
    have := hsplit ▸ h.cache w hw
    rw [mem_append] at this
    rw [mem_append, mem_cons]
    tauto
  · have := h.count
    rw [← hsplit] at this
    simp only [length_append, length_cons] at this ⊢
    omega

end ucore
