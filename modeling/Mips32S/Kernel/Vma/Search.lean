import Mips32S.Kernel.Vma.Mapping

open Option List

namespace ucore

/-- The states of an address space: areas are added by `mm_map` and by `dup_mmap` from another
address space, and every search moves the cache. -/
inductive mm_struct.Built : mm_struct → Prop where
  | create (pgdir : Option ℕ) : Built { mm_create with pgdir }
  | map {mm mm' : mm_struct} {addr len vm_flags : BitVec 32} {fresh : Bool} {ret : ℤ}
      (h : Built mm) (hstep : mm_map mm addr len vm_flags fresh = some (ret, mm')) : Built mm'
  | dup {target source target' : mm_struct} {fresh copied : vma_struct → Bool} {ret : ℤ}
      (ht : Built target) (hs : Built source)
      (hstep : dup_mmap fresh copied target source = some (ret, target')) : Built target'
  | find {mm : mm_struct} (h : Built mm) (addr : BitVec 32) : Built (find_vma mm addr).2

variable {mm mm' : mm_struct} {v : vma_struct}

theorem not_overlaps_of_insert (h : mm.Ordered) (hins : insert_vma_struct mm v = some mm') :
    ¬ mm.Overlaps v.vm_start v.vm_end := by
  simp only [insert_vma_struct, bind_eq_bind, bind_eq_some_iff,
    guard_eq_some', Option.all_eq_true] at hins
  obtain ⟨-, -, -, hlast, -, hhead, -⟩ := hins
  have hsorted := h.sorted
  have hsplit : mm.mmap_list.takeWhile (·.vm_start ≤ v.vm_start) ++
      mm.mmap_list.dropWhile (·.vm_start ≤ v.vm_start) = mm.mmap_list :=
    takeWhile_append_dropWhile
  rintro ⟨w, hw, hlo, hhi⟩
  rw [← hsplit, pairwise_append] at hsorted
  rw [← hsplit] at hw
  generalize mm.mmap_list.takeWhile (·.vm_start ≤ v.vm_start) = before at *
  generalize mm.mmap_list.dropWhile (·.vm_start ≤ v.vm_start) = after at *
  rcases mem_append.mp hw with hw | hw
  · obtain ⟨init, u, rfl⟩ := (eq_nil_or_concat before).resolve_left (ne_nil_of_mem hw)
    rw [concat_eq_append] at *
    have hu : check_vma_overlap u v = true := hlast u getLast?_concat
    simp only [check_vma_overlap, decide_eq_true_eq] at hu
    rcases mem_append.mp hw with hw | hw
    · have hwu := (pairwise_append.mp hsorted.1).2.2 w hw u mem_cons_self
      bv_omega
    · rw [mem_singleton.mp hw] at hhi
      bv_omega
  · obtain ⟨u, rest, rfl⟩ := exists_cons_of_ne_nil (ne_nil_of_mem hw)
    have hu : check_vma_overlap v u = true := hhead u rfl
    simp only [check_vma_overlap, decide_eq_true_eq] at hu
    rcases mem_cons.mp hw with rfl | hw
    · bv_omega
    · have huw := (pairwise_cons.mp hsorted.2.1).1 w hw
      bv_omega

theorem insert_vma_struct_ordered (h : mm.Ordered) (hv : v.Valid)
    (hins : insert_vma_struct mm v = some mm') : mm'.Ordered := by
  obtain ⟨before, after, mm1, -, heq, -, hord⟩ :=
    insert_vma_struct_spec h hv (not_overlaps_of_insert h hins)
  rw [heq] at hins
  cases hins
  exact hord

theorem dupAreas_ordered {fresh copied : vma_struct → Bool} {rest : List vma_struct} {ret : ℤ}
    (h : mm.Ordered) (hvalid : ∀ v ∈ rest, v.Valid)
    (hstep : dupAreas fresh copied mm rest = some (ret, mm')) : mm'.Ordered := by
  induction rest generalizing mm with
  | nil =>
    cases hstep
    exact h
  | cons v rest ih =>
    rw [dupAreas] at hstep
    by_cases hfresh : fresh v = true
    · rw [if_pos hfresh] at hstep
      obtain ⟨mm1, hins, hstep⟩ := bind_eq_some_iff.mp hstep
      have hord := insert_vma_struct_ordered h (hvalid v mem_cons_self) hins
      split_ifs at hstep with hcopied
      · exact ih hord (fun w hw => hvalid w (mem_cons_of_mem v hw)) hstep
      · cases hstep
        exact hord
    · rw [if_neg hfresh] at hstep
      cases hstep
      exact h

theorem mm_struct.Built.ordered (h : mm.Built) : mm.Ordered := by
  induction h with
  | create pgdir => exact (AddressSpace.create pgdir).ordered
  | map h hstep ih =>
    obtain ⟨ret, mm', heq, hord, -⟩ := mm_map_cases ih _ _ _ _
    rw [heq] at hstep
    cases hstep
    exact hord
  | dup ht hs hstep iht ihs =>
    refine dupAreas_ordered iht ?_ hstep
    intro v hv
    exact ihs.valid v (mem_reverse.mp hv)
  | find h addr ih => exact (find_vma_ordered ih addr).2

theorem find?_eq_some_iff_lowest (h : mm.Ordered) (addr : BitVec 32) :
    mm.mmap_list.find? (addr < ·.vm_end) = some v ↔
      v ∈ mm.mmap_list ∧ addr < v.vm_end ∧
        ∀ w ∈ mm.mmap_list, addr < w.vm_end → v.vm_start ≤ w.vm_start := by
  have hsorted := h.sorted
  have hlt : ∀ v ∈ mm.mmap_list, v.vm_start < v.vm_end := fun v hv => (h.valid v hv).lt
  revert hsorted hlt
  generalize mm.mmap_list = l
  intro hsorted hlt
  induction l with
  | nil => simp
  | cons u l ih =>
    rw [pairwise_cons] at hsorted
    have hu := hlt u mem_cons_self
    by_cases haddr : addr < u.vm_end
    · rw [find?_cons_of_pos (by simpa using haddr)]
      constructor
      · rintro ⟨⟩
        refine ⟨mem_cons_self, haddr, ?_⟩
        intro w hw _
        rcases mem_cons.mp hw with rfl | hw
        · bv_omega
        · have := hsorted.1 w hw
          bv_omega
      · rintro ⟨hv, -, hlow⟩
        rcases mem_cons.mp hv with rfl | hv
        · rfl
        · have hle := hlow u mem_cons_self haddr
          have huv := hsorted.1 v hv
          bv_omega
    · have ih := ih hsorted.2 fun w hw => hlt w (mem_cons_of_mem u hw)
      rw [find?_cons_of_neg (by simpa using haddr)]
      refine ih.trans ⟨?_, ?_⟩
      · rintro ⟨hv, hend, hlow⟩
        refine ⟨mem_cons_of_mem u hv, hend, ?_⟩
        intro w hw hwend
        rcases mem_cons.mp hw with rfl | hw
        · exact absurd hwend haddr
        · exact hlow w hw hwend
      · rintro ⟨hv, hend, hlow⟩
        rcases mem_cons.mp hv with rfl | hv
        · exact absurd hend haddr
        · exact ⟨hv, hend, fun w hw => hlow w (mem_cons_of_mem u hw)⟩

/-- After any history, and whatever the cache holds, a search finds the lowest area that ends
above the address, which is the one that contains it if there is one. -/
theorem find_vma_lowest (h : mm.Built) (addr : BitVec 32) :
    (∀ v, (find_vma mm addr).1 = some v ↔ v ∈ mm.mmap_list ∧ addr < v.vm_end ∧
        ∀ w ∈ mm.mmap_list, addr < w.vm_end → v.vm_start ≤ w.vm_start) ∧
      (∀ v ∈ mm.mmap_list, v.vm_start ≤ addr → addr < v.vm_end →
        (find_vma mm addr).1 = some v) ∧
      ((find_vma mm addr).1 = none ↔ ∀ v ∈ mm.mmap_list, ¬ addr < v.vm_end) ∧
      ∀ mm' : mm_struct, mm'.Built → mm'.mmap_list = mm.mmap_list →
        (find_vma mm' addr).1 = (find_vma mm addr).1 := by
  have hord := h.ordered
  rw [find_vma_eq hord]
  refine ⟨fun v => find?_eq_some_iff_lowest hord addr, ?_, ?_, ?_⟩
  · intro v hv hlo hhi
    exact pairwise_find? hord.sorted hv hlo hhi
  · rw [find?_eq_none]
    simp only [decide_eq_true_eq]
  · intro mm' h' hlist
    rw [find_vma_eq h'.ordered, hlist]

/-- Two areas, the cache on the upper one, and a search below both. -/
theorem find_vma_lowest_below :
    ∃ mm : mm_struct, mm.Built ∧ mm.mmap_cache = some ⟨0x30000000#32, 0x30001000#32, 2#32⟩ ∧
      (find_vma mm 0x18000000#32).1 = some ⟨0x20000000#32, 0x20001000#32, 1#32⟩ := by
  have hlow : mm_map mm_create 0x20000000#32 0x1000#32 1#32 true =
      some (0, ⟨[⟨0x20000000#32, 0x20001000#32, 1#32⟩], none, none, 1⟩) := by decide
  have hhigh : mm_map ⟨[⟨0x20000000#32, 0x20001000#32, 1#32⟩], none, none, 1⟩ 0x30000000#32
      0x1000#32 2#32 true = some (0, ⟨[⟨0x20000000#32, 0x20001000#32, 1#32⟩,
        ⟨0x30000000#32, 0x30001000#32, 2#32⟩], none, none, 2⟩) := by decide
  have hbuilt := (((mm_struct.Built.create none).map hlow).map hhigh).find 0x30000800#32
  refine ⟨_, hbuilt, by decide, ?_⟩
  apply ((find_vma_lowest hbuilt _).1 _).mpr
  decide

end ucore
