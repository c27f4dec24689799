import Mips32S.Kernel.Paging.Evolution
import Mips32S.Kernel.Paging.Space

open Function Option Finset

namespace ucore

variable {σ : Type} {A : runs.Allocator σ ℤ} {S : runs.Spec A} {D X : Finset ℕ} {s s' : Vm σ}
  {boot c d n : ℕ} {mm mm' oldmm : mm_struct} {ret : ℤ} {areas : List vma_struct} {P : Vm σ → Prop}

/-- What `kmalloc` may do to the pages: allocate some. -/
def TakesPages (S : runs.Spec A) (kmalloc : σ → Option (Bool × σ)) : Prop :=
  ∀ pmm ok pmm', S.Inv pmm → kmalloc pmm = some (ok, pmm') → S.Grows pmm pmm'

theorem TakesPages.evolves {kmalloc : σ → Option (Bool × σ)} {r : Bool × Vm σ}
    (hk : TakesPages S kmalloc) (hclear : S.clear = 0) (d : ℕ) (h : s.Wf S D)
    (heq : s.kmalloc kmalloc = some r) : Evolves S D X d s r.2 := by
  obtain ⟨⟨ok, pmm⟩, hpmm, hr⟩ := bind_eq_some_iff.mp heq
  cases hr
  exact .of_pmm d (h.grow hclear (hk _ _ _ h.inv hpmm))

theorem foldlM_ind {f : Vm σ → vma_struct → Option (Vm σ)}
    (hf : ∀ s s' vma, P s → f s vma = some s' → P s') (h : P s) (heq : areas.foldlM f s = some s') :
    P s' := by
  induction areas generalizing s with
  | nil =>
    cases heq
    exact h
  | cons vma rest ih =>
    obtain ⟨s1, hstep, hrest⟩ := bind_eq_some_iff.mp heq
    exact ih (hf s s1 vma h hstep) hrest

/-- What the removal of a mapping and that of a table preserve, `exit_mmap` preserves. -/
theorem exit_mmap_ind (hunmap : ∀ n s r, P s → unmap_range.body A d n s = some r → P r.2)
    (hfree : ∀ i < 1024, ∀ s s', P s → exit_range.free A d i s = some s' → P s')
    (hmm : mm.pgdir = some d) (h : P s) (heq : exit_mmap A mm s = some s') : P s' := by
  simp only [exit_mmap, hmm, bind_eq_bind, bind_some, bind_eq_some_iff] at heq
  obtain ⟨s1, hareas, heq⟩ := heq
  have h1 : P s1 := foldlM_ind (fun s s' vma hs hrange => by
    simp only [unmap_range, rangeLoop, map_eq_some_iff, bind_eq_bind, bind_eq_some_iff] at hrange
    obtain ⟨r, ⟨-, -, -, -, hloop⟩, rfl⟩ := hrange
    exact pageLoop_ind hunmap hs hloop) h hareas
  refine foldlM_ind (fun s s' vma hs hrange => ?_) h1 heq
  simp only [exit_range, bind_eq_bind, bind_eq_some_iff] at hrange
  obtain ⟨-, -, -, -, r, hloop, hs'⟩ := hrange
  cases hs'
  refine pageLoop_ind (fun n s r hs hbody => ?_) hs hloop
  obtain ⟨s2, hround, rfl⟩ := map_eq_some_iff.mp hbody
  exact hfree _ (PDX_lt _) s s2 hs hround

section
variable (h : s.Wf S D) (hmm : mm.pgdir = some d) (hd : d ∈ D)
include h hmm hd

theorem exit_mmap_evolves (heq : exit_mmap A mm s = some s') : Evolves S D {d} d s s' := by
  refine exit_mmap_ind (fun n s1 r he hround => ?_)
    (fun i hi s1 s2 he hfree => ?_) hmm (.refl d h) heq
  · exact he.trans (unmap_range_body_evolves he.wf hd hround)
  · obtain ⟨s', hsome, hstrips, -⟩ := exit_range_free_spec he.wf hd hi
    cases hsome.symm.trans hfree
    exact he.trans hstrips.evolves

theorem put_pgdir_spec (heq : put_pgdir A mm s = some s') :
    s'.Wf S (D.erase d) ∧ s'.mem = s.mem ∧ s'.tlb = s.tlb := by
  obtain ⟨hwf, hdata, hcount⟩ := h.removeDir hd
  obtain ⟨pmm, hfree, hwf', -, -⟩ := hwf.free_page hdata hcount
  rw [put_pgdir, hmm] at heq
  simp only [bind_eq_bind, bind_some, free_page, hfree, Option.pure_def, some_inj] at heq
  subst heq
  exact ⟨hwf', rfl, rfl⟩

end

/-- A new directory without tables. -/
structure NewDir (S : runs.Spec A) (D : Finset ℕ) (d : ℕ) (s s' : Vm σ) : Prop where
  wf : s'.Wf S (insert d D)
  fresh : d ∉ D
  bare : ∀ c ∈ D, Bare c s → Bare c s'
  calm : ∀ c ∈ D, Calm c s s'

theorem setup_pgdir_inversion (hsize : A.size ≤ 2 ^ 19) (hclear : S.clear = 0) (h : s.Wf S D)
    (heq : setup_pgdir A boot mm s = some (ret, mm', s')) :
    ret ≠ 0 ∧ mm' = mm ∧ s' = s ∨
    ret = 0 ∧ ∃ page pmm, mm' = { mm with pgdir := some page } ∧ NewPage S D s page pmm ∧
      s' = Vm.memcpy { s with pmm } page boot := by
  unfold setup_pgdir at heq
  rcases h.alloc_page hclear with hnone | ⟨page, pmm, halloc, hn⟩
  · rw [hnone] at heq
    cases heq
    exact .inl ⟨by decide, rfl, rfl⟩
  have hlt := S.owned_lt_size hn.wf.inv (hn.isData h).owned
  have hkaddr : KADDR A.size (page2pa page) = some page := by
    rw [KADDR, PPN_page2pa (hlt.trans_le hsize), if_pos hlt]
  simp only [halloc, hkaddr, bind_eq_bind, bind_some, Option.pure_def,
    some_inj, Prod.mk.injEq] at heq
  obtain ⟨rfl, rfl, rfl⟩ := heq
  exact .inr ⟨rfl, page, pmm, rfl, hn, rfl⟩

theorem bare_memcpy (hbare : Bare boot s) (page : ℕ) : Bare page (s.memcpy page boot) := by
  intro i hi
  have hcopy : (s.memcpy page boot).mem page i = s.mem boot i := by simp [Vm.memcpy]
  rw [Vm.table, hcopy]
  exact hbare i hi

theorem setup_pgdir_cases (hsize : A.size ≤ 2 ^ 19) (hclear : S.clear = 0) (h : s.Wf S D)
    (hbare : Bare boot s) (heq : setup_pgdir A boot mm s = some (ret, mm', s')) :
    ret ≠ 0 ∧ mm' = mm ∧ s' = s ∨
    ret = 0 ∧ ∃ d, mm' = { mm with pgdir := some d } ∧ NewDir S D d s s' := by
  rcases setup_pgdir_inversion hsize hclear h heq with hfail | ⟨hret, page, pmm, hmm', hn, rfl⟩
  · exact .inl hfail
  obtain ⟨hwf, -, hpte, hdata'⟩ := hn.memcpy h boot
  have hfresh := (hn.isData h).not_dir
  have he : Evolves S D ∅ page s (Vm.memcpy { s with pmm } page boot) :=
    hn.memcpy_evolves h page boot
  have hnew : Bare page (Vm.memcpy { s with pmm } page boot) := bare_memcpy hbare page
  have hcount : count D (Vm.memcpy { s with pmm } page boot) page = 0 := by
    have hzero := hn.count_eq_zero h
    rwa [count_congr hpte]
  refine .inr ⟨hret, page, hmm', hwf.addDir hnew hdata' hcount, hfresh, fun c hc hb => ?_,
    fun c hc => he.calm c hc (notMem_empty c)⟩
  exact he.bare c hc (fun heq => hfresh (heq ▸ hc)) hb

section
variable {vma : vma_struct} (h : insert_vma_struct mm vma = some mm')
include h

theorem insert_vma_struct_eq :
    mm' = { mm with
      mmap_list := mm.mmap_list.takeWhile (·.vm_start ≤ vma.vm_start) ++
        vma :: mm.mmap_list.dropWhile (·.vm_start ≤ vma.vm_start)
      map_count := mm.map_count + 1 } := by
  simp only [insert_vma_struct, bind_eq_bind, bind_eq_some_iff] at h
  obtain ⟨-, -, -, -, -, -, h⟩ := h
  cases h
  rfl

theorem insert_vma_struct_pgdir : mm'.pgdir = mm.pgdir := by
  rw [insert_vma_struct_eq h]

theorem insert_vma_struct_mem : vma ∈ mm'.mmap_list ∧ mm.mmap_list ⊆ mm'.mmap_list := by
  rw [insert_vma_struct_eq h]
  refine ⟨by simp, fun v hv => ?_⟩
  rw [← List.takeWhile_append_dropWhile (l := mm.mmap_list), List.mem_append] at hv
  rw [List.mem_append, List.mem_cons]
  exact hv.imp_right .inr

end

theorem mm_map_pgdir {addr len vm_flags : BitVec 32} {fresh : Bool}
    (heq : mm_map mm addr len vm_flags fresh = some (ret, mm')) : mm'.pgdir = mm.pgdir := by
  have hcreate : ∀ {mm1 : mm_struct} {start stop : BitVec 32},
      mm_map.create vm_flags fresh mm1 start stop = some (ret, mm') → mm'.pgdir = mm1.pgdir := by
    intro mm1 start stop h
    unfold mm_map.create at h
    split at h
    · obtain ⟨mm2, hins, h⟩ := bind_eq_some_iff.mp h
      cases h
      exact insert_vma_struct_pgdir hins
    · cases h
      rfl
  unfold mm_map at heq
  dsimp only at heq
  split at heq
  · -- only the cache of areas changes before the area is made
    have hfind : (find_vma mm (ROUNDDOWN_2N addr PGSHIFT)).2.pgdir = mm.pgdir := rfl
    split at heq <;> rename_i hvma <;> rw [hvma] at hfind
    · split at heq
      · cases heq
        exact hfind
      · exact (hcreate heq).trans hfind
    · exact (hcreate heq).trans hfind
  · cases heq
    rfl

section
variable {kmalloc : σ → Option (Bool × σ)} {source : ℕ} (hsize : A.size ≤ 2 ^ 19)
  (hclear : S.clear = 0)
include hsize hclear

theorem dupAreas_evolves (hk : TakesPages S kmalloc) (h : s.Wf S D) (hmm : mm.pgdir = some d)
    (hd : d ∈ D) (hsource : source ∈ D)
    (heq : Vm.dupAreas A kmalloc source mm areas s = some (ret, mm', s')) :
    mm'.pgdir = some d ∧ Evolves S D X d s s' := by
  induction areas generalizing mm s with
  | nil =>
    cases heq
    exact ⟨hmm, .refl d h⟩
  | cons vma rest ih =>
    obtain ⟨⟨fresh, s1⟩, hfresh, heq⟩ := bind_eq_some_iff.mp heq
    have he1 : Evolves S D X d s s1 := hk.evolves hclear d h hfresh
    cases fresh with
    | false =>
      cases heq
      exact ⟨hmm, he1⟩
    | true =>
      obtain ⟨mm1, hins, heq⟩ := bind_eq_some_iff.mp heq
      have hmm1 := (insert_vma_struct_pgdir hins).trans hmm
      rw [hmm1, bind_eq_bind, bind_some] at heq
      obtain ⟨⟨ret1, s2⟩, hcopy, heq⟩ := bind_eq_some_iff.mp heq
      have he2 : Evolves S D X d s s2 :=
        he1.trans (copy_range_evolves hsize hclear he1.wf hd hsource hcopy)
      dsimp only at heq
      split at heq
      · obtain ⟨hpgdir, he3⟩ := ih he2.wf hmm1 heq
        exact ⟨hpgdir, he2.trans he3⟩
      · cases heq
        exact ⟨hmm1, he2⟩

/-- Forking an address space: nothing of it changes, whether the copy is made or not. -/
theorem copy_mm_cases {new : Option mm_struct} (hk : TakesPages S kmalloc) (h : s.Wf S D)
    (hbare : Bare boot s) (hboot : boot ∈ D) (hold : oldmm.pgdir = some source)
    (hsource : source ∈ D) (heq : copy_mm A kmalloc boot oldmm s = some (ret, new, s')) :
    new = none ∧ s'.Wf S D ∧ Bare boot s' ∧ (∀ c ∈ D, Calm c s s') ∨
    ∃ mm d, new = some mm ∧ mm.pgdir = some d ∧ NewDir S D d s s' := by
  obtain ⟨⟨fresh, s1⟩, hfresh, heq⟩ := bind_eq_some_iff.mp heq
  have he1 : ∀ d, Evolves S D ∅ d s s1 := fun d => hk.evolves hclear d h hfresh
  have hsame : ∀ c ∈ D, Calm c s s1 := fun c hc => (he1 c).calm c hc (notMem_empty c)
  have hb1 : ∀ c ∈ D, Bare c s → Bare c s1 := fun c hc =>
    (he1 (c + 1)).bare c hc (Nat.ne_of_lt (Nat.lt_succ_self c))
  have hwf1 := (he1 0).wf
  cases fresh with
  | false =>
    cases heq
    exact .inl ⟨rfl, hwf1, hb1 boot hboot hbare, hsame⟩
  | true =>
    obtain ⟨⟨ret1, mm1, s2⟩, hsetup, hrest⟩ := bind_eq_some_iff.mp heq
    rcases setup_pgdir_cases hsize hclear hwf1 (hb1 boot hboot hbare) hsetup with
      ⟨hne, rfl, rfl⟩ | ⟨rfl, d, rfl, hnew⟩
    · simp only [ne_eq, hne, not_false_eq_true, if_true] at hrest
      cases hrest
      exact .inl ⟨rfl, hwf1, hb1 boot hboot hbare, hsame⟩
    simp only [ne_eq, not_true_eq_false, if_false, hold, bind_eq_bind, bind_some] at hrest
    obtain ⟨⟨ret2, mm2, s3⟩, hdup, hlast⟩ := bind_eq_some_iff.mp hrest
    have hmem : ∀ {c}, c ∈ D → c ∈ insert d D := fun hc => mem_insert_of_mem hc
    have hne : ∀ {c}, c ∈ D → c ≠ d := fun hc heq => hnew.fresh (heq ▸ hc)
    obtain ⟨hpgdir, he3⟩ := dupAreas_evolves hsize hclear hk hnew.wf rfl
      (mem_insert_self d D) (hmem hsource) hdup
    have hcalm3 : ∀ c ∈ D, Calm c s s3 := fun c hc => ((hsame c hc).trans (hnew.calm c hc)).trans
      (he3.calm c (hmem hc) (notMem_empty c))
    have hb3 : ∀ c ∈ D, Bare c s → Bare c s3 := fun c hc hb =>
      he3.bare c (hmem hc) (hne hc) (hnew.bare c hc (hb1 c hc hb))
    split at hlast
    · -- the half-made copy is given up again
      obtain ⟨s4, hexit, hlast⟩ := bind_eq_some_iff.mp hlast
      obtain ⟨s5, hput, hlast⟩ := bind_eq_some_iff.mp hlast
      cases hlast
      have he4 := exit_mmap_evolves he3.wf hpgdir (mem_insert_self d D) hexit
      obtain ⟨hwf5, hmem5, htlb5⟩ := put_pgdir_spec he4.wf hpgdir (mem_insert_self d D) hput
      rw [erase_insert hnew.fresh] at hwf5
      have hpte5 : ∀ x, s'.pte x = s4.pte x := fun x => by simp only [Vm.pte, Vm.table, hmem5]
      refine .inl ⟨rfl, hwf5, fun i hi => ?_, fun c hc => ?_⟩
      · rw [Vm.table, hmem5]
        exact he4.bare boot (hmem hboot) (hne hboot) (hb3 boot hboot hbare) i hi
      · exact ((hcalm3 c hc).trans (he4.calm c (hmem hc) (by simpa using hne hc))).trans
          (.inr ⟨htlb5, fun x _ => hpte5 x⟩)
    · cases hlast
      exact .inr ⟨mm2, d, rfl, hpgdir, he3.wf, hnew.fresh, hb3, hcalm3⟩

theorem do_pgfault_map_spec (h : s.Wf S D) (hd : d ∈ D) (addr vm_flags : BitVec 32) :
    ∃ ret s', do_pgfault.map A d addr vm_flags s = some (ret, s') ∧ Evolves S D X d s s' := by
  have hperm : PTE_ADDR (if vm_flags &&& VM_WRITE ≠ 0#32 then PTE_U ||| PTE_W else PTE_U) =
      0#32 := by
    split <;> decide
  unfold do_pgfault.map
  dsimp only
  rcases get_pte_cases hsize hclear h hd (ROUNDDOWN_2N addr PGSHIFT) with
    hnone | ⟨t, s1, hsome, -, he⟩
  · rw [hnone]
    exact ⟨_, s, rfl, .refl d h⟩
  simp only [hsome, bind_eq_bind, bind_some]
  split
  · rcases pgdir_alloc_page_cases hsize hclear he.wf hd hperm (ROUNDDOWN_2N addr PGSHIFT) with
      ⟨s2, hnone, he2, -⟩ | ⟨page, pmm, s2, halloc, hn, hm⟩
    · rw [hnone]
      exact ⟨_, s2, rfl, he.evolves.trans he2.evolves⟩
    · rw [halloc]
      exact ⟨_, s2, rfl, (he.evolves.trans (.of_pmm d hn.wf)).trans hm.evolves⟩
  · exact ⟨_, s1, rfl, he.evolves⟩

theorem do_pgfault_spec (h : s.Wf S D) (hmm : mm.pgdir = some d) (hd : d ∈ D)
    (error_code addr : BitVec 32) :
    ∃ ret mm' s', do_pgfault A (some mm) error_code addr s = some (ret, some mm', s') ∧
      mm'.pgdir = some d ∧ Evolves S D X d s s' := by
  have hfind : (find_vma mm addr).2.pgdir = some d := hmm
  unfold do_pgfault
  dsimp only
  rcases hvma : find_vma mm addr with ⟨_ | vma, mm1⟩
  · rw [hvma] at hfind
    exact ⟨_, mm1, s, rfl, hfind, .refl d h⟩
  rw [hvma] at hfind
  dsimp only at hfind ⊢
  split
  · exact ⟨_, mm1, s, rfl, hfind, .refl d h⟩
  · obtain ⟨ret, s', hmap, he⟩ := do_pgfault_map_spec hsize hclear h hd addr vma.vm_flags
    rw [hfind, bind_eq_bind, bind_some, hmap]
    exact ⟨ret, mm1, s', rfl, hfind, he⟩

end

variable {random : BitVec 4} {in_kernel write : Bool} {va : BitVec 32} {p : ℕ}

theorem handle_tlbmiss_unmapped {mm : Option mm_struct} (h : s.Wf S D) (hc : c ∈ D)
    (hnone : frame (s.pte (slot c va)) = none) :
    handle_tlbmiss A random in_kernel write va c mm s =
      (do_pgfault A mm (get_error_code write none) va s).bind fun r =>
        (handle_tlbmiss.exit in_kernel r.1).map fun how => (how, r.2) := by
  unfold handle_tlbmiss
  cases ht : s.table c (PDX va) with
  | none =>
    simp only [get_pte_of_no_table A ht, bind_eq_bind, bind_some, filter_none,
      bind_none, Option.pure_def, map_eq_bind, comp_def]
  | some t =>
    have hlt := S.owned_lt_size h.inv (h.table c hc _ (PDX_lt _) t ht).1
    have hzero : s.read (t, PTX va) = 0#32 :=
      (pte_of_table ht).symm.trans (h.zero (slot c va) (slot_mem hc) hnone)
    have hcode : get_error_code write (some 0#32) = get_error_code write none := rfl
    simp only [get_pte_of_table false ht hlt, bind_eq_bind, bind_some,
      filter_some, ptep_invalid, hzero, beq_self_eq_true, Bool.not_true, Bool.false_eq_true,
      if_false, hcode, Option.pure_def, map_eq_bind, comp_def]

theorem handle_tlbmiss_mapped {mm : Option mm_struct} (h : s.Wf S D) (hc : c ∈ D)
    (hsome : frame (s.pte (slot c va)) = some p) :
    ∃ t, s.table c (PDX va) = some t ∧ ptep_present (s.mem t (PTX va)) ∧
      (handle_tlbmiss A random in_kernel write va c mm s =
        some (.resume, mm, tlb_refill random va (t, PTX va) s) ∨
      handle_tlbmiss A random in_kernel write va c mm s = some (.kill, mm, s)) := by
  cases ht : s.table c (PDX va) with
  | none => simp [Vm.pte, slot, ht, frame_zero] at hsome
  | some t =>
    have hlt := S.owned_lt_size h.inv (h.table c hc _ (PDX_lt _) t ht).1
    have hpte : s.pte (slot c va) = s.mem t (PTX va) := pte_of_table ht
    have hpres : ptep_present (s.mem t (PTX va)) := by
      rw [← hpte]
      exact ptep_present_of_frame hsome
    have hvalid : ptep_invalid (s.read (t, PTX va)) = false := by
      rw [ptep_invalid, beq_eq_false_iff_ne]
      intro hzero
      rw [hpte, show s.mem t (PTX va) = 0#32 from hzero, frame_zero] at hsome
      cases hsome
    refine ⟨t, rfl, hpres, ?_⟩
    unfold handle_tlbmiss
    simp only [get_pte_of_table false ht hlt, bind_eq_bind, bind_some,
      filter_some, hvalid, Bool.not_false, if_true]
    split
    · exact .inl rfl
    split
    · exact .inr rfl
    split
    · exact .inr rfl
    · exact .inl rfl

/-- A TLB miss keeps the TLB coherent with the directory of the process, whichever way it ends. -/
theorem handle_tlbmiss_coherent {how : TrapEnd} {mm' : Option mm_struct} (hsize : A.size ≤ 2 ^ 19)
    (hclear : S.clear = 0) (h : s.Wf S D) (hmm : mm.pgdir = some c) (hc : c ∈ D)
    (hcoh : Coherent c s)
    (hmiss : (mips32s.Isa.lookup s.tlb.tlb va).any mips32s.Isa.Page.v = false)
    (heq : handle_tlbmiss A random in_kernel write va c (some mm) s = some (how, mm', s')) :
    (∃ mm1, mm' = some mm1 ∧ mm1.pgdir = some c) ∧ s'.Wf S D ∧ Coherent c s' ∧
      ∀ b ∈ D, b ≠ c → Bare b s → Bare b s' := by
  cases hframe : frame (s.pte (slot c va)) with
  | none =>
    rw [handle_tlbmiss_unmapped h hc hframe] at heq
    obtain ⟨ret, mm1, s1, hfault, hpgdir, he⟩ := do_pgfault_spec hsize hclear h hmm hc
      (get_error_code write none) va
    rw [hfault, bind_some] at heq
    obtain ⟨how1, -, hlast⟩ := map_eq_some_iff.mp heq
    cases hlast
    exact ⟨⟨mm1, rfl, hpgdir⟩, he.wf, hcoh.calm (he.calm c hc (notMem_empty c)), he.bare⟩
  | some p =>
    obtain ⟨t, ht, hpres, heq' | heq'⟩ := handle_tlbmiss_mapped h hc hframe
    · cases heq'.symm.trans heq
      exact ⟨⟨mm, rfl, hmm⟩, h.set_tlb _, hcoh.refill random hmiss ht hpres, fun _ _ _ hb => hb⟩
    · cases heq'.symm.trans heq
      exact ⟨⟨mm, rfl, hmm⟩, h, hcoh, fun _ _ _ hb => hb⟩

end ucore
