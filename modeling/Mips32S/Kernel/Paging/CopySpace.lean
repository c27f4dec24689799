import Mips32S.Kernel.Paging.CopyLoop
import Mips32S.Kernel.Paging.RefCount
import Mips32S.Kernel.Paging.SpaceEvolution
import Mips32S.Kernel.Vma.Areas

open List
open Option (bind_eq_bind bind_eq_some_iff map_some)

namespace ucore

variable {σ : Type} {A : runs.Allocator σ ℤ} {S : runs.Spec A} {U : S.Supply} {D : Finset ℕ}
  {s s' : Vm σ} {target source n a b npage : ℕ} {start stop va la : BitVec 32} {ret : ℤ}

/-- The loop of `copy_range` comes by every page of the range that the source maps. -/
def AllReached (s : Vm σ) (source : ℕ) (start stop : BitVec 32) : Prop :=
  ∀ n ∈ presentPages s source (start.toNat / PGSIZE) (stop.toNat / PGSIZE),
    Reached s source (start.toNat / PGSIZE) n

/-- The range has been copied: `target` maps a copy of its own of every page that `source` maps
in the range and no other page of the range, and outside of the range nothing has changed. -/
structure CopiedRange (D : Finset ℕ) (target source : ℕ) (start stop : BitVec 32)
    (s s' : Vm σ) : Prop where
  copy : ∀ n ∈ presentPages s source (start.toNat / PGSIZE) (stop.toNat / PGSIZE),
    IsCopy D target source n s s'
  only : presentPages s' target (start.toNat / PGSIZE) (stop.toNat / PGSIZE) ⊆
    presentPages s source (start.toNat / PGSIZE) (stop.toNat / PGSIZE)
  other : ∀ x ∈ slots D, (∀ n, start.toNat / PGSIZE ≤ n → n < stop.toNat / PGSIZE →
    x ≠ slot target (pageAddr n)) → s'.pte x = s.pte x

/-- The word that a process with the directory `d` reads. -/
def Vm.word (s : Vm σ) (d : ℕ) (va : BitVec 32) : Option (BitVec 32) :=
  (frame (s.pte (slot d va))).map fun p => s.mem p (va.toNat % PGSIZE / 4)

section
variable (hsize : A.size ≤ 2 ^ 19) (hclear : S.clear = 0)
include hsize hclear
variable (h : s.Wf S D) (htarget : target ∈ D) (hsource : source ∈ D) (hne : source ≠ target)
include h htarget hsource hne

theorem copy_range_spec (heq : copy_range A target source start stop s = some (ret, s')) :
    ∃ R ⊆ reachedPages s source (start.toNat / PGSIZE) (stop.toNat / PGSIZE),
      (ret = 0 → R = reachedPages s source (start.toNat / PGSIZE) (stop.toNat / PGSIZE)) ∧
      CopiesPages S D target source R s s' := by
  obtain ⟨⟨done, s1⟩, hloop, heq⟩ := bind_eq_some_iff.mp heq
  obtain ⟨_, halign, hloop⟩ := bind_eq_some_iff.mp hloop
  obtain ⟨_, huser, hloop⟩ := bind_eq_some_iff.mp hloop
  have halign : start.toNat % PGSIZE = 0 ∧ stop.toNat % PGSIZE = 0 := by
    simpa [guard] using halign
  have huser : USER_ACCESS start stop := by simpa [guard] using huser
  obtain ⟨hlt, htop⟩ := pages_of_user halign.1 halign.2 huser
  obtain ⟨R, hR, hdone, hc⟩ :=
    copy_range_loop_spec hsize hclear h htarget hsource hne hlt htop hloop
  cases heq
  refine ⟨R, hR, fun hret => hdone ?_, hc⟩
  cases done with
  | false => simp [E_NO_MEM] at hret
  | true => rfl

theorem copy_range_supply (hstart : start.toNat % PGSIZE = 0) (hstop : stop.toNat % PGSIZE = 0)
    (huser : USER_ACCESS start stop)
    (hroom : copyNeed s target source (start.toNat / PGSIZE) (stop.toNat / PGSIZE) ≤
      U.avail s.pmm) :
    ∃ s', copy_range A target source start stop s = some (0, s') := by
  obtain ⟨hlt, htop⟩ := pages_of_user hstart hstop huser
  obtain ⟨s', hloop⟩ := copy_range_loop_supply hsize hclear h htarget hsource hne hlt htop hroom
  exact ⟨s', by simp [copy_range, rangeLoop, hstart, hstop, huser, hloop]⟩

end

section
variable {R : Set ℕ}

theorem CopiesPages.of_pmm {pmm : σ} (h : CopiesPages S D target source R { s with pmm } s') :
    CopiesPages S D target source R s s' :=
  ⟨h.wf, h.lt, h.table, h.kept, h.made, h.pte, h.copy⟩

theorem CopiesPages.target_eq (h : CopiesPages S D target source R s s') (htarget : target ∈ D)
    (hn : n < 2 ^ 20) (hnot : n ∉ R) :
    s'.pte (slot target (pageAddr n)) = s.pte (slot target (pageAddr n)) :=
  (h.pte _ (slot_mem htarget) fun _ hm heq => hnot (slot_pageAddr_inj hn (h.lt _ hm) heq ▸ hm)).1

theorem CopiesPages.copiedRange_iff (htarget : target ∈ D) (hb : stop.toNat / PGSIZE ≤ 2 ^ 20)
    (hempty : presentPages s target (start.toNat / PGSIZE) (stop.toNat / PGSIZE) = ∅)
    (h : CopiesPages S D target source
      (reachedPages s source (start.toNat / PGSIZE) (stop.toNat / PGSIZE)) s s') :
    CopiedRange D target source start stop s s' ↔ AllReached s source start stop := by
  set a := start.toNat / PGSIZE with ha
  set b := stop.toNat / PGSIZE with hb'
  have hnone : ∀ n, a ≤ n → n < b → frame (s.pte (slot target (pageAddr n))) = none := by
    intro n hlo hhi
    by_contra hsome
    have hmem := mem_presentPages.mpr ⟨⟨hlo, hhi⟩, hsome⟩
    rw [hempty] at hmem
    exact Finset.notMem_empty n hmem
  constructor
  · intro hcopied n hn
    by_contra hnot
    obtain ⟨⟨hlo, hhi⟩, -⟩ := mem_presentPages.mp hn
    obtain ⟨p, q, -, hq, -⟩ := hcopied.copy n hn
    rw [h.target_eq htarget (by omega) fun hR => hnot hR.2, hnone n hlo hhi] at hq
    cases hq
  · intro hall
    refine ⟨fun n hn => h.copy n ⟨hn, hall n hn⟩, fun n hn => ?_, fun x hx hout => ?_⟩
    · obtain ⟨⟨hlo, hhi⟩, hsome⟩ := mem_presentPages.mp hn
      by_contra hnot
      refine hsome ?_
      rw [h.target_eq htarget (by omega) fun hR => hnot hR.1, hnone n hlo hhi]
    · refine (h.pte x hx fun n hn => ?_).1
      obtain ⟨⟨hlo, hhi⟩, -⟩ := mem_presentPages.mp hn.1
      exact hout n hlo hhi

/-- The pages of the areas that are copied. -/
def areaPages (s : Vm σ) (source : ℕ) (areas : List vma_struct) : Set ℕ :=
  {n | ∃ v ∈ areas, n ∈ reachedPages s source (v.vm_start.toNat / PGSIZE) (v.vm_end.toNat / PGSIZE)}

theorem areaPages_cons (vma : vma_struct) (rest : List vma_struct) :
    areaPages s source (vma :: rest) = reachedPages s source (vma.vm_start.toNat / PGSIZE)
      (vma.vm_end.toNat / PGSIZE) ∪ areaPages s source rest := by
  ext n
  simp [areaPages]

theorem CopiesPages.areaPages_eq {areas : List vma_struct}
    (h : CopiesPages S D target source R s s') (hsource : source ∈ D) (hne : source ≠ target) :
    areaPages s' source areas = areaPages s source areas := by
  have hle : ∀ v : vma_struct, v.vm_end.toNat / PGSIZE ≤ 2 ^ 20 := fun v => by
    change v.vm_end.toNat / 4096 ≤ _
    omega
  ext n
  simp only [areaPages, Set.mem_ofPred_eq, h.reachedPages_eq hsource hne (hle _)]

variable {areas : List vma_struct}

theorem CopiesPages.word_source (h : CopiesPages S D target source R s s') (hsource : source ∈ D)
    (hne : source ≠ target) (va : BitVec 32) : s'.word source va = s.word source va := by
  obtain ⟨hpte, hmem⟩ := h.source_eq hsource hne va
  rw [Vm.word, Vm.word, hpte]
  cases hp : frame (s.pte (slot source va)) with
  | none => rfl
  | some p => rw [map_some, map_some, hmem p hp]

theorem IsCopy.word_eq (h : IsCopy D target source (va.toNat / PGSIZE) s s') :
    s'.word target va = s.word source va := by
  obtain ⟨p, q, hp, hq, -, hcopy, -⟩ := h
  rw [Vm.word, Vm.word, slot_eq target, slot_eq source, hp, hq, map_some, map_some, hcopy]

theorem vma_struct.Valid.pageAddr_mem {v : vma_struct} (hv : v.Valid)
    (hlo : v.vm_start.toNat / PGSIZE ≤ n) (hhi : n < v.vm_end.toNat / PGSIZE) :
    v.vm_start ≤ pageAddr n ∧ pageAddr n < v.vm_end ∧ (pageAddr n).toNat / PGSIZE = n := by
  have hend := v.vm_end.isLt
  have halign : v.vm_start.toNat % 4096 = 0 := hv.start_aligned
  change v.vm_start.toNat / 4096 ≤ n at hlo
  change n < v.vm_end.toNat / 4096 at hhi
  have hn := toNat_pageAddr (n := n) (by omega)
  change v.vm_start.toNat ≤ (pageAddr n).toNat ∧ (pageAddr n).toNat < v.vm_end.toNat ∧
    (pageAddr n).toNat / 4096 = n
  omega

theorem page_unique {v w : vma_struct} (hsorted : areas.Pairwise fun v w => w.vm_end ≤ v.vm_start)
    (hv : v ∈ areas) (hw : w ∈ areas)
    (hn : v.vm_start.toNat / PGSIZE ≤ n ∧ n < v.vm_end.toNat / PGSIZE)
    (hn' : w.vm_start.toNat / PGSIZE ≤ n ∧ n < w.vm_end.toNat / PGSIZE) : w = v := by
  by_contra hne
  have hsymm : Std.Symm fun v w : vma_struct => v.vm_end ≤ w.vm_start ∨ w.vm_end ≤ v.vm_start :=
    ⟨fun _ _ h => h.symm⟩
  have happart : areas.Pairwise fun v w => v.vm_end ≤ w.vm_start ∨ w.vm_end ≤ v.vm_start :=
    hsorted.imp fun h => .inr h
  have hdiv : ∀ {x y : BitVec 32}, x ≤ y → x.toNat / PGSIZE ≤ y.toNat / PGSIZE := fun hle =>
    Nat.div_le_div_right hle
  rcases happart.forall hv hw (Ne.symm hne) with hle | hle
  · have := hdiv hle
    omega
  · have := hdiv hle
    omega

/-- After the areas have been copied the new directory reads as the old one if and only if all of
their pages are reached. -/
theorem CopiesPages.word_eq_iff (hsource : source ∈ D) (htarget : target ∈ D)
    (hne : source ≠ target) (hbare : Bare target s) (hvalid : ∀ v ∈ areas, v.Valid)
    (hsorted : areas.Pairwise fun v w => w.vm_end ≤ v.vm_start)
    (h : CopiesPages S D target source (areaPages s source areas) s s') :
    (∀ v ∈ areas, ∀ va, v.vm_start ≤ va → va < v.vm_end → s'.word target va = s'.word source va) ↔
    ∀ v ∈ areas, AllReached s source v.vm_start v.vm_end := by
  have hlt : ∀ (v : vma_struct) {n}, n < v.vm_end.toNat / PGSIZE → n < 2 ^ 20 := by
    intro v n hn
    have hend := v.vm_end.isLt
    change n < v.vm_end.toNat / 4096 at hn
    omega
  have hnone : ∀ n < 2 ^ 20, n ∉ areaPages s source areas →
      frame (s'.pte (slot target (pageAddr n))) = none := by
    intro n hn hnot
    rw [h.target_eq htarget hn hnot, slot_pageAddr target hn, hbare.pte_eq (by omega), frame_zero]
  constructor
  · intro hread v hv n hn
    by_contra hnot
    obtain ⟨⟨hlo, hhi⟩, hsome⟩ := mem_presentPages.mp hn
    obtain ⟨hstart, hend, hdiv⟩ := (hvalid v hv).pageAddr_mem hlo hhi
    have hout : n ∉ areaPages s source areas := by
      rintro ⟨w, hw, hnw, hr⟩
      exact hnot (page_unique hsorted hv hw ⟨hlo, hhi⟩ (mem_presentPages.mp hnw).1 ▸ hr)
    have hsame := hread v hv (pageAddr n) hstart hend
    rw [h.word_source hsource hne, Vm.word, Vm.word, hnone n (hlt v hhi) hout] at hsame
    exact hsome (Option.map_eq_none_iff.mp hsame.symm)
  · intro hall v hv va hlo hhi
    rw [h.word_source hsource hne]
    have hpage := (hvalid v hv).page_mem hlo hhi
    by_cases hp : frame (s.pte (slot source va)) = none
    · have hout : va.toNat / PGSIZE ∉ areaPages s source areas := by
        rintro ⟨w, -, hnw, -⟩
        exact (mem_presentPages.mp hnw).2 (slot_eq source va ▸ hp)
      rw [Vm.word, Vm.word, hp, slot_eq, hnone _ (hlt v hpage.2) hout]
      rfl
    · refine (h.copy _ ⟨v, hv, ?_⟩).word_eq
      rw [slot_eq] at hp
      have hmem := mem_presentPages.mpr ⟨hpage, hp⟩
      exact ⟨hmem, hall v hv _ hmem⟩

variable {kmalloc : σ → Option (Bool × σ)} {mm mm' : mm_struct}
  (hsize : A.size ≤ 2 ^ 19) (hclear : S.clear = 0)
include hsize hclear

/-- `dup_mmap` copies the pages of the areas that are reached from the start of their area, up to
the place where it stops, and only pages of areas that it has made. -/
theorem dupAreas_copies (hk : TakesPages S kmalloc) (h : s.Wf S D) (hmm : mm.pgdir = some target)
    (htarget : target ∈ D) (hsource : source ∈ D) (hne : source ≠ target)
    (hsorted : areas.Pairwise fun v w => w.vm_end ≤ v.vm_start)
    (heq : Vm.dupAreas A kmalloc source mm areas s = some (ret, mm', s')) :
    mm.mmap_list ⊆ mm'.mmap_list ∧
    ∃ R ⊆ areaPages s source areas, (ret = 0 → R = areaPages s source areas) ∧
      CopiesPages S D target source R s s' ∧
      ∀ n ∈ R, ∃ v ∈ areas, v ∈ mm'.mmap_list ∧ v.vm_start.toNat / PGSIZE ≤ n ∧
        n < v.vm_end.toNat / PGSIZE := by
  induction areas generalizing mm s with
  | nil =>
    have hnil : areaPages s source [] = ∅ := by simp [areaPages]
    cases heq
    exact ⟨fun _ hv => hv, ∅, Set.empty_subset _, fun _ => hnil.symm, .refl target source h,
      by simp⟩
  | cons vma rest ih =>
    obtain ⟨hlast, hsorted⟩ := pairwise_cons.mp hsorted
    obtain ⟨⟨fresh, s1⟩, hfresh, heq⟩ := bind_eq_some_iff.mp heq
    obtain ⟨⟨ok, pmm⟩, hpmm, hs1⟩ := bind_eq_some_iff.mp hfresh
    cases hs1
    have hwf1 := h.grow hclear (hk _ _ _ h.inv hpmm)
    cases fresh with
    | false =>
      cases heq
      exact ⟨fun _ hv => hv, ∅, Set.empty_subset _, by simp [E_NO_MEM],
        .of_pmm (.refl target source hwf1), by simp⟩
    | true =>
      obtain ⟨mm1, hins, heq⟩ := bind_eq_some_iff.mp heq
      have hmm1 := (insert_vma_struct_pgdir hins).trans hmm
      obtain ⟨hmem1, hlist1⟩ := insert_vma_struct_mem hins
      rw [hmm1, bind_eq_bind, Option.bind_some] at heq
      obtain ⟨⟨ret1, s2⟩, hcopy, heq⟩ := bind_eq_some_iff.mp heq
      obtain ⟨R, hR, hfull, hc⟩ := copy_range_spec hsize hclear hwf1 htarget hsource hne hcopy
      have hpages : ∀ n ∈ R, vma.vm_start.toNat / PGSIZE ≤ n ∧ n < vma.vm_end.toNat / PGSIZE :=
        fun n hn => (mem_presentPages.mp (hR hn).1).1
      rw [areaPages_cons]
      dsimp only at heq
      split at heq
      · rename_i hret
        obtain ⟨hlist', R', hR', hfull', hc', hcover⟩ := ih hc.wf hmm1 hsorted heq
        rw [hc.areaPages_eq hsource hne] at hR' hfull'
        refine ⟨fun v hv => hlist' (hlist1 hv), R ∪ R', Set.union_subset_union hR hR',
          fun hret' => by rw [hfull hret, hfull' hret']; rfl,
          .of_pmm (hc.trans hc' htarget hsource hne ?_), ?_⟩
        · intro n hn hn'
          obtain ⟨w, hw, hnw, -⟩ := hR' hn'
          have hle : w.vm_end.toNat ≤ vma.vm_start.toNat := hlast w hw
          have hdiv := Nat.div_le_div_right (c := PGSIZE) hle
          have hlo := hpages n hn
          have hhi := (mem_presentPages.mp hnw).1
          omega
        · rintro n (hn | hn)
          · exact ⟨vma, by simp, hlist' hmem1, hpages n hn⟩
          · obtain ⟨v, hv, hrest⟩ := hcover n hn
            exact ⟨v, mem_cons_of_mem _ hv, hrest⟩
      · cases heq
        exact ⟨hlist1, R, hR.trans Set.subset_union_left, by simp [E_NO_MEM], .of_pmm hc,
          fun n hn => ⟨vma, by simp, hmem1, hpages n hn⟩⟩

/-- Copying address spaces, from any well-formed page tables. A call of `copy_range` that
succeeds copies the range if and only if the loop comes by every page, and it succeeds while there
is memory. A directory that `dup_mmap` has filled reads as its source if and only if this is so
of every area. -/
theorem copy_range_exact (h : s.Wf S D) (htarget : target ∈ D) (hsource : source ∈ D)
    (hne : source ≠ target) :
    (∀ start stop : BitVec 32, start.toNat % PGSIZE = 0 → stop.toNat % PGSIZE = 0 →
      USER_ACCESS start stop →
      presentPages s target (start.toNat / PGSIZE) (stop.toNat / PGSIZE) = ∅ →
      (∀ s', copy_range A target source start stop s = some (0, s') →
        (CopiedRange D target source start stop s s' ↔ AllReached s source start stop)) ∧
      ∀ U : S.Supply,
        copyNeed s target source (start.toNat / PGSIZE) (stop.toNat / PGSIZE) ≤ U.avail s.pmm →
        ∃ s', copy_range A target source start stop s = some (0, s')) ∧
    ∀ (kmalloc : σ → Option (Bool × σ)) (mm oldmm mm' : mm_struct) (s' : Vm σ),
      TakesPages S kmalloc → mm.pgdir = some target → Bare target s → oldmm.Ordered →
      Vm.dupAreas A kmalloc source mm oldmm.mmap_list.reverse s = some (0, mm', s') →
      ((∀ v ∈ oldmm.mmap_list, ∀ va, v.vm_start ≤ va → va < v.vm_end →
        s'.word target va = s'.word source va) ↔
      ∀ v ∈ oldmm.mmap_list, AllReached s source v.vm_start v.vm_end) := by
  refine ⟨fun start stop hstart hstop huser hempty => ⟨fun s' heq => ?_, fun U hroom => ?_⟩,
    fun kmalloc mm oldmm mm' s' hk hmm hbare hord heq => ?_⟩
  · obtain ⟨R, -, hfull, hcopies⟩ := copy_range_spec hsize hclear h htarget hsource hne heq
    rw [hfull rfl] at hcopies
    exact hcopies.copiedRange_iff htarget (pages_of_user hstart hstop huser).2 hempty
  · exact copy_range_supply hsize hclear h htarget hsource hne hstart hstop huser hroom
  · have hsorted := pairwise_reverse.mpr hord.sorted
    obtain ⟨-, R, -, hfull, hcopies, -⟩ :=
      dupAreas_copies hsize hclear hk h hmm htarget hsource hne hsorted heq
    rw [hfull rfl] at hcopies
    have hiff := hcopies.word_eq_iff hsource htarget hne hbare
      (fun v hv => hord.valid v (mem_reverse.mp hv)) hsorted
    simpa only [mem_reverse] using hiff

end

/-- A directory and an empty one on the buddy allocator; the first one has a page at `la`. -/
def twoSpaces (npage : ℕ) (la : BitVec 32) : Option (ℕ × ℕ × Vm Pages) := do
  let pmm ← Pages.boot npage
  let (source, pmm) ← (buddyAllocator npage).alloc 1 pmm
  let source ← source
  let s := Vm.memset ⟨pmm, fun _ _ => 0#32, .reset⟩ source
  let (target, pmm) ← (buddyAllocator npage).alloc 1 s.pmm
  let target ← target
  let s := Vm.memset { s with pmm } target
  let s ← (Call.pgdir_alloc_page source la (PTE_U ||| PTE_W)).run (buddyAllocator npage) s
  return (source, target, s)

theorem twoSpaces_wf {s : Vm Pages} (hpos : 0 < npage) (hnpage : npage ≤ 2 ^ 19)
    (h : twoSpaces npage la = some (source, target, s)) :
    s.Wf (buddySpec npage) {target, source} := by
  simp only [twoSpaces, bind_eq_bind, bind_eq_some_iff] at h
  obtain ⟨pmm, hboot, ⟨_, pmm1⟩, hsource, source, rfl, ⟨_, pmm2⟩, htarget, target, rfl, s1, hcall,
    h⟩ := h
  cases h
  obtain ⟨hinv, hempty⟩ := Pages.boot_inv hpos hboot
  let s0 : Vm Pages := ⟨pmm, fun _ _ => 0#32, .reset⟩
  have hstart : Vm.Reach (buddySpec npage) ∅ s0 := .start hinv hempty
  have hreach : Vm.Reach (buddySpec npage) {target, source} s :=
    .call (.pgdir_alloc_page source la (PTE_U ||| PTE_W)) (.pgdir (.pgdir hstart hsource) htarget)
      ⟨by simp, by decide⟩ hcall
  exact (hreach.exact hnpage rfl).wf

/-- The first address of the range lies behind the start of a table that is missing, and the only
page at the start of the next one: the loop steps over it. -/
theorem copy_range_skips : ∃ (source target : ℕ) (s s' : Vm Pages),
    s.Wf (buddySpec 16) {target, source} ∧ source ≠ target ∧
    copy_range (buddyAllocator 16) target source 0x10001000#32 0x10401000#32 s = some (0, s') ∧
    ¬ CopiedRange {target, source} target source 0x10001000#32 0x10401000#32 s s' := by
  have hrun : ((twoSpaces 16 0x10400000#32).bind fun r =>
      (copy_range (buddyAllocator 16) r.2.1 r.1 0x10001000#32 0x10401000#32 r.2.2).map fun r' =>
        (r.1, r.2.1, r'.1, frame (r.2.2.pte (slot r.1 (pageAddr 0x10400))),
          frame (r'.2.pte (slot r.2.1 (pageAddr 0x10400))))) =
      some (0, 1, 0, some 2, none) := by decide +kernel
  obtain ⟨⟨source, target, s⟩, hspaces, hrun⟩ := bind_eq_some_iff.mp hrun
  obtain ⟨⟨ret, s'⟩, hcopy, hrun⟩ := Option.map_eq_some_iff.mp hrun
  simp only [Prod.mk.injEq] at hrun
  obtain ⟨rfl, rfl, rfl, hpage, hnone⟩ := hrun
  refine ⟨0, 1, s, s', twoSpaces_wf (by decide) (by decide) hspaces, by decide, hcopy,
    fun hcopied => ?_⟩
  obtain ⟨p, q, -, hq, -⟩ := hcopied.copy 0x10400
    (mem_presentPages.mpr ⟨by decide, by simp [hpage]⟩)
  rw [hnone] at hq
  cases hq

/-- A range of two tables, the second of which is missing, whose only page is its first one. -/
theorem copy_range_exact_first : ∃ (source target : ℕ) (s s' : Vm Pages),
    s.Wf (buddySpec 16) {target, source} ∧
    copy_range (buddyAllocator 16) target source 0x10000000#32 0x10402000#32 s = some (0, s') ∧
    CopiedRange {target, source} target source 0x10000000#32 0x10402000#32 s s' := by
  have hrun : ((twoSpaces 16 0x10000000#32).map fun r =>
      (r.1, r.2.1, (range 1024).all fun i => (r.2.2.table r.2.1 i).isNone,
        decide (copyNeed r.2.2 1 0 ((0x10000000#32).toNat / PGSIZE)
          ((0x10402000#32).toNat / PGSIZE) ≤ (buddySupply 16).avail r.2.2.pmm))) =
      some (0, 1, true, true) := by decide +kernel
  obtain ⟨⟨source, target, s⟩, hspaces, hrun⟩ := Option.map_eq_some_iff.mp hrun
  simp only [Prod.mk.injEq, all_eq_true, mem_range, Option.isNone_iff_eq_none,
    decide_eq_true_eq] at hrun
  obtain ⟨rfl, rfl, hbare, hroom⟩ := hrun
  have hbare : Bare 1 s := hbare
  have hwf := twoSpaces_wf (by decide) (by decide) hspaces
  have hempty : presentPages s 1 ((0x10000000#32).toNat / PGSIZE)
      ((0x10402000#32).toNat / PGSIZE) = ∅ := by
    refine Finset.filter_eq_empty_iff.mpr fun n hn => not_not.mpr ?_
    have hlt : n < 0x10402 := (Finset.mem_Ico.mp hn).2
    rw [slot_pageAddr 1 (by omega), hbare.pte_eq (by omega), frame_zero]
  have htarget : 1 ∈ ({1, 0} : Finset ℕ) := by decide
  have hsource : 0 ∈ ({1, 0} : Finset ℕ) := by decide
  obtain ⟨hrange, -⟩ := copy_range_exact (by decide) rfl hwf htarget hsource (by decide)
  obtain ⟨hiff, hsupply⟩ :=
    hrange 0x10000000#32 0x10402000#32 (by decide) (by decide) (by decide) hempty
  obtain ⟨s', hcopy⟩ := hsupply (buddySupply 16) hroom
  exact ⟨0, 1, s, s', hwf, hcopy, (hiff s' hcopy).mpr fun n _ _ => Nat.zero_le _⟩

end ucore
