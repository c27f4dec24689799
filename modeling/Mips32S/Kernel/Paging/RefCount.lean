import Mips32S.Kernel.Buddy.Allocator
import Mips32S.Kernel.Paging.Functions

open Option Finset Prod

namespace ucore

variable {σ : Type} {A : runs.Allocator σ ℤ} {S : runs.Spec A} {D : Finset ℕ} {s s' : Vm σ}
  {p d page : ℕ} {x : ℕ × ℕ × ℕ} {w : BitVec 32} {pmm : σ}

/-- The calls that work on the page tables of a directory. -/
inductive Call where
  | get_pte (pgdir : ℕ) (la : BitVec 32) (create : Bool)
  | page_insert (pgdir page : ℕ) (la perm : BitVec 32)
  | page_remove (pgdir : ℕ) (la : BitVec 32)
  | pgdir_alloc_page (pgdir : ℕ) (la perm : BitVec 32)

def Call.run (A : runs.Allocator σ ℤ) (s : Vm σ) : Call → Option (Vm σ)
  | .get_pte pgdir la create => (ucore.get_pte A pgdir la create s).map snd
  | .page_insert pgdir page la perm => (ucore.page_insert A pgdir page la perm s).map snd
  | .page_remove pgdir la => ucore.page_remove A pgdir la s
  | .pgdir_alloc_page pgdir la perm => (ucore.pgdir_alloc_page A pgdir la perm s).map snd

def Call.pgdir : Call → ℕ
  | .get_pte pgdir _ _ => pgdir
  | .page_insert pgdir _ _ _ => pgdir
  | .page_remove pgdir _ => pgdir
  | .pgdir_alloc_page pgdir _ _ => pgdir

/-- A call is for one of the directories; it inserts data pages only, and its permission holds
flags and no address. -/
def Call.Allowed (S : runs.Spec A) (D : Finset ℕ) (s : Vm σ) : Call → Prop
  | .get_pte pgdir _ _ => pgdir ∈ D
  | .page_insert pgdir page _ perm => pgdir ∈ D ∧ IsData S D s page ∧ PTE_ADDR perm = 0#32
  | .page_remove pgdir _ => pgdir ∈ D
  | .pgdir_alloc_page pgdir _ perm => pgdir ∈ D ∧ PTE_ADDR perm = 0#32

/-- The states that calls on any number of directories lead to, from a state in which no page
is allocated. Besides the calls, pages are allocated as data pages or as new directories, data
pages that nothing maps are freed, and the contents of data pages and of the TLB change. -/
inductive Vm.Reach (S : runs.Spec A) : Finset ℕ → Vm σ → Prop where
  | start {s : Vm σ} : S.Inv s.pmm → S.owned s.pmm = ∅ → Reach S ∅ s
  | alloc_pages {D : Finset ℕ} {s : Vm σ} {page pmm} {n : ℕ} : Reach S D s → 0 < n → n ≤ S.limit →
      A.alloc n s.pmm = some (page, pmm) → Reach S D { s with pmm }
  | free_pages {D : Finset ℕ} {s : Vm σ} {r pmm} {p n : ℕ} : Reach S D s →
    r ∈ S.live s.pmm → 0 < n → r.1 ≤ p →
      p + n ≤ r.1 + r.2 → (∀ q ∈ Ico p (p + n), IsData S D s q ∧ count D s q = 0) →
      A.free p n s.pmm = some pmm → Reach S D { s with pmm }
  | pgdir {D : Finset ℕ} {s : Vm σ} {d pmm} : Reach S D s → A.alloc 1 s.pmm = some (some d, pmm) →
      Reach S (insert d D) (Vm.memset { s with pmm } d)
  | store {D : Finset ℕ} {s : Vm σ} {p : ℕ} (i : ℕ) (w : BitVec 32) : Reach S D s → IsData S D s p →
      Reach S D (s.write (p, i) w)
  | tlb {D : Finset ℕ} {s : Vm σ} (tlb : mips32s.Isa.TlbUnit) : Reach S D s → Reach S D { s with tlb }
  | call {D : Finset ℕ} {s s' : Vm σ} (c : Call) : Reach S D s → c.Allowed S D s → c.run A s = some s' →
      Reach S D s'

/-- The tables are well formed and every reference count is exact. -/
structure Exact (S : runs.Spec A) (D : Finset ℕ) (s : Vm σ) : Prop where
  wf : s.Wf S D
  ref : ∀ p, IsData S D s p → A.get s.pmm p = count D s p

/-- From `s` to `s'` the counts stay exact, and the data pages that are freed are those that
lose their last mapping. -/
structure Counts (S : runs.Spec A) (D : Finset ℕ) (s s' : Vm σ) : Prop where
  exact : Exact S D s'
  freed : ∀ p, IsData S D s p →
    (p ∉ S.owned s'.pmm ↔ 0 < count D s p ∧ count D s' p = 0)

/-- What a call on the directory `d` can do to the page tables. -/
inductive Effect (S : runs.Spec A) (D : Finset ℕ) (d : ℕ) (s s' : Vm σ) : Prop where
  | extend : Extends S D d s s' → Effect S D d s s'
  | unmap {la : BitVec 32} : slot d la ∈ slots D → Unmaps S D (slot d la) s s' → Effect S D d s s'
  | map {la w : BitVec 32} {page : ℕ} : slot d la ∈ slots D →
      Maps S D (slot d la) page w s s' → Effect S D d s s'
  | alloc {la w : BitVec 32} {page : ℕ} {pmm : σ} : slot d la ∈ slots D →
      NewPage S D s page pmm → Maps S D (slot d la) page w { s with pmm } s' → Effect S D d s s'

section

section
variable (h : Exact S D s)
include h

theorem Extends.counts (he : Extends S D d s s') : Counts S D s s' := by
  refine ⟨⟨he.wf, fun p hp => ?_⟩, fun p hp => ?_⟩
  · have hdata := (he.data p).mp hp
    rw [he.ref p hdata.owned, h.ref p hdata, he.count_eq]
  · rw [he.count_eq]
    exact iff_of_false (not_not_intro (he.owned hp.owned)) (by omega)

theorem Unmaps.counts (hx : x ∈ slots D) (hu : Unmaps S D x s s') : Counts S D s s' := by
  have hdata : ∀ {p}, IsData S D s' p → IsData S D s p := fun hp =>
    (isData_congr hu.table (iff_of_true hp.owned (hu.sub hp.owned))).mp hp
  have hcount : ∀ p, count D s' p + (if frame (s.pte x) = some p then 1 else 0) = count D s p := by
    intro p
    have hupd := count_update hx hu.pte p
    simpa [hu.pte_self] using hupd
  refine ⟨⟨hu.wf, fun p hp => ?_⟩, fun p hp => ?_⟩
  · have href := h.ref p (hdata hp)
    have hc := hcount p
    by_cases hold : frame (s.pte x) = some p
    · rcases hu.unmapped p hold with ⟨-, hfreed⟩ | ⟨-, -, hdec⟩
      · exact absurd hp.owned hfreed
      · rw [if_pos hold] at hc
        omega
    · rw [if_neg hold] at hc
      rw [(hu.kept p (hdata hp).owned hold).2]
      omega
  · have href := h.ref p hp
    have hc := hcount p
    by_cases hold : frame (s.pte x) = some p
    · rw [if_pos hold] at hc
      rcases hu.unmapped p hold with ⟨hone, hfreed⟩ | ⟨hone, howned, -⟩
      · exact iff_of_true hfreed (by omega)
      · exact iff_of_false (not_not_intro howned) (by omega)
    · rw [if_neg hold] at hc
      exact iff_of_false (not_not_intro (hu.kept p hp.owned hold).1) (by omega)

theorem Maps.counts (hx : x ∈ slots D) (hm : Maps S D x page w s s') : Counts S D s s' := by
  have hcount : ∀ p, count D s' p + (if frame (s.pte x) = some p then 1 else 0) =
      count D s p + if page = p then 1 else 0 := by
    intro p
    have hupd := count_update hx hm.pte p
    simpa [hm.pte_self, hm.frame_eq] using hupd
  refine ⟨⟨hm.wf, fun p hp => ?_⟩, fun p hp => ?_⟩
  · have href := h.ref p (hm.data p hp)
    have hc := hcount p
    by_cases hpp : p = page
    · subst hpp
      have hinc := hm.page_ref
      rw [if_pos rfl] at hc
      split_ifs at hc hinc <;> omega
    rw [if_neg (Ne.symm hpp)] at hc
    by_cases hold : frame (s.pte x) = some p
    · rcases hm.unmapped p hpp hold with ⟨-, hfreed⟩ | ⟨-, -, hdec⟩
      · exact absurd hp.owned hfreed
      · rw [if_pos hold] at hc
        omega
    · rw [if_neg hold] at hc
      rw [(hm.kept p (hm.data p hp) hpp hold).2]
      omega
  · have href := h.ref p hp
    have hc := hcount p
    by_cases hpp : p = page
    · subst hpp
      rw [if_pos rfl] at hc
      refine iff_of_false (not_not_intro hm.page_data.owned) fun hdrop => ?_
      split_ifs at hc <;> omega
    rw [if_neg (Ne.symm hpp)] at hc
    by_cases hold : frame (s.pte x) = some p
    · rw [if_pos hold] at hc
      rcases hm.unmapped p hpp hold with ⟨hone, hfreed⟩ | ⟨hone, hdata, -⟩
      · exact iff_of_true hfreed (by omega)
      · exact iff_of_false (not_not_intro hdata.owned) (by omega)
    · rw [if_neg hold] at hc
      exact iff_of_false (not_not_intro (hm.kept p hp hpp hold).1.owned) (by omega)

theorem Exact.grow (hclear : S.clear = 0) (hg : S.Grows s.pmm pmm) : Exact S D { s with pmm } := by
  refine ⟨h.wf.grow hclear hg, fun q hq => ?_⟩
  by_cases howned : q ∈ S.owned s.pmm
  · exact (hg.keeps q howned).2.trans (h.ref q ⟨howned, hq.not_dir, hq.not_table⟩)
  · have hzero : count D s q = 0 := h.wf.count_eq_zero fun hdata => howned hdata.owned
    have hnew := (hg.new q hq.owned howned).trans hclear
    exact hnew.trans (by rw [← Nat.cast_zero, ← hzero]; rfl)

theorem NewPage.exact (hclear : S.clear = 0) (hn : NewPage S D s p pmm) :
    Exact S D { s with pmm } := by
  refine h.grow hclear ⟨hn.wf.inv, fun q hq => ?_, fun q hq hnot => ?_⟩
  · rw [hn.owned, hn.ref]
    exact ⟨Set.mem_insert_of_mem p hq, rfl⟩
  · rw [hn.owned] at hq
    obtain rfl := hq.resolve_right hnot
    exact hn.ref_page.trans hclear.symm

end

variable (hsize : A.size ≤ 2 ^ 19) (hclear : S.clear = 0)
include hsize hclear

theorem Call.effect (h : s.Wf S D) (c : Call) (hc : c.Allowed S D s) :
    ∃ s', c.run A s = some s' ∧ Effect S D c.pgdir s s' := by
  cases c with
  | get_pte d la create =>
    cases create with
    | false =>
      cases ht : s.table d (PDX la) with
      | none => exact ⟨s, by simp [run, get_pte_of_no_table A ht], .extend (.refl d h)⟩
      | some t =>
        have hlt := S.owned_lt_size h.inv (h.table d hc _ (PDX_lt la) t ht).1
        exact ⟨s, by simp [run, get_pte_of_table false ht hlt], .extend (.refl d h)⟩
    | true =>
      rcases get_pte_cases hsize hclear h hc la with hnone | ⟨t, s', heq, -, he⟩
      · exact ⟨s, by simp [run, hnone], .extend (.refl d h)⟩
      · exact ⟨s', by simp [run, heq], .extend he⟩
  | page_insert d page la perm =>
    obtain ⟨hd, hpage, hperm⟩ := hc
    rcases page_insert_cases hsize hclear h hd hpage hperm la with hfail | ⟨s', heq, hm⟩
    · exact ⟨s, by simp [run, hfail], .extend (.refl d h)⟩
    · exact ⟨s', by simp [run, heq], .map (slot_mem hd) hm⟩
  | page_remove d la =>
    rcases page_remove_cases h hc la with ⟨heq, -⟩ | ⟨s', heq, hu⟩
    · exact ⟨s, heq, .extend (.refl d h)⟩
    · exact ⟨s', heq, .unmap (slot_mem hc) hu⟩
  | pgdir_alloc_page d la perm =>
    obtain ⟨hd, hperm⟩ := hc
    rcases pgdir_alloc_page_cases hsize hclear h hd hperm la with
      ⟨s', heq, he, -⟩ | ⟨page, pmm, s', heq, hn, hm⟩
    · exact ⟨s', by simp [run, heq], .extend he⟩
    · exact ⟨s', by simp [run, heq], .alloc (slot_mem hd) hn hm⟩

theorem Call.spec (h : Exact S D s) (c : Call) (hc : c.Allowed S D s) :
    ∃ s', c.run A s = some s' ∧ Counts S D s s' := by
  obtain ⟨s', heq, heffect⟩ := c.effect hsize hclear h.wf hc
  refine ⟨s', heq, ?_⟩
  cases heffect with
  | extend he => exact he.counts h
  | unmap hx hu => exact hu.counts h hx
  | map hx hm => exact hm.counts h hx
  | alloc hx hn hm =>
    have hc := hm.counts (hn.exact h hclear) hx
    refine ⟨hc.exact, fun p hp => hc.freed p ⟨?_, hp.not_dir, hp.not_table⟩⟩
    exact hn.owned ▸ Set.mem_insert_of_mem _ hp.owned

end

section

variable (hsize : A.size ≤ 2 ^ 19) (hclear : S.clear = 0)

theorem Exact.start (hinv : S.Inv s.pmm) (hempty : S.owned s.pmm = ∅) : Exact S ∅ s := by
  have hdata : ∀ p, ¬ IsData S ∅ s p := by
    rintro p ⟨howned, -, -⟩
    rwa [hempty] at howned
  exact ⟨⟨hinv, by simp, by simp, by simp, by simp [slots], by simp [slots], by simp [hempty]⟩,
    fun p hp => absurd hp (hdata p)⟩

theorem Exact.of_mem (h : Exact S D s) (hpmm : s'.pmm = s.pmm)
    (hmem : ∀ p, ¬ IsData S D s p → s'.mem p = s.mem p) : Exact S D s' := by
  obtain ⟨hwf, htable, hpte⟩ := h.wf.of_mem hpmm hmem
  refine ⟨hwf, fun p hp => ?_⟩
  rw [count_congr hpte, hpmm]
  exact h.ref p ((isData_congr (fun d hd i _ => htable d hd i) (by rw [hpmm])).mp hp)

theorem Exact.shrink (h : Exact S D s) {F : Set ℕ} (hs : S.Shrinks F s.pmm pmm)
    (hF : ∀ q ∈ F, IsData S D s q ∧ count D s q = 0) : Exact S D { s with pmm } := by
  refine ⟨h.wf.shrink hs hF, fun q hq => ?_⟩
  obtain ⟨howned, hget⟩ := hs.sub q hq.owned
  exact hget.trans (h.ref q ⟨howned, hq.not_dir, hq.not_table⟩)

theorem NewPage.exact_pgdir (h : Exact S D s) (hclear : S.clear = 0) (hn : NewPage S D s d pmm) :
    Exact S (insert d D) (Vm.memset { s with pmm } d) := by
  have hdata := hn.isData h.wf
  have hmem : ∀ p, ¬ IsData S D { s with pmm } p →
      (Vm.memset { s with pmm } d).mem p = s.mem p := by
    intro p hp
    have hne : p ≠ d := fun heq => hp (heq ▸ hdata)
    simp [Vm.memset, hne]
  have hpmm : (Vm.memset { s with pmm } d).pmm = pmm := rfl
  obtain ⟨hwf, htable, hpte⟩ := hn.wf.of_mem hpmm hmem
  have hbare : Bare d (Vm.memset { s with pmm } d) := fun i _ => by simp [Vm.table, Vm.memset]
  have hold : Exact S D (Vm.memset { s with pmm } d) := (hn.exact h hclear).of_mem hpmm hmem
  refine ⟨hwf.addDir hbare ?_ ?_, fun p hp => ?_⟩
  · exact (isData_congr (fun d hd i _ => htable d hd i) Iff.rfl).mpr hdata
  · rw [count_congr hpte]
    exact hn.count_eq_zero h.wf
  · rw [count_addDir hbare]
    exact hold.ref p ((isData_addDir hbare).mp hp).1

include hsize hclear

theorem Vm.Reach.exact (h : Vm.Reach S D s) : Exact S D s := by
  induction h with
  | start hinv hempty => exact .start hinv hempty
  | @alloc_pages D s page pmm n _ hpos hn heq ih =>
    exact ih.grow hclear (S.alloc_grows ih.wf.inv hpos hn heq)
  | @free_pages D s r pmm p n _ hr hn hlo hhi hunmapped heq ih =>
    exact ih.shrink (S.free_shrinks ih.wf.inv hr hn hlo hhi heq) hunmapped
  | @pgdir D s d pmm _ heq ih =>
    rcases ih.wf.alloc_page hclear with hnone | ⟨p, pmm', hsome, hn⟩
    · simp [alloc_page, heq] at hnone
    · simp only [alloc_page, heq, bind_eq_bind, bind_some, Option.pure_def,
        some_inj, Prod.mk.injEq, Vm.mk.injEq, and_true] at hsome
      obtain ⟨rfl, rfl⟩ := hsome
      exact hn.exact_pgdir ih hclear
  | @store D s p i w _ hp ih =>
    refine ih.of_mem rfl fun q hq => ?_
    have hne : q ≠ p := fun heq => hq (heq ▸ hp)
    simp [Vm.write, hne]
  | tlb tlb _ ih => exact ih.of_mem rfl fun _ _ => rfl
  | call c _ hc heq ih =>
    obtain ⟨s', hsome, hcounts⟩ := Call.spec hsize hclear ih c hc
    rw [hsome] at heq
    cases heq
    exact hcounts.exact

/-- Reference counting over any history of calls on any number of directories: the reference
count of every data page is the number of entries that map it, only allocated data pages are
mapped, and every call succeeds, or reports a lack of memory, and frees exactly the pages that
lose their last mapping. -/
theorem page_ref_count (h : Vm.Reach S D s) :
    (∀ p, IsData S D s p → A.get s.pmm p = count D s p) ∧
    (∀ x ∈ slots D, ∀ p, frame (s.pte x) = some p → IsData S D s p) ∧
    ∀ c : Call, c.Allowed S D s → ∃ s', c.run A s = some s' ∧
      ∀ p, IsData S D s p → (p ∉ S.owned s'.pmm ↔ 0 < count D s p ∧ count D s' p = 0) := by
  have hexact := h.exact hsize hclear
  refine ⟨hexact.ref, hexact.wf.data, fun c hc => ?_⟩
  obtain ⟨s', heq, hcounts⟩ := Call.spec hsize hclear hexact c hc
  exact ⟨s', heq, hcounts.freed⟩

end

/-- On the buddy allocator with a zone of 8 pages, page 1 is mapped at two addresses, replaced by
page 3 at the first and removed at the second, which frees it. -/
theorem page_ref_count_twice : ∃ s3 s4 s5 : Vm Pages, Vm.Reach (buddySpec 8) {0} s3 ∧
    count {0} s3 1 = 2 ∧
    (Call.page_insert 0 3 0x1000#32 PTE_USER).run (buddyAllocator 8) s3 = some s4 ∧
    count {0} s4 1 = 1 ∧
    (Call.page_remove 0 0x2000#32).run (buddyAllocator 8) s4 = some s5 ∧
    count {0} s5 1 = 0 ∧ 1 ∉ (buddySpec 8).owned s5.pmm := by
  have hrun : ((Pages.boot 8).bind fun pmm => ((buddyAllocator 8).alloc 1 pmm).bind fun r =>
      ((Call.pgdir_alloc_page 0 0x1000#32 PTE_USER).run (buddyAllocator 8)
        (Vm.memset ⟨r.2, fun _ _ => 0#32, .reset⟩ 0)).bind fun s1 =>
      ((Call.page_insert 0 1 0x2000#32 PTE_USER).run (buddyAllocator 8) s1).bind fun s2 =>
      ((Call.pgdir_alloc_page 0 0x3000#32 PTE_USER).run (buddyAllocator 8) s2).bind fun s3 =>
      ((Call.page_insert 0 3 0x1000#32 PTE_USER).run (buddyAllocator 8) s3).bind fun s4 =>
      ((Call.page_remove 0 0x2000#32).run (buddyAllocator 8) s4).bind fun s5 =>
      guard (r.1 = some 0 ∧ frame (s1.pte (slot 0 0x1000#32)) = some 1 ∧
        frame (s3.pte (slot 0 0x1000#32)) = some 1 ∧ frame (s3.pte (slot 0 0x3000#32)) = some 3 ∧
        frame (s4.pte (slot 0 0x2000#32)) = some 1 ∧ (buddyAllocator 8).get s3.pmm 1 = 2 ∧
        (buddyAllocator 8).get s4.pmm 1 = 1 ∧ ∀ r ∈ s5.pmm.runs, 1 ∉ r.pages)) = some () := by
    decide +kernel
  simp only [bind_eq_some_iff, guard_eq_some'] at hrun
  obtain ⟨pmm, hboot, ⟨_, pmm'⟩, halloc, s1, heq1, s2, heq2, s3, heq3, s4, heq4, s5, heq5, rfl,
    hmap1, hmap3, hnew3, hmap4, href3, href4, hruns⟩ := hrun
  have hmem (la : BitVec 32) : slot 0 la ∈ slots {0} := slot_mem (by simp)
  obtain ⟨hinv, hempty⟩ := Pages.boot_inv (by decide) hboot
  let s0 : Vm Pages := ⟨pmm, fun _ _ => 0#32, .reset⟩
  have hdir : Vm.Reach (buddySpec 8) {0} _ := .pgdir (s := s0) (.start hinv hempty) halloc
  have h1 := hdir.call (.pgdir_alloc_page 0 0x1000#32 PTE_USER) ⟨by simp, by decide⟩ heq1
  have hdata1 := (h1.exact (by decide) rfl).wf.data _ (hmem _) 1 hmap1
  have h2 := h1.call (.page_insert 0 1 0x2000#32 PTE_USER) ⟨by simp, hdata1, by decide⟩ heq2
  have h3 := h2.call (.pgdir_alloc_page 0 0x3000#32 PTE_USER) ⟨by simp, by decide⟩ heq3
  obtain ⟨hcount3, hdata3, -⟩ := page_ref_count (by decide) rfl h3
  have htwo := hcount3 1 (hdata3 _ (hmem _) 1 hmap3)
  have h4 := h3.call (.page_insert 0 3 0x1000#32 PTE_USER)
    ⟨by simp, hdata3 _ (hmem _) 3 hnew3, by decide⟩ heq4
  obtain ⟨hcount4, hdata4, hcalls⟩ := page_ref_count (by decide) rfl h4
  have hdata := hdata4 _ (hmem _) 1 hmap4
  have hone := hcount4 1 hdata
  obtain ⟨_, heq, hfreed⟩ := hcalls (.page_remove 0 0x2000#32) (mem_singleton_self 0)
  cases heq.symm.trans heq5
  have hgone : 1 ∉ (buddySpec 8).owned s5.pmm := by
    rintro ⟨r, hr, hpage⟩
    exact hruns _ hr hpage
  exact ⟨s3, s4, s5, h3, by omega, heq4, by omega, heq5, ((hfreed 1 hdata).mp hgone).2, hgone⟩

end ucore
