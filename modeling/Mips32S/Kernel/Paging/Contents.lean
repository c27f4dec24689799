import Mips32S.Kernel.Paging.Evolution

open Option

namespace ucore

variable {σ : Type} {A : runs.Allocator σ ℤ} {S : runs.Spec A} {U : S.Supply} {D : Finset ℕ}
  {s s' s'' : Vm σ} {d t p q page npage i : ℕ} {ptep : ℕ × ℕ} {la perm e : BitVec 32}
  {r : Option (ℕ × ℕ)} {create : Bool}

theorem frame_of_pte2page (h : pte2page npage e = some p) : frame e = some p := by
  unfold pte2page at h
  split at h
  · rename_i hpres
    unfold pa2page at h
    split at h
    · cases h
      exact if_pos hpres
    · cases h
  · cases h

theorem get_pte_inversion (heq : get_pte A d la create s = some (r, s')) :
    s'.mem = s.mem ∧ (r ≠ none → s' = s) ∨ s.table d (PDX la) = none ∧ ∃ page pmm kva,
      A.alloc 1 s.pmm = some (some page, pmm) ∧ KADDR A.size (page2pa page) = some kva ∧
      s' = ((set_page_ref A page 1 { s with pmm }).memset kva).write (d, PDX la)
        (page2pa page ||| PTE_P ||| PTE_W ||| PTE_U) := by
  have hentry : ∀ {s1 : Vm σ}, get_pte.entry A d la s1 = some (r, s') → s' = s1 := fun h => by
    obtain ⟨_, -, h⟩ := bind_eq_some_iff.mp h
    cases h
    rfl
  unfold get_pte at heq
  split at heq
  · cases hentry heq
    exact .inl ⟨rfl, fun _ => rfl⟩
  rename_i hpres
  split at heq
  · cases heq
    exact .inl ⟨rfl, fun _ => rfl⟩
  obtain ⟨⟨page, s1⟩, halloc, heq⟩ := bind_eq_some_iff.mp heq
  obtain ⟨⟨page', pmm⟩, hpmm, hs1⟩ := bind_eq_some_iff.mp halloc
  cases hs1
  cases page with
  | none =>
    cases heq
    exact .inl ⟨rfl, fun hne => absurd rfl hne⟩
  | some page =>
    obtain ⟨kva, hkva, heq⟩ := bind_eq_some_iff.mp heq
    exact .inr ⟨frame_eq_none_iff.mpr (by simpa using hpres), page, pmm, kva, hpmm, hkva,
      hentry heq⟩

theorem drop_inversion (heq : page_remove_pte.drop A p s = some s') :
    ∃ pmm, s' = { s with pmm } ∧
      (pmm = A.set p (A.get s.pmm p - 1) s.pmm ∨
        A.free p 1 (A.set p (A.get s.pmm p - 1) s.pmm) = some pmm) := by
  unfold page_remove_pte.drop at heq
  dsimp only at heq
  split at heq
  · obtain ⟨pmm, hfree, hs'⟩ := bind_eq_some_iff.mp heq
    cases hs'
    exact ⟨pmm, rfl, .inr hfree⟩
  · cases heq
    exact ⟨_, rfl, .inl rfl⟩

theorem page_remove_pte_inversion (heq : page_remove_pte A ptep s = some s') :
    ptep_present (s.read ptep) = false ∧ s' = s.tlb_invalidate_all ∨
    ∃ page s1, pte2page A.size (s.read ptep) = some page ∧
      page_remove_pte.drop A page s = some s1 ∧ s' = (s1.write ptep 0#32).tlb_invalidate_all := by
  unfold page_remove_pte at heq
  split at heq
  · obtain ⟨page, hpage, heq⟩ := bind_eq_some_iff.mp heq
    obtain ⟨s1, hdrop, heq⟩ := bind_eq_some_iff.mp heq
    cases heq
    exact .inr ⟨page, s1, hpage, hdrop, rfl⟩
  · rename_i hnot
    cases heq
    exact .inl ⟨by simpa using hnot, rfl⟩

section

theorem write_mem (w : BitVec 32) (h : q ≠ ptep.1) : (s.write ptep w).mem q = s.mem q := by
  simp [Vm.write, h]

theorem page_remove_pte_mem (hq : q ≠ ptep.1) (heq : page_remove_pte A ptep s = some s') :
    s'.mem q = s.mem q := by
  rcases page_remove_pte_inversion heq with ⟨-, rfl⟩ | ⟨page, s1, -, hdrop, rfl⟩
  · rfl
  · obtain ⟨pmm, rfl, -⟩ := drop_inversion hdrop
    exact write_mem _ hq

variable (hsize : A.size ≤ 2 ^ 19) (hclear : S.clear = 0)
include hsize hclear

theorem get_pte_writes (h : s.Wf S D) (heq : get_pte A d la create s = some (r, s')) :
    s'.mem = s.mem ∨ s.table d (PDX la) = none ∧ ∃ page w, page ∉ S.owned s.pmm ∧
      ∀ q ≠ page, s'.mem q = (s.write (d, PDX la) w).mem q := by
  rcases get_pte_inversion heq with ⟨hmem, -⟩ | ⟨hnone, page, pmm, kva, halloc, hkva, rfl⟩
  · exact .inl hmem
  · rcases h.alloc_page hclear with hfail | ⟨t, pmm', hsome, hn⟩
    · simp [alloc_page, halloc] at hfail
    simp only [alloc_page, halloc, bind_eq_bind, bind_some, pure_def,
      some_inj, Prod.mk.injEq, Vm.mk.injEq, and_true] at hsome
    obtain ⟨rfl, rfl⟩ := hsome
    have hlt := S.owned_lt_size hn.wf.inv (hn.isData h).owned
    rw [KADDR, PPN_page2pa (hlt.trans_le hsize), if_pos hlt, some_inj] at hkva
    subst hkva
    refine .inr ⟨hnone, page, page2pa page ||| PTE_P ||| PTE_W ||| PTE_U, hn.fresh, fun q hq => ?_⟩
    by_cases hqd : q = d
    · subst hqd
      simp [Vm.write, Vm.memset, set_page_ref, hq]
    · simp [Vm.write, Vm.memset, set_page_ref, hq, hqd]

theorem get_pte_mem (h : s.Wf S D) (hd : d ∈ D) (hq : IsData S D s q)
    (heq : get_pte A d la create s = some (r, s')) : s'.mem q = s.mem q := by
  rcases get_pte_writes hsize hclear h heq with hmem | ⟨-, page, w, hfresh, hmem⟩
  · rw [hmem]
  · have hdir : q ≠ d := fun heq => hq.not_dir (heq ▸ hd)
    have hne : q ≠ page := fun heq => hfresh (heq ▸ hq.owned)
    rw [hmem q hne, write_mem _ hdir]

theorem get_pte_kept (h : s.Wf S D) (hd : d ∈ D) (ht : s.table d i = some t)
    (heq : get_pte A d la create s = some (r, s')) : s'.table d i = some t := by
  rcases get_pte_writes hsize hclear h heq with hmem | ⟨hnone, page, w, hfresh, hmem⟩
  · rwa [Vm.table, hmem]
  · have hne : d ≠ page := fun heq => hfresh (heq ▸ h.dir d hd)
    have hi : i ≠ PDX la := by
      rintro rfl
      rw [hnone] at ht
      cases ht
    have hkeep := table_write_dir s d (PDX la) d i w
    rw [if_neg fun heq => hi heq.2, ht] at hkeep
    rwa [Vm.table, hmem d hne]

omit hsize hclear in
theorem page_insert_mem_of_table {ret : ℤ} (hget : get_pte A d la true s = some (some ptep, s))
    (hq : q ≠ ptep.1) (heq : page_insert A d page la perm s = some (ret, s')) :
    s'.mem q = s.mem q := by
  obtain ⟨⟨ptep', s1⟩, hget', heq⟩ := bind_eq_some_iff.mp heq
  cases hget.symm.trans hget'
  obtain ⟨s2, hreplace, heq⟩ := bind_eq_some_iff.mp heq
  cases heq
  refine (write_mem _ hq).trans ?_
  unfold page_insert.replace at hreplace
  split at hreplace
  · obtain ⟨p, -, hreplace⟩ := bind_eq_some_iff.mp hreplace
    split at hreplace
    · cases hreplace
      rfl
    · exact page_remove_pte_mem hq (s := page_ref_inc A page s) hreplace
  · cases hreplace
    rfl

end

/-- From `s` to `s'` at most the entry of `la` in `d` and the table for it have changed; an entry
that has been made has the permissions `perm`. -/
structure Touches (S : runs.Spec A) (D : Finset ℕ) (d : ℕ) (la perm : BitVec 32) (s s' : Vm σ) :
    Prop where
  wf : s'.Wf S D
  table : ∀ c ∈ D, ∀ i < 1024, ¬ (c = d ∧ i = PDX la) → s'.table c i = s.table c i
  pte : ∀ x ∈ slots D, x ≠ slot d la → s'.pte x = s.pte x
  self : s'.pte (slot d la) = s.pte (slot d la) ∨
    s'.pte (slot d la) &&& PTE_USER = (PTE_P ||| perm) &&& PTE_USER

namespace Touches

theorem refl (d : ℕ) (la perm : BitVec 32) (h : s.Wf S D) : Touches S D d la perm s s :=
  ⟨h, fun _ _ _ _ _ => rfl, fun _ _ _ => rfl, .inl rfl⟩

end Touches

section
variable (hsize : A.size ≤ 2 ^ 19) (hclear : S.clear = 0)
include hsize hclear

theorem get_pte_touches (perm : BitVec 32) (h : s.Wf S D) (hd : d ∈ D)
    (heq : get_pte A d la true s = some (r, s')) : Touches S D d la perm s s' := by
  rcases get_pte_cases hsize hclear h hd la with hnone | ⟨t, s1, hsome, -, he⟩
  · cases hnone.symm.trans heq
    exact .refl d la perm h
  cases hsome.symm.trans heq
  refine ⟨he.wf, fun c hc i hi hne => ?_, fun x hx _ => he.pte x hx, .inl (he.pte _ (slot_mem hd))⟩
  by_cases hcd : c = d
  · subst hcd
    rcases get_pte_writes hsize hclear h hsome with hmem | ⟨-, page, w, hfresh, hmem⟩
    · rw [Vm.table, hmem, Vm.table]
    · have hkeep := table_write_dir s c (PDX la) c i w
      rw [if_neg hne] at hkeep
      rwa [Vm.table, hmem c fun heq => hfresh (heq ▸ h.dir c hc)]
  · exact he.table c hc hcd i

end

theorem drop_supply (h : s.Wf S D) (hp : p ∈ S.owned s.pmm)
    (heq : page_remove_pte.drop A p s = some s') : U.avail s.pmm ≤ U.avail s'.pmm := by
  obtain ⟨hinv, howned, -⟩ := S.set_owned (A.get s.pmm p - 1) h.inv hp
  obtain ⟨pmm, rfl, rfl | hfree⟩ := drop_inversion heq
  · exact (U.set p _).ge
  · rw [← U.set p (A.get s.pmm p - 1)]
    exact U.free hinv (howned.symm ▸ hp) hfree

variable (hsize : A.size ≤ 2 ^ 19) (hclear : S.clear = 0)
include hsize hclear

theorem get_pte_supply (h : s.Wf S D) (hd : d ∈ D)
    (hroom : s.table d (PDX la) = none → 0 < U.avail s.pmm) :
    ∃ t s', get_pte A d la true s = some (some (t, PTX la), s') ∧
      s'.table d (PDX la) = some t ∧ Extends S D d s s' ∧
      U.avail s.pmm = U.avail s'.pmm + if s.table d (PDX la) = none then 1 else 0 := by
  cases ht : s.table d (PDX la) with
  | some t =>
    have hlt := S.owned_lt_size h.inv (h.table d hd _ (PDX_lt la) t ht).1
    exact ⟨t, s, get_pte_of_table true ht hlt, ht, .refl d h, by simp⟩
  | none =>
    obtain ⟨page, pmm, halloc, havail⟩ := U.alloc h.inv (hroom ht)
    rcases get_pte_create hsize hclear h hd ht with hnone | ⟨t, s', hsome, ht', he⟩
    · simp only [get_pte, frame_eq_none_iff.mp ht, alloc_page, halloc, bind_eq_bind,
        bind_some, pure_def, Bool.false_eq_true, if_false, Bool.not_true] at hnone
      obtain ⟨kva, -, hnone⟩ := bind_eq_some_iff.mp hnone
      obtain ⟨_, -, hnone⟩ := bind_eq_some_iff.mp hnone
      cases hnone
    · refine ⟨t, s', hsome, ht', he, ?_⟩
      rcases get_pte_inversion hsome with ⟨-, hsame⟩ | ⟨-, page', pmm', kva, halloc', -, rfl⟩
      · rw [hsame (by simp), ht] at ht'
        cases ht'
      · cases halloc.symm.trans halloc'
        rw [havail]
        exact congrArg (· + 1) (U.set page 1).symm

theorem page_insert_supply (h : s.Wf S D) (hd : d ∈ D) (hpage : IsData S D s page)
    (hperm : PTE_ADDR perm = 0#32) (ht : s.table d (PDX la) = some t) :
    ∃ s', page_insert A d page la perm s = some (0, s') ∧
      Maps S D (slot d la) page (page2pa page ||| PTE_P ||| perm) s s' ∧
      U.avail s.pmm ≤ U.avail s'.pmm := by
  have hlt := S.owned_lt_size h.inv (h.table d hd _ (PDX_lt la) t ht).1
  have hget := get_pte_of_table true ht hlt
  rcases page_insert_cases hsize hclear h hd hpage hperm la with hfail | ⟨s', hins, hm⟩
  · obtain ⟨⟨ptep, s1⟩, hget', hfail⟩ := bind_eq_some_iff.mp hfail
    cases hget.symm.trans hget'
    obtain ⟨s2, -, hfail⟩ := bind_eq_some_iff.mp hfail
    cases hfail
  refine ⟨s', hins, hm, ?_⟩
  obtain ⟨⟨ptep, s1⟩, hget', hins⟩ := bind_eq_some_iff.mp hins
  cases hget.symm.trans hget'
  obtain ⟨s2, hreplace, hins⟩ := bind_eq_some_iff.mp hins
  cases hins
  have hinc : U.avail (page_ref_inc A page s).pmm = U.avail s.pmm := U.set page _
  rw [← hinc]
  have hwf : (page_ref_inc A page s).Wf S D := h.set_page_ref hpage.owned (by
    have := h.ref page hpage.owned
    rw [page_ref]
    omega)
  unfold page_insert.replace at hreplace
  split at hreplace
  · obtain ⟨p, -, hreplace⟩ := bind_eq_some_iff.mp hreplace
    split at hreplace
    · cases hreplace
      exact (U.set page _).ge
    · rcases page_remove_pte_inversion hreplace with ⟨-, rfl⟩ | ⟨p', s3, hp', hdrop, rfl⟩
      · exact le_refl _
      · have hframe : frame ((page_ref_inc A page s).pte (slot d la)) = some p' := by
          rw [slot, pte_of_table (s := page_ref_inc A page s) ht]
          exact frame_of_pte2page hp'
        have hle := drop_supply (U := U) hwf (hwf.data _ (slot_mem hd) _ hframe).owned hdrop
        exact hle
  · cases hreplace
    exact le_refl _

end ucore
