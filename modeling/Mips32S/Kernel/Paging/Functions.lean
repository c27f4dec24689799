import Mips32S.Kernel.Paging.Directories

open Function Option

namespace ucore

variable {σ : Type} {A : runs.Allocator σ ℤ} {S : runs.Spec A} {D : Finset ℕ} {s s' s1 : Vm σ}
  {d i j t p q : ℕ} {x : ℕ × ℕ × ℕ} {la w perm e : BitVec 32}

/-- The state `s'` maps what `s` maps; the directory `d` may have more tables. -/
structure Extends (S : runs.Spec A) (D : Finset ℕ) (d : ℕ) (s s' : Vm σ) : Prop where
  wf : s'.Wf S D
  table : ∀ c ∈ D, c ≠ d → ∀ i, s'.table c i = s.table c i
  pte : ∀ x ∈ slots D, s'.pte x = s.pte x
  data : ∀ p, IsData S D s' p ↔ IsData S D s p
  ref : ∀ p ∈ S.owned s.pmm, A.get s'.pmm p = A.get s.pmm p
  owned : S.owned s.pmm ⊆ S.owned s'.pmm
  tlb : s'.tlb = s.tlb

theorem Extends.refl (d : ℕ) (h : s.Wf S D) : Extends S D d s s :=
  ⟨h, fun _ _ _ _ => rfl, fun _ _ => rfl, fun _ => Iff.rfl, fun _ _ => rfl, fun _ hp => hp, rfl⟩

theorem Extends.count_eq (h : Extends S D d s s') : count D s' = count D s := count_congr h.pte

section

theorem get_pte_entry_eq (ht : s.table d (PDX la) = some t) (hlt : t < A.size) :
    get_pte.entry A d la s = some (some (t, PTX la), s) := by
  have hkaddr : KADDR A.size (PTE_ADDR (s.mem d (PDX la))) = some t := pa2page_of_frame ht hlt
  rw [PTE_ADDR] at hkaddr
  rw [get_pte.entry, hkaddr]
  rfl

theorem get_pte_of_table (create : Bool) (ht : s.table d (PDX la) = some t) (hlt : t < A.size) :
    get_pte A d la create s = some (some (t, PTX la), s) := by
  have hpres : ptep_present (s.mem d (PDX la)) := by
    by_contra hnot
    rw [Vm.table, frame, if_neg hnot] at ht
    cases ht
  rw [get_pte, if_pos hpres, get_pte_entry_eq ht hlt]

theorem get_pte_of_no_table (A : runs.Allocator σ ℤ) (ht : s.table d (PDX la) = none) :
    get_pte A d la false s = some (none, s) := by
  simp [get_pte, frame_eq_none_iff.mp ht]

theorem frame_pde (hp : p < 2 ^ 19) : frame (page2pa p ||| PTE_P ||| PTE_W ||| PTE_U) = some p := by
  rw [BitVec.or_assoc, BitVec.or_assoc]
  exact frame_page2pa_or hp (by decide) (by decide)

theorem NewPage.extends {pmm : σ} (h : s.Wf S D) (hn : NewPage S D s t pmm) (hd : d ∈ D)
    (hi : i < 1024) (hnone : s.table d i = none) (hw : frame w = some t) :
    Extends S D d s (((set_page_ref A t 1 { s with pmm }).memset t).write (d, i) w) := by
  obtain ⟨hgrown, howned, hfresh, hrefs, -⟩ := id hn
  -- until the directory names it, the page is a data page without mappings
  have hdata := hn.isData h
  have hcount := hn.count_eq_zero h
  have htowned : t ∈ S.owned pmm := hdata.owned
  obtain ⟨-, howned1, hrefs1⟩ := S.set_owned 1 hgrown.inv htowned
  set s1 := set_page_ref A t 1 { s with pmm } with hs1
  have hwf1 : s1.Wf S D := hgrown.set_page_ref htowned (by rw [hcount]; decide)
  have hdata1 : ∀ {p}, IsData S D s1 p ↔ IsData S D { s with pmm } p :=
    hgrown.isData_set_page_ref 1 htowned
  have hmem : ∀ p, ¬ IsData S D s1 p → (s1.memset t).mem p = s1.mem p := by
    intro p hp
    have hne : p ≠ t := fun heq => hp (heq ▸ hdata1.mpr hdata)
    simp [Vm.memset, hne]
  have hpmm : (s1.memset t).pmm = s1.pmm := rfl
  obtain ⟨hwf2, htable2, hpte2⟩ := hwf1.of_mem hpmm hmem
  have hdata2 : ∀ {p}, IsData S D (s1.memset t) p ↔ IsData S D { s with pmm } p :=
    (isData_congr (fun d hd i _ => htable2 d hd i) Iff.rfl).trans hdata1
  have hzero : ∀ j, (s1.memset t).mem t j = 0#32 := by simp [Vm.memset]
  have hnone2 : (s1.memset t).table d i = none := (htable2 d hd i).trans hnone
  have hcount2 : count D (s1.memset t) t = 0 := by
    rwa [count_congr hpte2]
  refine ⟨hwf2.addTable hnone2 hw (hdata2.mpr hdata) hcount2 hzero hd hi, ?_, ?_, ?_, ?_, ?_, rfl⟩
  · intro c hc hne i'
    rw [table_write_dir, if_neg fun heq => hne heq.1, htable2 c hc]
    rfl
  · intro x hx
    rw [hwf2.pte_addTable hnone2 hw hdata.not_dir hzero hd hx, hpte2 x hx]
    rfl
  · intro p
    rw [isData_addTable hnone2 hw hd hi, hdata2]
    constructor
    · rintro ⟨⟨hp, hdir, htable⟩, hne⟩
      rw [howned] at hp
      exact ⟨hp.resolve_left hne, hdir, htable⟩
    · rintro ⟨hp, hdir, htable⟩
      exact ⟨⟨howned ▸ Set.mem_insert_of_mem t hp, hdir, htable⟩, fun heq => hfresh (heq ▸ hp)⟩
  · intro p hp
    have hne : p ≠ t := fun heq => hfresh (heq ▸ hp)
    change A.get (A.set t 1 pmm) p = _
    rw [hrefs1, update_of_ne hne, hrefs]
  · intro p hp
    change p ∈ S.owned (A.set t 1 pmm)
    rw [howned1, howned]
    exact Set.mem_insert_of_mem t hp

variable (hsize : A.size ≤ 2 ^ 19) (hclear : S.clear = 0)
include hsize hclear

theorem get_pte_create (h : s.Wf S D) (hd : d ∈ D) (ht : s.table d (PDX la) = none) :
    get_pte A d la true s = some (none, s) ∨
    ∃ t s', get_pte A d la true s = some (some (t, PTX la), s') ∧
      s'.table d (PDX la) = some t ∧ Extends S D d s s' := by
  have hget : get_pte A d la true s = (alloc_page A s).bind fun r =>
      r.1.elim (some (none, r.2)) fun page => (KADDR A.size (page2pa page)).bind fun kva =>
        get_pte.entry A d la (((set_page_ref A page 1 r.2).memset kva).write (d, PDX la)
          (page2pa page ||| PTE_P ||| PTE_W ||| PTE_U)) := by
    simp only [get_pte, frame_eq_none_iff.mp ht]
    cases alloc_page A s with
    | none => rfl
    | some r => obtain ⟨page | page, s'⟩ := r <;> rfl
  rcases h.alloc_page hclear with hnone | ⟨t, pmm, heq, hn⟩
  · exact .inl (by rw [hget, hnone]; rfl)
  have hlt := S.owned_lt_size hn.wf.inv (hn.isData h).owned
  have hframe := frame_pde (hlt.trans_le hsize)
  have hkaddr : KADDR A.size (page2pa t) = some t := by
    rw [KADDR, PPN_page2pa (hlt.trans_le hsize), if_pos hlt]
  set s1 := set_page_ref A t 1 { s with pmm } with hs1
  have htable : ((s1.memset t).write (d, PDX la)
      (page2pa t ||| PTE_P ||| PTE_W ||| PTE_U)).table d (PDX la) = some t := by
    rw [table_write_dir, if_pos ⟨rfl, rfl⟩, hframe]
  refine .inr ⟨t, (s1.memset t).write (d, PDX la) (page2pa t ||| PTE_P ||| PTE_W ||| PTE_U),
    ?_, htable, hn.extends h hd (PDX_lt la) ht hframe⟩
  simp only [hget, heq, bind_some, elim_some, hkaddr]
  exact get_pte_entry_eq htable hlt

theorem get_pte_cases (h : s.Wf S D) (hd : d ∈ D) (la : BitVec 32) :
    get_pte A d la true s = some (none, s) ∨
    ∃ t s', get_pte A d la true s = some (some (t, PTX la), s') ∧
      s'.table d (PDX la) = some t ∧ Extends S D d s s' := by
  cases ht : s.table d (PDX la) with
  | none => exact get_pte_create hsize hclear h hd ht
  | some t =>
    have hlt := S.owned_lt_size h.inv (h.table d hd _ (PDX_lt la) t ht).1
    exact .inr ⟨t, s, get_pte_of_table true ht hlt, ht, .refl d h⟩

end

/-- The state `s'` is `s` without the mapping in slot `x`. The page it mapped loses a
reference, and with its last reference it is freed. -/
structure Unmaps (S : runs.Spec A) (D : Finset ℕ) (x : ℕ × ℕ × ℕ) (s s' : Vm σ) : Prop where
  wf : s'.Wf S D
  table : ∀ d ∈ D, ∀ i < 1024, s'.table d i = s.table d i
  pte : ∀ y ∈ slots D, y ≠ x → s'.pte y = s.pte y
  pte_self : frame (s'.pte x) = none
  flushed : Flushed s'.tlb
  sub : S.owned s'.pmm ⊆ S.owned s.pmm
  kept : ∀ q ∈ S.owned s.pmm, frame (s.pte x) ≠ some q →
    q ∈ S.owned s'.pmm ∧ A.get s'.pmm q = A.get s.pmm q
  unmapped : ∀ q, frame (s.pte x) = some q →
    A.get s.pmm q = 1 ∧ q ∉ S.owned s'.pmm ∨
    A.get s.pmm q ≠ 1 ∧ q ∈ S.owned s'.pmm ∧ A.get s'.pmm q = A.get s.pmm q - 1

theorem page_remove_pte_of_none (A : runs.Allocator σ ℤ) (h : s.Wf S D)
    (ht : s.table d i = some t) (hnone : frame (s.pte (d, i, j)) = none) :
    page_remove_pte A (t, j) s = some s.tlb_invalidate_all ∧
      Unmaps S D (d, i, j) s s.tlb_invalidate_all := by
  have hread : ptep_present (s.read (t, j)) = false := by
    rw [pte_of_table ht] at hnone
    exact frame_eq_none_iff.mp hnone
  refine ⟨by simp [page_remove_pte, hread], h.tlb_invalidate_all, fun _ _ _ _ => rfl,
    fun _ _ _ => rfl, hnone, tlb_invalidate_all_flushed _, fun _ hq => hq,
    fun _ hq _ => ⟨hq, rfl⟩, fun q hq => ?_⟩
  rw [hnone] at hq
  cases hq

theorem ptep_present_of_frame (he : frame e = some p) : ptep_present e := by
  by_contra hnot
  rw [frame, if_neg hnot] at he
  cases he

theorem Vm.Wf.drop (h : s.Wf S D) (hp : IsData S D s p) (hcount : count D s p + 1 ≤ A.get s.pmm p) :
    ∃ pmm, (∀ mem tlb, page_remove_pte.drop A p ⟨s.pmm, mem, tlb⟩ = some ⟨pmm, mem, tlb⟩) ∧
      Vm.Wf S D { s with pmm } ∧ S.owned pmm ⊆ S.owned s.pmm ∧
      (∀ q ∈ S.owned s.pmm, q ≠ p → q ∈ S.owned pmm ∧ A.get pmm q = A.get s.pmm q) ∧
      (A.get s.pmm p = 1 ∧ p ∉ S.owned pmm ∨
        A.get s.pmm p ≠ 1 ∧ p ∈ S.owned pmm ∧ A.get pmm p = A.get s.pmm p - 1) := by
  obtain ⟨-, howned, hrefs⟩ := S.set_owned (A.get s.pmm p - 1) h.inv hp.owned
  have hwf : (ucore.set_page_ref A p (A.get s.pmm p - 1) s).Wf S D :=
    h.set_page_ref hp.owned (by omega)
  have href : A.get (A.set p (A.get s.pmm p - 1) s.pmm) p = A.get s.pmm p - 1 := by
    rw [hrefs, update_self]
  by_cases hone : A.get s.pmm p = 1
  · have hcount1 : count D (ucore.set_page_ref A p (A.get s.pmm p - 1) s) p = 0 := by
      change count D s p = 0
      omega
    obtain ⟨pmm, heq, hwf', howned', hrefs'⟩ :=
      hwf.free_page ((h.isData_set_page_ref _ hp.owned).mpr hp) hcount1
    change S.owned pmm = S.owned (A.set p _ s.pmm) \ {p} at howned'
    change A.get pmm = update (A.get (A.set p _ s.pmm)) p S.clear at hrefs'
    rw [howned] at howned'
    refine ⟨pmm, fun mem tlb => ?_, hwf', howned' ▸ Set.sdiff_subset, fun q hq hne => ⟨?_, ?_⟩,
      .inl ⟨hone, by simp [howned']⟩⟩
    · change A.free p 1 (A.set p (A.get s.pmm p - 1) s.pmm) = some pmm at heq
      simp only [page_remove_pte.drop, page_ref, page_ref_dec, ucore.set_page_ref, href]
      rw [if_pos (by omega), ucore.free_page, heq]
      rfl
    · rw [howned']
      exact ⟨hq, hne⟩
    · rw [hrefs', update_of_ne hne, hrefs, update_of_ne hne]
  · refine ⟨_, fun mem tlb => ?_, hwf, howned.subset, fun q hq hne => ⟨howned.symm ▸ hq, ?_⟩,
      .inr ⟨hone, howned.symm ▸ hp.owned, href⟩⟩
    · have hne : A.get s.pmm p - 1 ≠ 0 := by omega
      simp [page_remove_pte.drop, page_ref, page_ref_dec, ucore.set_page_ref, href, hne]
    · rw [hrefs, update_of_ne hne]

/-- Removing a mapping: the entry is cleared, and the page it mapped loses a reference and
with the last one is freed. -/
theorem page_remove_pte_spec (h : s.Wf S D) (hx : (d, i, j) ∈ slots D) (ht : s.table d i = some t) :
    ∃ s', page_remove_pte A (t, j) s = some s' ∧ Unmaps S D (d, i, j) s s' := by
  cases hp : frame (s.pte (d, i, j)) with
  | none => exact ⟨_, page_remove_pte_of_none A h ht hp⟩
  | some p =>
    obtain ⟨hd, hi, -⟩ := mem_slots.mp hx
    have hdata := h.data _ hx p hp
    have hread : frame (s.read (t, j)) = some p := by
      rwa [pte_of_table ht] at hp
    -- the function touches the allocator before the entry; the argument clears the entry first
    set s1 := s.write (t, j) 0#32 with hs1
    have hwf1 : s1.Wf S D := h.write hx ht (fun _ => rfl) fun q hq => by cases hq
    have htable1 : ∀ d' ∈ D, ∀ i' < 1024, s1.table d' i' = s.table d' i' :=
      fun d' hd' i' _ => h.table_write ⟨d, hd, i, hi, ht⟩ hd'
    have hpte1 : ∀ y ∈ slots D, s1.pte y = if y = (d, i, j) then 0#32 else s.pte y :=
      fun y hy => h.pte_write hd hi ht hy
    have hself1 : frame (s1.pte (d, i, j)) = none := by rw [hpte1 _ hx, if_pos rfl, frame_zero]
    have hrest1 : ∀ y ∈ slots D, y ≠ (d, i, j) → s1.pte y = s.pte y :=
      fun y hy hne => by rw [hpte1 y hy, if_neg hne]
    have hcount := count_update hx hrest1 p
    rw [hp, if_pos rfl, hself1, if_neg (by simp)] at hcount
    have href := h.ref p hdata.owned
    obtain ⟨pmm, heq, hwf2, hsub, hkept, hdrop⟩ :=
      hwf1.drop ((isData_congr htable1 Iff.rfl).mpr hdata) (by
        change _ ≤ A.get s.pmm p
        omega)
    refine ⟨Vm.tlb_invalidate_all { s1 with pmm }, ?_, hwf2.tlb_invalidate_all, htable1, hrest1,
      hself1, tlb_invalidate_all_flushed _, hsub, fun q hq hne => hkept q hq ?_, fun q hq => ?_⟩
    · have hdrop : page_remove_pte.drop A p s = some ⟨pmm, s.mem, s.tlb⟩ := heq s.mem s.tlb
      simp only [page_remove_pte, ptep_present_of_frame hread, if_true, bind_eq_bind,
        pte2page_of_frame hread (S.owned_lt_size h.inv hdata.owned), bind_some, hdrop]
      rfl
    · rintro rfl
      exact hne hp
    · rw [hp] at hq
      cases hq
      exact hdrop

theorem page_remove_cases (h : s.Wf S D) (hd : d ∈ D) (la : BitVec 32) :
    page_remove A d la s = some s ∧ s.table d (PDX la) = none ∨
    ∃ s', page_remove A d la s = some s' ∧ Unmaps S D (slot d la) s s' := by
  cases ht : s.table d (PDX la) with
  | none => exact .inl ⟨by simp [page_remove, get_pte_of_no_table A ht], rfl⟩
  | some t =>
    have hlt := S.owned_lt_size h.inv (h.table d hd _ (PDX_lt la) t ht).1
    obtain ⟨s', heq, hun⟩ := page_remove_pte_spec h (slot_mem hd) ht
    exact .inr ⟨s', by simpa [page_remove, get_pte_of_table false ht hlt] using heq, hun⟩

/-- The state `s1` is `s` when `page` has a new reference for the slot `x` and what the slot
mapped has lost its own. -/
structure Replaced (S : runs.Spec A) (D : Finset ℕ) (x : ℕ × ℕ × ℕ) (page : ℕ) (s s1 : Vm σ) :
    Prop where
  wf : s1.Wf S D
  table : ∀ d ∈ D, ∀ i < 1024, s1.table d i = s.table d i
  pte : ∀ y ∈ slots D, y ≠ x → s1.pte y = s.pte y
  pte_self : frame (s1.pte x) = if frame (s.pte x) = some page then some page else none
  sub : S.owned s1.pmm ⊆ S.owned s.pmm
  page_owned : page ∈ S.owned s1.pmm
  page_ref : A.get s1.pmm page + (if frame (s.pte x) = some page then 1 else 0) =
    A.get s.pmm page + 1
  kept : ∀ q ∈ S.owned s.pmm, q ≠ page → frame (s.pte x) ≠ some q →
    q ∈ S.owned s1.pmm ∧ A.get s1.pmm q = A.get s.pmm q
  unmapped : ∀ q, q ≠ page → frame (s.pte x) = some q →
    A.get s.pmm q = 1 ∧ q ∉ S.owned s1.pmm ∨
    A.get s.pmm q ≠ 1 ∧ q ∈ S.owned s1.pmm ∧ A.get s1.pmm q = A.get s.pmm q - 1

variable {page : ℕ}

theorem page_insert_replace_spec (h : s.Wf S D) (hx : (d, i, j) ∈ slots D)
    (ht : s.table d i = some t) (hpage : IsData S D s page) :
    ∃ s1, page_insert.replace A page (t, j) (page_ref_inc A page s) = some s1 ∧
      Replaced S D (d, i, j) page s s1 := by
  obtain ⟨hinv, howned, hrefs⟩ := S.set_owned (A.get s.pmm page + 1) h.inv hpage.owned
  have hroom := h.ref page hpage.owned
  set s0 := page_ref_inc A page s with hs0
  have hwf0 : s0.Wf S D := h.set_page_ref hpage.owned (by
    change (count D s page : ℤ) ≤ A.get s.pmm page + 1
    omega)
  have hpage0 : IsData S D s0 page := (h.isData_set_page_ref _ hpage.owned).mpr hpage
  have hget0 : ∀ q ≠ page, A.get s0.pmm q = A.get s.pmm q := fun q hq =>
    (congrFun hrefs q).trans (update_of_ne hq _ _)
  have hself0 : A.get s0.pmm page = A.get s.pmm page + 1 :=
    (congrFun hrefs page).trans (update_self ..)
  have hread : s0.read (t, j) = s.pte (d, i, j) := (pte_of_table ht).symm
  rcases hold : frame (s.pte (d, i, j)) with _ | p
  · refine ⟨s0, ?_, hwf0, fun _ _ _ _ => rfl, fun _ _ _ => rfl, ?_, howned.subset, hpage0.owned,
      ?_, ?_, ?_⟩
    · simp [page_insert.replace, hread, frame_eq_none_iff.mp hold]
    · rwa [hold, if_neg (by simp)]
    · simpa [hold] using hself0
    · exact fun q hq hne _ => ⟨howned.symm ▸ hq, hget0 q hne⟩
    · intro q _ hq
      rw [hold] at hq
      cases hq
  have hpres := ptep_present_of_frame hold
  have hlt := S.owned_lt_size h.inv (h.data _ hx p hold).owned
  have hreplace : page_insert.replace A page (t, j) s0 =
      if p = page then some (page_ref_dec A page s0) else page_remove_pte A (t, j) s0 := by
    simp [page_insert.replace, hread, hpres, pte2page_of_frame hold hlt]
  by_cases hp : p = page
  · -- inserting the page where it already is: the two changes of its count cancel
    subst hp
    obtain ⟨-, howned1, hrefs1⟩ := S.set_owned (A.get s0.pmm p - 1) hwf0.inv hpage0.owned
    refine ⟨page_ref_dec A p s0, by rw [hreplace, if_pos rfl], ?_, fun _ _ _ _ => rfl,
      fun _ _ _ => rfl, ?_, ?_, ?_, ?_, ?_, ?_⟩
    · exact hwf0.set_page_ref hpage0.owned (by
        change (count D s p : ℤ) ≤ A.get s0.pmm p - 1
        omega)
    · rwa [hold, if_pos rfl]
    · exact (howned1.trans howned).subset
    · exact howned1.symm ▸ hpage0.owned
    · rw [hold, if_pos rfl]
      have := (congrFun hrefs1 p).trans (update_self ..)
      exact (congrArg (· + 1) this).trans (by omega)
    · intro q hq hne _
      refine ⟨(howned1.trans howned).symm ▸ hq, ?_⟩
      exact ((congrFun hrefs1 q).trans (update_of_ne hne _ _)).trans (hget0 q hne)
    · intro q hne hq
      rw [hold] at hq
      exact absurd (some_inj.mp hq).symm hne
  · obtain ⟨s1, heq, hun⟩ := page_remove_pte_spec hwf0 hx ht
    have hold0 : frame (s0.pte (d, i, j)) = some p := hold
    have hne : frame (s0.pte (d, i, j)) ≠ some page := by
      rw [hold0]
      exact fun heq => hp (some_inj.mp heq)
    obtain ⟨hkeep, hkeepref⟩ := hun.kept page hpage0.owned hne
    refine ⟨s1, by rw [hreplace, if_neg hp, heq], hun.wf, hun.table, hun.pte, ?_,
      hun.sub.trans howned.subset, hkeep, ?_, ?_, ?_⟩
    · rw [hun.pte_self, if_neg (by rw [hold]; exact fun heq => hp (some_inj.mp heq))]
    · rw [if_neg (by rw [hold]; exact fun heq => hp (some_inj.mp heq)), hkeepref, hself0, add_zero]
    · intro q hq hqp hqold
      obtain ⟨hq', href⟩ := hun.kept q (howned.symm ▸ hq) hqold
      exact ⟨hq', href.trans (hget0 q hqp)⟩
    · intro q hqp hq
      have hres := hun.unmapped q hq
      rwa [hget0 q hqp] at hres

/-- The state `s'` is `s` with the entry `w` for the data page `page` in slot `x`. -/
structure Maps (S : runs.Spec A) (D : Finset ℕ) (x : ℕ × ℕ × ℕ) (page : ℕ) (w : BitVec 32)
    (s s' : Vm σ) : Prop where
  wf : s'.Wf S D
  table : ∀ c ∈ D, c ≠ x.1 → ∀ i < 1024, s'.table c i = s.table c i
  pte : ∀ y ∈ slots D, y ≠ x → s'.pte y = s.pte y
  pte_self : s'.pte x = w
  frame_eq : frame w = some page
  flushed : Flushed s'.tlb
  data : ∀ q, IsData S D s' q → IsData S D s q
  page_data : IsData S D s' page
  page_ref : A.get s'.pmm page + (if frame (s.pte x) = some page then 1 else 0) =
    A.get s.pmm page + 1
  kept : ∀ q, IsData S D s q → q ≠ page → frame (s.pte x) ≠ some q →
    IsData S D s' q ∧ A.get s'.pmm q = A.get s.pmm q
  unmapped : ∀ q, q ≠ page → frame (s.pte x) = some q →
    A.get s.pmm q = 1 ∧ q ∉ S.owned s'.pmm ∨
    A.get s.pmm q ≠ 1 ∧ IsData S D s' q ∧ A.get s'.pmm q = A.get s.pmm q - 1

theorem Replaced.maps (h : s.Wf S D) (hr : Replaced S D (d, i, j) page s s1)
    (hx : (d, i, j) ∈ slots D) (ht : s.table d i = some t) (hpage : IsData S D s page)
    (hw : frame w = some page) :
    Maps S D (d, i, j) page w s (s1.write (t, j) w).tlb_invalidate_all := by
  obtain ⟨hd, hi, -⟩ := mem_slots.mp hx
  have ht1 : s1.table d i = some t := (hr.table d hd i hi).trans ht
  have hdata1 : ∀ {q}, q ∈ S.owned s1.pmm → (IsData S D s1 q ↔ IsData S D s q) := fun hq =>
    isData_congr hr.table (iff_of_true hq (hr.sub hq))
  have htable : ∀ d' ∈ D, ∀ i' < 1024, (s1.write (t, j) w).table d' i' = s1.table d' i' :=
    fun d' hd' i' _ => hr.wf.table_write ⟨d, hd, i, hi, ht1⟩ hd'
  have hdata : ∀ {q}, IsData S D (s1.write (t, j) w).tlb_invalidate_all q ↔ IsData S D s1 q :=
    isData_congr htable Iff.rfl
  have hcount := count_update hx hr.pte page
  have hroom := h.ref page hpage.owned
  have hpref := hr.page_ref
  rw [hr.pte_self] at hcount
  have hwf : (s1.write (t, j) w).Wf S D := by
    refine hr.wf.write hx ht1 (fun hnone => ?_) fun q hq => ?_
    · rw [hw] at hnone
      cases hnone
    cases hw.symm.trans hq
    refine ⟨(hdata1 hr.page_owned).mpr hpage, ?_⟩
    rw [hr.pte_self]
    by_cases hold : frame (s.pte (d, i, j)) = some page
    · simp only [hold, if_true] at hcount hpref ⊢
      omega
    · simp only [hold, if_false, reduceCtorEq] at hcount hpref ⊢
      omega
  refine ⟨hwf.tlb_invalidate_all, fun c hc _ i' hi' => (htable c hc i' hi').trans
    (hr.table c hc i' hi'), fun y hy hne => ?_, ?_, hw, tlb_invalidate_all_flushed _,
    fun q hq => ?_, ?_, hpref, fun q hq hne hold => ?_, fun q hne hold => ?_⟩
  · exact ((hr.wf.pte_write hd hi ht1 hy).trans (if_neg hne)).trans (hr.pte y hy hne)
  · exact (hr.wf.pte_write hd hi ht1 hx).trans (if_pos rfl)
  · exact (hdata1 hq.owned).mp (hdata.mp hq)
  · exact hdata.mpr ((hdata1 hr.page_owned).mpr hpage)
  · obtain ⟨howned, href⟩ := hr.kept q hq.owned hne hold
    exact ⟨hdata.mpr ((hdata1 howned).mpr hq), href⟩
  · rcases hr.unmapped q hne hold with hfreed | ⟨hone, howned, href⟩
    · exact .inl hfreed
    · exact .inr ⟨hone, hdata.mpr ((hdata1 howned).mpr (h.data _ hx q hold)), href⟩

theorem Extends.maps (h : s.Wf S D) (he : Extends S D x.1 s s1) (hx : x ∈ slots D)
    (hpage : IsData S D s page) (hm : Maps S D x page w s1 s') : Maps S D x page w s s' where
  wf := hm.wf
  table c hc hne i hi := (hm.table c hc hne i hi).trans (he.table c hc hne i)
  pte y hy hne := (hm.pte y hy hne).trans (he.pte y hy)
  pte_self := hm.pte_self
  frame_eq := hm.frame_eq
  flushed := hm.flushed
  data q hq := (he.data q).mp (hm.data q hq)
  page_data := hm.page_data
  page_ref := by
    have href := hm.page_ref
    rwa [he.pte x hx, he.ref page hpage.owned] at href
  kept q hq hne hold := by
    obtain ⟨hdata, href⟩ := hm.kept q ((he.data q).mpr hq) hne (by rwa [he.pte x hx])
    exact ⟨hdata, href.trans (he.ref q hq.owned)⟩
  unmapped q hne hold := by
    have hres := hm.unmapped q hne (by rwa [he.pte x hx])
    rwa [he.ref q (h.data x hx q hold).owned] at hres

variable (hsize : A.size ≤ 2 ^ 19) (hclear : S.clear = 0)
include hsize hclear

theorem page_insert_cases (h : s.Wf S D) (hd : d ∈ D) (hpage : IsData S D s page)
    (hperm : PTE_ADDR perm = 0#32) (la : BitVec 32) :
    page_insert A d page la perm s = some (-E_NO_MEM, s) ∨
    ∃ s', page_insert A d page la perm s = some (0, s') ∧
      Maps S D (slot d la) page (page2pa page ||| PTE_P ||| perm) s s' := by
  rcases get_pte_cases hsize hclear h hd la with hnone | ⟨t, s1, heq, ht, he⟩
  · exact .inl (by simp [page_insert, hnone])
  have hframe : frame (page2pa page ||| PTE_P ||| perm) = some page := by
    rw [BitVec.or_assoc]
    refine frame_page2pa_or (h.lt hsize hpage.owned) ?_ (ptep_present_or perm)
    rw [PTE_ADDR, BitVec.and_or_distrib_right, ← PTE_ADDR, ← PTE_ADDR, hperm]
    rfl
  have hpage1 := (he.data page).mpr hpage
  obtain ⟨s2, hreplace, hr⟩ := page_insert_replace_spec he.wf (slot_mem hd) ht hpage1
  refine .inr ⟨_, ?_, he.maps h (slot_mem hd) hpage (hr.maps he.wf (slot_mem hd) ht hpage1 hframe)⟩
  simp [page_insert, heq, hreplace]

/-- Mapping a new page fails for lack of memory and maps nothing, or maps a page that was not
allocated before. -/
theorem pgdir_alloc_page_cases (h : s.Wf S D) (hd : d ∈ D) (hperm : PTE_ADDR perm = 0#32)
    (la : BitVec 32) :
    (∃ s', pgdir_alloc_page A d la perm s = some (none, s') ∧ Extends S D d s s' ∧
      S.owned s'.pmm = S.owned s.pmm) ∨
    ∃ page pmm s', pgdir_alloc_page A d la perm s = some (some page, s') ∧ NewPage S D s page pmm ∧
      Maps S D (slot d la) page (page2pa page ||| PTE_P ||| perm) { s with pmm } s' := by
  rcases h.alloc_page hclear with hnone | ⟨page, pmm, heq, hn⟩
  · exact .inl ⟨s, by simp [pgdir_alloc_page, hnone], .refl d h, rfl⟩
  have hpage := hn.isData h
  rcases page_insert_cases hsize hclear hn.wf hd hpage hperm la with
    hfail | ⟨s', hins, hmaps⟩
  · -- no room for the table: the new page goes back
    obtain ⟨pmm', hfree, hwf', howned', hrefs'⟩ := hn.wf.free_page hpage (hn.count_eq_zero h)
    have hback : S.owned pmm' = S.owned s.pmm := by
      rw [howned', hn.owned, Set.insert_sdiff_self_of_notMem hn.fresh]
    refine .inl ⟨{ s with pmm := pmm' }, ?_, ⟨hwf', fun _ _ _ _ => rfl, fun _ _ => rfl,
      fun p => ?_, fun p hp => ?_, hback.symm.subset, rfl⟩, hback⟩
    · have hne : -E_NO_MEM ≠ 0 := by decide
      simp [pgdir_alloc_page, heq, hfail, hne, ucore.free_page, hfree]
    · exact isData_congr (fun _ _ _ _ => rfl) (by rw [hback])
    · have hne : p ≠ page := fun heq => hn.fresh (heq ▸ hp)
      rw [hrefs', update_of_ne hne, hn.ref]
  · exact .inr ⟨page, pmm, s', by simp [pgdir_alloc_page, heq, hins], hn, hmaps⟩

end ucore
