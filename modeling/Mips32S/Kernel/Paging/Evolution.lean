import Mips32S.Kernel.Paging.Range

open Finset
open Option (bind_eq_bind bind_eq_some_iff bind_some some_inj)

namespace ucore

variable {σ τ : Type} {A : runs.Allocator σ ℤ} {S : runs.Spec A} {D X : Finset ℕ} {s s' s'' : Vm σ}
  {c d i n p page source : ℕ} {x : ℕ × ℕ × ℕ} {w : BitVec 32} {pmm : σ}

/-- What the functions on the directory `d` leave intact: the page tables stay well formed, no
other directory gets a table, and for each directory outside `X` the TLB is flushed or neither
it nor the mappings have changed. -/
structure Evolves (S : runs.Spec A) (D X : Finset ℕ) (d : ℕ) (s s' : Vm σ) : Prop where
  wf : s'.Wf S D
  bare : ∀ c ∈ D, c ≠ d → Bare c s → Bare c s'
  calm : ∀ c ∈ D, c ∉ X → Calm c s s'

namespace Evolves

theorem refl (d : ℕ) (h : s.Wf S D) : Evolves S D X d s s :=
  ⟨h, fun _ _ _ hb => hb, fun c _ _ => .refl c s⟩

theorem trans (h : Evolves S D X d s s') (h' : Evolves S D X d s' s'') : Evolves S D X d s s'' :=
  ⟨h'.wf, fun c hc hne hb => h'.bare c hc hne (h.bare c hc hne hb),
    fun c hc hX => (h.calm c hc hX).trans (h'.calm c hc hX)⟩

theorem of_pmm (d : ℕ) (hwf : Vm.Wf S D { s with pmm }) : Evolves S D X d s { s with pmm } :=
  ⟨hwf, fun _ _ _ hb => hb, fun _ _ _ => .inr ⟨rfl, fun _ _ => rfl⟩⟩

theorem of_mem (d : ℕ) (h : s.Wf S D) (hpmm : s'.pmm = s.pmm) (htlb : s'.tlb = s.tlb)
    (hmem : ∀ p, ¬ IsData S D s p → s'.mem p = s.mem p) : Evolves S D X d s s' := by
  obtain ⟨hwf, htable, hpte⟩ := h.of_mem hpmm hmem
  refine ⟨hwf, fun c hc _ hb i hi => (htable c hc i).trans (hb i hi), fun c hc _ => .inr ⟨htlb, ?_⟩⟩
  exact fun x hx => hpte x (slots_subset (singleton_subset_iff.mpr hc) hx)

end Evolves

theorem Extends.evolves (h : Extends S D d s s') : Evolves S D X d s s' :=
  ⟨h.wf, fun c hc hne hb i hi => (h.table c hc hne i).trans (hb i hi), fun _ hc _ =>
    .inr ⟨h.tlb, fun x hx => h.pte x (slots_subset (singleton_subset_iff.mpr hc) hx)⟩⟩

theorem Unmaps.evolves (d : ℕ) (h : Unmaps S D x s s') : Evolves S D X d s s' :=
  ⟨h.wf, fun c hc _ hb i hi => (h.table c hc i hi).trans (hb i hi), fun _ _ _ => .inl h.flushed⟩

theorem Maps.evolves (h : Maps S D x page w s s') : Evolves S D X x.1 s s' :=
  ⟨h.wf, fun c hc hne hb i hi => (h.table c hc hne i hi).trans (hb i hi),
    fun _ _ _ => .inl h.flushed⟩

/-- What one round of a loop preserves, the loop preserves. -/
theorem pageLoop_ind {body : ℕ → τ → Option (Option ℕ × τ)} {P : τ → Prop}
    (hbody : ∀ n s r, P s → body n s = some r → P r.2) {stop n : ℕ} {s : τ} {r : Bool × τ}
    (h : P s) (heq : pageLoop body stop n s = some r) : P r.2 := by
  fun_induction pageLoop body stop n s with
  | case1 n s ih =>
    obtain ⟨⟨next, s'⟩, hround, hrest⟩ := bind_eq_some_iff.mp heq
    have hP := hbody n s _ h hround
    cases next with
    | none =>
      cases hrest
      exact hP
    | some next =>
      dsimp only at hrest
      split at hrest
      · exact ih s' next ‹_› hP hrest
      · cases hrest
        exact hP

variable (hsize : A.size ≤ 2 ^ 19) (hclear : S.clear = 0)

section
variable {r : Option ℕ × Vm σ} (h : s.Wf S D) (hd : d ∈ D) (heq : unmap_range.body A d n s = some r)
include h hd heq

theorem unmap_range_body_inversion : r.2 = s ∨ ∃ t, s.table d (PDX (pageAddr n)) = some t ∧
      page_remove_pte A (t, PTX (pageAddr n)) s = some r.2 := by
  unfold unmap_range.body at heq
  cases ht : s.table d (PDX (pageAddr n)) with
  | none =>
    rw [get_pte_of_no_table A ht] at heq
    cases heq
    exact .inl rfl
  | some t =>
    have hlt := S.owned_lt_size h.inv (h.table d hd _ (PDX_lt _) t ht).1
    rw [get_pte_of_table false ht hlt] at heq
    obtain ⟨s1, hremove, rfl⟩ := Option.map_eq_some_iff.mp heq
    split at hremove
    · exact .inr ⟨t, rfl, hremove⟩
    · cases hremove
      exact .inl rfl

theorem unmap_range_body_evolves : Evolves S D X d s r.2 := by
  rcases unmap_range_body_inversion h hd heq with hsame | ⟨t, ht, hremove⟩
  · rw [hsame]
    exact .refl d h
  · obtain ⟨s', hsome, hun⟩ := page_remove_pte_spec h (slot_mem hd) ht
    cases hsome.symm.trans hremove
    exact hun.evolves d

end

/-- From `s` to `s'` tables have been taken out of the directory `d` and freed, and nothing else
has changed for the other directories and pages. -/
structure Strips (S : runs.Spec A) (D : Finset ℕ) (d : ℕ) (s s' : Vm σ) : Prop where
  wf : s'.Wf S D
  table : ∀ i < 1024, s'.table d i = s.table d i ∨ s'.table d i = none
  other : ∀ c ∈ D, c ≠ d → ∀ i < 1024, s'.table c i = s.table c i
  pte : ∀ x ∈ slots D, x.1 ≠ d → s'.pte x = s.pte x
  sub : S.owned s'.pmm ⊆ S.owned s.pmm
  freed : ∀ p ∈ S.owned s.pmm,
    (p ∉ S.owned s'.pmm ↔ ∃ i < 1024, s.table d i = some p ∧ s'.table d i = none)
  ref : ∀ p ∈ S.owned s'.pmm, A.get s'.pmm p = A.get s.pmm p
  tlb : s'.tlb = s.tlb

namespace Strips

theorem refl (d : ℕ) (h : s.Wf S D) : Strips S D d s s := by
  refine ⟨h, fun _ _ => .inl rfl, fun _ _ _ _ _ => rfl, fun _ _ _ => rfl, subset_rfl,
    fun p hp => ⟨fun hnot => absurd hp hnot, ?_⟩, fun _ _ => rfl, rfl⟩
  rintro ⟨i, -, hsome, hnone⟩
  rw [hsome] at hnone
  cases hnone

theorem evolves (h : Strips S D d s s') : Evolves S D {d} d s s' := by
  refine ⟨h.wf, fun c hc hne hb i hi => (h.other c hc hne i hi).trans (hb i hi),
    fun c hc hX => .inr ⟨h.tlb, fun x hx => ?_⟩⟩
  obtain rfl : x.1 = c := mem_singleton.mp (mem_slots.mp hx).1
  exact h.pte x (slots_subset (singleton_subset_iff.mpr hc) hx) (notMem_singleton.mp hX)

end Strips

theorem exit_range_free_spec (h : s.Wf S D) (hd : d ∈ D) (hi : i < 1024) :
    ∃ s', exit_range.free A d i s = some s' ∧ Strips S D d s s' ∧ s'.table d i = none := by
  unfold exit_range.free
  split
  · rename_i hpres
    set t := PPN (PTE_ADDR (s.mem d i)) with ht
    have htable : s.table d i = some t := if_pos hpres
    obtain ⟨howned, -⟩ := h.table d hd i hi t htable
    obtain ⟨hwf, hdata, hcount⟩ := h.removeTable hd hi htable
    obtain ⟨pmm, hfree, hwf', howned', hget⟩ := hwf.free_page hdata hcount
    change A.free t 1 s.pmm = some pmm at hfree
    change A.get pmm = Function.update (A.get s.pmm) t S.clear at hget
    have hpage : pa2page A.size (PTE_ADDR (s.mem d i)) = some t :=
      if_pos (S.owned_lt_size h.inv howned)
    have htable' : ∀ c j, Vm.table { s.write (d, i) 0#32 with pmm } c j =
        if c = d ∧ j = i then none else s.table c j := fun c j => table_write_dir s d i c j 0#32
    refine ⟨{ s.write (d, i) 0#32 with pmm }, ?_, ⟨hwf', fun j hj => ?_, fun c hc hne j hj => ?_,
      fun x hx hne => ?_, howned' ▸ Set.sdiff_subset, fun p hp => ?_, fun p hp => ?_, rfl⟩, ?_⟩
    · simp only [hpage, free_page, hfree, bind_eq_bind, bind_some, Option.pure_def]
      rfl
    · rw [htable']
      split
      · exact .inr rfl
      · exact .inl rfl
    · rw [htable', if_neg fun heq => hne heq.1]
    · obtain ⟨hxc, hxi, -⟩ := mem_slots.mp hx
      have hkeep := pte_removeTable (i := i) s fun t' ht' heq =>
        (h.table _ hxc _ hxi t' ht').2 (heq ▸ hd)
      rwa [if_neg fun heq => hne heq.1] at hkeep
    · rw [howned']
      constructor
      · intro hnot
        have hpt : p = t := by_contra fun hne => hnot ⟨hp, hne⟩
        exact ⟨i, hi, hpt ▸ htable, by rw [htable', if_pos ⟨rfl, rfl⟩]⟩
      · rintro ⟨j, hj, hsome, hnone⟩ ⟨-, hne⟩
        rw [htable'] at hnone
        split at hnone
        · rename_i hji
          rw [hji.2, htable, some_inj] at hsome
          exact hne hsome.symm
        · rw [hsome] at hnone
          cases hnone
    · rw [howned'] at hp
      rw [hget, Function.update_of_ne hp.2]
    · rw [htable', if_pos ⟨rfl, rfl⟩]
  · rename_i hnot
    exact ⟨s, rfl, .refl d h, frame_eq_none_iff.mpr (by simpa using hnot)⟩

theorem PTE_ADDR_and_PTE_USER (pte : BitVec 32) : PTE_ADDR (pte &&& PTE_USER) = 0#32 := by
  have hmask : PTE_USER &&& ~~~0xfff#32 = 0#32 := by decide
  rw [PTE_ADDR, BitVec.and_assoc, hmask, BitVec.and_zero]

theorem NewPage.memcpy (h : s.Wf S D) (hn : NewPage S D s page pmm) (src : ℕ) :
    (Vm.memcpy { s with pmm } page src).Wf S D ∧
      (∀ d ∈ D, ∀ i, (Vm.memcpy { s with pmm } page src).table d i = s.table d i) ∧
      (∀ x ∈ slots D, (Vm.memcpy { s with pmm } page src).pte x = s.pte x) ∧
      IsData S D (Vm.memcpy { s with pmm } page src) page := by
  have hdata := hn.isData h
  have hmem : ∀ p, ¬ IsData S D { s with pmm } p →
      (Vm.memcpy { s with pmm } page src).mem p = s.mem p := by
    intro p hp
    have hne : p ≠ page := fun heq => hp (heq ▸ hdata)
    simp [Vm.memcpy, hne]
  have hpmm : (Vm.memcpy { s with pmm } page src).pmm = pmm := rfl
  obtain ⟨hwf, htable, hpte⟩ := hn.wf.of_mem hpmm hmem
  exact ⟨hwf, htable, hpte, (isData_congr (fun d hd i _ => htable d hd i) Iff.rfl).mpr hdata⟩

theorem NewPage.memcpy_evolves (h : s.Wf S D) (hn : NewPage S D s page pmm) (d src : ℕ) :
    Evolves S D X d s (Vm.memcpy { s with pmm } page src) := by
  obtain ⟨hwf, htable, hpte, -⟩ := hn.memcpy h src
  refine ⟨hwf, fun c hc _ hb i hi => (htable c hc i).trans (hb i hi), fun c hc _ => .inr ⟨rfl, ?_⟩⟩
  exact fun x hx => hpte x (slots_subset (singleton_subset_iff.mpr hc) hx)

include hsize hclear

theorem copy_range_copy_evolves {ptep : ℕ × ℕ} {r : Option ℕ × Vm σ} (h : s.Wf S D) (hd : d ∈ D)
    (heq : copy_range.copy A d n ptep s = some r) : Evolves S D X d s r.2 := by
  unfold copy_range.copy at heq
  rcases get_pte_cases hsize hclear h hd (pageAddr n) with hnone | ⟨t, s1, hsome, -, he⟩
  · rw [hnone] at heq
    cases heq
    exact .refl d h
  simp only [hsome, bind_eq_bind, bind_some] at heq
  obtain ⟨source, -, heq⟩ := bind_eq_some_iff.mp heq
  rcases he.wf.alloc_page hclear with hnone | ⟨npage, pmm, halloc, hn⟩
  · simp [hnone] at heq
  simp only [halloc, bind_some] at heq
  obtain ⟨hwf, -, -, hdata⟩ := hn.memcpy he.wf source
  have hbefore : Evolves S D X d s _ := he.evolves.trans (hn.memcpy_evolves he.wf d source)
  rcases page_insert_cases hsize hclear hwf hd hdata
    (PTE_ADDR_and_PTE_USER (s1.read ptep)) (pageAddr n) with hfail | ⟨s', hins, hm⟩
  · have hne : ¬ -E_NO_MEM = 0 := by decide
    simp [hfail, hne] at heq
  · simp only [hins, bind_some, guard_true, Option.pure_def, some_inj] at heq
    subst heq
    exact hbefore.trans hm.evolves

theorem copy_range_evolves {start stop : BitVec 32} {ret : ℤ} (h : s.Wf S D) (hd : d ∈ D)
    (hsource : source ∈ D) (heq : copy_range A d source start stop s = some (ret, s')) :
    Evolves S D X d s s' := by
  obtain ⟨r, hloop, heq⟩ := bind_eq_some_iff.mp heq
  cases heq
  obtain ⟨-, -, hloop⟩ := bind_eq_some_iff.mp hloop
  obtain ⟨-, -, hloop⟩ := bind_eq_some_iff.mp hloop
  refine pageLoop_ind (fun n s1 r he hr => he.trans ?_) (.refl d h) hloop
  unfold copy_range.body at hr
  cases ht : s1.table source (PDX (pageAddr n)) with
  | none =>
    rw [get_pte_of_no_table A ht] at hr
    cases hr
    exact .refl d he.wf
  | some t =>
    have hlt := S.owned_lt_size he.wf.inv (he.wf.table source hsource _ (PDX_lt _) t ht).1
    simp only [get_pte_of_table false ht hlt, bind_eq_bind, bind_some] at hr
    split at hr
    · exact copy_range_copy_evolves hsize hclear he.wf hd hr
    · cases hr
      exact .refl d he.wf

end ucore
