import Mips32S.Kernel.Paging.Tables

open Function

namespace ucore

variable {σ : Type} {A : runs.Allocator σ ℤ} {S : runs.Spec A} {D : Finset ℕ} {s s' : Vm σ}
  {d i j t p q : ℕ} {x : ℕ × ℕ × ℕ} {la w : BitVec 32} {pmm : σ}

section
variable (htable : ∀ d ∈ D, ∀ i < 1024, s'.table d i = s.table d i)
include htable

theorem isTable_congr : IsTable D s' t ↔ IsTable D s t := by
  refine exists_congr fun d => and_congr_right fun hd => exists_congr fun i =>
    and_congr_right fun hi => ?_
  rw [htable d hd i hi]

theorem isData_congr (howned : p ∈ S.owned s'.pmm ↔ p ∈ S.owned s.pmm) :
    IsData S D s' p ↔ IsData S D s p :=
  ⟨fun h => ⟨howned.mp h.owned, h.not_dir, fun ht => h.not_table ((isTable_congr htable).mpr ht)⟩,
    fun h => ⟨howned.mpr h.owned, h.not_dir, fun ht => h.not_table ((isTable_congr htable).mp ht)⟩⟩

end

namespace Vm.Wf

variable (h : s.Wf S D)
include h

theorem set_tlb (tlb : mips32s.Isa.TlbUnit) : Vm.Wf S D { s with tlb } :=
  ⟨h.inv, h.dir, h.table, h.inj, fun x hx p hp => ⟨(h.data x hx p hp).1, (h.data x hx p hp).2,
    (h.data x hx p hp).3⟩, h.zero, h.ref⟩

theorem tlb_invalidate_all : s.tlb_invalidate_all.Wf S D := h.set_tlb _

theorem write (hx : (d, i, j) ∈ slots D) (ht : s.table d i = some t)
    (hzero : frame w = none → w = 0#32)
    (hw : ∀ p, frame w = some p → IsData S D s p ∧ count D s p + 1 ≤
      A.get s.pmm p + if frame (s.pte (d, i, j)) = some p then 1 else 0) :
    (s.write (t, j) w).Wf S D := by
  obtain ⟨hd, hi, -⟩ := mem_slots.mp hx
  have htable : ∀ d' ∈ D, ∀ i' < 1024, (s.write (t, j) w).table d' i' = s.table d' i' :=
    fun d' hd' i' _ => h.table_write ⟨d, hd, i, hi, ht⟩ hd'
  have hpte := fun x hx => h.pte_write hd hi ht hx (j := j) (w := w) (x := x)
  have hself : (s.write (t, j) w).pte (d, i, j) = w := by rw [hpte _ hx, if_pos rfl]
  have hdata : ∀ {p}, IsData S D (s.write (t, j) w) p ↔ IsData S D s p :=
    isData_congr htable Iff.rfl
  refine h.of_table h.inv htable ?_ ?_ ?_ ?_
  · rintro q (hq | hq)
    · exact h.dir q hq
    · exact (h.isTable_owned hq).1
  · intro y hy p hp
    rw [hpte y hy] at hp
    rw [hdata]
    split at hp
    · exact (hw p hp).1
    · exact h.data y hy p hp
  · intro y hy hnone
    rw [hpte y hy] at hnone ⊢
    split at hnone
    · rw [if_pos ‹_›]
      exact hzero hnone
    · rw [if_neg ‹_›]
      exact h.zero y hy hnone
  · intro p hp
    have hrest : ∀ y ∈ slots D, y ≠ (d, i, j) → (s.write (t, j) w).pte y = s.pte y :=
      fun y hy hne => by rw [hpte y hy, if_neg hne]
    have hcount := count_update hx hrest p
    have hold := h.ref p hp
    rw [hself] at hcount
    change _ ≤ A.get s.pmm p
    by_cases hn : frame w = some p
    · have hroom := (hw p hn).2
      split_ifs at hcount hroom <;> omega
    · rw [if_neg hn] at hcount
      omega

theorem isData_set_page_ref (r : ℤ) (hp : p ∈ S.owned s.pmm) :
    IsData S D (set_page_ref A p r s) q ↔ IsData S D s q :=
  isData_congr (fun _ _ _ _ => rfl) (by
    rw [set_page_ref, (S.set_owned r h.inv hp).2.1])

theorem set_page_ref {r : ℤ} (hp : p ∈ S.owned s.pmm) (hr : count D s p ≤ r) :
    (set_page_ref A p r s).Wf S D := by
  obtain ⟨hinv, howned, hget⟩ := S.set_owned r h.inv hp
  have hdata : ∀ {q}, IsData S D (ucore.set_page_ref A p r s) q ↔ IsData S D s q :=
    h.isData_set_page_ref r hp
  refine h.of_table hinv (fun _ _ _ _ => rfl) ?_ (fun x hx q hq => hdata.mpr (h.data x hx q hq))
    h.zero ?_
  · rintro q (hq | hq)
    · exact howned ▸ h.dir q hq
    · exact howned ▸ (h.isTable_owned hq).1
  · intro q hq
    change (count D s q : ℤ) ≤ A.get (A.set p r s.pmm) q
    rw [hget]
    by_cases hqp : q = p
    · subst hqp
      rwa [update_self]
    · rw [update_of_ne hqp]
      exact h.ref q (howned ▸ hq)

theorem count_eq_zero (hp : ¬ IsData S D s p) : count D s p = 0 :=
  count_eq_zero_iff.mpr fun x hx hpx => hp (h.data x hx p hpx)

theorem grow (hclear : S.clear = 0) (hg : S.Grows s.pmm pmm) : Vm.Wf S D { s with pmm } := by
  have hsub := hg.keeps
  refine h.of_table hg.inv (fun _ _ _ _ => rfl) ?_ ?_ h.zero ?_
  · rintro q (hq | hq)
    · exact (hsub q (h.dir q hq)).1
    · exact (hsub q (h.isTable_owned hq).1).1
  · intro x hx q hq
    obtain ⟨howned, hdir, htable⟩ := h.data x hx q hq
    exact ⟨(hsub q howned).1, hdir, htable⟩
  · intro q hq
    by_cases howned : q ∈ S.owned s.pmm
    · rw [(hsub q howned).2]
      exact h.ref q howned
    · have hzero := h.count_eq_zero fun hdata => howned hdata.owned
      change ((count D s q : ℕ) : ℤ) ≤ _
      rw [hzero]
      exact (hg.new q hq howned).trans hclear |>.ge

theorem shrink {F : Set ℕ} (hs : S.Shrinks F s.pmm pmm)
    (hF : ∀ q ∈ F, IsData S D s q ∧ count D s q = 0) : Vm.Wf S D { s with pmm } := by
  have hfreed := fun q hq hnot => hF q (hs.freed q hq hnot)
  refine h.of_table hs.inv (fun _ _ _ _ => rfl) ?_ ?_ h.zero ?_
  · rintro q (hq | hq)
    · by_contra hnot
      exact (hfreed q (h.dir q hq) hnot).1.not_dir hq
    · by_contra hnot
      exact (hfreed q (h.isTable_owned hq).1 hnot).1.not_table hq
  · intro x hx q hq
    obtain ⟨howned, hdir, htable⟩ := h.data x hx q hq
    refine ⟨?_, hdir, htable⟩
    by_contra hnot
    exact count_eq_zero_iff.mp (hfreed q howned hnot).2 x hx hq
  · intro q hq
    obtain ⟨howned, hget⟩ := hs.sub q hq
    rw [hget]
    exact h.ref q howned

theorem free_page (hp : IsData S D s p) (hcount : count D s p = 0) :
    ∃ pmm, A.free p 1 s.pmm = some pmm ∧ Vm.Wf S D { s with pmm } ∧
      S.owned pmm = S.owned s.pmm \ {p} ∧ A.get pmm = update (A.get s.pmm) p S.clear := by
  obtain ⟨pmm, heq, hinv, howned, hget⟩ := S.free_one h.inv hp.owned
  have hs : S.Shrinks {p} s.pmm pmm := by
    refine ⟨hinv, fun q hq => ?_, fun q hq hnot => ?_⟩
    · rw [howned] at hq
      rw [hget, update_of_ne hq.2]
      exact ⟨hq.1, rfl⟩
    · by_contra hne
      exact hnot (howned ▸ ⟨hq, hne⟩)
  refine ⟨pmm, heq, h.shrink hs fun q hq => ?_, howned, hget⟩
  obtain rfl : q = p := hq
  exact ⟨hp, hcount⟩

end Vm.Wf

/-- The allocator in the state `pmm` has, besides the pages of `s`, allocated the page `p`. -/
structure NewPage (S : runs.Spec A) (D : Finset ℕ) (s : Vm σ) (p : ℕ) (pmm : σ) : Prop where
  wf : Vm.Wf S D { s with pmm }
  owned : S.owned pmm = insert p (S.owned s.pmm)
  fresh : p ∉ S.owned s.pmm
  ref : A.get pmm = A.get s.pmm
  ref_page : A.get pmm p = 0

namespace NewPage

variable {pmm : σ} (h : s.Wf S D) (hn : NewPage S D s p pmm)
include h hn

theorem isData : IsData S D { s with pmm } p :=
  ⟨hn.owned ▸ Set.mem_insert p _, fun hD => hn.fresh (h.dir p hD),
    fun hT => hn.fresh (h.isTable_owned hT).1⟩

theorem count_eq_zero : count D { s with pmm } p = 0 := by
  have hzero : count D s p = 0 := h.count_eq_zero fun hs => hn.fresh hs.owned
  exact hzero

end NewPage

namespace Vm.Wf

theorem alloc_page (h : s.Wf S D) (hclear : S.clear = 0) : alloc_page A s = some (none, s) ∨
    ∃ p pmm, alloc_page A s = some (some p, { s with pmm }) ∧ NewPage S D s p pmm := by
  rcases S.alloc_run h.inv Nat.one_pos S.limit_pos with hnone | ⟨p, pmm, heq, hinv, howned, hget, hnew⟩
  · exact .inl (by simp [ucore.alloc_page, hnone])
  rw [Nat.Ico_succ_singleton] at howned hnew
  obtain ⟨hfresh, hzero⟩ := hnew p (Finset.mem_singleton_self p)
  have hins : S.owned pmm = insert p (S.owned s.pmm) := by
    rw [howned, Finset.coe_singleton, Set.union_singleton]
  have hg := S.alloc_grows h.inv Nat.one_pos S.limit_pos heq
  exact .inr ⟨p, pmm, by simp [ucore.alloc_page, heq], h.grow hclear hg, hins, hfresh, hget,
    by rw [hget, hzero, hclear]⟩

theorem of_mem (h : s.Wf S D) (hpmm : s'.pmm = s.pmm)
    (hmem : ∀ p, ¬ IsData S D s p → s'.mem p = s.mem p) :
    s'.Wf S D ∧ (∀ d ∈ D, ∀ i, s'.table d i = s.table d i) ∧
      ∀ x ∈ slots D, s'.pte x = s.pte x := by
  have htable : ∀ d ∈ D, ∀ i, s'.table d i = s.table d i := by
    intro d hd i
    rw [Vm.table, hmem d fun hdata => hdata.not_dir hd, Vm.table]
  have hpte : ∀ x ∈ slots D, s'.pte x = s.pte x := by
    intro x hx
    obtain ⟨hd, hi, -⟩ := mem_slots.mp hx
    unfold Vm.pte
    rw [htable _ hd]
    cases ht : s.table x.1 x.2.1 with
    | none => rfl
    | some t =>
      have hnot : ¬ IsData S D s t := fun hdata => hdata.not_table ⟨_, hd, _, hi, ht⟩
      simp only [hmem t hnot]
  have hdata : ∀ {p}, IsData S D s' p ↔ IsData S D s p :=
    isData_congr (fun d hd i _ => htable d hd i) (by rw [hpmm])
  refine ⟨h.of_table (hpmm ▸ h.inv) (fun d hd i _ => htable d hd i) ?_ ?_ ?_ ?_, htable, hpte⟩
  · rintro q (hq | hq)
    · exact hpmm ▸ h.dir q hq
    · exact hpmm ▸ (h.isTable_owned hq).1
  · intro x hx p hp
    rw [hpte x hx] at hp
    exact hdata.mpr (h.data x hx p hp)
  · intro x hx hnone
    rw [hpte x hx] at hnone ⊢
    exact h.zero x hx hnone
  · intro p hp
    rw [count_congr hpte, hpmm]
    exact h.ref p (hpmm ▸ hp)

end Vm.Wf

end ucore
