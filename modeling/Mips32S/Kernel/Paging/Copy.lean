import Mips32S.Kernel.Paging.Contents

open BitVec
open Option (bind_eq_bind bind_some pure_def some_inj)

namespace ucore

variable {σ : Type} {A : runs.Allocator σ ℤ} {S : runs.Spec A} {U : S.Supply} {D : Finset ℕ}
  {s s' s'' s1 : Vm σ} {target source n t p q m d : ℕ}

section
variable {start stop : BitVec 32}

theorem toNat_pageAddr (hn : n < 2 ^ 20) : (pageAddr n).toNat = n * 4096 := by
  rw [pageAddr, toNat_ofNat]
  exact Nat.mod_eq_of_lt (by change n * 4096 < _; omega)

theorem PDX_pageAddr (hn : n < 2 ^ 20) : PDX (pageAddr n) = n / 1024 := by
  rw [PDX_eq, toNat_pageAddr hn]
  omega

theorem PTX_pageAddr (hn : n < 2 ^ 20) : PTX (pageAddr n) = n % 1024 := by
  rw [PTX_eq, toNat_pageAddr hn]
  omega

theorem slot_pageAddr (d : ℕ) (hn : n < 2 ^ 20) :
    slot d (pageAddr n) = (d, n / 1024, n % 1024) := by
  rw [slot, PDX_pageAddr hn, PTX_pageAddr hn]

theorem slot_pageAddr_inj (hn : n < 2 ^ 20) (hm : m < 2 ^ 20)
    (heq : slot d (pageAddr n) = slot d (pageAddr m)) : n = m := by
  rw [slot_pageAddr d hn, slot_pageAddr d hm, Prod.mk.injEq, Prod.mk.injEq] at heq
  omega

theorem slot_eq (d : ℕ) (va : BitVec 32) : slot d va = slot d (pageAddr (va.toNat / PGSIZE)) := by
  have hva := va.isLt
  have hn : va.toNat / PGSIZE < 2 ^ 20 := by
    change va.toNat / 4096 < _
    omega
  rw [slot_pageAddr d hn, slot, PDX_eq, PTX_eq]
  change (d, va.toNat / 2 ^ 22, va.toNat / 4096 % 1024) = (d, va.toNat / 4096 / 1024, _)
  rw [Nat.div_div_eq_div_mul]
  rfl

theorem pages_of_user (hstart : start.toNat % PGSIZE = 0) (hstop : stop.toNat % PGSIZE = 0)
    (huser : USER_ACCESS start stop) :
    start.toNat / PGSIZE < stop.toNat / PGSIZE ∧ stop.toNat / PGSIZE ≤ 2 ^ 20 := by
  obtain ⟨-, hlt, htop⟩ := huser
  have hlt : start.toNat < stop.toNat := hlt
  have hstop' := stop.isLt
  change start.toNat % 4096 = 0 at hstart
  change stop.toNat % 4096 = 0 at hstop
  change start.toNat / 4096 < stop.toNat / 4096 ∧ stop.toNat / 4096 ≤ _
  omega

end

/-- In `s'` the directory `target` maps at `n` a page of its own with the contents and the user
bits of the page that `source` maps there in `s`. -/
def IsCopy (D : Finset ℕ) (target source n : ℕ) (s s' : Vm σ) : Prop :=
  ∃ p q, frame (s.pte (slot source (pageAddr n))) = some p ∧
    frame (s'.pte (slot target (pageAddr n))) = some q ∧
    s'.pte (slot target (pageAddr n)) &&& PTE_USER =
      s.pte (slot source (pageAddr n)) &&& PTE_USER ∧
    s'.mem q = s.mem p ∧
    ∀ x ∈ slots D, frame (s'.pte x) = some q → x = slot target (pageAddr n)

/-- From `s` to `s'` the pages `R` have been copied to `target`, and nothing else has changed for
any directory. -/
structure CopiesPages (S : runs.Spec A) (D : Finset ℕ) (target source : ℕ) (R : Set ℕ)
    (s s' : Vm σ) : Prop where
  wf : s'.Wf S D
  lt : ∀ n ∈ R, n < 2 ^ 20
  table : ∀ c ∈ D, c ≠ target → ∀ i < 1024, s'.table c i = s.table c i
  kept : ∀ i < 1024, ∀ t, s.table target i = some t → s'.table target i = some t
  made : ∀ i < 1024, s'.table target i ≠ none → s.table target i ≠ none ∨ ∃ n ∈ R, n / 1024 = i
  pte : ∀ x ∈ slots D, (∀ n ∈ R, x ≠ slot target (pageAddr n)) → s'.pte x = s.pte x ∧
    ∀ p, frame (s.pte x) = some p → s'.mem p = s.mem p
  copy : ∀ n ∈ R, IsCopy D target source n s s'

namespace CopiesPages

variable {R R' : Set ℕ}

theorem refl (target source : ℕ) (h : s.Wf S D) : CopiesPages S D target source ∅ s s :=
  ⟨h, by simp, fun _ _ _ _ _ => rfl, fun _ _ _ ht => ht, fun _ _ ht => .inl ht,
    fun _ _ _ => ⟨rfl, fun _ _ => rfl⟩, by simp⟩

theorem source_eq (h : CopiesPages S D target source R s s') (hsource : source ∈ D)
    (hne : source ≠ target) (la : BitVec 32) :
    s'.pte (slot source la) = s.pte (slot source la) ∧
      ∀ p, frame (s.pte (slot source la)) = some p → s'.mem p = s.mem p :=
  h.pte _ (slot_mem hsource) fun _ _ heq => hne (congrArg Prod.fst heq)

theorem trans (h : CopiesPages S D target source R s s')
    (h' : CopiesPages S D target source R' s' s'') (htarget : target ∈ D) (hsource : source ∈ D)
    (hne : source ≠ target) (hdisj : ∀ n ∈ R, n ∉ R') :
    CopiesPages S D target source (R ∪ R') s s'' := by
  refine ⟨h'.wf, fun n hn => hn.elim (h.lt n) (h'.lt n), fun c hc hct i hi => ?_,
    fun i hi t ht => h'.kept i hi t (h.kept i hi t ht), fun i hi ht => ?_, fun x hx hout => ?_,
    fun n hn => ?_⟩
  · rw [h'.table c hc hct i hi, h.table c hc hct i hi]
  · rcases h'.made i hi ht with hold | ⟨n, hn, hni⟩
    · rcases h.made i hi hold with hold | ⟨n, hn, hni⟩
      · exact .inl hold
      · exact .inr ⟨n, .inl hn, hni⟩
    · exact .inr ⟨n, .inr hn, hni⟩
  · obtain ⟨hpte, hmem⟩ := h.pte x hx fun n hn => hout n (.inl hn)
    obtain ⟨hpte', hmem'⟩ := h'.pte x hx fun n hn => hout n (.inr hn)
    refine ⟨hpte'.trans hpte, fun p hp => ?_⟩
    rw [hmem' p (hpte ▸ hp), hmem p hp]
  rcases hn with hn | hn
  · -- the later copies do not touch this one
    obtain ⟨p, q, hp, hq, hbits, hcopy, hown⟩ := h.copy n hn
    have hother : ∀ m ∈ R', slot target (pageAddr n) ≠ slot target (pageAddr m) := fun m hm heq =>
      hdisj n hn (slot_pageAddr_inj (h.lt n hn) (h'.lt m hm) heq ▸ hm)
    obtain ⟨hpte, hmem⟩ := h'.pte _ (slot_mem htarget) hother
    refine ⟨p, q, hp, by rw [hpte, hq], by rw [hpte, hbits], by rw [hmem q hq, hcopy],
      fun x hx hxq => ?_⟩
    by_cases hxR : ∃ m ∈ R', x = slot target (pageAddr m)
    · obtain ⟨m, hm, rfl⟩ := hxR
      obtain ⟨p', q', -, hq', -, -, hown'⟩ := h'.copy m hm
      cases hxq.symm.trans hq'
      exact (hown' _ (slot_mem htarget) (by rw [hpte, hq])).symm
    · rw [(h'.pte x hx fun m hm heq => hxR ⟨m, hm, heq⟩).1] at hxq
      exact hown x hx hxq
  · obtain ⟨p, q, hp, hq, hbits, hcopy, hown⟩ := h'.copy n hn
    obtain ⟨hpte, hmem⟩ := h.source_eq hsource hne (pageAddr n)
    rw [hpte] at hp hbits
    exact ⟨p, q, hp, hq, hbits, hcopy.trans (hmem p hp), hown⟩

end CopiesPages

theorem and_PTE_USER_of_present {e : BitVec 32} (q : ℕ) (he : ptep_present e) :
    (page2pa q ||| PTE_P ||| (e &&& PTE_USER)) &&& PTE_USER = e &&& PTE_USER := by
  have hbit : e &&& PTE_P = PTE_P := by
    have hpow : PTE_P = twoPow 32 0 := rfl
    rw [ptep_present, bne_iff_ne, hpow, and_twoPow] at he
    rw [hpow, and_twoPow]
    split_ifs at he ⊢
    · rfl
    · exact absurd rfl he
  calc (page2pa q ||| PTE_P ||| (e &&& PTE_USER)) &&& PTE_USER
      = (PTE_P ||| (e &&& PTE_USER)) &&& PTE_USER := by
        rw [BitVec.or_assoc, page2pa_or_and q _ rfl]
    _ = PTE_P ||| (e &&& PTE_USER) := by
        rw [and_or_distrib_right, BitVec.and_assoc, BitVec.and_self]
        rfl
    _ = (e &&& PTE_P) ||| (e &&& PTE_USER) := by rw [hbit]
    _ = e &&& (PTE_P ||| PTE_USER) := and_or_distrib_left.symm
    _ = e &&& PTE_USER := rfl

variable (hsize : A.size ≤ 2 ^ 19) (hclear : S.clear = 0)
include hsize hclear

/-- The steps on a page that is present: the entry of the target is found or its table made, a
page is allocated, filled and inserted. -/
theorem copies_of_insert {pmm : σ} {r : Option (ℕ × ℕ)} {ret : ℤ} (h : s.Wf S D)
    (htarget : target ∈ D) (hsource : source ∈ D) (hlt : n < 2 ^ 20)
    (hp : frame (s.pte (slot source (pageAddr n))) = some p)
    (hget : get_pte A target (pageAddr n) true s = some (r, s1)) (he : Extends S D target s s1)
    (ht : s1.table target (PDX (pageAddr n)) = some t) (hn : NewPage S D s1 q pmm)
    (hins : page_insert A target q (pageAddr n) (s.pte (slot source (pageAddr n)) &&& PTE_USER)
      (Vm.memcpy { s1 with pmm } q p) = some (ret, s'))
    (hm : Maps S D (slot target (pageAddr n)) q
      (page2pa q ||| PTE_P ||| (s.pte (slot source (pageAddr n)) &&& PTE_USER))
      (Vm.memcpy { s1 with pmm } q p) s') :
    CopiesPages S D target source {n} s s' := by
  obtain ⟨hwf, htable, hpte, -⟩ := hn.memcpy he.wf p
  set s2 := Vm.memcpy { s1 with pmm } q p with hs2
  have hmem2 : ∀ p' ≠ q, s2.mem p' = s1.mem p' := fun p' hne => by simp [hs2, Vm.memcpy, hne]
  have ht2 : s2.table target (PDX (pageAddr n)) = some t := (htable target htarget _).trans ht
  obtain ⟨htowned, htD⟩ := he.wf.table target htarget _ (PDX_lt _) t ht
  have hsmall := S.owned_lt_size he.wf.inv htowned
  have hmem' : ∀ p' ≠ t, s'.mem p' = s2.mem p' := fun p' hne =>
    page_insert_mem_of_table (get_pte_of_table true ht2 hsmall) hne hins
  have hself : ∀ i, s'.table target i = s1.table target i := fun i => by
    rw [Vm.table, hmem' target fun heq => htD (heq ▸ htarget)]
    exact htable target htarget i
  have hdata : ∀ p', IsData S D s p' → s1.mem p' = s.mem p' ∧ p' ≠ q ∧ p' ≠ t := by
    intro p' hp'
    have hp1 := (he.data p').mpr hp'
    exact ⟨get_pte_mem hsize hclear h htarget hp' hget, fun heq => hn.fresh (heq ▸ hp1.owned),
      fun heq => hp1.not_table (heq ▸ ⟨target, htarget, _, PDX_lt _, ht⟩)⟩
  have hpte' : ∀ x ∈ slots D, x ≠ slot target (pageAddr n) → s'.pte x = s.pte x := by
    intro x hx hne
    rw [hm.pte x hx hne, hpte x hx, he.pte x hx]
  refine ⟨hm.wf, fun m hm => hm ▸ hlt, fun c hc hne i hi => ?_, fun i hi t' ht' => ?_,
    fun i hi ht' => ?_, fun x hx hout => ⟨hpte' x hx (hout n rfl), fun p' hp' => ?_⟩, ?_⟩
  · rw [hm.table c hc hne i hi, htable c hc, he.table c hc hne]
  · rw [hself]
    exact get_pte_kept hsize hclear h htarget ht' hget
  · by_cases hin : n / 1024 = i
    · exact .inr ⟨n, rfl, hin⟩
    · have htouch := get_pte_touches hsize hclear 0#32 h htarget hget
      rw [hself, htouch.table target htarget i hi fun heq =>
        hin ((PDX_pageAddr hlt).symm.trans heq.2.symm)] at ht'
      exact .inl ht'
  · obtain ⟨hkeep, hq, ht'⟩ := hdata p' (h.data x hx p' hp')
    rw [hmem' p' ht', hmem2 p' hq, hkeep]
  rintro m rfl
  refine ⟨p, q, hp, by rw [hm.pte_self, hm.frame_eq], ?_, ?_, fun x hx hxq => ?_⟩
  · rw [hm.pte_self]
    exact and_PTE_USER_of_present q (ptep_present_of_frame hp)
  · have hnew : q ≠ t := fun heq => hn.fresh (heq ▸ htowned)
    obtain ⟨hkeep, -, -⟩ := hdata p (h.data _ (slot_mem hsource) p hp)
    rw [hmem' q hnew]
    simp [hs2, Vm.memcpy, hkeep]
  · by_contra hne
    rw [hpte' x hx hne] at hxq
    exact hn.fresh (he.owned (h.data x hx q hxq).owned)

omit hsize hclear in
theorem Extends.read_source (h : s.Wf S D) (he : Extends S D target s s1) (hsource : source ∈ D)
    (hne : source ≠ target) (ht : s.table source (PDX (pageAddr n)) = some t)
    (hp : frame (s.pte (slot source (pageAddr n))) = some p) :
    s1.read (t, PTX (pageAddr n)) = s.pte (slot source (pageAddr n)) ∧
      pte2page A.size (s.pte (slot source (pageAddr n))) = some p := by
  have hx : slot source (pageAddr n) ∈ slots D := slot_mem hsource
  have ht1 : s1.table source (PDX (pageAddr n)) = some t := (he.table source hsource hne _).trans ht
  exact ⟨(pte_of_table ht1).symm.trans (he.pte _ hx),
    pte2page_of_frame hp (S.owned_lt_size h.inv (h.data _ hx p hp).owned)⟩

variable (h : s.Wf S D) (htarget : target ∈ D) (hsource : source ∈ D) (hne : source ≠ target)
include h htarget hsource hne

theorem copy_range_copy_spec {r : Option ℕ} (hlt : n < 2 ^ 20)
    (ht : s.table source (PDX (pageAddr n)) = some t)
    (hp : frame (s.pte (slot source (pageAddr n))) = some p)
    (heq : copy_range.copy A target n (t, PTX (pageAddr n)) s = some (r, s')) :
    r = none ∧ s' = s ∨ r = some (n + 1) ∧ CopiesPages S D target source {n} s s' := by
  unfold copy_range.copy at heq
  rcases get_pte_cases hsize hclear h htarget (pageAddr n) with hnone | ⟨t', s1, hsome, ht', he⟩
  · rw [hnone] at heq
    cases heq
    exact .inl ⟨rfl, rfl⟩
  obtain ⟨hread, hpage⟩ := he.read_source h hsource hne ht hp
  simp only [hsome, bind_eq_bind, bind_some, hread, hpage] at heq
  rcases he.wf.alloc_page hclear with hnone | ⟨q, pmm, halloc, hn⟩
  · simp [hnone] at heq
  simp only [halloc, bind_some] at heq
  obtain ⟨hwf, -, -, hdata⟩ := hn.memcpy he.wf p
  rcases page_insert_cases hsize hclear hwf htarget hdata
    (PTE_ADDR_and_PTE_USER (s.pte (slot source (pageAddr n)))) (pageAddr n)
    with hfail | ⟨s'', hins, hm⟩
  · have hnz : ¬ -E_NO_MEM = 0 := by decide
    simp [hfail, hnz] at heq
  · simp only [hins, bind_some, guard_true, pure_def, some_inj, Prod.mk.injEq] at heq
    obtain ⟨rfl, rfl⟩ := heq
    exact .inr ⟨rfl, copies_of_insert hsize hclear h htarget hsource hlt hp hsome he ht' hn hins hm⟩

theorem copy_range_copy_supply (ht : s.table source (PDX (pageAddr n)) = some t)
    (hp : frame (s.pte (slot source (pageAddr n))) = some p)
    (hroom : (if s.table target (PDX (pageAddr n)) = none then 1 else 0) + 1 ≤ U.avail s.pmm) :
    ∃ s', copy_range.copy A target n (t, PTX (pageAddr n)) s = some (some (n + 1), s') ∧
      U.avail s.pmm ≤
        U.avail s'.pmm + (if s.table target (PDX (pageAddr n)) = none then 1 else 0) + 1 := by
  have hroom' : s.table target (PDX (pageAddr n)) = none → 0 < U.avail s.pmm := fun hnone => by
    rw [if_pos hnone] at hroom
    omega
  obtain ⟨t', s1, hget, ht', he, havail⟩ := get_pte_supply hsize hclear h htarget hroom'
  obtain ⟨q', pmm', halloc', havail'⟩ := U.alloc he.wf.inv (by omega)
  rcases he.wf.alloc_page hclear with hnone | ⟨q, pmm, halloc, hn⟩
  · simp [alloc_page, halloc'] at hnone
  have hsame : pmm' = pmm := by
    simp only [alloc_page, halloc', bind_eq_bind, bind_some, pure_def,
      some_inj, Prod.mk.injEq, Vm.mk.injEq, and_true] at halloc
    exact halloc.2
  subst hsame
  obtain ⟨hread, hpage⟩ := he.read_source h hsource hne ht hp
  obtain ⟨hwf, htable, -, hdata⟩ := hn.memcpy he.wf p
  obtain ⟨s', hins, -, havail''⟩ := page_insert_supply (U := U) hsize hclear hwf htarget hdata
    (PTE_ADDR_and_PTE_USER (s.pte (slot source (pageAddr n))))
    ((htable target htarget _).trans ht')
  refine ⟨s', ?_, ?_⟩
  · simp [copy_range.copy, hget, hread, hpage, halloc, hins]
  · change U.avail pmm' ≤ _ at havail''
    omega

end ucore
