import Mips32S.Kernel.Paging.Tables

open mips32s.Isa Function BitVec

namespace ucore

variable {σ : Type} {s s' s'' : Vm σ} {c t : ℕ} {u : TlbUnit} {la va w : BitVec 32} {j k : Fin 16}

/-- A page of a TLB entry says what a page table entry says. -/
structure Agrees (page : mips32s.Isa.Page) (pte : BitVec 32) : Prop where
  v : page.v = ptep_present pte
  d : page.d = (ptep_present pte && ptep_s_write pte)
  pfn : ptep_present pte → page.pfn.toNat = PPN (PTE_ADDR pte)

/-- The TLB agrees with the directory `c`: no two entries match the same user address, and
what matches one says what the page table entry says. -/
structure Coherent (c : ℕ) (s : Vm σ) : Prop where
  agrees : ∀ j va, va < USERTOP → (s.tlb.tlb j).Matches va →
    Agrees ((s.tlb.tlb j).page va) (s.pte (slot c va))
  unique : ∀ j k va, va < USERTOP → (s.tlb.tlb j).Matches va → (s.tlb.tlb k).Matches va → j = k

theorem userEntry_of_matches {e : TlbEntry} (hva : va < USERTOP) (h : e.Matches va) :
    UserEntry e := by
  have hlt : va.toNat < 2 ^ 31 := hva
  rw [UserEntry, h]
  simp only [getLsbD_extractLsb', Nat.reduceAdd, Nat.reduceLT, decide_true, Bool.true_and]
  exact Nat.testBit_lt_two_pow hlt

theorem Flushed.not_matches (h : Flushed u) (hva : va < USERTOP) : ¬ (u.tlb j).Matches va :=
  fun hm => h j (userEntry_of_matches hva hm)

theorem Flushed.coherent (h : Flushed s.tlb) (c : ℕ) : Coherent c s where
  agrees _ _ hva hm := absurd hm (h.not_matches hva)
  unique _ _ _ hva hm _ := absurd hm (h.not_matches hva)

/-- From `s` to `s'` the TLB has been flushed, or neither it nor the mappings of `c` have
changed. -/
def Calm (c : ℕ) (s s' : Vm σ) : Prop :=
  Flushed s'.tlb ∨ s'.tlb = s.tlb ∧ ∀ x ∈ slots {c}, s'.pte x = s.pte x

theorem Calm.refl (c : ℕ) (s : Vm σ) : Calm c s s := .inr ⟨rfl, fun _ _ => rfl⟩

theorem Calm.trans (h : Calm c s s') (h' : Calm c s' s'') : Calm c s s'' := by
  rcases h' with hfl | ⟨htlb', hpte'⟩
  · exact .inl hfl
  rcases h with hfl | ⟨htlb, hpte⟩
  · exact .inl (htlb' ▸ hfl)
  · exact .inr ⟨htlb'.trans htlb, fun x hx => (hpte' x hx).trans (hpte x hx)⟩

theorem Coherent.calm (h : Coherent c s) (hc : Calm c s s') : Coherent c s' := by
  rcases hc with hfl | ⟨htlb, hpte⟩
  · exact hfl.coherent c
  refine ⟨fun j va hva hm => ?_, ?_⟩
  · rw [htlb] at hm ⊢
    rw [hpte _ (slot_mem (Finset.mem_singleton_self c))]
    exact h.agrees j va hva hm
  · rw [htlb]
    exact h.unique

theorem ofEntryLo_zero : mips32s.Isa.Page.ofEntryLo 0#32 = ⟨0#20, false, false⟩ := by decide

theorem toNat_pfn {f low : BitVec 32} (hf : f.toNat < 2 ^ 20) (hlow : low.toNat < 2 ^ 6) :
    (mips32s.Isa.Page.ofEntryLo (f <<< 6 ||| low)).pfn.toNat = f.toNat := by
  simp only [mips32s.Isa.Page.ofEntryLo, extractLsb'_toNat, toNat_or,
    toNat_shiftLeft, Nat.shiftRight_or_distrib]
  rw [Nat.shiftRight_eq_div_pow low.toNat, Nat.div_eq_of_lt hlow, Nat.or_zero, Nat.shiftLeft_eq,
    Nat.shiftRight_eq_div_pow]
  omega

theorem agrees_pte2tlblow (pte : BitVec 32) :
    Agrees (mips32s.Isa.Page.ofEntryLo (pte2tlblow pte)) pte := by
  by_cases hp : ptep_present pte
  · have hlow : pte2tlblow pte = (pte - KERNBASE) >>> 12 <<< 6 |||
        if ptep_s_write pte then 0x1f#32 else 0x1b#32 := by
      rw [pte2tlblow, if_pos hp]
      by_cases hw : ptep_s_write pte
      · rw [if_pos hw, if_pos hw, BitVec.or_assoc, BitVec.or_assoc, BitVec.or_assoc]
        rfl
      · rw [if_neg hw, if_neg hw, BitVec.or_assoc, BitVec.or_assoc, BitVec.or_assoc]
        rfl
    rw [hlow]
    refine ⟨?_, ?_, ?_⟩
    · rw [hp]
      by_cases hw : ptep_s_write pte <;> simp [mips32s.Isa.Page.ofEntryLo, hw]
    · rw [hp]
      by_cases hw : ptep_s_write pte <;> simp [mips32s.Isa.Page.ofEntryLo, hw]
    · intro _
      have hf : ((pte - KERNBASE) >>> 12).toNat < 2 ^ 20 := by
        have hlt := (pte - KERNBASE).isLt
        rw [toNat_ushiftRight, Nat.shiftRight_eq_div_pow]
        omega
      rw [toNat_pfn hf (by split <;> decide), PPN_PTE_ADDR, PPN]
  · rw [pte2tlblow, if_neg hp, ofEntryLo_zero]
    rw [Bool.not_eq_true] at hp
    exact ⟨hp.symm, by simp [hp], fun h => by simp [hp] at h⟩

/-- The index of the first entry of the page pair of an address. -/
def pairIndex (badaddr : BitVec 32) : ℕ :=
  if badaddr.getLsbD 12 then PTX badaddr - 1 else PTX badaddr

section
variable {va' : BitVec 32} (h : va'.extractLsb' 13 19 = va.extractLsb' 13 19)
include h

theorem PDX_of_extract : PDX va' = PDX va := by
  have hnat := congrArg BitVec.toNat h
  have hlt := va.isLt
  have hlt' := va'.isLt
  simp only [extractLsb'_toNat, Nat.shiftRight_eq_div_pow] at hnat
  rw [PDX_eq, PDX_eq]
  omega

theorem PTX_of_extract : PTX va' = if va'.getLsbD 12 then pairIndex va + 1 else pairIndex va := by
  have hnat := congrArg BitVec.toNat h
  have hlt := va.isLt
  have hlt' := va'.isLt
  have hbit : ∀ a : BitVec 32, a.getLsbD 12 = true ↔ a.toNat / 2 ^ 12 % 2 = 1 := fun a => by
    rw [getLsbD, Nat.testBit_eq_decide_div_mod_eq, decide_eq_true_eq]
  simp only [extractLsb'_toNat, Nat.shiftRight_eq_div_pow] at hnat
  simp only [pairIndex, PTX_eq, hbit]
  split <;> split <;> omega

end

theorem extract_hi (badaddr : BitVec 32) :
    (badaddr &&& THUMIPS_TLB_ENTRYH_VPN2_MASK).extractLsb' 13 19 = badaddr.extractLsb' 13 19 := by
  have hmask : THUMIPS_TLB_ENTRYH_VPN2_MASK.extractLsb' 13 19 = allOnes 19 := by decide
  rw [extractLsb'_and, hmask, and_allOnes]

theorem tlb_refill_tlb (random : BitVec 4) (badaddr : BitVec 32) (t : ℕ) (s : Vm σ) :
    (tlb_refill random badaddr (t, PTX badaddr) s).tlb.tlb =
      update s.tlb.tlb random.toFin ⟨badaddr.extractLsb' 13 19,
        .ofEntryLo (pte2tlblow (s.mem t (pairIndex badaddr + 1))),
        .ofEntryLo (pte2tlblow (s.mem t (pairIndex badaddr)))⟩ := by
  have hbit : badaddr &&& 1#32 <<< 12 ≠ 0#32 ↔ badaddr.getLsbD 12 = true := by
    have hpow : (1#32 <<< 12) = twoPow 32 12 := rfl
    have hne : twoPow 32 12 ≠ 0#32 := by decide
    rw [hpow, and_twoPow]
    split_ifs with hget
    · exact iff_of_true hne hget
    · exact iff_of_false (by simp) hget
  unfold tlb_refill
  simp only [hbit, pairIndex, Vm.read]
  split <;> rw [tlb_replace_random_tlb, extract_hi]

/-- A refill, for an address without a valid page in the TLB, from the entries of its pair of
pages of which its own is present. -/
theorem Coherent.refill (h : Coherent c s) (random : BitVec 4)
    (hmiss : (lookup s.tlb.tlb va).any mips32s.Isa.Page.v = false)
    (ht : s.table c (PDX va) = some t) (hpres : ptep_present (s.mem t (PTX va))) :
    Coherent c (tlb_refill random va (t, PTX va) s) := by
  -- no entry matches the address: it would agree with the present entry and be valid
  have hnone : va < USERTOP → ∀ k, ¬ (s.tlb.tlb k).Matches va := by
    intro hva k hk
    cases hprobe : probe s.tlb.tlb va with
    | none => exact probe_eq_none_iff.mp hprobe k hk
    | some j =>
      have hagree := (h.agrees j va hva (probe_eq_some_iff.mp hprobe).1).v
      have hpte : s.pte (slot c va) = s.mem t (PTX va) := pte_of_table ht
      rw [hpte, hpres] at hagree
      simp [lookup, hprobe, hagree] at hmiss
  have huser : ∀ {va'}, va' < USERTOP → va.extractLsb' 13 19 = va'.extractLsb' 13 19 →
      va < USERTOP := by
    intro va' hva' heq
    have hnat := congrArg BitVec.toNat heq
    have htop : USERTOP.toNat = 2 ^ 31 := rfl
    simp only [extractLsb'_toNat, Nat.shiftRight_eq_div_pow] at hnat
    rw [lt_def] at hva' ⊢
    have hlt := va.isLt
    omega
  -- what else matches an address of the pair matches `va`
  have hother : ∀ {va' k}, va' < USERTOP → va.extractLsb' 13 19 = va'.extractLsb' 13 19 →
      ¬ (s.tlb.tlb k).Matches va' := by
    intro va' k hva' heq hk
    exact hnone (huser hva' heq) k (hk.trans heq.symm)
  have htlb := tlb_refill_tlb random va t s
  refine ⟨fun j va' hva' hm => ?_, fun j k va' hva' hj hk => ?_⟩
  · rw [htlb] at hm ⊢
    by_cases hjr : j = random.toFin
    · subst hjr
      rw [update_self] at hm ⊢
      have hext : va'.extractLsb' 13 19 = va.extractLsb' 13 19 := Eq.symm hm
      have hpte : s.pte (slot c va') = s.mem t (PTX va') := pte_of_table (PDX_of_extract hext ▸ ht)
      change Agrees _ (s.pte (slot c va'))
      rw [hpte, PTX_of_extract hext, TlbEntry.page]
      split <;> exact agrees_pte2tlblow _
    · rw [update_of_ne hjr] at hm ⊢
      exact h.agrees j va' hva' hm
  · rw [htlb] at hj hk
    by_cases hjr : j = random.toFin <;> by_cases hkr : k = random.toFin
    · exact hjr.trans hkr.symm
    · rw [hjr, update_self] at hj
      rw [update_of_ne hkr] at hk
      exact absurd hk (hother hva' hj)
    · rw [hkr, update_self] at hk
      rw [update_of_ne hjr] at hj
      exact absurd hj (hother hva' hk)
    · rw [update_of_ne hjr] at hj
      rw [update_of_ne hkr] at hk
      exact h.unique j k va' hva' hj hk

end ucore
