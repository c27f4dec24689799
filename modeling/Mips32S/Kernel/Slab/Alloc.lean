import Mips32S.Kernel.Slab.Invariant

open freelist Function Option List

namespace ucore.Heap

variable {σ δ : Type} {A : runs.Allocator σ δ} {S : runs.Spec A} {C : ℕ → kmem_cache}
  {free free0 : ℕ → List ℕ} {page : ℕ → ℕ} {L L' : Set (ℕ × ℕ)} {h h' h1 : Heap σ}
  {i j a b o x n fuel p num : ℕ} {l rest : List ℕ} {pmm : σ}
  {alloc : ℕ → Heap σ → Option (Option ℕ × Heap σ)}

section
variable (hC : Caches C) (hinv : h.Inv S C free page L)
include hC hinv

theorem Inv.not_end (ha : a ∈ h.slabs i) : BUFCTL_END ∉ free a := fun hmem => by
  have hlt := (hinv.slab i a ha).bound _ hmem
  have hle := (hC.num i (hinv.cache i a ha)).2
  omega

theorem Inv.alloc_one_changes (ha : a ∈ h.slabs_notfull i) (hfree : free a = x :: rest) :
    (kmem_cache_alloc_one C i a h).1 = h.object C i a x ∧ ∃ y, Refills C i a rest h y ∧
      Changes free a rest y h (kmem_cache_alloc_one C i a h).2 := by
  have hmem : a ∈ h.slabs i := mem_slabs.mpr (.inl ha)
  have hs := hinv.slab i a hmem
  have hnodup := hs.nodup
  have hchain := hs.chain
  have hbound := hs.bound
  have hinuse := hs.inuse
  have hend := hinv.not_end hC hmem
  rw [hfree] at hnodup hchain hbound hinuse hend
  obtain ⟨hstart, hrest⟩ := hchain
  have hlast := hrest.eq_last_iff fun hmem' => hend (mem_cons_of_mem x hmem')
  have hfull : ∀ j, ∀ a' ∈ h.slabs_full j, update free a rest a' = [] := fun j a' ha' => by
    rcases eq_or_ne a' a with rfl | hne
    · cases hfree.symm.trans (hinv.full j a' ha')
    · rw [update_of_ne hne]
      exact hinv.full j a' ha'
  set y : slab_t := { h.slab a with
    inuse := (h.slab a).inuse + 1, free := (h.slab a).bufctl (h.slab a).free } with hy
  have hrefills : Refills C i a rest h y := by
    refine ⟨rfl, rfl, ?_, hnodup.of_cons, fun z hz => hbound z (mem_cons_of_mem x hz), ?_⟩
    · rwa [hy, hstart]
    · rw [length_cons] at hinuse
      simp only [hy]
      omega
  have hobject : (h.slab a).s_mem + (h.slab a).free * (C i).objsize = h.object C i a x := by
    rw [hstart, object]
  set h1 := h.modifySlab a fun x => { x with inuse := x.inuse + 1, free := x.bufctl x.free }
  unfold kmem_cache_alloc_one
  dsimp only
  split
  · rename_i hbufctl
    have hnil : rest = [] := hlast.mp (hstart ▸ hbufctl)
    obtain ⟨⟨hmem', hnodup'⟩, hnotfull', hfull'⟩ := move_full hinv.nodup hmem
    refine ⟨hobject, y, hrefills, rfl, rfl, rfl, rfl, rfl, hmem', hnodup', fun j a' ha' => ?_,
      fun j a' ha' => ?_⟩
    · obtain ⟨hold, hnot⟩ := hnotfull' j a' ha'
      have hne : a' ≠ a := by
        rintro rfl
        exact hnot ⟨hinv.slab_unique (mem_slabs.mpr (.inl hold)) hmem, rfl⟩
      rw [update_of_ne hne]
      exact hinv.notfull j a' hold
    · rcases hfull' j a' ha' with hold | rfl
      · exact hfull j a' hold
      · rw [update_self, hnil]
  · rename_i hbufctl
    have hne : rest ≠ [] := fun hnil => hbufctl (hstart ▸ hlast.mpr hnil)
    refine ⟨hobject, y, hrefills, rfl, rfl, rfl, rfl, rfl, fun _ _ => Iff.rfl, hinv.nodup,
      fun j a' ha' => ?_, hfull⟩
    rcases eq_or_ne a' a with rfl | hne'
    · rwa [update_self]
    · rw [update_of_ne hne']
      exact hinv.notfull j a' ha'

theorem Inv.alloc_one (ha : a ∈ h.slabs_notfull i) :
    ∃ o h' rest, kmem_cache_alloc_one C i a h = (o, h') ∧
      h'.Inv S C (update free a rest) page L ∧ (∀ j, ¬h.Taken C free j o) ∧
      (∀ j o', h'.Taken C (update free a rest) j o' ↔ h.Taken C free j o' ∨ j = i ∧ o' = o) ∧
      (∀ o', h'.Mgmt C o' ↔ h.Mgmt C o') ∧ rest.length < (C i).num ∧
      (∀ j a', a' ∈ h'.slabs j ↔ a' ∈ h.slabs j) := by
  have hmem : a ∈ h.slabs i := mem_slabs.mpr (.inl ha)
  have hs := hinv.slab i a hmem
  obtain ⟨x, rest, hfree⟩ := exists_cons_of_ne_nil (hinv.notfull i a ha)
  have hx : x < (C i).num := hs.bound x (hfree ▸ mem_cons_self)
  have hnodup := hs.nodup
  rw [hfree, nodup_cons] at hnodup
  obtain ⟨hobject, y, hy, hch⟩ := hinv.alloc_one_changes hC ha hfree
  set h' := (kmem_cache_alloc_one C i a h).2
  have htaken : ∀ j o', h'.Taken C (update free a rest) j o' ↔
      h.Taken C free j o' ∨ j = i ∧ o' = h.object C i a x := by
    intro j o'
    rw [hch.taken_iff hy]
    constructor
    · rintro ⟨a', z, ha', hz, hout, rfl⟩
      rcases eq_or_ne a' a with rfl | hne
      · obtain rfl := hinv.slab_unique hmem ha'
        rw [update_self] at hout
        by_cases hzx : z = x
        · exact .inr ⟨rfl, by rw [hzx]⟩
        · refine .inl ⟨a', z, ha', hz, ?_, rfl⟩
          rw [hfree, mem_cons, not_or]
          exact ⟨hzx, hout⟩
      · rw [update_of_ne hne] at hout
        exact .inl ⟨a', z, ha', hz, hout, rfl⟩
    · rintro (⟨a', z, ha', hz, hout, rfl⟩ | ⟨rfl, rfl⟩)
      · refine ⟨a', z, ha', hz, ?_, rfl⟩
        rcases eq_or_ne a' a with rfl | hne
        · rw [update_self]
          rw [hfree] at hout
          exact fun hin => hout (mem_cons_of_mem x hin)
        · rwa [update_of_ne hne]
      · refine ⟨a, x, hmem, hx, ?_, rfl⟩
        rw [update_self]
        exact hnodup.1
  refine ⟨h.object C i a x, h', rest, Prod.ext hobject rfl, ?_, ?_, htaken, fun o' => hch.mgmt_iff,
    ?_, hch.mem⟩
  · exact hch.inv hy hinv hmem fun j a' ha' hoff =>
      (htaken _ _).mpr (.inl (hinv.mgmt j a' ha' hoff))
  · rintro j ⟨a', z, ha', hz, hout, heq⟩
    obtain ⟨-, rfl, rfl⟩ := hinv.object_unique hC hmem ha' hx hz heq
    exact hout (hfree ▸ mem_cons_self)
  · have hinuse := hs.inuse
    rw [hfree, length_cons] at hinuse
    omega

end

section
variable (hinv : h.Inv S C free page L)
include hinv

theorem Inv.with_pmm (hpmm : S.Inv pmm)
    (hlive : S.live pmm = L' ∪ {r | ∃ i a, a ∈ h.slabs i ∧ r = (page a, 2 ^ (C i).page_order)})
    (hothers : ∀ i a, a ∈ h.slabs i → (page a, 2 ^ (C i).page_order) ∉ L') :
    Inv S C free page L' { h with pmm } := by
  refine ⟨hpmm, hinv.cache, fun i a ha => ?_, hinv.nodup, hinv.notfull, hinv.full, hlive,
    hothers, hinv.mgmt⟩
  have hs := hinv.slab i a ha
  exact ⟨hs.offset, hs.s_mem, hs.pages, hs.home, hs.chain, hs.nodup, hs.bound, hs.inuse⟩

theorem Inv.with_run (hn : 0 < n) (hpmm : S.Inv pmm)
    (hlive : S.live pmm = insert (b, n) (S.live h.pmm))
    (hdisj : ∀ q m, (q, m) ∈ S.live h.pmm →
      Disjoint (Finset.Ico b (b + n)) (Finset.Ico q (q + m))) :
    Inv S C free page (insert (b, n) L) { h with pmm } ∧ (b, n) ∉ L := by
  have hnew : (b, n) ∉ S.live h.pmm := fun hmem => by
    have hb : b ∈ Finset.Ico b (b + n) := Finset.mem_Ico.mpr ⟨le_refl b, by omega⟩
    exact Finset.disjoint_left.mp (hdisj b n hmem) hb hb
  refine ⟨hinv.with_pmm hpmm ?_ fun i a ha hmem => ?_, fun hmem => hnew ?_⟩
  · rw [hlive, hinv.live, Set.insert_union]
  · rcases Set.mem_insert_iff.mp hmem with heq | hold
    · refine hnew ?_
      rw [← heq, hinv.live]
      exact .inr ⟨i, a, ha, rfl⟩
    · exact hinv.others i a ha hold
  · rw [hinv.live]
    exact .inl hmem

theorem Inv.other_pages (ha : a ∈ h.slabs i) (hrun : (b, n) ∈ L) (hlo : page a ≤ p)
    (hhi : p < page a + 2 ^ (C i).page_order) : ¬(b ≤ p ∧ p < b + n) := by
  rintro ⟨hblo, hbhi⟩
  have hslab : (page a, 2 ^ (C i).page_order) ∈ S.live h.pmm := by
    rw [hinv.live]
    exact .inr ⟨i, a, ha, rfl⟩
  have hother : (b, n) ∈ S.live h.pmm := by
    rw [hinv.live]
    exact .inl hrun
  obtain ⟨hpage, hlen⟩ := S.disjoint hinv.pmm hslab hother (Finset.mem_Ico.mpr ⟨hlo, hhi⟩)
    (Finset.mem_Ico.mpr ⟨hblo, hbhi⟩)
  refine hinv.others i a ha ?_
  rwa [hpage, hlen]

end

theorem Inv.page_not_slab (hC : Caches C) (hinv : h.Inv S C free page L) (hrun : (b, n) ∈ L)
    (hn : 0 < n) : page2kva b ∉ h.slabs j := by
  intro ha
  have hpage : kva2page (page2kva b) = b := Nat.mul_div_cancel b (by decide)
  cases hoff : (C j).off_slab with
  | false =>
    have hhome := congrArg kva2page ((hinv.slab j _ ha).home hoff)
    rw [hpage, page2kva, kva2page, Nat.mul_div_cancel _ (by decide)] at hhome
    exact hinv.other_pages ha hrun (le_of_eq hhome.symm)
      (hhome ▸ Nat.lt_add_of_pos_right (Nat.two_pow_pos _)) ⟨le_refl b, by omega⟩
  | true =>
    obtain ⟨a', x, ha', hx, -, heq⟩ := hinv.mgmt j _ ha hoff
    obtain ⟨hlo, hhi⟩ := (hinv.slab _ a' ha').object_page hC (hinv.cache _ a' ha') hx
    rw [← heq, hpage] at hlo hhi
    exact hinv.other_pages ha' hrun hlo hhi ⟨le_refl b, by omega⟩

theorem Inv.without_run (hinv : h.Inv S C free page (insert (b, n) L)) (hb : (b, n) ∉ L)
    (hpmm : S.Inv pmm) (hlive : S.live pmm = S.live h.pmm \ {(b, n)}) :
    Inv S C free page L { h with pmm } := by
  refine hinv.with_pmm hpmm ?_ fun i a ha hmem =>
    hinv.others i a ha (Set.mem_insert_of_mem _ hmem)
  rw [hlive, hinv.live]
  ext r
  constructor
  · rintro ⟨hr | hr, hne⟩
    · exact .inl (hr.resolve_left hne)
    · exact .inr hr
  · rintro (hr | ⟨i, a, ha, rfl⟩)
    · exact ⟨.inl (.inr hr), fun heq => hb (heq ▸ hr)⟩
    · exact ⟨.inr ⟨i, a, ha, rfl⟩, fun heq => hinv.others i a ha (.inl heq)⟩

theorem Inv.without_part {r : ℕ × ℕ} (hinv : h.Inv S C free page L) (hr : r ∈ L) (hlo : r.1 ≤ p)
    (hhi : p + n ≤ r.1 + r.2) (hpmm : S.Inv pmm)
    (hlive : S.live pmm = runs.without r p n ∪ S.live h.pmm \ {r}) :
    Inv S C free page (runs.without r p n ∪ L \ {r}) { h with pmm } := by
  refine hinv.with_pmm hpmm ?_ fun i a ha hmem => ?_
  · rw [hlive, hinv.live, Set.union_assoc]
    congr 1
    ext x
    constructor
    · rintro ⟨hx | hx, hne⟩
      · exact .inl ⟨hx, hne⟩
      · exact .inr hx
    · rintro (⟨hx, hne⟩ | ⟨i, a, ha, rfl⟩)
      · exact ⟨.inl hx, hne⟩
      · exact ⟨.inr ⟨i, a, ha, rfl⟩, fun heq => hinv.others i a ha (heq ▸ hr)⟩
  · rcases hmem with ⟨hpart, hpos⟩ | ⟨hmem, -⟩
    · -- what is left of the run is no slab, because the run was none
      have hnot := hinv.other_pages ha hr (le_refl (page a)) (by omega)
      rw [Prod.mk.injEq, Prod.mk.injEq] at hpart
      omega
    · exact hinv.others i a ha hmem

theorem Inv.modify_outside {f : slab_t → slab_t} (hinv : h.Inv S C free page L)
    (hnew : ∀ j, a ∉ h.slabs j) :
    (h.modifySlab a f).Inv S C free page L ∧
      ∀ j o, (h.modifySlab a f).Taken C free j o ↔ h.Taken C free j o := by
  have hsame : ∀ {j a'}, a' ∈ h.slabs j → (h.modifySlab a f).slab a' = h.slab a' := fun ha' =>
    update_of_ne (fun heq => hnew _ (heq ▸ ha')) _ _
  have htaken : ∀ j o, (h.modifySlab a f).Taken C free j o ↔ h.Taken C free j o := by
    intro j o
    constructor
    · rintro ⟨a', x, ha', hx, hout, heq⟩
      refine ⟨a', x, ha', hx, hout, ?_⟩
      rwa [object, hsame ha'] at heq
    · rintro ⟨a', x, ha', hx, hout, heq⟩
      refine ⟨a', x, ha', hx, hout, ?_⟩
      rwa [object, hsame ha']
  refine ⟨⟨hinv.pmm, hinv.cache, fun j a' ha' => ?_, hinv.nodup, hinv.notfull, hinv.full, hinv.live,
    hinv.others, fun j a' ha' hoff => (htaken _ _).mpr (hinv.mgmt j a' ha' hoff)⟩, htaken⟩
  have hs := hinv.slab j a' ha'
  have heq := hsame ha'
  exact ⟨heq ▸ hs.offset, heq ▸ hs.s_mem, hs.pages, hs.home, heq ▸ hs.chain, hs.nodup, hs.bound,
    heq ▸ hs.inuse⟩

theorem new_bufctl_chain (bufctl : ℕ → ℕ) (hnum : 0 < num) :
    Chain (new_bufctl num bufctl) BUFCTL_END 0 (range num) := by
  refine Chain.range (fun i hi => ?_) ?_ hnum
  · rw [new_bufctl, if_neg (by omega), if_pos (by omega)]
  · rw [new_bufctl, if_pos rfl]

/-- The state with the new slab at `a`. -/
def withSlab (C : ℕ → kmem_cache) (i a b : ℕ) (h : Heap σ) : Heap σ :=
  ((h.set_pages i a b (1 <<< (C i).page_order)).modifySlab a fun x => { x with
    bufctl := new_bufctl (C i).num x.bufctl
    free := 0 }).add_notfull i a

theorem withSlab_slabs : (∀ j a', a' ∈ (h.withSlab C i a b).slabs j ↔
    a' ∈ h.slabs j ∨ j = i ∧ a' = a) ∧
    (h.withSlab C i a b).slabs_notfull i = a :: h.slabs_notfull i := by
  refine ⟨fun j a' => ?_, update_self _ _ _⟩
  rcases eq_or_ne j i with rfl | hj
  · rw [withSlab, add_notfull_slabs]
    simp [or_comm, slabs, set_pages, modifySlab]
  · simp [withSlab, add_notfull, set_pages, modifySlab, slabs, hj]

theorem Inv.withSlab (hC : Caches C) (hi : i < SLAB_CACHE_NUM)
    (hinv : h.Inv S C free page (insert (b, 2 ^ (C i).page_order) L))
    (hb : (b, 2 ^ (C i).page_order) ∉ L) (hnew : ∀ j, a ∉ h.slabs j)
    (hhome : (C i).off_slab = false → a = page2kva b)
    (hoff : (C i).off_slab = true → h.Taken C free (C i).slab_cachep a)
    (hinuse : (h.slab a).inuse = 0) (hoffset : (h.slab a).offset = (C i).offset)
    (hmem : (h.slab a).s_mem = page2kva b + (C i).offset) :
    (h.withSlab C i a b).Inv S C (update free a (range (C i).num)) (update page a b) L ∧
      ∀ j o, (h.withSlab C i a b).Taken C (update free a (range (C i).num)) j o ↔
        h.Taken C free j o := by
  obtain ⟨hslabs, hnotfull⟩ := withSlab_slabs
  have hne : ∀ {j a'}, a' ∈ h.slabs j → a' ≠ a := fun ha' heq => hnew _ (heq ▸ ha')
  have hother : ∀ a' ≠ a, (h.withSlab C i a b).slab a' = h.slab a' := fun a' hne =>
    update_of_ne hne _ _
  have hself : (h.withSlab C i a b).slab a = { h.slab a with
      bufctl := new_bufctl (C i).num (h.slab a).bufctl, free := 0 } := update_self _ _ _
  have hobject : ∀ {j a' x}, a' ∈ h.slabs j →
      (h.withSlab C i a b).object C j a' x = h.object C j a' x := fun ha' => by
    rw [object, hother _ (hne ha'), object]
  have htaken : ∀ j o, (h.withSlab C i a b).Taken C (update free a (range (C i).num))
      j o ↔ h.Taken C free j o := by
    intro j o
    constructor
    · rintro ⟨a', x, ha', hx, hout, heq⟩
      rcases (hslabs j a').mp ha' with hold | ⟨rfl, rfl⟩
      · rw [update_of_ne (hne hold)] at hout
        exact ⟨a', x, hold, hx, hout, heq.trans (hobject hold)⟩
      · rw [update_self] at hout
        exact absurd (mem_range.mpr hx) hout
    · rintro ⟨a', x, ha', hx, hout, heq⟩
      refine ⟨a', x, (hslabs j a').mpr (.inl ha'), hx, ?_, heq.trans (hobject ha').symm⟩
      rwa [update_of_ne (hne ha')]
  have hlists : ∀ j ≠ i, (h.withSlab C i a b).slabs_notfull j = h.slabs_notfull j := fun j hj =>
    update_of_ne hj _ _
  have hnodup : ∀ j, ((h.withSlab C i a b).slabs j).Nodup := fun j => by
    rcases eq_or_ne j i with rfl | hj
    · rw [Heap.withSlab, add_notfull_slabs]
      exact nodup_cons.mpr ⟨hnew j, hinv.nodup j⟩
    · rw [slabs, hlists j hj]
      exact hinv.nodup j
  refine ⟨⟨hinv.pmm, fun j a' ha' => ?_, fun j a' ha' => ?_, hnodup, fun j a' ha' => ?_,
    fun j a' ha' => ?_, ?_, fun j a' ha' => ?_, fun j a' ha' hoff' => (htaken _ _).mpr ?_⟩, htaken⟩
  · rcases (hslabs j a').mp ha' with hold | ⟨rfl, -⟩
    · exact hinv.cache j a' hold
    · exact hi
  · rcases (hslabs j a').mp ha' with hold | ⟨rfl, rfl⟩
    · have hs := hinv.slab j a' hold
      have heq := hother a' (hne hold)
      rw [update_of_ne (hne hold), update_of_ne (hne hold)]
      refine ⟨heq ▸ hs.offset, heq ▸ hs.s_mem, fun p hlo hhi => ?_, hs.home, heq ▸ hs.chain,
        hs.nodup, hs.bound, heq ▸ hs.inuse⟩
      have hnot := hinv.other_pages hold (Set.mem_insert _ _) hlo hhi
      rw [← Nat.one_shiftLeft] at hnot
      simpa only [Heap.withSlab, add_notfull, modifySlab, set_pages, if_neg hnot]
        using hs.pages p hlo hhi
    · rw [update_self, update_self]
      refine ⟨hself ▸ hoffset, hself ▸ hmem, fun p hlo hhi => ?_, hhome, hself ▸ ?_,
        nodup_range, fun x hx => mem_range.mp hx, ?_⟩
      · rw [← Nat.one_shiftLeft] at hhi
        simp only [Heap.withSlab, add_notfull, modifySlab, set_pages, if_pos (And.intro hlo hhi),
          and_self]
      · exact new_bufctl_chain _ (hC.num j hi).1
      · rw [hself, length_range, hinuse, Nat.zero_add]
  · rcases eq_or_ne j i with rfl | hj
    · rw [hnotfull] at ha'
      rcases mem_cons.mp ha' with rfl | hold
      · rw [update_self]
        exact ne_nil_of_mem (mem_range.mpr (hC.num j hi).1)
      · rw [update_of_ne (hne (mem_slabs.mpr (.inl hold)))]
        exact hinv.notfull j a' hold
    · rw [hlists j hj] at ha'
      rw [update_of_ne (hne (mem_slabs.mpr (.inl ha')))]
      exact hinv.notfull j a' ha'
  · rw [update_of_ne (hne (mem_slabs.mpr (.inr ha')))]
    exact hinv.full j a' ha'
  · refine hinv.live.trans (Set.ext fun r => ⟨?_, ?_⟩)
    · rintro (hr | ⟨j, a', ha', rfl⟩)
      · rcases Set.mem_insert_iff.mp hr with rfl | hr'
        · exact .inr ⟨i, a, (hslabs i a).mpr (.inr ⟨rfl, rfl⟩), by rw [update_self]⟩
        · exact .inl hr'
      · exact .inr ⟨j, a', (hslabs j a').mpr (.inl ha'), by rw [update_of_ne (hne ha')]⟩
    · rintro (hr | ⟨j, a', ha', rfl⟩)
      · exact .inl (Set.mem_insert_of_mem _ hr)
      · rcases (hslabs j a').mp ha' with hold | ⟨rfl, rfl⟩
        · rw [update_of_ne (hne hold)]
          exact .inr ⟨j, a', hold, rfl⟩
        · rw [update_self]
          exact .inl (Set.mem_insert _ _)
  · rcases (hslabs j a').mp ha' with hold | ⟨rfl, rfl⟩
    · rw [update_of_ne (hne hold)]
      exact fun hmem' => hinv.others j a' hold (Set.mem_insert_of_mem _ hmem')
    · rwa [update_self]
  · rcases (hslabs j a').mp ha' with hold | ⟨rfl, rfl⟩
    · exact hinv.mgmt j a' hold hoff'
    · exact hoff hoff'

/-- What an allocation in the cache `i` does: it fails and changes nothing that is in use, or an
object that was not in use is now. -/
def AllocSpec (S : runs.Spec A) (C : ℕ → kmem_cache) (free : ℕ → List ℕ) (L : Set (ℕ × ℕ))
    (h : Heap σ) (i : ℕ) (r : Option (Option ℕ × Heap σ)) : Prop :=
  ∃ objp h' free' page', r = some (objp, h') ∧ h'.Inv S C free' page' L ∧ h'.Busy C free' ∧
    (∀ o ∈ objp, ∀ j, ¬h.Live C free j o) ∧
    ∀ j o, h'.Live C free' j o ↔ h.Live C free j o ∨ j = i ∧ objp = some o

/-- What `kmem_cache_grow` does: it fails, or a new slab is the first one with free objects. -/
def GrowSpec (S : runs.Spec A) (C : ℕ → kmem_cache) (free : ℕ → List ℕ) (L : Set (ℕ × ℕ))
    (h : Heap σ) (i : ℕ) (r : Option (Bool × Heap σ)) : Prop :=
  ∃ grown h' free' page', r = some (grown, h') ∧ h'.Inv S C free' page' L ∧
    (∀ j o, h'.Live C free' j o ↔ h.Live C free j o) ∧
    if grown then ∃ a l, h'.slabs_notfull i = a :: l ∧
      ∀ j, ∀ a' ∈ h'.slabs j, a' ≠ a → (free' a').length < (C j).num
    else h'.Busy C free'

theorem Inv.not_mgmt (hinv : h.Inv S C free page L) (hnot : ∀ j, ¬h.Taken C free j o) :
    ¬h.Mgmt C o := fun ⟨j, hoff, hmem⟩ => hnot _ (hinv.mgmt j o hmem hoff)

variable (hC : Caches C)
include hC

theorem Inv.take_spec (hinv : h.Inv S C free page L) (hlist : h.slabs_notfull i = a :: l)
    (hbusy : ∀ j, ∀ a' ∈ h.slabs j, a' ≠ a → (free a').length < (C j).num) :
    AllocSpec S C free L h i (kmem_cache_alloc A C fuel i h) := by
  have ha : a ∈ h.slabs_notfull i := hlist ▸ mem_cons_self
  obtain ⟨o, h', rest, heq, hinv', hnot, htaken, hmgmt, hrest, hslabs⟩ := hinv.alloc_one hC ha
  refine ⟨some o, h', _, page, ?_, hinv', fun j a' ha' => ?_, fun o' ho' j hlive => ?_,
    fun j o' => ?_⟩
  · unfold kmem_cache_alloc
    rw [hlist]
    simp only [heq]
  · have hold := (hslabs j a').mp ha'
    rcases eq_or_ne a' a with rfl | hne
    · obtain rfl := hinv.slab_unique hold (mem_slabs.mpr (.inl ha))
      rwa [update_self]
    · rw [update_of_ne hne]
      exact hbusy j a' hold hne
  · cases ho'
    exact hnot j hlive.1
  · have hfresh := hinv.not_mgmt hnot
    rw [Live, Live, htaken, hmgmt, some_inj]
    constructor
    · rintro ⟨hold | ⟨rfl, rfl⟩, hm⟩
      · exact .inl ⟨hold, hm⟩
      · exact .inr ⟨rfl, rfl⟩
    · rintro (⟨hold, hm⟩ | ⟨rfl, rfl⟩)
      · exact ⟨.inl hold, hm⟩
      · exact ⟨.inr ⟨rfl, rfl⟩, hfresh⟩

theorem alloc_of_grow (hlist : h.slabs_notfull i = [])
    (hgrow : GrowSpec S C free L h i (kmem_cache_grow A C (kmem_cache_alloc A C fuel) i h)) :
    AllocSpec S C free L h i (kmem_cache_alloc A C (fuel + 1) i h) := by
  obtain ⟨grown, h1, free1, page1, heq, hinv, hlive, hcase⟩ := hgrow
  have hstep : kmem_cache_alloc A C (fuel + 1) i h =
      if grown then kmem_cache_alloc A C fuel i h1 else some (none, h1) := by
    conv_lhs => unfold kmem_cache_alloc
    simp only [hlist, heq, bind_eq_bind, bind_some, Option.pure_def]
  rw [hstep]
  cases grown with
  | true =>
    obtain ⟨a, l, hfirst, hbusy⟩ := hcase
    have htake : AllocSpec S C free1 L h1 i (kmem_cache_alloc A C fuel i h1) :=
      hinv.take_spec hC hfirst hbusy
    obtain ⟨objp, h', free', page', hres, hinv', hbusy', hnot, hiff⟩ := htake
    refine ⟨objp, h', free', page', hres, hinv', hbusy', fun o ho j => ?_, fun j o => ?_⟩
    · rw [← hlive]
      exact hnot o ho j
    · rw [hiff, hlive]
  | false =>
    exact ⟨none, h1, free1, page1, rfl, hinv, hcase, nofun, fun j o => by simp [hlive]⟩

theorem Inv.make_slab (hi : i < SLAB_CACHE_NUM)
    (hinv : h1.Inv S C free page (insert (b, 2 ^ (C i).page_order) L)) (hbusy : h1.Busy C free)
    (hb : (b, 2 ^ (C i).page_order) ∉ L) (hnew : ∀ j, a ∉ h1.slabs j)
    (hhome : (C i).off_slab = false → a = page2kva b)
    (hoff : (C i).off_slab = true → h1.Taken C free (C i).slab_cachep a)
    (hlive : ∀ j o, h1.Live C free j o ∧ ¬((C i).off_slab = true ∧ o = a) ↔ h.Live C free0 j o) :
    GrowSpec S C free0 L h i (some (true, (h1.modifySlab a fun x => { x with
      inuse := 0
      offset := (C i).offset
      s_mem := page2kva b + (C i).offset }).withSlab C i a b)) := by
  set h2 := h1.modifySlab a fun x => { x with
    inuse := 0
    offset := (C i).offset
    s_mem := page2kva b + (C i).offset }
  obtain ⟨hinv2, htaken2⟩ : h2.Inv S C free page (insert (b, 2 ^ (C i).page_order) L) ∧
      ∀ j o, h2.Taken C free j o ↔ h1.Taken C free j o := hinv.modify_outside hnew
  have hself : h2.slab a = { h1.slab a with
      inuse := 0, offset := (C i).offset, s_mem := page2kva b + (C i).offset } :=
    update_self _ _ _
  obtain ⟨hinv', htaken⟩ := hinv2.withSlab hC hi hb hnew hhome
    (fun hoff' => (htaken2 _ _).mpr (hoff hoff')) (by rw [hself]) (by rw [hself]) (by rw [hself])
  obtain ⟨hslabs, hnotfull⟩ := withSlab_slabs
  have hmgmt : ∀ o, (h2.withSlab C i a b).Mgmt C o ↔
      h1.Mgmt C o ∨ (C i).off_slab = true ∧ o = a := by
    intro o
    constructor
    · rintro ⟨j, hoff', ho⟩
      rcases (hslabs j o).mp ho with hold | ⟨rfl, rfl⟩
      · exact .inl ⟨j, hoff', hold⟩
      · exact .inr ⟨hoff', rfl⟩
    · rintro (⟨j, hoff', ho⟩ | ⟨hoff', rfl⟩)
      · exact ⟨j, hoff', (hslabs j o).mpr (.inl ho)⟩
      · exact ⟨i, hoff', (hslabs i o).mpr (.inr ⟨rfl, rfl⟩)⟩
  refine ⟨true, _, _, _, rfl, hinv', fun j o => ?_, a, _, hnotfull, fun j a' ha' hne => ?_⟩
  · rw [← hlive, Live, Live, htaken, htaken2, hmgmt, not_or, and_assoc]
  · rw [update_of_ne hne]
    rcases (hslabs j a').mp ha' with hold | ⟨-, heq⟩
    · exact hbusy j a' hold
    · exact absurd heq hne

variable (hlimit : 32 ≤ S.limit)
include hlimit

theorem Inv.grow_cases (alloc : ℕ → Heap σ → Option (Option ℕ × Heap σ))
    (hinv : h.Inv S C free page L) (hbusy : h.Busy C free) (hi : i < SLAB_CACHE_NUM) :
    GrowSpec S C free L h i (kmem_cache_grow A C alloc i h) ∨
    ∃ b pmm, A.alloc (1 <<< (C i).page_order) h.pmm = some (some b, pmm) ∧
      (b, 2 ^ (C i).page_order) ∉ L ∧
      Inv S C free page (insert (b, 2 ^ (C i).page_order) L) { h with pmm } := by
  have hle : 2 ^ (C i).page_order ≤ 2 ^ 5 := Nat.pow_le_pow_right (by decide) (hC.order i hi)
  unfold kmem_cache_grow
  rw [Nat.one_shiftLeft]
  rcases S.alloc_cases _ hinv.pmm (Nat.two_pow_pos _) (hle.trans hlimit) with
    hnone | ⟨b, pmm, heq, hpmm, hlive, hdisj, -, -⟩
  · simp only [hnone, bind_eq_bind, bind_some, Option.pure_def]
    exact .inl ⟨false, h, free, page, rfl, hinv, fun _ _ => Iff.rfl, hbusy⟩
  · obtain ⟨hinv', hb⟩ := hinv.with_run (Nat.two_pow_pos _) hpmm hlive hdisj
    exact .inr ⟨b, pmm, heq, hb, hinv'⟩

variable (hinv : h.Inv S C free page L) (hbusy : h.Busy C free) (hi : i < SLAB_CACHE_NUM)
include hinv hbusy hi

theorem Inv.grow_inside (hoff : (C i).off_slab = false) :
    GrowSpec S C free L h i (kmem_cache_grow A C alloc i h) := by
  rcases hinv.grow_cases hC hlimit alloc hbusy hi with hspec | ⟨b, pmm, heq, hb, hinv1⟩
  · exact hspec
  · simp only [kmem_cache_grow, heq, kmem_cache_slabmgmt, hoff, bind_eq_bind, bind_some,
      Option.pure_def, Bool.false_eq_true, if_false]
    refine hinv1.make_slab hC hi hbusy hb (fun j => ?_) (fun _ => rfl) (fun htrue => ?_)
      fun j o => ?_
    · exact hinv1.page_not_slab hC (Set.mem_insert _ _) (Nat.two_pow_pos _)
    · cases hoff.symm.trans htrue
    · simp only [hoff, Bool.false_eq_true, false_and, not_false_eq_true, and_true]
      exact Iff.rfl

theorem Inv.grow_outside (hoff : (C i).off_slab = true)
    (halloc : ∀ {h : Heap σ} {L}, h.Inv S C free page L → h.Busy C free →
      AllocSpec S C free L h (C i).slab_cachep (alloc (C i).slab_cachep h)) :
    GrowSpec S C free L h i (kmem_cache_grow A C alloc i h) := by
  rcases hinv.grow_cases hC hlimit alloc hbusy hi with hspec | ⟨b, pmm, heq, hb, hinv1⟩
  · exact hspec
  unfold kmem_cache_grow
  obtain ⟨objp, h2, free2, page2, hres, hinv2, hbusy2, hnot, hiff⟩ := halloc hinv1 hbusy
  cases objp with
  | none =>
    have hrun : (b, 2 ^ (C i).page_order) ∈ S.live h2.pmm := by
      rw [hinv2.live]
      exact .inl (Set.mem_insert _ _)
    obtain ⟨pmm', hfree, hpmm', hlive'⟩ := S.free_run hinv2.pmm hrun (Nat.two_pow_pos _)
    rw [← Nat.one_shiftLeft] at hfree
    simp only [heq, kmem_cache_slabmgmt, hoff, hres, hfree, bind_eq_bind, bind_some,
      Option.pure_def, if_true]
    refine ⟨false, _, free2, page2, rfl, hinv2.without_run hb hpmm' hlive', fun j o => ?_, hbusy2⟩
    refine (hiff j o).trans ?_
    simp only [reduceCtorEq, and_false, or_false]
    exact Iff.rfl
  | some a =>
    simp only [heq, kmem_cache_slabmgmt, hoff, hres, bind_eq_bind, bind_some,
      Option.pure_def, if_true]
    have ha : h2.Live C free2 (C i).slab_cachep a := (hiff _ _).mpr (.inr ⟨rfl, rfl⟩)
    refine hinv2.make_slab hC hi hbusy2 hb (fun j hmem => ?_) (fun hfalse => ?_) (fun _ => ha.1)
      fun j o => ?_
    · cases hoffj : (C j).off_slab with
      | false => exact hinv2.not_taken_of_inside hC hmem hoffj ha.1
      | true => exact ha.2 ⟨j, hoffj, hmem⟩
    · cases hoff.symm.trans hfalse
    · rw [hiff, some_inj]
      constructor
      · rintro ⟨hold | ⟨-, rfl⟩, hne⟩
        · exact hold
        · exact absurd ⟨hoff, rfl⟩ hne
      · intro hold
        refine ⟨.inl hold, ?_⟩
        rintro ⟨-, rfl⟩
        exact hnot o rfl j hold

/-- An allocation in a cache, which makes a slab when there is no free object. -/
theorem Inv.kmem_cache_alloc_spec (fuel : ℕ) :
    AllocSpec S C free L h i (kmem_cache_alloc A C (fuel + 2) i h) := by
  have hinside : ∀ {free page L i} {h : Heap σ} (fuel : ℕ), h.Inv S C free page L →
      h.Busy C free → i < SLAB_CACHE_NUM → (C i).off_slab = false →
      AllocSpec S C free L h i (kmem_cache_alloc A C (fuel + 1) i h) := by
    intro free page L i h fuel hinv hbusy hi hoff
    cases hlist : h.slabs_notfull i with
    | nil => exact alloc_of_grow hC hlist (hinv.grow_inside hC hlimit hbusy hi hoff)
    | cons a l => exact hinv.take_spec hC hlist fun j a' ha' _ => hbusy j a' ha'
  cases hoff : (C i).off_slab with
  | false => exact hinside (fuel + 1) hinv hbusy hi hoff
  | true =>
    obtain ⟨-, hs, hsoff, -⟩ := hC.outside i hi hoff
    cases hlist : h.slabs_notfull i with
    | nil =>
      exact alloc_of_grow hC hlist (hinv.grow_outside hC hlimit hbusy hi hoff
        fun hinv' hbusy' => hinside fuel hinv' hbusy' hs hsoff)
    | cons a l => exact hinv.take_spec hC hlist fun j a' ha' _ => hbusy j a' ha'

end ucore.Heap
