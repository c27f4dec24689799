import Mips32S.Kernel.Slab.Alloc

open freelist Function Option List

namespace ucore.Heap

variable {σ δ : Type} {A : runs.Allocator σ δ} {S : runs.Spec A} {C : ℕ → kmem_cache}
  {free : ℕ → List ℕ} {page : ℕ → ℕ} {L : Set (ℕ × ℕ)} {h h' : Heap σ} {i j a b o x y : ℕ}
  {free' : ℕ → ℕ → Heap σ → Option (Heap σ)}

/-- What giving back the object `o` does: it is no longer in use, and all others still are. -/
def FreeSpec (S : runs.Spec A) (C : ℕ → kmem_cache) (free : ℕ → List ℕ) (L : Set (ℕ × ℕ))
    (h : Heap σ) (o : ℕ) (r : Option (Heap σ)) : Prop :=
  ∃ h' free' page', r = some h' ∧ h'.Inv S C free' page' L ∧ h'.Busy C free' ∧
    ∀ j o', h'.Live C free' j o' ↔ h.Live C free j o' ∧ o' ≠ o

/-- The slab with the object `x` in front of its free objects. -/
def pushed (h : Heap σ) (a x : ℕ) : slab_t :=
  { h.slab a with
    bufctl := update (h.slab a).bufctl x (h.slab a).free
    free := x
    inuse := (h.slab a).inuse - 1 }

theorem pushed_refills (hs : h.SlabOk C i a b (free a)) (hx : x < (C i).num) (hout : x ∉ free a)
    (hinuse : 0 < (h.slab a).inuse) : Refills C i a (x :: free a) h (h.pushed a x) := by
  refine ⟨rfl, rfl, hs.chain.push hout, nodup_cons.mpr ⟨hout, hs.nodup⟩, fun y hy => ?_, ?_⟩
  · rcases mem_cons.mp hy with rfl | hy'
    · exact hx
    · exact hs.bound y hy'
  · have hcount := hs.inuse
    simp only [pushed, length_cons]
    omega

theorem objnr (hC : Caches C) (hi : i < SLAB_CACHE_NUM) :
    (h.object C i a x - (h.slab a).s_mem) >>> (C i).objsize_shift = x := by
  rw [object, Nat.add_sub_cancel_left, (hC.size i hi).1, Nat.shiftRight_eq_div_pow,
    Nat.mul_div_cancel _ (Nat.two_pow_pos _)]

section
variable (hs : h.SlabOk C i a b (free a)) (hx : x < (C i).num) (hout : x ∉ free a)
include hs hx hout

theorem SlabOk.inuse_pos : 0 < (h.slab a).inuse := by
  have hcount := hs.inuse
  have hsub : (x :: free a).length ≤ (range (C i).num).length := by
    refine Subperm.length_le (Nodup.subperm (nodup_cons.mpr ⟨hout, hs.nodup⟩) ?_)
    intro y hy
    rcases mem_cons.mp hy with rfl | hy'
    · exact mem_range.mpr hx
    · exact mem_range.mpr (hs.bound y hy')
  rw [length_cons, length_range] at hsub
  omega

theorem SlabOk.last_taken (hone : (h.slab a).inuse = 1) (hy : y < (C i).num) (hy' : y ∉ free a) :
    y = x := by
  by_contra hne
  have hcount := hs.inuse
  have hsub : (y :: x :: free a).length ≤ (range (C i).num).length := by
    refine Subperm.length_le (Nodup.subperm ?_ ?_)
    · exact nodup_cons.mpr ⟨by simp [hne, hy'], nodup_cons.mpr ⟨hout, hs.nodup⟩⟩
    · intro z hz
      simp only [mem_cons] at hz
      rcases hz with rfl | rfl | hz'
      · exact mem_range.mpr hy
      · exact mem_range.mpr hx
      · exact mem_range.mpr (hs.bound z hz')
  simp only [length_cons, length_range] at hsub
  omega

end

theorem Inv.push_spec (hC : Caches C) (hinv : h.Inv S C free page L) (hbusy : h.Busy C free)
    (ha : a ∈ h.slabs i) (hx : x < (C i).num) (hout : x ∉ free a)
    (hnot : ¬h.Mgmt C (h.object C i a x)) (hinuse : 1 < (h.slab a).inuse)
    (hch : Changes free a (x :: free a) (h.pushed a x) h h') :
    FreeSpec S C free L h (h.object C i a x) (some h') := by
  have hs := hinv.slab i a ha
  have hy := pushed_refills hs hx hout (hs.inuse_pos hx hout)
  have htaken : ∀ j o, h'.Taken C (update free a (x :: free a)) j o ↔
      h.Taken C free j o ∧ o ≠ h.object C i a x := by
    intro j o
    rw [hch.taken_iff hy]
    constructor
    · rintro ⟨a', z, ha', hz, hz', rfl⟩
      have hold : z ∉ free a' ∧ ¬(a' = a ∧ z = x) := by
        rcases eq_or_ne a' a with rfl | hne
        · rw [update_self, mem_cons, not_or] at hz'
          exact ⟨hz'.2, fun hand => hz'.1 hand.2⟩
        · rw [update_of_ne hne] at hz'
          exact ⟨hz', fun hand => hne hand.1⟩
      refine ⟨⟨a', z, ha', hz, hold.1, rfl⟩, fun heq => hold.2 ?_⟩
      exact (hinv.object_unique hC ha' ha hz hx heq).2
    · rintro ⟨⟨a', z, ha', hz, hz', rfl⟩, hne⟩
      refine ⟨a', z, ha', hz, ?_, rfl⟩
      rcases eq_or_ne a' a with rfl | hne'
      · obtain rfl := hinv.slab_unique ha ha'
        rw [update_self, mem_cons, not_or]
        exact ⟨fun heq => hne (by rw [heq]), hz'⟩
      · rwa [update_of_ne hne']
  refine ⟨h', _, page, rfl, hch.inv hy hinv ha fun j a' ha' hoff => ?_, fun j a' ha' => ?_,
    fun j o => ?_⟩
  · exact (htaken _ _).mpr ⟨hinv.mgmt j a' ha' hoff, fun heq => hnot (heq ▸ ⟨j, hoff, ha'⟩)⟩
  · have hold := (hch.mem j a').mp ha'
    rcases eq_or_ne a' a with rfl | hne
    · obtain rfl := hinv.slab_unique ha hold
      have hcount := hs.inuse
      rw [update_self, length_cons]
      omega
    · rw [update_of_ne hne]
      exact hbusy j a' hold
  · rw [Live, Live, htaken, hch.mgmt_iff]
    exact and_right_comm

theorem Inv.push_full (hinv : h.Inv S C free page L) (ha : a ∈ h.slabs i) (hfree : free a = []) :
    Changes free a (x :: free a) (h.pushed a x) h
      (((h.modifySlab a fun _ => h.pushed a x).list_del i a).add_notfull i a) := by
  obtain ⟨⟨hmem, hnodup⟩, hfull, hnotfull⟩ := move_notfull hinv.nodup ha
  refine ⟨rfl, rfl, rfl, rfl, rfl, hmem, hnodup, fun j a' ha' => ?_, fun j a' ha' => ?_⟩
  · rcases hnotfull j a' ha' with hold | rfl
    · rcases eq_or_ne a' a with rfl | hne
      · exact absurd hfree (hinv.notfull j a' hold)
      · rw [update_of_ne hne]
        exact hinv.notfull j a' hold
    · rw [update_self]
      exact cons_ne_nil _ _
  · obtain ⟨hold, hnot⟩ := hfull j a' ha'
    have hne : a' ≠ a := by
      rintro rfl
      exact hnot ⟨hinv.slab_unique (mem_slabs.mpr (.inr hold)) ha, rfl⟩
    rw [update_of_ne hne]
    exact hinv.full j a' hold

theorem Inv.push_notfull (hinv : h.Inv S C free page L) (hfree : free a ≠ []) :
    Changes free a (x :: free a) (h.pushed a x) h (h.modifySlab a fun _ => h.pushed a x) := by
  refine ⟨rfl, rfl, rfl, rfl, rfl, fun _ _ => Iff.rfl, hinv.nodup, fun j a' ha' => ?_,
    fun j a' ha' => ?_⟩
  · rcases eq_or_ne a' a with rfl | hne
    · rw [update_self]
      exact cons_ne_nil _ _
    · rw [update_of_ne hne]
      exact hinv.notfull j a' ha'
  · have hne : a' ≠ a := by
      rintro rfl
      exact hfree (hinv.full j a' ha')
    rw [update_of_ne hne]
    exact hinv.full j a' ha'

section

theorem clear_pages_eq {n p : ℕ} (hmark : ∀ q, p ≤ q → q < p + n → h.PageSlab q) :
    h.clear_pages n p = some { h with
      PageSlab := fun q => if p ≤ q ∧ q < p + n then false else h.PageSlab q } := by
  induction n generalizing p h with
  | zero =>
    have hnone : ∀ q, ¬(p ≤ q ∧ q < p + 0) := fun q => by omega
    simp only [clear_pages, hnone, if_false]
  | succ n ih =>
    rw [clear_pages, if_pos (hmark p (le_refl p) (by omega)), ih]
    · congr 2
      funext q
      dsimp only
      rcases eq_or_ne q p with rfl | hne
      · rw [if_neg (by omega), update_self, if_pos (by omega)]
      · rw [update_of_ne hne]
        exact if_congr (by omega) rfl rfl
    · intro q hlo hhi
      dsimp only
      rw [update_of_ne (by omega)]
      exact hmark q (by omega) (by omega)

/-- The state without the slab at `a`. -/
def withoutSlab (C : ℕ → kmem_cache) (page : ℕ → ℕ) (i a : ℕ) (y : slab_t) (pmm : σ) (h : Heap σ) :
    Heap σ :=
  { (h.modifySlab a fun _ => y).list_del i a with
    pmm
    PageSlab := fun q =>
      if page a ≤ q ∧ q < page a + 2 ^ (C i).page_order then false else h.PageSlab q }

variable {y : slab_t} {pmm : σ}

theorem Inv.withoutSlab_slabs (y : slab_t) (pmm : σ) (hinv : h.Inv S C free page L)
    (ha : a ∈ h.slabs i) :
    (∀ j a', a' ∈ (h.withoutSlab C page i a y pmm).slabs j ↔ a' ∈ h.slabs j ∧ a' ≠ a) ∧
    (∀ j, ((h.withoutSlab C page i a y pmm).slabs j).Nodup) ∧
    (∀ j, ∀ a' ∈ (h.withoutSlab C page i a y pmm).slabs_notfull j, a' ∈ h.slabs_notfull j) ∧
    ∀ j, ∀ a' ∈ (h.withoutSlab C page i a y pmm).slabs_full j, a' ∈ h.slabs_full j := by
  have hself : (h.withoutSlab C page i a y pmm).slabs i = (h.slabs i).erase a :=
    list_del_slabs (hinv.nodup i)
  have hother : ∀ j ≠ i, (h.withoutSlab C page i a y pmm).slabs j = h.slabs j := fun j hj =>
    list_del_slabs_of_ne hj
  refine ⟨fun j a' => ?_, fun j => ?_, fun j a' ha' => ?_, fun j a' ha' => ?_⟩
  · rcases eq_or_ne j i with rfl | hj
    · rw [hself, (hinv.nodup j).mem_erase_iff, and_comm]
    · rw [hother j hj]
      exact ⟨fun ha' => ⟨ha', fun heq => hj (hinv.slab_unique ha' (heq ▸ ha))⟩, And.left⟩
  · rcases eq_or_ne j i with rfl | hj
    · rw [hself]
      exact (hinv.nodup j).erase a
    · rw [hother j hj]
      exact hinv.nodup j
  · rcases eq_or_ne j i with rfl | hj
    · have hmem : a' ∈ (h.slabs_notfull j).erase a := by
        simpa [withoutSlab, list_del, modifySlab] using ha'
      exact mem_of_mem_erase hmem
    · simpa [withoutSlab, list_del, modifySlab, hj] using ha'
  · rcases eq_or_ne j i with rfl | hj
    · have hmem : a' ∈ (h.slabs_full j).erase a := by
        simpa [withoutSlab, list_del, modifySlab] using ha'
      exact mem_of_mem_erase hmem
    · simpa [withoutSlab, list_del, modifySlab, hj] using ha'

/-- A slab whose last object is given back is taken out of the lists, and its pages are free. -/
theorem Inv.withoutSlab (hC : Caches C) (hinv : h.Inv S C free page L) (ha : a ∈ h.slabs i)
    (hx : x < (C i).num) (hout : x ∉ free a) (hone : (h.slab a).inuse = 1)
    (hnot : ¬h.Mgmt C (h.object C i a x)) (hpmm : S.Inv pmm)
    (hlive : S.live pmm = S.live h.pmm \ {(page a, 2 ^ (C i).page_order)}) :
    (h.withoutSlab C page i a y pmm).Inv S C free page L ∧
      ∀ j o, (h.withoutSlab C page i a y pmm).Taken C free j o ↔
        h.Taken C free j o ∧ o ≠ h.object C i a x := by
  obtain ⟨hslabs, hnodup, hnotfull, hfull⟩ := hinv.withoutSlab_slabs y pmm ha
  have hs := hinv.slab i a ha
  have hother : ∀ a' ≠ a, (h.withoutSlab C page i a y pmm).slab a' = h.slab a' := fun a' hne =>
    update_of_ne hne _ _
  have hobject : ∀ {j a' z}, a' ≠ a →
      (h.withoutSlab C page i a y pmm).object C j a' z = h.object C j a' z := fun hne => by
    rw [object, hother _ hne, object]
  -- no page of another slab is one of these
  have hpages : ∀ {j a' q}, a' ∈ h.slabs j → a' ≠ a → page a' ≤ q →
      q < page a' + 2 ^ (C j).page_order → ¬(page a ≤ q ∧ q < page a + 2 ^ (C i).page_order) := by
    rintro j a' q ha' hne hlo hhi ⟨hlo', hhi'⟩
    exact hne (((hinv.slab j a' ha').pages q hlo hhi).2.2.symm.trans (hs.pages q hlo' hhi').2.2)
  have htaken : ∀ j o, (h.withoutSlab C page i a y pmm).Taken C free j o ↔
      h.Taken C free j o ∧ o ≠ h.object C i a x := by
    intro j o
    constructor
    · rintro ⟨a', z, ha', hz, hz', rfl⟩
      obtain ⟨hold, hne⟩ := (hslabs j a').mp ha'
      rw [hobject hne]
      refine ⟨⟨a', z, hold, hz, hz', rfl⟩, fun heq => hne ?_⟩
      exact (hinv.object_unique hC hold ha hz hx heq).2.1
    · rintro ⟨⟨a', z, ha', hz, hz', rfl⟩, hne⟩
      have hne' : a' ≠ a := by
        rintro rfl
        obtain rfl := hinv.slab_unique ha ha'
        rw [hs.last_taken hx hout hone hz hz'] at hne
        exact hne rfl
      exact ⟨a', z, (hslabs j a').mpr ⟨ha', hne'⟩, hz, hz', (hobject hne').symm⟩
  refine ⟨⟨hpmm, fun j a' ha' => hinv.cache j a' ((hslabs j a').mp ha').1, fun j a' ha' => ?_,
    hnodup, fun j a' ha' => hinv.notfull j a' (hnotfull j a' ha'),
    fun j a' ha' => hinv.full j a' (hfull j a' ha'), ?_,
    fun j a' ha' => hinv.others j a' ((hslabs j a').mp ha').1,
    fun j a' ha' hoff => (htaken _ _).mpr ?_⟩, htaken⟩
  · obtain ⟨hold, hne⟩ := (hslabs j a').mp ha'
    have hs' := hinv.slab j a' hold
    have heq := hother a' hne
    refine ⟨heq ▸ hs'.offset, heq ▸ hs'.s_mem, fun q hlo hhi => ?_, hs'.home, heq ▸ hs'.chain,
      hs'.nodup, hs'.bound, heq ▸ hs'.inuse⟩
    simpa only [Heap.withoutSlab, list_del, modifySlab, if_neg (hpages hold hne hlo hhi)]
      using hs'.pages q hlo hhi
  · refine hlive.trans (Set.ext fun r => ⟨?_, ?_⟩)
    · rintro ⟨hr, hne⟩
      rw [hinv.live] at hr
      rcases hr with hr | ⟨j, a', ha', rfl⟩
      · exact .inl hr
      · refine .inr ⟨j, a', (hslabs j a').mpr ⟨ha', ?_⟩, rfl⟩
        rintro rfl
        rw [hinv.slab_unique ha ha'] at hne
        exact hne rfl
    · rintro (hr | ⟨j, a', ha', rfl⟩)
      · refine ⟨hinv.live ▸ .inl hr, ?_⟩
        rintro rfl
        exact hinv.others i a ha hr
      · obtain ⟨hold, hne⟩ := (hslabs j a').mp ha'
        refine ⟨hinv.live ▸ .inr ⟨j, a', hold, rfl⟩, fun heq => ?_⟩
        have hpage : page a' = page a := (Prod.ext_iff.mp heq).1
        have hpos : page a < page a + 2 ^ (C i).page_order :=
          Nat.lt_add_of_pos_right (Nat.two_pow_pos _)
        refine hpages hold hne (le_refl _) (Nat.lt_add_of_pos_right (Nat.two_pow_pos _)) ?_
        exact ⟨hpage.ge, hpage ▸ hpos⟩
  · obtain ⟨hold, -⟩ := (hslabs j a').mp ha'
    exact ⟨hinv.mgmt j a' hold hoff, fun heq => hnot (heq ▸ ⟨j, hoff, hold⟩)⟩

end

variable (hC : Caches C)
include hC
variable (hinv : h.Inv S C free page L) (hbusy : h.Busy C free)
include hinv hbusy

section
variable (ha : a ∈ h.slabs i) (hx : x < (C i).num) (hout : x ∉ free a)
include ha hx hout

theorem Inv.destroy_spec (hone : (h.slab a).inuse = 1) (hnot : ¬h.Mgmt C (h.object C i a x))
    (hfree : (C i).off_slab = true → ∀ h : Heap σ, h.Inv S C free page L → h.Busy C free →
      h.Live C free (C i).slab_cachep a → FreeSpec S C free L h a (free' (C i).slab_cachep a h)) :
    FreeSpec S C free L h (h.object C i a x) (kmem_slab_destroy A C free' i a
      ((h.modifySlab a fun _ => h.pushed a x).list_del i a)) := by
  have hs := hinv.slab i a ha
  have hrun : (page a, 2 ^ (C i).page_order) ∈ S.live h.pmm := by
    rw [hinv.live]
    exact .inr ⟨i, a, ha, rfl⟩
  obtain ⟨pmm, hpmm, hinv', hlive'⟩ := S.free_run hinv.pmm hrun (Nat.two_pow_pos _)
  obtain ⟨hslabs, -⟩ := hinv.withoutSlab_slabs (h.pushed a x) pmm ha
  obtain ⟨hinv1, htaken1⟩ := hinv.withoutSlab hC ha hx hout hone hnot hinv' hlive'
  set h1 := h.withoutSlab C page i a (h.pushed a x) pmm
  have hbusy1 : h1.Busy C free := fun j a' ha' => hbusy j a' ((hslabs j a').mp ha').1
  have hmgmt : ∀ o, h1.Mgmt C o ↔ h.Mgmt C o ∧ o ≠ a := by
    intro o
    constructor
    · rintro ⟨j, hoff, ho⟩
      obtain ⟨hold, hne⟩ := (hslabs j o).mp ho
      exact ⟨⟨j, hoff, hold⟩, hne⟩
    · rintro ⟨⟨j, hoff, ho⟩, hne⟩
      exact ⟨j, hoff, (hslabs j o).mpr ⟨ho, hne⟩⟩
  have hbegin : kva2page (page2kva (page a) + (C i).offset - (C i).offset) = page a := by
    rw [Nat.add_sub_cancel]
    exact Nat.mul_div_cancel _ (by decide)
  have heq : kmem_slab_destroy A C free' i a ((h.modifySlab a fun _ => h.pushed a x).list_del i a) =
      if (C i).off_slab then free' (C i).slab_cachep a h1 else some h1 := by
    set h0 := (h.modifySlab a fun _ => h.pushed a x).list_del i a with h0_def
    have hy : h0.slab a = h.pushed a x := update_self _ _ _
    have hs_mem : (h0.slab a).s_mem = page2kva (page a) + (C i).offset := hy ▸ hs.s_mem
    have hoffset : (h0.slab a).offset = (C i).offset := hy ▸ hs.offset
    have hpmm0 : A.free (page a) (2 ^ (C i).page_order) h0.pmm = some pmm := hpmm
    have hmark : ∀ q, page a ≤ q → q < page a + 2 ^ (C i).page_order → h0.PageSlab q :=
      fun q hlo hhi => (hs.pages q hlo hhi).1
    unfold kmem_slab_destroy
    simp only [hs_mem, hoffset, hbegin, Nat.one_shiftLeft, clear_pages_eq hmark, hpmm0,
      bind_eq_bind, bind_some]
    rfl
  rw [heq]
  cases hoff : (C i).off_slab with
  | false =>
    rw [if_neg Bool.false_ne_true]
    refine ⟨h1, free, page, rfl, hinv1, hbusy1, fun j o => ?_⟩
    have hmgmt' : h1.Mgmt C o ↔ h.Mgmt C o := by
      rw [hmgmt, and_iff_left_iff_imp]
      rintro ⟨j', hoff', ho⟩ rfl
      rw [hinv.slab_unique ho ha, hoff] at hoff'
      cases hoff'
    rw [Live, Live, htaken1, hmgmt']
    exact and_right_comm
  | true =>
    rw [if_pos rfl]
    have hblock : a ≠ h.object C i a x := fun heq => hnot (heq ▸ ⟨i, hoff, ha⟩)
    have hlive : h1.Live C free (C i).slab_cachep a :=
      ⟨(htaken1 _ _).mpr ⟨hinv.mgmt i a ha hoff, hblock⟩, fun hm => ((hmgmt a).mp hm).2 rfl⟩
    obtain ⟨h2, free2, page2, hres, hinv2, hbusy2, hiff⟩ := hfree hoff h1 hinv1 hbusy1 hlive
    refine ⟨h2, free2, page2, hres, hinv2, hbusy2, fun j o => ?_⟩
    rw [hiff, Live, Live, htaken1, hmgmt]
    constructor
    · rintro ⟨⟨⟨ht, ho⟩, hm⟩, hne⟩
      exact ⟨⟨ht, fun hm' => hm ⟨hm', hne⟩⟩, ho⟩
    · rintro ⟨⟨ht, hm⟩, ho⟩
      refine ⟨⟨⟨ht, ho⟩, fun hm' => hm hm'.1⟩, ?_⟩
      rintro rfl
      exact hm ⟨i, hoff, ha⟩

theorem Inv.free_one_spec (hnot : ¬h.Mgmt C (h.object C i a x))
    (hfree : (C i).off_slab = true → ∀ h : Heap σ, h.Inv S C free page L → h.Busy C free →
      h.Live C free (C i).slab_cachep a → FreeSpec S C free L h a (free' (C i).slab_cachep a h)) :
    FreeSpec S C free L h (h.object C i a x)
      (kmem_cache_free_one A C free' i a (h.object C i a x) h) := by
  have hs := hinv.slab i a ha
  have hpos := hs.inuse_pos hx hout
  have hcount := hs.inuse
  have hself : (h.modifySlab a fun _ => h.pushed a x).slab a = h.pushed a x := update_self _ _ _
  have heq : kmem_cache_free_one A C free' i a (h.object C i a x) h =
      if (h.slab a).inuse - 1 = 0 then kmem_slab_destroy A C free' i a
        ((h.modifySlab a fun _ => h.pushed a x).list_del i a)
      else if (h.slab a).inuse - 1 = (C i).num - 1 then
        some (((h.modifySlab a fun _ => h.pushed a x).list_del i a).add_notfull i a)
      else some (h.modifySlab a fun _ => h.pushed a x) := by
    unfold kmem_cache_free_one
    simp only [objnr hC (hinv.cache i a ha)]
    change (if ((h.modifySlab a fun _ => h.pushed a x).slab a).inuse = 0 then _ else
      if ((h.modifySlab a fun _ => h.pushed a x).slab a).inuse = _ then _ else _) = _
    rw [hself]
    rfl
  rw [heq]
  split
  · exact hinv.destroy_spec hC hbusy ha hx hout (by omega) hnot hfree
  · split
    · have hnil : free a = [] := length_eq_zero_iff.mp (by omega)
      exact hinv.push_spec hC hbusy ha hx hout hnot (by omega) (hinv.push_full ha hnil)
    · have hne : free a ≠ [] := fun hnil => by
        rw [hnil, length_nil] at hcount
        omega
      exact hinv.push_spec hC hbusy ha hx hout hnot (by omega) (hinv.push_notfull hne)

end

theorem Inv.kmem_cache_free_spec (hlive : h.Live C free i o) (fuel : ℕ) :
    FreeSpec S C free L h o (kmem_cache_free A C (fuel + 2) i o h) := by
  have hone : ∀ {i o} {h : Heap σ} (fuel : ℕ), h.Inv S C free page L → h.Busy C free →
      h.Live C free i o → (∀ a, (C i).off_slab = true → ∀ h : Heap σ, h.Inv S C free page L →
        h.Busy C free → h.Live C free (C i).slab_cachep a →
        FreeSpec S C free L h a (kmem_cache_free A C fuel (C i).slab_cachep a h)) →
      FreeSpec S C free L h o (kmem_cache_free A C (fuel + 1) i o h) := by
    rintro i o h fuel hinv hbusy ⟨⟨a, x, ha, hx, hout, rfl⟩, hnot⟩ hfree
    obtain ⟨hmark, -, hslab⟩ := (hinv.slab i a ha).object_slab hC (hinv.cache i a ha) hx
    rw [kmem_cache_free, if_pos hmark, hslab]
    exact hinv.free_one_spec hC hbusy ha hx hout hnot (hfree a)
  refine hone (fuel + 1) hinv hbusy hlive fun a hoff h' hinv' hbusy' hlive' => ?_
  obtain ⟨⟨a', x, ha', -⟩, -⟩ := hlive
  obtain ⟨-, -, hsoff, -⟩ := hC.outside i (hinv.cache i a' ha') hoff
  refine hone fuel hinv' hbusy' hlive' fun a'' hoff' => ?_
  cases hsoff.symm.trans hoff'

theorem Inv.kfree_spec (hlive : h.Live C free i o) : FreeSpec S C free L h o (kfree A C o h) := by
  have hcache : h.page_cache (kva2page o) = i := by
    obtain ⟨⟨a, x, ha, hx, -, rfl⟩, -⟩ := hlive
    exact ((hinv.slab i a ha).object_slab hC (hinv.cache i a ha) hx).2.1
  rw [kfree, hcache]
  exact hinv.kmem_cache_free_spec hC hbusy hlive 11

end ucore.Heap
